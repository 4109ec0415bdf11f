/-
Transition systems: the states that are reached by steps that meet a condition,
runs that can be computed, and counting which of numbered parties are at certain
places.
-/
import Mathlib.Logic.Function.Basic
import Mathlib.Data.Bool.Basic
import Mathlib.Order.Basic
import Mathlib.Tactic.Common

namespace TwistSim

/-! ### Reachable states -/

section Reach

variable {State Event : Type} (next : State → Event → Option State)
  (C : State → Event → Prop) (start : State)

/-- The states that are reached by steps that meet the condition. -/
inductive Reach : State → Prop where
  | start : Reach start
  | step {s s' : State} {e : Event} :
      Reach s → C s e → next s e = some s' → Reach s'

variable {next C start}

/-- What holds in the beginning and is kept by every step holds always. -/
theorem Reach.invariant {I : State → Prop} {s : State} (h : Reach next C start s)
    (hstart : I start)
    (hstep : ∀ s e s', I s → C s e → next s e = some s' → I s') : I s := by
  induction h with
  | start => exact hstart
  | step _ hC hnext ih => exact hstep _ _ _ ih hC hnext

theorem Reach.mono {C' : State → Event → Prop} {s : State}
    (h : Reach next C start s) (himp : ∀ s e, C s e → C' s e) :
    Reach next C' start s := by
  induction h with
  | start => exact Reach.start
  | step _ hC hnext ih => exact ih.step (himp _ _ hC) hnext

variable (next C) in
/-- A run that can be computed. -/
def runEvents [∀ s e, Decidable (C s e)] : List Event → State → Option State
  | [], s => some s
  | e :: es, s => if C s e then (next s e).bind (runEvents es) else none

theorem runEvents_append [∀ s e, Decidable (C s e)] (es es' : List Event) (s : State) :
    runEvents next C (es ++ es') s =
      (runEvents next C es s).bind (runEvents next C es') := by
  induction es generalizing s with
  | nil => rfl
  | cons e es ih =>
      simp only [List.cons_append, runEvents]
      split
      · cases next s e with
        | none => rfl
        | some s' => exact ih s'
      · rfl

theorem reach_of_run [∀ s e, Decidable (C s e)] {es : List Event} {s s' : State}
    (h : Reach next C start s) (hrun : runEvents next C es s = some s') :
    Reach next C start s' := by
  induction es generalizing s with
  | nil =>
      cases hrun
      exact h
  | cons e es ih =>
      unfold runEvents at hrun
      split at hrun
      · rename_i hC
        obtain ⟨s₁, hnext, hrest⟩ := Option.bind_eq_some_iff.mp hrun
        exact ih (h.step hC hnext) hrest
      · cases hrun

theorem exists_reach [∀ s e, Decidable (C s e)] {es : List Event}
    {P : State → Prop} [DecidablePred P]
    (h : (runEvents next C es start).any (fun s => decide (P s)) = true) :
    ∃ s, Reach next C start s ∧ P s := by
  obtain ⟨s, hrun, hP⟩ := Option.any_eq_true _ _ |>.mp h
  exact ⟨s, reach_of_run Reach.start hrun, of_decide_eq_true hP⟩

end Reach

/-! ### Counting -/

/-- How many of `1..n` are like this? -/
def tally (p : Nat → Bool) : Nat → Nat
  | 0 => 0
  | n + 1 => tally p n + if p (n + 1) then 1 else 0

section Tally

variable {p q : Nat → Bool} {n : Nat} {t : Nat}

theorem tally_congr (h : ∀ t, 0 < t → t ≤ n → p t = q t) : tally p n = tally q n := by
  induction n with
  | zero => rfl
  | succ n ih =>
      have hlast := h (n + 1) (Nat.succ_pos n) (Nat.le_refl _)
      have hrest := ih fun t hpos hle => h t hpos (Nat.le_succ_of_le hle)
      simp only [tally, hlast, hrest]

/-- Who is not there does not count. -/
theorem tally_of_le {n' : Nat} (hle : n ≤ n') (h : ∀ t, p t = true → t ≤ n) :
    tally p n' = tally p n := by
  induction hle with
  | refl => rfl
  | @step k hk ih =>
      have hnot : p (k + 1) = false := by
        by_contra hp
        have := h _ (Bool.not_eq_false _ ▸ hp)
        exact absurd (Nat.le_trans this hk) (Nat.not_succ_le_self k)
      simp only [tally, hnot, ih, Bool.false_eq_true, if_false, Nat.add_zero]

theorem tally_eq_zero (h : ∀ t, p t = false) : tally p n = 0 := by
  induction n with
  | zero => rfl
  | succ n ih => simp only [tally, ih, h, Bool.false_eq_true, if_false]

theorem tally_pos (hp : p t = true) (hpos : 0 < t) (hle : t ≤ n) : 0 < tally p n := by
  induction n with
  | zero => exact absurd (Nat.lt_of_lt_of_le hpos hle) (Nat.lt_irrefl 0)
  | succ n ih =>
      rcases Nat.lt_or_eq_of_le hle with hlt | rfl
      · exact Nat.lt_of_lt_of_le (ih (Nat.le_of_lt_succ hlt)) (Nat.le_add_right _ _)
      · simp only [tally, hp, if_true]
        exact Nat.succ_pos _

/-- One changes. -/
theorem tally_update (hpos : 0 < t) (hle : t ≤ n) (h : ∀ u, u ≠ t → p u = q u) :
    tally p n + (if q t then 1 else 0) = tally q n + if p t then 1 else 0 := by
  induction n with
  | zero => exact absurd (Nat.lt_of_lt_of_le hpos hle) (Nat.lt_irrefl 0)
  | succ n ih =>
      rcases Nat.lt_or_eq_of_le hle with hlt | rfl
      · have hrest := ih (Nat.le_of_lt_succ hlt)
        simp only [tally, h (n + 1) (Nat.ne_of_gt hlt)]
        omega
      · have hrest : tally p n = tally q n :=
          tally_congr fun u _ hu => h u (Nat.ne_of_lt (Nat.lt_succ_of_le hu))
        simp only [tally, hrest]
        omega

theorem tally_enter (hpos : 0 < t) (hle : t ≤ n) (hp : p t = true) (hq : q t = false)
    (h : ∀ u, u ≠ t → p u = q u) : tally p n = tally q n + 1 := by
  simpa [hp, hq] using tally_update hpos hle h

theorem tally_le : tally p n ≤ n := by
  induction n with
  | zero => exact Nat.le_refl 0
  | succ n ih =>
      rw [tally]
      split
      · exact Nat.succ_le_succ ih
      · exact Nat.le_succ_of_le ih

theorem tally_mono (h : ∀ t, p t = true → q t = true) : tally p n ≤ tally q n := by
  induction n with
  | zero => exact Nat.le_refl 0
  | succ n ih =>
      simp only [tally]
      by_cases hp : p (n + 1) = true
      · rw [hp, h _ hp]
        exact Nat.add_le_add_right ih _
      · rw [Bool.eq_false_of_not_eq_true hp]
        exact Nat.le_trans ih (Nat.le_add_right _ _)

/-- All that are listed count. -/
theorem length_le_tally {l : List Nat} (hnodup : l.Nodup)
    (h : ∀ t ∈ l, 0 < t ∧ t ≤ n ∧ p t = true) : l.length ≤ tally p n := by
  induction l generalizing p with
  | nil => exact Nat.zero_le _
  | cons a l ih =>
      obtain ⟨ha, hl⟩ := List.nodup_cons.mp hnodup
      obtain ⟨hpos, hle, hpa⟩ := h a List.mem_cons_self
      have hrest : l.length ≤ tally (Function.update p a false) n := by
        refine ih hl fun t ht => ?_
        have hne : t ≠ a := fun heq => ha (heq ▸ ht)
        rw [Function.update_of_ne hne]
        exact h t (List.mem_cons_of_mem a ht)
      rw [List.length_cons, tally_enter hpos hle hpa (Function.update_self a false p)
        fun u hu => (Function.update_of_ne hu false p).symm]
      exact Nat.succ_le_succ hrest

/-- All that count are listed. -/
theorem tally_le_length {l : List Nat} (h : ∀ t, t ≤ n → p t = true → t ∈ l) :
    tally p n ≤ l.length := by
  induction n generalizing l with
  | zero => exact Nat.zero_le _
  | succ n ih =>
      rw [tally]
      split
      · rename_i hp
        have hlast : n + 1 ∈ l := h _ (Nat.le_refl _) hp
        have hrest : tally p n ≤ (l.erase (n + 1)).length := by
          refine ih fun t hle ht => ?_
          have hne : t ≠ n + 1 := Nat.ne_of_lt (Nat.lt_succ_of_le hle)
          exact (List.mem_erase_of_ne hne).mpr (h t (Nat.le_succ_of_le hle) ht)
        rw [List.length_erase_of_mem hlast] at hrest
        have hpos : 0 < l.length := List.length_pos_of_mem hlast
        omega
      · exact ih fun t hle => h t (Nat.le_succ_of_le hle)

theorem tally_eq_one (hp : p t = true) (hpos : 0 < t) (hle : t ≤ n)
    (hunique : ∀ u, p u = true → u = t) : tally p n = 1 := by
  have hmove := @tally_enter p (fun _ => false) n t hpos hle hp rfl fun u hu =>
    Bool.eq_false_of_not_eq_true fun hpu => hu (hunique u hpu)
  rwa [tally_eq_zero fun _ => rfl] at hmove

/-! ### One moves -/

variable {Pc : Type} {f : Nat → Pc} {pc : Pc}

theorem update_cases {P : Nat → Pc → Prop} (hself : P t pc)
    (hothers : ∀ u, u ≠ t → P u (f u)) : ∀ u, P u (Function.update f t pc u) := by
  intro u
  by_cases hu : u = t
  · subst hu
    rw [Function.update_self]
    exact hself
  · rw [Function.update_of_ne hu]
    exact hothers u hu

theorem tally_move {r : Pc → Bool} {n' : Nat} (hfresh : ∀ u, r (f u) = true → u ≤ n)
    (hn : n ≤ n') (hpos : 0 < t) (hle : t ≤ n) :
    tally (fun u => r (Function.update f t pc u)) n' + (if r (f t) then 1 else 0) =
      tally (fun u => r (f u)) n + if r pc then 1 else 0 := by
  have hmove := @tally_update (fun u => r (Function.update f t pc u))
    (fun u => r (f u)) n' t hpos (Nat.le_trans hle hn)
    fun u hu => by rw [Function.update_of_ne hu]
  rw [tally_of_le hn hfresh] at hmove
  simpa only [Function.update_self] using hmove

end Tally

end TwistSim
