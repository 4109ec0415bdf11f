/-
The priorities of the scheduler of probabilistic concurrency testing: how they are
handed out, and which thread they make run.
-/
import TwistSim.PctChangePoints
import Mathlib.Data.List.GetD

namespace TwistSim

namespace Pct

open Rejection

/-! ### Initial priorities -/

/-- Distinct numbers, positive from the second on: thread ids start at 1. -/
structure Initial (prior : List Int) : Prop where
  nodup : prior.Nodup
  pos : ∀ t p, 1 ≤ t → prior[t]? = some p → 0 < p

theorem swap_perm {prior : List Int} {i j : Nat} (hi : i < prior.length)
    (hj : j < prior.length) :
    ((prior.set i (prior.getD j 0)).set j (prior.getD i 0)).Perm prior := by
  rw [List.getD_eq_getElem _ _ hi, List.getD_eq_getElem _ _ hj]
  exact List.set_set_perm hi hj

/-- The shuffle moves priorities around, and leaves the first one where it is. -/
theorem shuffle_spec (i : Nat) (prior : List Int) (random : WyRand)
    (hi : i < prior.length) :
    (shuffle i prior random).1.Perm prior ∧
      (shuffle i prior random).1[0]? = prior[0]? := by
  induction i generalizing prior random with
  | zero => exact ⟨List.Perm.refl _, rfl⟩
  | succ i ih =>
      cases i with
      | zero => exact ⟨List.Perm.refl _, rfl⟩
      | succ i =>
          rw [shuffle]
          · generalize hj : 1 + (WyRand.next random).1 % (i + 1 + 1) = j
            have hpos : j ≠ 0 := by omega
            have hlt : j < prior.length := by
              have hmod : (WyRand.next random).1 % (i + 1 + 1) < i + 1 + 1 :=
                Nat.mod_lt _ (Nat.succ_pos _)
              omega
            obtain ⟨hperm, hfirst⟩ := ih ((prior.set (i + 1 + 1) (prior.getD j 0)).set j
              (prior.getD (i + 1 + 1) 0)) (WyRand.next random).2 (by
                rw [List.length_set, List.length_set]
                omega)
            refine ⟨hperm.trans (swap_perm hi hlt), hfirst.trans ?_⟩
            rw [List.getElem?_set_ne hpos, List.getElem?_set_ne (by omega)]
          · exact Nat.succ_ne_zero i

theorem generateInitPriorities_initial (n : Nat) (random : WyRand) :
    Initial (generateInitPriorities n random).1 := by
  obtain ⟨hperm, hfirst⟩ := shuffle_spec n ((List.range (n + 1)).map Int.ofNat) random
    (by rw [List.length_map, List.length_range]; exact Nat.lt_succ_self n)
  have hnodup : (generateInitPriorities n random).1.Nodup :=
    hperm.nodup_iff.mpr (List.nodup_range.map fun _ _ => Int.ofNat.inj)
  refine ⟨hnodup, fun t p ht hp => ?_⟩
  have hnonneg : 0 ≤ p := by
    obtain ⟨k, -, rfl⟩ := List.mem_map.mp (hperm.mem_iff.mp (List.mem_of_getElem? hp))
    exact Int.natCast_nonneg k
  refine lt_of_le_of_ne hnonneg fun hzero => ?_
  -- Zero is the first one.
  have hhead : (generateInitPriorities n random).1[0]? = some 0 := by
    refine hfirst.trans ?_
    rw [List.getElem?_map, List.getElem?_range (Nat.succ_pos n)]
    rfl
  have hlt : 0 < (generateInitPriorities n random).1.length :=
    (List.getElem?_eq_some_iff.mp hhead).1
  have hsame := (List.getElem?_inj hlt hnodup).mp (hhead.trans (hzero ▸ hp).symm)
  omega

variable {params : Params} {fuel : Nat} {s s' : State}

/-- Where `Start` puts the counters and the priorities. -/
theorem start_counters (h : start params fuel s = .ok s') :
    Initial s'.initPrior ∧ s'.nextPrior = 0 ∧ s'.iter = 0 ∧ s'.runQueue = [] ∧
      s'.active = none := by
  unfold start at h
  dsimp only at h
  split at h
  · cases h
  · split at h
    · rename_i hempty
      cases h
      exact ⟨generateInitPriorities_initial _ _, rfl, rfl, List.isEmpty_iff.mp hempty, rfl⟩
    · cases h

/-- `Start` generates `depth - 1` change points, and the guard. -/
theorem start_points (h : start params fuel s = .ok s') (hsteps : 0 < s.estimates.steps) :
    ∃ points, s'.changePoints = points ++ [noChangePoint] ∧
      points.length = (params.depth + noChangePoint) % 2 ^ 64 := by
  obtain ⟨random, hgenerate⟩ := start_generates h
  obtain ⟨⟨points, g⟩, hcollect, heq⟩ := Option.map_eq_some_iff.mp hgenerate
  obtain ⟨-, hlength⟩ := collect_spec hsteps Distinct.nil (Nat.zero_le _) hcollect
  exact ⟨points, (congrArg Prod.fst heq).symm, hlength⟩

/-! ### The priority queue -/

theorem foldl_top_le (priority : ThreadId → Int) (first : ThreadId) (rest : List ThreadId) :
    ∀ u ∈ first :: rest, priority u ≤ priority
      (rest.foldl (fun best t => if priority best < priority t then t else best) first) := by
  induction rest generalizing first with
  | nil =>
      intro u hu
      rw [List.mem_singleton.mp hu]
      exact le_refl _
  | cons t rest ih =>
      intro u hu
      rw [List.foldl_cons]
      have hbest := ih (if priority first < priority t then t else first)
      have hfirst := hbest _ List.mem_cons_self
      rcases List.mem_cons.mp hu with rfl | hu
      · refine le_trans ?_ hfirst
        split
        · exact le_of_lt ‹_›
        · exact le_refl _
      · rcases List.mem_cons.mp hu with rfl | hu
        · refine le_trans ?_ hfirst
          split
          · exact le_refl _
          · exact le_of_not_gt ‹_›
        · exact hbest u (List.mem_cons_of_mem _ hu)

theorem top_le {priority : ThreadId → Int} {queue : List ThreadId} {t : ThreadId}
    (h : top priority queue = some t) : ∀ u ∈ queue, priority u ≤ priority t := by
  cases queue with
  | nil => cases h
  | cons first rest =>
      cases h
      exact foldl_top_le priority first rest

/-! ### Picking -/

variable {view : KernelView} {t u active : ThreadId}

/-- What changes of a scheduler but the threads in its queue. -/
structure SameCounters (s s' : State) : Prop where
  iter : s'.iter = s.iter
  points : s'.changePoints = s.changePoints
  initial : s'.initPrior = s.initPrior

/-- No priority changes, and none is drawn. -/
def SamePriorities (s s' : State) : Prop :=
  s'.priority = s.priority ∧ s'.nextPrior = s.nextPrior

/-- A thread is given the next priority. -/
def Demoted (t : ThreadId) (s s' : State) : Prop :=
  s'.priority = Function.update s.priority t s.nextPrior ∧
    s'.nextPrior = decrement s.nextPrior

/-- The interrupted thread is demoted at a change point, is preempted because it
does not have the highest priority, or goes on. -/
theorem preempt_cases {answer : Bool} (h : preempt view active s = (answer, s')) :
    SameCounters s s' ∧ s'.runQueue = s.runQueue ∧ s'.active = s.active ∧
      (answer = true ∧ (view.attrs active).preemptive = true ∧
          s.iter ∈ s.changePoints ∧ Demoted active s s' ∨
        answer = true ∧ (view.attrs active).preemptive = true ∧ SamePriorities s s' ∧
          s.runQueue ≠ [] ∨
        answer = false ∧ SamePriorities s s' ∧
          ((view.attrs active).preemptive = true →
            ∀ u ∈ s.runQueue, s.priority u ≤ s.priority active)) := by
  unfold preempt at h
  split at h
  · rename_i hoff
    cases h
    refine ⟨⟨rfl, rfl, rfl⟩, rfl, rfl, Or.inr (Or.inr ⟨rfl, ⟨rfl, rfl⟩, fun hon => ?_⟩)⟩
    rw [hon] at hoff
    cases hoff
  · rename_i hon
    have hpreemptive : (view.attrs active).preemptive = true := by
      rwa [Bool.not_eq_true', Bool.not_eq_false] at hon
    dsimp only at h
    split at h
    · rename_i hpoint
      cases h
      exact ⟨⟨rfl, rfl, rfl⟩, rfl, rfl, Or.inl
        ⟨rfl, hpreemptive, List.mem_of_getElem? hpoint, rfl, rfl⟩⟩
    · split at h
      · rename_i halone
        cases h
        refine ⟨⟨rfl, rfl, rfl⟩, rfl, rfl, Or.inr (Or.inr ⟨rfl, ⟨rfl, rfl⟩, fun _ u hu => ?_⟩)⟩
        obtain ⟨t, ht⟩ := @top_isSome s.priority s.runQueue (List.ne_nil_of_mem hu)
        exact absurd (ht.symm.trans halone) (Option.some_ne_none t)
      · rename_i t htop
        have hmax : ∀ u ∈ s.runQueue, s.priority u ≤ s.priority t := top_le htop
        have hne : s.runQueue ≠ [] := List.ne_nil_of_mem (top_mem htop)
        cases h
        refine ⟨⟨rfl, rfl, rfl⟩, rfl, rfl, Or.inr ?_⟩
        by_cases hless : s.priority active < s.priority t
        · exact Or.inl ⟨decide_eq_true hless, hpreemptive, ⟨rfl, rfl⟩, hne⟩
        · exact Or.inr ⟨decide_eq_false hless, ⟨rfl, rfl⟩, fun _ u hu =>
            le_trans (hmax u hu) (le_of_not_gt hless)⟩

/-- The threads that may be picked. -/
def State.runnable (s : State) : List ThreadId := s.active.toList ++ s.runQueue

/-- `PickNext` takes thread `t`. -/
structure Picked (view : KernelView) (s : State) (t : ThreadId) (s' : State) : Prop where
  iter : s'.iter = (s.iter + 1) % 2 ^ 64
  points : s'.changePoints = s.changePoints
  initial : s'.initPrior = s.initPrior
  vacant : s'.active = none
  perm : s.runnable.Perm (t :: s'.runQueue)
  held : ∀ a, s.active = some a → (view.attrs a).preemptive = false → t = a
  highest : (∀ a, s.active = some a → (view.attrs a).preemptive = true) →
    ∀ u ∈ s.runnable, s'.priority u ≤ s'.priority t
  priorities : SamePriorities s s' ∨ ∃ a, s.active = some a ∧
    (view.attrs a).preemptive = true ∧ s'.iter ∈ s.changePoints ∧ Demoted a s s'

theorem popMaxPriority_ok (h : s.runQueue ≠ []) :
    ∃ t, popMaxPriority s = .ok (.ok t, { s with runQueue := s.runQueue.erase t }) ∧
      t ∈ s.runQueue ∧ ∀ u ∈ s.runQueue, s.priority u ≤ s.priority t := by
  obtain ⟨t, htop⟩ := @top_isSome s.priority s.runQueue h
  refine ⟨t, ?_, top_mem htop, top_le htop⟩
  rw [popMaxPriority, htop]

/-- The iteration that `PickNext` begins. -/
def counted (s : State) : State :=
  { s with
    active := none
    iter := (s.iter + 1) % 2 ^ 64
    estimates :=
      { s.estimates with steps := max s.estimates.steps ((s.iter + 1) % 2 ^ 64) } }

theorem pickNext_eq (view : KernelView) (s : State) :
    pickNext view s =
      match s.active with
      | none => popMaxPriority (counted s)
      | some active =>
          match preempt view active (counted s) with
          | (false, s) => .ok (.ok active, s)
          | (true, s) => popMaxPriority (enqueue active s) := rfl

/-- `PickNext` answers if there is a thread to pick. -/
theorem pickNext_picked (h : s.runnable ≠ []) :
    ∃ t s', pickNext view s = .ok (.ok t, s') ∧ Picked view s t s' := by
  rw [pickNext_eq]
  cases hactive : s.active with
  | none =>
      have hqueue : s.runnable = s.runQueue := by rw [State.runnable, hactive]; rfl
      obtain ⟨t, hpop, hmem, hmax⟩ := @popMaxPriority_ok (counted s) (hqueue ▸ h)
      refine ⟨t, _, hpop, ⟨rfl, rfl, rfl, rfl, ?_, ?_, ?_, Or.inl ⟨rfl, rfl⟩⟩⟩
      · rw [hqueue]
        exact List.perm_cons_erase hmem
      · intro a ha
        rw [hactive] at ha
        cases ha
      · rw [hqueue]
        exact fun _ => hmax
  | some a =>
      have hrunnable : s.runnable = a :: s.runQueue := by
        rw [State.runnable, hactive]
        rfl
      have honly : ∀ a', s.active = some a' → a' = a := fun a' ha' =>
        Option.some.inj (ha'.symm.trans hactive)
      dsimp only
      split
      · rename_i s₁ hpreempt
        obtain ⟨⟨hiter, hpoints, hinitial⟩, hqueue, hvacant, hcases⟩ := preempt_cases hpreempt
        obtain ⟨hfalse, -⟩ | ⟨hfalse, -⟩ | ⟨-, hsame, hmax⟩ := hcases
        · cases hfalse
        · cases hfalse
        refine ⟨a, s₁, rfl, ⟨hiter, hpoints, hinitial, hvacant, ?_, ?_, ?_, Or.inl hsame⟩⟩
        · rw [hrunnable, hqueue]
          exact List.Perm.refl _
        · exact fun a' ha' _ => (honly a' ha').symm
        · intro hon u hu
          rw [hsame.1]
          rw [hrunnable] at hu
          rcases List.mem_cons.mp hu with rfl | hu
          · exact le_refl _
          · exact hmax (hon a hactive) u hu
      · rename_i s₁ hpreempt
        obtain ⟨⟨hiter, hpoints, hinitial⟩, hqueue, hvacant, hcases⟩ := preempt_cases hpreempt
        have hperm : s.runnable.Perm (enqueue a s₁).runQueue := by
          rw [hrunnable, enqueue, hqueue]
          exact (List.perm_append_singleton a s.runQueue).symm
        obtain ⟨t, hpop, hmem, hmax⟩ := @popMaxPriority_ok (enqueue a s₁) fun hnil =>
          h (List.Perm.eq_nil (hnil ▸ hperm))
        refine ⟨t, _, hpop, ⟨hiter, hpoints, hinitial, hvacant, ?_, ?_, ?_, ?_⟩⟩
        · exact hperm.trans (List.perm_cons_erase hmem)
        · intro a' ha' hoff
          rw [honly a' ha'] at hoff
          obtain ⟨-, hon, -⟩ | ⟨-, hon, -⟩ | ⟨hfalse, -⟩ := hcases
          · exact absurd (hon.symm.trans hoff) (by decide)
          · exact absurd (hon.symm.trans hoff) (by decide)
          · cases hfalse
        · exact fun _ u hu => hmax u (hperm.mem_iff.mp hu)
        · obtain ⟨-, hon, hpoint, hdemoted⟩ | ⟨-, -, hsame, -⟩ | ⟨hfalse, -⟩ := hcases
          · exact Or.inr ⟨a, hactive, hon, hiter ▸ hpoint, hdemoted⟩
          · exact Or.inl hsame
          · cases hfalse

/-! ### Handing out priorities -/

/-- Where the priorities of the threads alive come from, and that they differ. -/
structure Ranked (alive : ThreadId → Bool) (drawn : Nat) (s : State) : Prop where
  initial : Initial s.initPrior
  next : s.nextPrior = -drawn
  source : ∀ t, alive t = true →
    1 ≤ t ∧ s.initPrior[t]? = some (s.priority t) ∨
      s.nextPrior < s.priority t ∧ s.priority t ≤ 0
  distinct : ∀ t u, alive t = true → alive u = true → s.priority t = s.priority u → t = u

section Ranked

variable {alive alive' : ThreadId → Bool} {drawn : Nat}

/-- The next priority is below those in use. -/
theorem Ranked.above (h : Ranked alive drawn s) (ht : alive t = true) :
    s.nextPrior < s.priority t := by
  obtain ⟨hpos, hinit⟩ | ⟨hlt, -⟩ := h.source t ht
  · have hpositive := h.initial.pos t _ hpos hinit
    have hnext := h.next
    omega
  · exact hlt

theorem Ranked.congr (h : Ranked alive drawn s) (hinitial : s'.initPrior = s.initPrior)
    (hsame : SamePriorities s s') (halive : ∀ u, alive' u = true → alive u = true) :
    Ranked alive' drawn s' := by
  obtain ⟨hpriority, hnext⟩ := hsame
  refine ⟨hinitial ▸ h.initial, hnext.trans h.next, fun t ht => ?_, fun t u ht hu heq => ?_⟩
  · rw [hinitial, hpriority, hnext]
    exact h.source t (halive t ht)
  · rw [hpriority] at heq
    exact h.distinct t u (halive t ht) (halive u hu) heq

theorem decrement_eq (hdrawn : drawn < 2 ^ 31) :
    decrement (-drawn) = -(drawn + 1 : Nat) := by
  unfold decrement
  rw [Int.bmod_eq_of_le (by omega) (by omega)]
  omega

/-- A thread whose priority was drawn is below all others. -/
theorem Ranked.demoted (h : Ranked alive drawn s) (hdrawn : drawn < 2 ^ 31)
    (hinitial : s'.initPrior = s.initPrior) (hdemoted : Demoted t s s')
    (halive : ∀ u, u ≠ t → alive' u = true → alive u = true) :
    Ranked alive' (drawn + 1) s' := by
  obtain ⟨hpriority, hnext⟩ := hdemoted
  have hdecrement : s'.nextPrior = -(drawn + 1 : Nat) := by
    rw [hnext, h.next, decrement_eq hdrawn]
  have hself : s'.priority t = s.nextPrior := by rw [hpriority, Function.update_self]
  have hother : ∀ u, u ≠ t → s'.priority u = s.priority u := fun u hu => by
    rw [hpriority, Function.update_of_ne hu]
  have hbelow : ∀ u, u ≠ t → alive' u = true → s'.priority t < s'.priority u :=
    fun u hu hlive => by
      rw [hself, hother u hu]
      exact h.above (halive u hu hlive)
  have hold := h.next
  refine ⟨hinitial ▸ h.initial, hdecrement, fun u hlive => ?_, fun u v hu hv heq => ?_⟩
  · by_cases hu : u = t
    · subst hu
      rw [hself]
      right
      omega
    · rw [hinitial, hother u hu]
      obtain hinit | ⟨hlt, hle⟩ := h.source u (halive u hu hlive)
      · exact Or.inl hinit
      · right
        omega
  · by_cases hut : u = t
    · by_cases hvt : v = t
      · rw [hut, hvt]
      · exact absurd (hut ▸ heq) (ne_of_lt (hbelow v hvt hv))
    · by_cases hvt : v = t
      · exact absurd (hvt ▸ heq) (ne_of_gt (hbelow u hut hu))
      · rw [hother u hut, hother v hvt] at heq
        exact h.distinct u v (halive u hut hu) (halive v hvt hv) heq

/-- A new thread is given its initial priority. -/
theorem Ranked.assigned {p : Int} (h : Ranked alive drawn s) (hpos : 1 ≤ t)
    (hp : s.initPrior[t]? = some p) (hinitial : s'.initPrior = s.initPrior)
    (hpriority : s'.priority = Function.update s.priority t p)
    (hnext : s'.nextPrior = s.nextPrior)
    (halive : ∀ u, u ≠ t → alive' u = true → alive u = true) :
    Ranked alive' drawn s' := by
  have hself : s'.priority t = p := by rw [hpriority, Function.update_self]
  have hother : ∀ u, u ≠ t → s'.priority u = s.priority u := fun u hu => by
    rw [hpriority, Function.update_of_ne hu]
  -- Initial priorities differ by position, and are above those that were drawn.
  have hfresh : ∀ u, u ≠ t → alive' u = true → s'.priority t ≠ s'.priority u := by
    intro u hu hlive heq
    rw [hself, hother u hu] at heq
    obtain ⟨-, hinit⟩ | ⟨-, hle⟩ := h.source u (halive u hu hlive)
    · have hlt := (List.getElem?_eq_some_iff.mp hp).1
      have hsame := (List.getElem?_inj hlt h.initial.nodup).mp
        (hp.trans (heq ▸ hinit).symm)
      exact hu hsame.symm
    · have hpositive := h.initial.pos t p hpos hp
      omega
  refine ⟨hinitial ▸ h.initial, hnext.trans h.next, fun u hlive => ?_,
    fun u v hu hv heq => ?_⟩
  · rw [hinitial, hnext]
    by_cases hu : u = t
    · subst hu
      rw [hself]
      exact Or.inl ⟨hpos, hp⟩
    · rw [hother u hu]
      exact h.source u (halive u hu hlive)
  · by_cases hut : u = t
    · by_cases hvt : v = t
      · rw [hut, hvt]
      · exact absurd (hut ▸ heq) (hfresh v hvt hv)
    · by_cases hvt : v = t
      · exact absurd (hvt ▸ heq.symm) (hfresh u hut hu)
      · rw [hother u hut, hother v hvt] at heq
        exact h.distinct u v (halive u hut hu) (halive v hvt hv) heq

end Ranked

end Pct

end TwistSim
