/-
Causal pasts and the vector clocks that stand for them.  Events are the
positions of a trace.  A clock represents a set of events by saying, of every
thread, how many of its ticking events belong to the set.
-/
import Mathlib.Data.Set.Insert
import Mathlib.Logic.Function.Basic
import Mathlib.Logic.Relation
import Mathlib.Order.MinMax

namespace TwistSim

universe u v

section Past

variable {ι : Type u} (r : ι → ι → Prop)

/-- The members of `S` and everything `r` orders before one of them. -/
def past (S : Set ι) : Set ι := {e | ∃ f ∈ S, Relation.ReflTransGen r e f}

variable {r}

theorem subset_past (S : Set ι) : S ⊆ past r S :=
  fun e he => ⟨e, he, Relation.ReflTransGen.refl⟩

theorem past_mono {S T : Set ι} (h : S ⊆ T) : past r S ⊆ past r T := by
  rintro e ⟨f, hf, hpath⟩
  exact ⟨f, h hf, hpath⟩

theorem past_empty : past r (∅ : Set ι) = ∅ := by
  ext e
  simp [past]

theorem past_union (S T : Set ι) : past r (S ∪ T) = past r S ∪ past r T := by
  ext e
  constructor
  · rintro ⟨f, hf | hf, hpath⟩
    · exact Or.inl ⟨f, hf, hpath⟩
    · exact Or.inr ⟨f, hf, hpath⟩
  · rintro (⟨f, hf, hpath⟩ | ⟨f, hf, hpath⟩)
    · exact ⟨f, Or.inl hf, hpath⟩
    · exact ⟨f, Or.inr hf, hpath⟩

/-- Before an event come the events directly before it and their past. -/
theorem past_insert (j : ι) (S : Set ι) :
    past r (insert j S) = insert j (past r S ∪ past r {i | r i j}) := by
  ext e
  constructor
  · rintro ⟨f, rfl | hf, hpath⟩
    · rcases Relation.ReflTransGen.cases_tail hpath with heq | ⟨i, hei, hij⟩
      · exact Or.inl heq.symm
      · exact Or.inr (Or.inr ⟨i, hij, hei⟩)
    · exact Or.inr (Or.inl ⟨f, hf, hpath⟩)
  · rintro (rfl | ⟨f, hf, hpath⟩ | ⟨i, hij, hei⟩)
    · exact subset_past _ (Set.mem_insert e S)
    · exact ⟨f, Set.mem_insert_of_mem j hf, hpath⟩
    · exact ⟨j, Set.mem_insert j S, hei.tail hij⟩

/-- A set that lies in a past adds nothing to it. -/
theorem past_subset_past {S T : Set ι} (h : S ⊆ past r T) :
    past r S ⊆ past r T := by
  rintro e ⟨f, hf, hef⟩
  obtain ⟨g, hg, hfg⟩ := h hf
  exact ⟨g, hg, hef.trans hfg⟩

theorem le_of_reflTransGen {r : Nat → Nat → Prop} (hr : ∀ i j, r i j → i < j)
    {e f : Nat} (h : Relation.ReflTransGen r e f) : e ≤ f := by
  induction h with
  | refl => exact Nat.le_refl e
  | tail _ hstep ih => exact ih.trans (hr _ _ hstep).le

theorem past_lt {r : Nat → Nat → Prop} (hr : ∀ i j, r i j → i < j)
    {S : Set Nat} {n : Nat} (hS : ∀ f ∈ S, f < n) {e : Nat}
    (he : e ∈ past r S) : e < n := by
  obtain ⟨f, hf, hpath⟩ := he
  exact Nat.lt_of_le_of_lt (le_of_reflTransGen hr hpath) (hS f hf)

end Past

/-- Which thread an event belongs to, and whether it advances that thread's
component of the clock. -/
structure Timeline (τ : Type v) where
  thread : Nat → τ
  ticks : Nat → Bool

namespace Timeline

variable {τ : Type v} [DecidableEq τ] (L : Timeline τ)

/-- How often thread `t` ticks before position `n`. -/
def tickCount : Nat → τ → Nat
  | 0, _ => 0
  | n + 1, t =>
      tickCount n t + if L.ticks n = true ∧ L.thread n = t then 1 else 0

/-- The number of a ticking event among those of its thread. -/
def epoch (i : Nat) : Nat := L.tickCount (i + 1) (L.thread i)

variable {L}

theorem tickCount_mono {m n : Nat} (h : m ≤ n) (t : τ) :
    L.tickCount m t ≤ L.tickCount n t := by
  induction h with
  | refl => exact Nat.le_refl _
  | step _ ih => exact ih.trans (Nat.le_add_right _ _)

theorem epoch_of_ticks {i : Nat} (hi : L.ticks i = true) :
    L.epoch i = L.tickCount i (L.thread i) + 1 := by
  simp [epoch, tickCount, hi]

theorem epoch_le {i n : Nat} (hi : i < n) :
    L.epoch i ≤ L.tickCount n (L.thread i) :=
  tickCount_mono hi _

theorem tickCount_eq_zero {n : Nat} {t : τ}
    (h : ∀ i < n, L.ticks i = true → L.thread i ≠ t) : L.tickCount n t = 0 := by
  induction n with
  | zero => rfl
  | succ n ih =>
      have hn : ¬ (L.ticks n = true ∧ L.thread n = t) :=
        fun hboth => h n (Nat.lt_succ_self n) hboth.1 hboth.2
      rw [tickCount, if_neg hn, ih fun i hi => h i (Nat.lt_succ_of_lt hi)]

/-- The last ticking event of a thread carries its tick count. -/
theorem exists_epoch_eq {n : Nat} {t : τ} (h : 0 < L.tickCount n t) :
    ∃ i < n, L.ticks i = true ∧ L.thread i = t ∧
      L.epoch i = L.tickCount n t := by
  induction n with
  | zero => exact absurd h (Nat.lt_irrefl 0)
  | succ n ih =>
      by_cases hn : L.ticks n = true ∧ L.thread n = t
      · refine ⟨n, Nat.lt_succ_self n, hn.1, hn.2, ?_⟩
        rw [epoch, hn.2]
      · have hsame : L.tickCount (n + 1) t = L.tickCount n t := by
          simp [tickCount, hn]
        rw [hsame] at h ⊢
        obtain ⟨i, hi, hrest⟩ := ih h
        exact ⟨i, Nat.lt_succ_of_lt hi, hrest⟩

variable (L)

/-- Up to position `n`, `clock` stands for the ticking events in `S`. -/
structure Represents (n : Nat) (clock : τ → Nat) (S : Set Nat) : Prop where
  bounded : ∀ t, clock t ≤ L.tickCount n t
  mem_iff : ∀ i < n, L.ticks i = true →
    (i ∈ S ↔ L.epoch i ≤ clock (L.thread i))

variable {L}

namespace Represents

variable {n : Nat} {c d : τ → Nat} {S T : Set Nat}

theorem zero (n : Nat) : L.Represents n (fun _ => 0) ∅ where
  bounded _ := Nat.zero_le _
  mem_iff i _ hticks := by
    rw [epoch_of_ticks hticks]
    simp

theorem congr (h : L.Represents n c S)
    (hST : ∀ i < n, L.ticks i = true → (i ∈ T ↔ i ∈ S)) :
    L.Represents n c T where
  bounded := h.bounded
  mem_iff i hi hticks := (hST i hi hticks).trans (h.mem_iff i hi hticks)

/-- Joining clocks unites what they stand for. -/
theorem union (hS : L.Represents n c S) (hT : L.Represents n d T) :
    L.Represents n (fun t => max (c t) (d t)) (S ∪ T) where
  bounded t := max_le (hS.bounded t) (hT.bounded t)
  mem_iff i hi hticks := by
    rw [Set.mem_union, hS.mem_iff i hi hticks, hT.mem_iff i hi hticks]
    exact le_max_iff.symm

/-- An event that happens later is not in a set already represented. -/
theorem step (h : L.Represents n c S) (hn : n ∉ S) :
    L.Represents (n + 1) c S where
  bounded t := (h.bounded t).trans (tickCount_mono (Nat.le_succ n) t)
  mem_iff i hi hticks := by
    rcases Nat.lt_succ_iff_lt_or_eq.mp hi with hlt | rfl
    · exact h.mem_iff i hlt hticks
    · have hbound := h.bounded (L.thread i)
      have hepoch := epoch_of_ticks hticks
      constructor
      · exact fun hmem => absurd hmem hn
      · intro hle
        omega

/-- An event that does not tick may be added freely. -/
theorem insert_idle (h : L.Represents n c S) {i : Nat}
    (hi : L.ticks i = false) : L.Represents n c (insert i S) := by
  apply h.congr
  intro j _ hticks
  rw [Set.mem_insert_iff, or_iff_right]
  intro heq
  rw [heq, hi] at hticks
  cases hticks

/-- A clock that covers a thread knows how often it ticked. -/
theorem own (h : L.Represents n c S) {t : τ}
    (hcover : ∀ i < n, L.ticks i = true → L.thread i = t → i ∈ S) :
    c t = L.tickCount n t := by
  apply le_antisymm (h.bounded t)
  by_contra hlt
  have hpos : 0 < L.tickCount n t := by omega
  obtain ⟨i, hi, hticks, hthread, hepoch⟩ := exists_epoch_eq hpos
  have hmem := (h.mem_iff i hi hticks).mp (hcover i hi hticks hthread)
  rw [hthread] at hmem
  omega

/-- Ticking adds the new event. -/
theorem tick (h : L.Represents n c S) (hn : n ∉ S) (hticks : L.ticks n = true)
    (hcover : ∀ i < n, L.ticks i = true → L.thread i = L.thread n → i ∈ S) :
    L.Represents (n + 1)
      (Function.update c (L.thread n) (c (L.thread n) + 1)) (insert n S) where
  bounded t := by
    by_cases ht : t = L.thread n
    · subst ht
      have hown := h.own hcover
      simp [tickCount, hticks, hown]
    · rw [Function.update_of_ne ht]
      exact (h.step hn).bounded t
  mem_iff i hi hi' := by
    have hown := h.own hcover
    by_cases hthread : L.thread i = L.thread n
    · rw [hthread, Function.update_self]
      have hle : L.epoch i ≤ L.tickCount (n + 1) (L.thread i) := epoch_le hi
      have hsucc : L.tickCount (n + 1) (L.thread n) =
          L.tickCount n (L.thread n) + 1 := by
        simp [tickCount, hticks]
      rw [hthread, hsucc] at hle
      constructor
      · intro _
        omega
      · intro _
        rcases Nat.lt_succ_iff_lt_or_eq.mp hi with hlt | rfl
        · exact Set.mem_insert_of_mem n (hcover i hlt hi' hthread)
        · exact Set.mem_insert i S
    · rw [Function.update_of_ne hthread]
      have hne : i ≠ n := fun heq => hthread (heq ▸ rfl)
      rw [Set.mem_insert_iff, or_iff_right hne]
      exact (h.step hn).mem_iff i hi hi'

end Represents

end Timeline

end TwistSim
