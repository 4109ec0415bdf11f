/-
What every vector clock of the memory model stands for: a set of operations
closed under the folded happens-before relation.
-/
import TwistSim.CausalClocks
import TwistSim.HappensBefore

namespace TwistSim

variable (tr : List Op)

/-- Clock components are indexed by thread id minus one. -/
def timeline : Timeline Nat where
  thread i := (opAt tr i).thread - 1
  ticks i := (opAt tr i).ticks

/-- Everything that happens before a member of `S` under the folded rules. -/
abbrev hbPast (S : Set Nat) : Set Nat := past (Direct .folded tr) S

/-! ### The operations a clock starts from, among the first `n` -/

def ownEvents (n : Nat) (t : Nat) : Set Nat :=
  {i | i < n ∧ (opAt tr i).thread = t}

def releaseEvents (n : Nat) (t : Nat) : Set Nat :=
  {i | i < n ∧ (opAt tr i).thread = t ∧ (opAt tr i).releases = true}

/-- The release sides of the stores that a load of `loc` reads from now. -/
def storedEvents (n : Nat) (loc : Addr) : Set Nat :=
  {s | ∃ x < n, (opAt tr x).storesTo loc = true ∧
    (∀ z < n, x < z → (opAt tr z).startsOver loc = false) ∧
    Publishes .folded tr s x}

/-- The release sides of what thread `t` has loaded. -/
def observedEvents (n : Nat) (t : Nat) : Set Nat :=
  {s | ∃ y < n, (opAt tr y).thread = t ∧
    ∃ x < y, Publishes .folded tr s x ∧ ReadsFrom tr x y}

/-- The last `free` of an address. -/
def freedEvents (n : Nat) (addr : Addr) : Set Nat :=
  {f | f < n ∧ (opAt tr f).frees addr = true ∧
    ∀ k < n, f < k → (opAt tr k).frees addr = false}

def specialEvents (n : Nat) : Set Nat := {i | i < n ∧ SpecialEdge tr i n}

variable {tr}

theorem Publishes.le {rules : FenceRules} {s x : Nat}
    (h : Publishes rules tr s x) : s ≤ x := by
  rcases h with ⟨rfl, _⟩ | ⟨hlt, _⟩
  · exact Nat.le_refl _
  · exact Nat.le_of_lt hlt

theorem storedEvents_lt {n : Nat} {loc : Addr} :
    ∀ s ∈ storedEvents tr n loc, s < n := by
  rintro s ⟨x, hx, _, _, hpub⟩
  exact Nat.lt_of_le_of_lt hpub.le hx

theorem observedEvents_lt {n : Nat} {t : Nat} :
    ∀ s ∈ observedEvents tr n t, s < n := by
  rintro s ⟨y, hy, _, x, hx, hpub, _⟩
  exact Nat.lt_of_le_of_lt hpub.le (Nat.lt_trans hx hy)

/-! ### How these sets grow with one operation -/

theorem ownEvents_self (n : Nat) :
    ownEvents tr (n + 1) (opAt tr n).thread =
      insert n (ownEvents tr n (opAt tr n).thread) := by
  ext i
  simp only [ownEvents, Set.mem_ofPred_eq, Set.mem_insert_iff,
    Nat.lt_succ_iff_lt_or_eq]
  constructor
  · rintro ⟨hlt | heq, hthread⟩
    · exact Or.inr ⟨hlt, hthread⟩
    · exact Or.inl heq
  · rintro (rfl | ⟨hlt, hthread⟩)
    · exact ⟨Or.inr rfl, rfl⟩
    · exact ⟨Or.inl hlt, hthread⟩

/-- A set of positions below `n` given by a property grows only when the new
operation has the property. -/
theorem setOf_lt_succ {P : Nat → Prop} {n : Nat} (hn : ¬ P n) :
    {i | i < n + 1 ∧ P i} = {i | i < n ∧ P i} := by
  ext i
  simp only [Set.mem_ofPred_eq, Nat.lt_succ_iff_lt_or_eq]
  constructor
  · rintro ⟨hlt | rfl, hP⟩
    · exact ⟨hlt, hP⟩
    · exact absurd hP hn
  · rintro ⟨hlt, hP⟩
    exact ⟨Or.inl hlt, hP⟩

theorem ownEvents_other {n : Nat} {t : Nat}
    (ht : (opAt tr n).thread ≠ t) :
    ownEvents tr (n + 1) t = ownEvents tr n t :=
  setOf_lt_succ ht

theorem releaseEvents_idle {n : Nat} {t : Nat}
    (h : (opAt tr n).thread ≠ t ∨ (opAt tr n).releases = false) :
    releaseEvents tr (n + 1) t = releaseEvents tr n t := by
  apply setOf_lt_succ
  rintro ⟨hthread, hrel⟩
  rcases h with hne | hnot
  · exact hne hthread
  · rw [hnot] at hrel
    cases hrel

theorem observedEvents_idle {n : Nat} {t : Nat}
    (h : (opAt tr n).thread ≠ t ∨ (opAt tr n).isLoad = false) :
    observedEvents tr (n + 1) t = observedEvents tr n t := by
  ext s
  constructor
  · rintro ⟨y, hy, hthread, x, hx, hpub, hread⟩
    rcases Nat.lt_succ_iff_lt_or_eq.mp hy with hlt | rfl
    · exact ⟨y, hlt, hthread, x, hx, hpub, hread⟩
    · rcases h with hne | hnot
      · exact absurd hthread hne
      · have hload := hread.2.1
        rw [hnot] at hload
        cases hload
  · rintro ⟨y, hy, hrest⟩
    exact ⟨y, Nat.lt_succ_of_lt hy, hrest⟩

/-- A load observes what is stored at its location. -/
theorem observedEvents_load {n : Nat} (h : (opAt tr n).isLoad = true) :
    observedEvents tr (n + 1) (opAt tr n).thread =
      observedEvents tr n (opAt tr n).thread ∪
        storedEvents tr n (opAt tr n).location := by
  ext s
  constructor
  · rintro ⟨y, hy, hthread, x, hx, hpub, hread⟩
    rcases Nat.lt_succ_iff_lt_or_eq.mp hy with hlt | rfl
    · exact Or.inl ⟨y, hlt, hthread, x, hx, hpub, hread⟩
    · exact Or.inr ⟨x, hx, hread.2.2.1, hread.2.2.2, hpub⟩
  · rintro (⟨y, hy, hrest⟩ | ⟨x, hx, hstore, hseq, hpub⟩)
    · exact ⟨y, Nat.lt_succ_of_lt hy, hrest⟩
    · exact ⟨n, Nat.lt_succ_self n, rfl, x, hx, hpub, hx, h, hstore, hseq⟩

theorem storedEvents_idle {n : Nat} {loc : Addr}
    (hstore : (opAt tr n).storesTo loc = false)
    (hover : (opAt tr n).startsOver loc = false) :
    storedEvents tr (n + 1) loc = storedEvents tr n loc := by
  ext s
  constructor
  · rintro ⟨x, hx, hto, hseq, hpub⟩
    rcases Nat.lt_succ_iff_lt_or_eq.mp hx with hlt | rfl
    · exact ⟨x, hlt, hto, fun z hz => hseq z (Nat.lt_succ_of_lt hz), hpub⟩
    · rw [hstore] at hto
      cases hto
  · rintro ⟨x, hx, hto, hseq, hpub⟩
    refine ⟨x, Nat.lt_succ_of_lt hx, hto, ?_, hpub⟩
    intro z hz hxz
    rcases Nat.lt_succ_iff_lt_or_eq.mp hz with hlt | rfl
    · exact hseq z hlt hxz
    · exact hover

/-- Nothing is published through an atomic that was only initialized. -/
theorem storedEvents_init {n : Nat} {loc : Addr}
    (hstore : (opAt tr n).storesTo loc = false)
    (hover : (opAt tr n).startsOver loc = true) :
    storedEvents tr (n + 1) loc = ∅ := by
  ext s
  simp only [Set.mem_empty_iff_false, iff_false]
  rintro ⟨x, hx, hto, hseq, _⟩
  rcases Nat.lt_succ_iff_lt_or_eq.mp hx with hlt | rfl
  · have hnot := hseq n (Nat.lt_succ_self n) hlt
    rw [hover] at hnot
    cases hnot
  · rw [hstore] at hto
    cases hto

/-- Under the folded rules a store publishes every release operation of its
thread so far. -/
theorem publishes_folded_iff {s n : Nat} :
    Publishes .folded tr s n ↔ s ∈ releaseEvents tr (n + 1) (opAt tr n).thread := by
  simp only [Publishes, releaseEvents, SameThread, FenceRules.releaseFence,
    Set.mem_ofPred_eq, Nat.lt_succ_iff_lt_or_eq, beq_self_eq_true, Bool.or_true,
    Bool.and_true]
  constructor
  · rintro (⟨rfl, hrel⟩ | ⟨hlt, hthread, hrel⟩)
    · exact ⟨Or.inr rfl, rfl, hrel⟩
    · exact ⟨Or.inl hlt, hthread, hrel⟩
  · rintro ⟨hlt | rfl, hthread, hrel⟩
    · exact Or.inr ⟨hlt, hthread, hrel⟩
    · exact Or.inl ⟨rfl, hrel⟩

theorem storedEvents_store {n : Nat} {loc : Addr}
    (hstore : (opAt tr n).storesTo loc = true)
    (hover : (opAt tr n).startsOver loc = true) :
    storedEvents tr (n + 1) loc =
      releaseEvents tr (n + 1) (opAt tr n).thread := by
  ext s
  rw [← publishes_folded_iff]
  constructor
  · rintro ⟨x, hx, _, hseq, hpub⟩
    rcases Nat.lt_succ_iff_lt_or_eq.mp hx with hlt | rfl
    · have hnot := hseq n (Nat.lt_succ_self n) hlt
      rw [hover] at hnot
      cases hnot
    · exact hpub
  · intro hpub
    exact ⟨n, Nat.lt_succ_self n, hstore,
      fun z hz hnz => absurd hz (Nat.not_lt.mpr hnz), hpub⟩

/-- A read-modify-write continues the release sequences. -/
theorem storedEvents_commit {n : Nat} {loc : Addr}
    (hstore : (opAt tr n).storesTo loc = true)
    (hover : (opAt tr n).startsOver loc = false) :
    storedEvents tr (n + 1) loc =
      storedEvents tr n loc ∪ releaseEvents tr (n + 1) (opAt tr n).thread := by
  ext s
  rw [Set.mem_union, ← publishes_folded_iff]
  constructor
  · rintro ⟨x, hx, hto, hseq, hpub⟩
    rcases Nat.lt_succ_iff_lt_or_eq.mp hx with hlt | rfl
    · exact Or.inl
        ⟨x, hlt, hto, fun z hz => hseq z (Nat.lt_succ_of_lt hz), hpub⟩
    · exact Or.inr hpub
  · rintro (⟨x, hx, hto, hseq, hpub⟩ | hpub)
    · refine ⟨x, Nat.lt_succ_of_lt hx, hto, ?_, hpub⟩
      intro z hz hxz
      rcases Nat.lt_succ_iff_lt_or_eq.mp hz with hlt | rfl
      · exact hseq z hlt hxz
      · exact hover
    · exact ⟨n, Nat.lt_succ_self n, hstore,
        fun z hz hnz => absurd hz (Nat.not_lt.mpr hnz), hpub⟩

theorem freedEvents_idle {n : Nat} {addr : Addr}
    (h : (opAt tr n).frees addr = false) :
    freedEvents tr (n + 1) addr = freedEvents tr n addr := by
  ext f
  constructor
  · rintro ⟨hf, hfrees, hlast⟩
    rcases Nat.lt_succ_iff_lt_or_eq.mp hf with hlt | rfl
    · exact ⟨hlt, hfrees, fun k hk => hlast k (Nat.lt_succ_of_lt hk)⟩
    · rw [h] at hfrees
      cases hfrees
  · rintro ⟨hf, hfrees, hlast⟩
    refine ⟨Nat.lt_succ_of_lt hf, hfrees, fun k hk hfk => ?_⟩
    rcases Nat.lt_succ_iff_lt_or_eq.mp hk with hlt | rfl
    · exact hlast k hlt hfk
    · exact h

theorem freedEvents_free {n : Nat} {addr : Addr}
    (h : (opAt tr n).frees addr = true) :
    freedEvents tr (n + 1) addr = {n} := by
  ext f
  rw [Set.mem_singleton_iff]
  constructor
  · rintro ⟨hf, _, hlast⟩
    rcases Nat.lt_succ_iff_lt_or_eq.mp hf with hlt | rfl
    · have hnot := hlast n (Nat.lt_succ_self n) hlt
      rw [h] at hnot
      cases hnot
    · rfl
  · rintro rfl
    exact ⟨Nat.lt_succ_self f, h,
      fun k hk hfk => absurd hk (Nat.not_lt.mpr hfk)⟩

/-! ### The past of the newest operation -/

theorem synchronizesWith_folded_iff {i n : Nat} :
    (i < n ∧ SynchronizesWith .folded tr i n) ↔
      (opAt tr n).acquires = true ∧
        i ∈ observedEvents tr (n + 1) (opAt tr n).thread := by
  have hfence : ∀ op : Op, FenceRules.folded.acquireFence op = op.acquires := by
    simp [FenceRules.acquireFence]
  simp only [SynchronizesWith, Observes, SameThread, hfence]
  constructor
  · rintro ⟨_, y, hy, x, hx, hpub, hread, ⟨rfl, hacq⟩ | ⟨_, hthread, hacq⟩⟩
    · exact ⟨hacq, n, hy, rfl, x, hx, hpub, hread⟩
    · exact ⟨hacq, y, hy, hthread, x, hx, hpub, hread⟩
  · rintro ⟨hacq, y, hy, hthread, x, hx, hpub, hread⟩
    have hle := hpub.le
    refine ⟨by omega, y, hy, x, hx, hpub, hread, ?_⟩
    rcases Nat.lt_succ_iff_lt_or_eq.mp hy with hlt | rfl
    · exact Or.inr ⟨hlt, hthread, hacq⟩
    · exact Or.inl ⟨rfl, hacq⟩

/-- What the operation at `n` acquires. -/
def acquiredEvents (tr : List Op) (n : Nat) : Set Nat :=
  {i | (opAt tr n).acquires = true ∧
    i ∈ observedEvents tr (n + 1) (opAt tr n).thread}

theorem setOf_direct (n : Nat) :
    {i | Direct .folded tr i n} =
      ownEvents tr n (opAt tr n).thread ∪
        (specialEvents tr n ∪ acquiredEvents tr n) := by
  ext i
  simp only [Direct, Set.mem_ofPred_eq, Set.mem_union, ownEvents, specialEvents,
    acquiredEvents, ← synchronizesWith_folded_iff, SameThread, and_or_left]

/-- The knowledge of a thread after an operation of its own. -/
theorem hbPast_ownEvents_self (n : Nat) :
    hbPast tr (ownEvents tr (n + 1) (opAt tr n).thread) =
      insert n (hbPast tr (ownEvents tr n (opAt tr n).thread) ∪
        (hbPast tr (specialEvents tr n) ∪ hbPast tr (acquiredEvents tr n))) := by
  rw [ownEvents_self, hbPast, past_insert, setOf_direct, past_union, past_union,
    ← Set.union_assoc (past _ (ownEvents tr n _)), Set.union_self]

/-- The newest operation of a thread knows all that the thread knows. -/
theorem hbPast_singleton (n : Nat) :
    hbPast tr {n} = hbPast tr (ownEvents tr (n + 1) (opAt tr n).thread) := by
  apply Set.Subset.antisymm
  · apply past_mono
    rw [Set.singleton_subset_iff]
    exact ⟨Nat.lt_succ_self n, rfl⟩
  · apply past_subset_past
    rintro i ⟨hi, hthread⟩
    rcases Nat.lt_succ_iff_lt_or_eq.mp hi with hlt | rfl
    · exact ⟨n, rfl, Relation.ReflTransGen.single ⟨hlt, Or.inl hthread⟩⟩
    · exact subset_past _ rfl

/-- A release operation snapshots what its thread knows. -/
theorem hbPast_releaseEvents_self {n : Nat} (h : (opAt tr n).releases = true) :
    hbPast tr (releaseEvents tr (n + 1) (opAt tr n).thread) =
      hbPast tr (ownEvents tr (n + 1) (opAt tr n).thread) := by
  apply Set.Subset.antisymm
  · apply past_mono
    rintro i ⟨hi, hthread, _⟩
    exact ⟨hi, hthread⟩
  · rw [← hbPast_singleton]
    apply past_mono
    rw [Set.singleton_subset_iff]
    exact ⟨Nat.lt_succ_self n, rfl, h⟩

end TwistSim
