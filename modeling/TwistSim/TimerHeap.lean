/-
The timer queue of the simulator: a binary heap of pointers to timers, each of
which remembers its slot.  Slots are numbered from 1.
-/
import TwistSim.Basic
import Mathlib.Logic.Function.Basic

namespace TwistSim

/-- Why a suspended thread is woken. -/
inductive WakeType where
  | futexWake | futexTimer | spurious | sleepTimer
  deriving DecidableEq, Repr

/-- `Timer` with its `TimerMeta`; `alarm` is the subclass, a `SleepTimer` or a
`FutexTimer`. -/
structure Timer where
  when : Int
  loc : Nat
  id : Nat
  alarm : WakeType
  deriving DecidableEq, Repr

def timerLimit : Nat := 256

/-- `tree_` and `size_`, and the timers that the pointers `α` point to. -/
structure TimerHeap (α : Type) where
  tree : Nat → Option α
  size : Nat
  timers : α → Timer

namespace TimerHeap

variable {α : Type} [DecidableEq α]

def less (a b : Timer) : Bool :=
  decide (a.when < b.when ∨ (a.when = b.when ∧ a.id < b.id))

/-- `Less` of the timers in two slots. -/
def lessAt (h : TimerHeap α) (i j : Nat) : Bool :=
  match h.tree i, h.tree j with
  | some a, some b => less (h.timers a) (h.timers b)
  | _, _ => false

def swap (h : TimerHeap α) (i j : Nat) : TimerHeap α :=
  { h with tree := Function.update (Function.update h.tree i (h.tree j)) j (h.tree i) }

def setLoc (h : TimerHeap α) (t : α) (loc : Nat) : TimerHeap α :=
  { h with timers := Function.update h.timers t { h.timers t with loc } }

def updateTimerMetadata (h : TimerHeap α) (index : Nat) : TimerHeap α :=
  match h.tree index with
  | some t => h.setLoc t index
  | none => h

/-- `SiftUp`; every turn halves the index, so `index` turns are enough. -/
def siftUp : Nat → Nat → TimerHeap α → TimerHeap α
  | 0, index, h => h.updateTimerMetadata index
  | fuel + 1, index, h =>
      if index = 1 then h.updateTimerMetadata index
      else if h.lessAt index (index / 2) then
        siftUp fuel (index / 2)
          ((h.swap index (index / 2)).updateTimerMetadata index)
      else h.updateTimerMetadata index

def isLeaf (h : TimerHeap α) (i : Nat) : Bool := decide (h.size < i * 2)

/-- The least of a slot and its children. -/
def minChild (h : TimerHeap α) (index : Nat) : Nat :=
  let left := index * 2
  let right := index * 2 + 1
  let min := if left ≤ h.size ∧ h.lessAt left index then left else index
  if right ≤ h.size ∧ h.lessAt right min then right else min

/-- `SiftDown`; every turn doubles the index, so `size` turns are enough. -/
def siftDown : Nat → Nat → TimerHeap α → TimerHeap α
  | 0, index, h => h.updateTimerMetadata index
  | fuel + 1, index, h =>
      if h.isLeaf index then h.updateTimerMetadata index
      else if h.minChild index ≠ index then
        siftDown fuel (h.minChild index)
          ((h.swap index (h.minChild index)).updateTimerMetadata index)
      else h.updateTimerMetadata index

def insert (h : TimerHeap α) (t : α) : Except Panic (TimerHeap α) :=
  if h.size + 1 < timerLimit then
    .ok (siftUp (h.size + 1) (h.size + 1)
      { h with
        size := h.size + 1
        tree := Function.update h.tree (h.size + 1) (some t) })
  else .error (.verify s!"Timer limit reached: {timerLimit}")

def isActive (h : TimerHeap α) (t : α) : Bool := decide (0 < (h.timers t).loc)

def isEmpty (h : TimerHeap α) : Bool := h.size == 0

/-- `Remove`.  On an empty heap `size_` underflows and `SiftDown` follows null
pointers. -/
def remove (h : TimerHeap α) (t : α) : Except Panic (TimerHeap α) :=
  let index := (h.timers t).loc
  if h.tree index = some t then
    if h.size = 0 then .error (.undefined "null timer")
    else
      .ok (siftDown (h.size - 1) index
        { h.setLoc t 0 with
          tree := Function.update h.tree index (h.tree h.size)
          size := h.size - 1 })
  else .error (.verify "Invalid timer index")

/-- `ExtractMin`.  The extracted timer keeps its slot number. -/
def extractMin (h : TimerHeap α) : Option α × TimerHeap α :=
  let h' :=
    { h with tree := Function.update h.tree 1 (h.tree h.size), size := h.size - 1 }
  (h.tree 1, if 0 < h'.size then siftDown h'.size 1 h' else h')

/-! ### What is stored -/

def inRange (h : TimerHeap α) (i : Nat) : Prop := 1 ≤ i ∧ i ≤ h.size

/-- The timer is in the heap. -/
def Stores (h : TimerHeap α) (t : α) : Prop :=
  ∃ i, h.inRange i ∧ h.tree i = some t

/-- Every slot in use but `hole` holds a timer that knows its slot; what is in
the hole is nowhere else. -/
structure IndexedExcept (h : TimerHeap α) (hole : Nat) : Prop where
  full : ∀ i, h.inRange i → ∃ t, h.tree i = some t
  loc : ∀ i t, h.inRange i → i ≠ hole → h.tree i = some t → (h.timers t).loc = i
  hole_ne : ∀ i, h.inRange i → i ≠ hole → h.tree i ≠ h.tree hole

/-- Every slot in use holds a timer that knows its slot. -/
structure Indexed (h : TimerHeap α) : Prop where
  full : ∀ i, h.inRange i → ∃ t, h.tree i = some t
  loc : ∀ i t, h.inRange i → h.tree i = some t → (h.timers t).loc = i

/-- Two heaps with the same timers stored, up to their slots. -/
structure SameTimers (h h' : TimerHeap α) : Prop where
  size : h'.size = h.size
  stores : ∀ t, h'.Stores t ↔ h.Stores t
  timers : ∀ t, { h'.timers t with loc := 0 } = { h.timers t with loc := 0 }

omit [DecidableEq α] in
theorem SameTimers.refl (h : TimerHeap α) : SameTimers h h where
  size := rfl
  stores _ := Iff.rfl
  timers _ := rfl

omit [DecidableEq α] in
theorem SameTimers.trans {h₁ h₂ h₃ : TimerHeap α} (h₁₂ : SameTimers h₁ h₂)
    (h₂₃ : SameTimers h₂ h₃) : SameTimers h₁ h₃ where
  size := h₂₃.size.trans h₁₂.size
  stores t := (h₂₃.stores t).trans (h₁₂.stores t)
  timers t := (h₂₃.timers t).trans (h₁₂.timers t)

theorem updateTimerMetadata_eq (h : TimerHeap α) (index : Nat) :
    (h.updateTimerMetadata index).tree = h.tree ∧
      (h.updateTimerMetadata index).size = h.size := by
  unfold updateTimerMetadata
  cases h.tree index with
  | none => exact ⟨rfl, rfl⟩
  | some t => exact ⟨rfl, rfl⟩

theorem updateTimerMetadata_timers (h : TimerHeap α) (index : Nat) (t : α) :
    (h.updateTimerMetadata index).timers t =
      if h.tree index = some t then { h.timers t with loc := index }
      else h.timers t := by
  unfold updateTimerMetadata
  cases hslot : h.tree index with
  | none => simp
  | some u =>
      by_cases htu : t = u
      · subst htu
        simp [setLoc]
      · simp [setLoc, Function.update_of_ne htu, Ne.symm htu]

theorem updateTimerMetadata_same (h : TimerHeap α) (index : Nat) :
    SameTimers h (h.updateTimerMetadata index) := by
  obtain ⟨htree, hsize⟩ := h.updateTimerMetadata_eq index
  refine ⟨hsize, fun t => ?_, fun t => ?_⟩
  · simp only [Stores, inRange, htree, hsize]
  · rw [updateTimerMetadata_timers]
    split <;> rfl

/-- Writing the slot number of the hole completes the index. -/
theorem IndexedExcept.close {h : TimerHeap α} {hole : Nat}
    (hidx : h.IndexedExcept hole) : (h.updateTimerMetadata hole).Indexed := by
  obtain ⟨htree, hsize⟩ := h.updateTimerMetadata_eq hole
  refine ⟨fun i hi => ?_, fun i t hi hslot => ?_⟩
  · rw [htree]
    exact hidx.full i (by rwa [inRange, hsize] at hi)
  · rw [inRange, hsize] at hi
    rw [htree] at hslot
    rw [updateTimerMetadata_timers]
    by_cases hhole : i = hole
    · subst hhole
      rw [if_pos hslot]
    · rw [if_neg fun heq => hidx.hole_ne i hi hhole (hslot.trans heq.symm)]
      exact hidx.loc i t hi hhole hslot

/-- Moving the hole from `i` to `j`. -/
theorem IndexedExcept.move {h : TimerHeap α} {i j : Nat}
    (hidx : h.IndexedExcept i) (hi : h.inRange i) (hj : h.inRange j)
    (hne : i ≠ j) :
    ((h.swap i j).updateTimerMetadata i).IndexedExcept j ∧
      SameTimers h ((h.swap i j).updateTimerMetadata i) := by
  obtain ⟨htree, hsize⟩ := (h.swap i j).updateTimerMetadata_eq i
  have hswap : ∀ k, (h.swap i j).tree k =
      if k = j then h.tree i else if k = i then h.tree j else h.tree k := by
    intro k
    simp only [swap, Function.update_apply]
  have hstores : ∀ t, (h.swap i j).Stores t ↔ h.Stores t := by
    intro t
    constructor
    · rintro ⟨k, hk, hslot⟩
      rw [hswap] at hslot
      split at hslot
      · exact ⟨i, hi, hslot⟩
      · split at hslot
        · exact ⟨j, hj, hslot⟩
        · exact ⟨k, hk, hslot⟩
    · rintro ⟨k, hk, hslot⟩
      by_cases hkj : k = j
      · exact ⟨i, hi, by rw [hswap, if_neg hne, if_pos rfl, ← hkj]; exact hslot⟩
      · by_cases hki : k = i
        · exact ⟨j, hj, by rw [hswap, if_pos rfl, ← hki]; exact hslot⟩
        · exact ⟨k, hk, by rw [hswap, if_neg hkj, if_neg hki]; exact hslot⟩
  have hsame : SameTimers h (h.swap i j) := ⟨rfl, hstores, fun _ => rfl⟩
  refine ⟨⟨fun k hk => ?_, fun k t hk hkj hslot => ?_, fun k hk hkj => ?_⟩,
    hsame.trans (updateTimerMetadata_same _ i)⟩
  · rw [inRange, hsize] at hk
    rw [htree, hswap]
    split
    · exact hidx.full i hi
    · split
      · exact hidx.full j hj
      · exact hidx.full k hk
  · rw [inRange, hsize] at hk
    rw [htree, hswap, if_neg hkj] at hslot
    rw [updateTimerMetadata_timers, hswap, if_neg hne, if_pos rfl]
    by_cases hki : k = i
    · rw [if_pos hki] at hslot
      rw [if_pos hslot, hki]
    · rw [if_neg hki] at hslot
      have hlocj : ∀ u, h.tree j = some u → (h.timers u).loc = j :=
        fun u hu => hidx.loc j u hj (Ne.symm hne) hu
      have hlock := hidx.loc k t hk hki hslot
      rw [if_neg fun heq => hkj (hlock.symm.trans (hlocj t heq))]
      exact hlock
  · rw [inRange, hsize] at hk
    rw [htree, hswap, hswap, if_neg hkj, if_pos rfl]
    by_cases hki : k = i
    · rw [if_pos hki]
      exact hidx.hole_ne j hj (Ne.symm hne)
    · rw [if_neg hki]
      exact hidx.hole_ne k hk hki

omit [DecidableEq α] in
theorem minChild_inRange {h : TimerHeap α} {index : Nat}
    (hne : h.minChild index ≠ index) (hindex : 1 ≤ index) :
    h.inRange index ∧ h.inRange (h.minChild index) := by
  unfold minChild at hne ⊢
  simp only [inRange] at *
  split at hne <;> split <;> grind

theorem siftDown_spec (fuel : Nat) {index : Nat} {h : TimerHeap α}
    (hidx : h.IndexedExcept index) (hindex : 1 ≤ index) :
    (siftDown fuel index h).Indexed ∧ SameTimers h (siftDown fuel index h) := by
  induction fuel generalizing index h with
  | zero => exact ⟨hidx.close, h.updateTimerMetadata_same index⟩
  | succ fuel ih =>
      rw [siftDown]
      split
      · exact ⟨hidx.close, h.updateTimerMetadata_same index⟩
      · split
        case isTrue hmin =>
          obtain ⟨hi, hj⟩ := minChild_inRange hmin hindex
          obtain ⟨hmoved, hsame⟩ := hidx.move hi hj (Ne.symm hmin)
          obtain ⟨hdone, hrest⟩ := ih hmoved hj.1
          exact ⟨hdone, hsame.trans hrest⟩
        case isFalse => exact ⟨hidx.close, h.updateTimerMetadata_same index⟩

theorem siftUp_spec (fuel : Nat) {index : Nat} {h : TimerHeap α}
    (hidx : h.IndexedExcept index) (hindex : h.inRange index) :
    (siftUp fuel index h).Indexed ∧ SameTimers h (siftUp fuel index h) := by
  induction fuel generalizing index h with
  | zero => exact ⟨hidx.close, h.updateTimerMetadata_same index⟩
  | succ fuel ih =>
      rw [siftUp]
      split
      case isTrue => exact ⟨hidx.close, h.updateTimerMetadata_same index⟩
      case isFalse hroot =>
        split
        case isTrue =>
          have hparent : h.inRange (index / 2) := by
            simp only [inRange] at hindex ⊢
            omega
          have hne : index ≠ index / 2 := by
            simp only [inRange] at hindex
            omega
          obtain ⟨hmoved, hsame⟩ := hidx.move hindex hparent hne
          have hparent' := hparent
          rw [inRange, ← hsame.size] at hparent'
          obtain ⟨hdone, hrest⟩ := ih hmoved hparent'
          exact ⟨hdone, hsame.trans hrest⟩
        case isFalse => exact ⟨hidx.close, h.updateTimerMetadata_same index⟩

/-! ### Operations on an indexed heap -/

omit [DecidableEq α] in
theorem Indexed.injective {h : TimerHeap α} (hidx : h.Indexed) {i j : Nat}
    {t : α} (hi : h.inRange i) (hj : h.inRange j) (hti : h.tree i = some t)
    (htj : h.tree j = some t) : i = j :=
  (hidx.loc i t hi hti).symm.trans (hidx.loc j t hj htj)

omit [DecidableEq α] in
theorem Indexed.isActive {h : TimerHeap α} (hidx : h.Indexed) {t : α}
    (ht : h.Stores t) : h.isActive t = true := by
  obtain ⟨i, hi, hslot⟩ := ht
  rw [TimerHeap.isActive, hidx.loc i t hi hslot]
  exact decide_eq_true hi.1

/-- The timers of `h'` are those of `h` that satisfy `P`; nothing else about
them has changed. -/
structure Becomes (h h' : TimerHeap α) (P : α → Prop) : Prop where
  indexed : h'.Indexed
  stores : ∀ u, h'.Stores u ↔ P u
  timers : ∀ u, { h'.timers u with loc := 0 } = { h.timers u with loc := 0 }

theorem insert_spec {h : TimerHeap α} (hidx : h.Indexed) {t : α}
    (hnew : ¬ h.Stores t) (hroom : h.size + 1 < timerLimit) :
    ∃ h', h.insert t = .ok h' ∧ h'.size = h.size + 1 ∧
      h.Becomes h' fun u => u = t ∨ h.Stores u := by
  rw [insert, if_pos hroom]
  generalize hgrown : ({ h with
    size := h.size + 1
    tree := Function.update h.tree (h.size + 1) (some t) } : TimerHeap α) = grown
  have hsize : grown.size = h.size + 1 := by rw [← hgrown]
  have htimers : grown.timers = h.timers := by rw [← hgrown]
  have hlast : grown.tree (h.size + 1) = some t := by simp [← hgrown]
  have hold : ∀ i, i ≠ h.size + 1 → grown.tree i = h.tree i := by
    intro i hi
    simp [← hgrown, Function.update_of_ne hi]
  have hrange : ∀ i, grown.inRange i → i ≠ h.size + 1 → h.inRange i := by
    intro i hi hne
    simp only [inRange, hsize] at hi ⊢
    omega
  have hexcept : grown.IndexedExcept (h.size + 1) := by
    refine ⟨fun i hi => ?_, fun i u hi hne hslot => ?_, fun i hi hne => ?_⟩
    · by_cases hne : i = h.size + 1
      · exact ⟨t, by rw [hne, hlast]⟩
      · rw [hold i hne]
        exact hidx.full i (hrange i hi hne)
    · rw [hold i hne] at hslot
      rw [htimers]
      exact hidx.loc i u (hrange i hi hne) hslot
    · rw [hold i hne, hlast]
      exact fun hslot => hnew ⟨i, hrange i hi hne, hslot⟩
  have hin : grown.inRange (h.size + 1) := by
    simp only [inRange, hsize]
    omega
  obtain ⟨hdone, hsame⟩ := siftUp_spec (h.size + 1) hexcept hin
  refine ⟨_, rfl, hsame.size.trans hsize, hdone, fun u => ?_, fun u => ?_⟩
  · rw [hsame.stores]
    constructor
    · rintro ⟨i, hi, hslot⟩
      by_cases hne : i = h.size + 1
      · rw [hne, hlast, Option.some.injEq] at hslot
        exact Or.inl hslot.symm
      · rw [hold i hne] at hslot
        exact Or.inr ⟨i, hrange i hi hne, hslot⟩
    · rintro (rfl | ⟨i, hi, hslot⟩)
      · exact ⟨h.size + 1, hin, hlast⟩
      · simp only [inRange] at hi
        refine ⟨i, by simp only [inRange, hsize]; omega, ?_⟩
        rw [hold i (by omega), hslot]
  · rw [hsame.timers, htimers]

omit [DecidableEq α] in
/-- Filling the slot of `t` with the last timer removes `t`. -/
theorem fill_spec {h : TimerHeap α} (hidx : h.Indexed) {t : α} {i : Nat}
    (hi : h.inRange i) (hslot : h.tree i = some t) (filled : TimerHeap α)
    (htree : filled.tree = Function.update h.tree i (h.tree h.size))
    (hsize : filled.size = h.size - 1)
    (hloc : ∀ u, u ≠ t → filled.timers u = h.timers u) :
    filled.IndexedExcept i ∧ ∀ u, filled.Stores u ↔ u ≠ t ∧ h.Stores u := by
  have hlast : h.inRange h.size := ⟨Nat.le_trans hi.1 hi.2, Nat.le_refl _⟩
  have hself : filled.tree i = h.tree h.size := by rw [htree, Function.update_self]
  have hother : ∀ j, j ≠ i → filled.tree j = h.tree j := by
    intro j hj
    rw [htree, Function.update_of_ne hj]
  have hshrink : ∀ j, filled.inRange j ↔ h.inRange j ∧ j ≠ h.size := by
    intro j
    simp only [inRange, hsize]
    simp only [inRange] at hi
    omega
  have hnot : ∀ j u, h.inRange j → j ≠ i → h.tree j = some u → u ≠ t := by
    rintro j u hj hji hju rfl
    exact hji (hidx.injective hj hi hju hslot)
  refine ⟨⟨fun j hj => ?_, fun j u hj hji hju => ?_, fun j hj hji => ?_⟩, fun u => ?_⟩
  · obtain ⟨hj, _⟩ := (hshrink j).mp hj
    by_cases hji : j = i
    · rw [hji, hself]
      exact hidx.full _ hlast
    · rw [hother j hji]
      exact hidx.full j hj
  · obtain ⟨hj, _⟩ := (hshrink j).mp hj
    rw [hother j hji] at hju
    rw [hloc u (hnot j u hj hji hju)]
    exact hidx.loc j u hj hju
  · obtain ⟨hj, hjlast⟩ := (hshrink j).mp hj
    rw [hother j hji, hself]
    obtain ⟨u, hu⟩ := hidx.full j hj
    exact fun heq => hjlast (hidx.injective hj hlast hu (heq ▸ hu))
  · constructor
    · rintro ⟨j, hj, hju⟩
      obtain ⟨hj, hjlast⟩ := (hshrink j).mp hj
      by_cases hji : j = i
      · rw [hji, hself] at hju
        exact ⟨hnot _ u hlast (fun heq => hjlast (hji.trans heq.symm)) hju,
          _, hlast, hju⟩
      · rw [hother j hji] at hju
        exact ⟨hnot j u hj hji hju, j, hj, hju⟩
    · rintro ⟨hut, j, hj, hju⟩
      have hji : j ≠ i := by
        rintro rfl
        rw [hslot, Option.some.injEq] at hju
        exact hut hju.symm
      by_cases hjlast : j = h.size
      · refine ⟨i, (hshrink i).mpr ⟨hi, fun heq => hji (hjlast.trans heq.symm)⟩, ?_⟩
        rw [hself, ← hjlast, hju]
      · exact ⟨j, (hshrink j).mpr ⟨hj, hjlast⟩, by rw [hother j hji, hju]⟩

theorem remove_spec {h : TimerHeap α} (hidx : h.Indexed) {t : α}
    (ht : h.Stores t) :
    ∃ h', h.remove t = .ok h' ∧ h'.size + 1 = h.size ∧
      h.Becomes h' fun u => u ≠ t ∧ h.Stores u := by
  obtain ⟨i, hi, hslot⟩ := ht
  have hloc := hidx.loc i t hi hslot
  have hpos : h.size ≠ 0 := by
    simp only [inRange] at hi
    omega
  rw [remove]
  simp only [hloc, hslot, if_true, hpos, if_false]
  obtain ⟨hexcept, hstores⟩ := fill_spec hidx hi hslot { h.setLoc t 0 with
      tree := Function.update h.tree i (h.tree h.size), size := h.size - 1 }
    rfl rfl fun u hu => by simp [setLoc, Function.update_of_ne hu]
  obtain ⟨hdone, hsame⟩ := siftDown_spec (h.size - 1) hexcept hi.1
  refine ⟨_, rfl, ?_, hdone, fun u => (hsame.stores u).trans (hstores u), fun u => ?_⟩
  · rw [hsame.size]
    exact Nat.succ_pred_eq_of_ne_zero hpos
  · rw [hsame.timers]
    by_cases hut : u = t
    · subst hut
      simp [setLoc]
    · simp [setLoc, Function.update_of_ne hut]

theorem extractMin_spec {h : TimerHeap α} (hidx : h.Indexed)
    (hpos : 0 < h.size) :
    ∃ t, h.tree 1 = some t ∧ h.Stores t ∧ h.extractMin.1 = some t ∧
      h.extractMin.2.size + 1 = h.size ∧
      h.Becomes h.extractMin.2 fun u => u ≠ t ∧ h.Stores u := by
  have hone : h.inRange 1 := ⟨Nat.le_refl 1, hpos⟩
  obtain ⟨t, hslot⟩ := hidx.full 1 hone
  refine ⟨t, hslot, ⟨1, hone, hslot⟩, hslot, ?_⟩
  obtain ⟨hexcept, hstores⟩ := fill_spec hidx hone hslot { h with
      tree := Function.update h.tree 1 (h.tree h.size), size := h.size - 1 }
    rfl rfl fun _ _ => rfl
  rw [extractMin]
  simp only
  split
  case isTrue =>
    obtain ⟨hdone, hsame⟩ := siftDown_spec (h.size - 1) hexcept (Nat.le_refl 1)
    refine ⟨?_, hdone, fun u => (hsame.stores u).trans (hstores u), hsame.timers⟩
    rw [hsame.size]
    exact Nat.succ_pred_eq_of_pos hpos
  case isFalse hlast =>
    refine ⟨Nat.succ_pred_eq_of_pos hpos, ⟨hexcept.full, fun i u hi => ?_⟩, hstores,
      fun _ => rfl⟩
    simp only [inRange] at hi
    omega

end TimerHeap

/-! ### The timer queue -/

structure TimerQueue (α : Type) where
  heap : TimerHeap α
  nextId : Nat

namespace TimerQueue

variable {α : Type} [DecidableEq α]

def empty (timers : α → Timer) : TimerQueue α :=
  ⟨⟨fun _ => none, 0, timers⟩, 0⟩

/-- A new timer object for the pointer `t`. -/
def create (q : TimerQueue α) (t : α) (when : Int) (alarm : WakeType) :
    TimerQueue α :=
  { q with heap.timers := Function.update q.heap.timers t ⟨when, 0, 0, alarm⟩ }

/-- `Add`; the id breaks ties. -/
def add (q : TimerQueue α) (t : α) : Except Panic (TimerQueue α) :=
  let heap := { q.heap with
    timers := Function.update q.heap.timers t
      { q.heap.timers t with id := q.nextId + 1 } }
  (heap.insert t).map fun heap => ⟨heap, q.nextId + 1⟩

def remove (q : TimerQueue α) (t : α) : Except Panic (Bool × TimerQueue α) :=
  if q.heap.isActive t then
    (q.heap.remove t).map fun heap => (true, { q with heap })
  else .ok (false, q)

def isEmpty (q : TimerQueue α) : Bool := q.heap.isEmpty

/-- `Min()->when`, when there is a timer. -/
def nextDeadLine (q : TimerQueue α) : Option Int :=
  if q.isEmpty then none else (q.heap.tree 1).map fun t => (q.heap.timers t).when

def poll (q : TimerQueue α) (now : Int) : Option α × TimerQueue α :=
  match q.nextDeadLine with
  | some when =>
      if when ≤ now then
        let (t, heap) := q.heap.extractMin
        (t, { q with heap })
      else (none, q)
  | none => (none, q)

omit [DecidableEq α] in
/-- The next deadline is that of the timer at the root. -/
theorem nextDeadLine_root {q : TimerQueue α} {when : Int}
    (h : q.nextDeadLine = some when) :
    0 < q.heap.size ∧ ∃ t, q.heap.tree 1 = some t ∧ (q.heap.timers t).when = when := by
  unfold nextDeadLine at h
  split at h
  · cases h
  · rename_i hempty
    refine ⟨?_, Option.map_eq_some_iff.mp h⟩
    simp only [isEmpty, TimerHeap.isEmpty, beq_iff_eq] at hempty
    omega

theorem poll_some {q q' : TimerQueue α} {now : Int} {t : α}
    (h : q.poll now = (some t, q')) :
    0 < q.heap.size ∧ q.heap.tree 1 = some t ∧ (q.heap.timers t).when ≤ now ∧
      q' = { q with heap := q.heap.extractMin.2 } := by
  unfold poll at h
  split at h
  · rename_i when hnext
    obtain ⟨hpos, u, htree, hwhen⟩ := nextDeadLine_root hnext
    split at h
    · rename_i hdue
      simp only [TimerHeap.extractMin, Prod.mk.injEq] at h
      obtain ⟨hroot, rfl⟩ := h
      rw [htree] at hroot
      cases hroot
      exact ⟨hpos, htree, hwhen.symm ▸ hdue, rfl⟩
    · cases h
  · cases h

def reset (q : TimerQueue α) : Except Panic (TimerQueue α) :=
  if q.isEmpty then .ok { q with nextId := 0 }
  else .error (.assertion "Non-empty timer queue")

end TimerQueue

end TwistSim
