/-
In which order the timer heap keeps its timers: what the sifts establish, and what
`Insert`, `Remove` and `ExtractMin` keep.
-/
import TwistSim.HeapOrder
import TwistSim.TimerHeap
import Mathlib.Data.Prod.Lex

namespace TwistSim

open HeapOrder

namespace TimerHeap

variable {α : Type} [DecidableEq α] {h : TimerHeap α} {index : Nat}

/-! ### What is compared -/

/-- By deadline, then by id. -/
def rank (t : Timer) : Int ×ₗ Nat := toLex (t.when, t.id)

theorem less_iff {a b : Timer} : less a b = true ↔ rank a < rank b := by
  rw [less, decide_eq_true_iff, rank, rank, Prod.Lex.toLex_lt_toLex]

/-- The rank of the timer in a slot. -/
def key (h : TimerHeap α) (i : Nat) : Int ×ₗ Nat :=
  match h.tree i with
  | some t => rank (h.timers t)
  | none => toLex (0, 0)

omit [DecidableEq α] in
theorem key_eq {i : Nat} {t : α} (hslot : h.tree i = some t) :
    h.key i = rank (h.timers t) := by
  rw [key, hslot]

/-- Every slot in use holds a timer. -/
def Full (h : TimerHeap α) : Prop := ∀ i, h.inRange i → ∃ t, h.tree i = some t

def Ordered (h : TimerHeap α) : Prop := IsHeap h.key h.size

omit [DecidableEq α] in
theorem Full.lessAt_iff {i j : Nat} (hfull : h.Full) (hi : h.inRange i)
    (hj : h.inRange j) : h.lessAt i j = true ↔ h.key i < h.key j := by
  obtain ⟨t, ht⟩ := hfull i hi
  obtain ⟨u, hu⟩ := hfull j hj
  rw [lessAt, ht, hu, key_eq ht, key_eq hu]
  exact less_iff

omit [DecidableEq α] in
theorem key_swap (h : TimerHeap α) (i j : Nat) : (h.swap i j).key = swapped h.key i j := by
  funext k
  by_cases hj : k = j
  · simp only [key, swap, swapped, hj, Function.update_self, if_true]
  · by_cases hi : k = i
    · simp only [key, swap, swapped, hi ▸ hj, hi, Function.update_of_ne (hi ▸ hj),
        Function.update_self, if_true, if_false]
    · simp only [key, swap, swapped, hj, hi, Function.update_of_ne hj,
        Function.update_of_ne hi, if_false]

theorem key_updateTimerMetadata (h : TimerHeap α) (i : Nat) :
    (h.updateTimerMetadata i).key = h.key := by
  funext k
  obtain ⟨htree, -⟩ := h.updateTimerMetadata_eq i
  rw [key, key, htree]
  cases h.tree k with
  | none => rfl
  | some t =>
      dsimp only
      rw [updateTimerMetadata_timers]
      split <;> rfl

theorem Full.updateTimerMetadata (hfull : h.Full) (i : Nat) :
    (h.updateTimerMetadata i).Full := by
  obtain ⟨htree, hsize⟩ := h.updateTimerMetadata_eq i
  intro k hk
  rw [htree]
  exact hfull k (by rwa [inRange, hsize] at hk)

omit [DecidableEq α] in
theorem Full.swap {i j : Nat} (hfull : h.Full) (hi : h.inRange i) (hj : h.inRange j) :
    (h.swap i j).Full := by
  intro k hk
  simp only [TimerHeap.swap, Function.update_apply]
  split
  · exact hfull i hi
  · split
    · exact hfull j hj
    · exact hfull k hk

theorem ordered_updateTimerMetadata {i : Nat} (hord : IsHeap h.key h.size) :
    (h.updateTimerMetadata i).Ordered := by
  rw [Ordered, key_updateTimerMetadata, (h.updateTimerMetadata_eq i).2]
  exact hord

/-! ### The sifts -/

theorem siftUp_ordered (fuel : Nat) (hfull : h.Full) (hin : h.inRange index)
    (hfuel : index ≤ fuel) (hrise : Rising h.key h.size index) :
    (siftUp fuel index h).Ordered := by
  induction fuel generalizing index h with
  | zero => exact absurd (Nat.le_trans hin.1 hfuel) (Nat.lt_irrefl 0)
  | succ fuel ih =>
      rw [siftUp]
      split
      case isTrue hroot =>
        exact ordered_updateTimerMetadata (hrise.done fun hi => by omega)
      case isFalse hroot =>
        have htwo : 2 ≤ index := by
          have := hin.1
          omega
        have hparent : h.inRange (index / 2) := by
          simp only [inRange] at hin ⊢
          omega
        split
        case isTrue hless =>
          rw [hfull.lessAt_iff hin hparent] at hless
          have hmoved := hrise.move htwo hin.2 hless
          rw [← key_swap, ← key_updateTimerMetadata _ index] at hmoved
          obtain ⟨-, hsize⟩ := (h.swap index (index / 2)).updateTimerMetadata_eq index
          refine ih ((hfull.swap hin hparent).updateTimerMetadata index) ?_ (by omega) ?_
          · rw [inRange, hsize]
            exact hparent
          · rw [hsize]
            exact hmoved
        case isFalse hless =>
          rw [hfull.lessAt_iff hin hparent] at hless
          exact ordered_updateTimerMetadata (hrise.done fun _ _ => not_lt.mp hless)

omit [DecidableEq α] in
/-- What `SiftDown` chooses. -/
theorem minChild_spec (hfull : h.Full) (hindex : 1 ≤ index) (hinner : index * 2 ≤ h.size) :
    (h.minChild index = index ∧ ∀ k, k ≤ h.size → k / 2 = index → h.key index ≤ h.key k) ∨
      (h.minChild index ≠ index ∧ h.minChild index / 2 = index ∧
        h.minChild index ≤ h.size ∧ h.key (h.minChild index) < h.key index ∧
        ∀ k, k ≤ h.size → k / 2 = index → h.key (h.minChild index) ≤ h.key k) := by
  have hself : h.inRange index := ⟨hindex, by omega⟩
  have hleft : h.inRange (index * 2) := ⟨by omega, hinner⟩
  have hchildren : ∀ k, k / 2 = index → k = index * 2 ∨ k = index * 2 + 1 := by
    intro k hk
    omega
  have hleast : ∀ {key}, key ≤ h.key (index * 2) →
      (index * 2 + 1 ≤ h.size → key ≤ h.key (index * 2 + 1)) →
      ∀ k, k ≤ h.size → k / 2 = index → key ≤ h.key k := by
    intro key hl hr k hk hparent
    rcases hchildren k hparent with rfl | rfl
    · exact hl
    · exact hr hk
  unfold minChild
  dsimp only
  by_cases hl : h.lessAt (index * 2) index = true
  · have hlt := (hfull.lessAt_iff hleft hself).mp hl
    have hmin : (if index * 2 ≤ h.size ∧ h.lessAt (index * 2) index = true
        then index * 2 else index) = index * 2 := if_pos ⟨hinner, hl⟩
    rw [hmin]
    by_cases hr : index * 2 + 1 ≤ h.size
    · have hright : h.inRange (index * 2 + 1) := ⟨by omega, hr⟩
      by_cases hrl : h.lessAt (index * 2 + 1) (index * 2) = true
      · have hrlt := (hfull.lessAt_iff hright hleft).mp hrl
        rw [if_pos ⟨hr, hrl⟩]
        exact Or.inr ⟨by omega, by omega, hr, hrlt.trans hlt,
          hleast hrlt.le fun _ => le_refl _⟩
      · have hrle := not_lt.mp fun hlt => hrl ((hfull.lessAt_iff hright hleft).mpr hlt)
        rw [if_neg fun hboth => hrl hboth.2]
        exact Or.inr ⟨by omega, by omega, hinner, hlt, hleast (le_refl _) fun _ => hrle⟩
    · rw [if_neg fun hboth => hr hboth.1]
      exact Or.inr ⟨by omega, by omega, hinner, hlt,
        hleast (le_refl _) fun hr' => absurd hr' hr⟩
  · have hle := not_lt.mp fun hlt => hl ((hfull.lessAt_iff hleft hself).mpr hlt)
    have hmin : (if index * 2 ≤ h.size ∧ h.lessAt (index * 2) index = true
        then index * 2 else index) = index := if_neg fun hboth => hl hboth.2
    rw [hmin]
    by_cases hr : index * 2 + 1 ≤ h.size
    · have hright : h.inRange (index * 2 + 1) := ⟨by omega, hr⟩
      by_cases hrl : h.lessAt (index * 2 + 1) index = true
      · have hrlt := (hfull.lessAt_iff hright hself).mp hrl
        rw [if_pos ⟨hr, hrl⟩]
        exact Or.inr ⟨by omega, by omega, hr, hrlt,
          hleast (hrlt.le.trans hle) fun _ => le_refl _⟩
      · have hrle := not_lt.mp fun hlt => hrl ((hfull.lessAt_iff hright hself).mpr hlt)
        rw [if_neg fun hboth => hrl hboth.2]
        exact Or.inl ⟨rfl, hleast hle fun _ => hrle⟩
    · rw [if_neg fun hboth => hr hboth.1]
      exact Or.inl ⟨rfl, hleast hle fun hr' => absurd hr' hr⟩

theorem siftDown_ordered (fuel : Nat) (hfull : h.Full) (hindex : 1 ≤ index)
    (hfuel : h.size ≤ index + fuel) (hsink : Sinking h.key h.size index) :
    (siftDown fuel index h).Ordered := by
  have hleaf : h.size < index * 2 → IsHeap h.key h.size :=
    fun hlt => hsink.done fun k hk hchild _ => by omega
  induction fuel generalizing index h with
  | zero => exact ordered_updateTimerMetadata (hleaf (by omega))
  | succ fuel ih =>
      rw [siftDown]
      split
      case isTrue hend =>
        exact ordered_updateTimerMetadata (hleaf (of_decide_eq_true hend))
      case isFalse hend =>
        have hinner : index * 2 ≤ h.size := by
          rw [isLeaf, decide_eq_true_iff] at hend
          omega
        rcases minChild_spec hfull hindex hinner with
          ⟨hsame, hstop⟩ | ⟨hne, hchild, hn, hless, hleast⟩
        · rw [if_neg (by rw [hsame]; exact fun hne => hne rfl)]
          exact ordered_updateTimerMetadata (hsink.done fun k hk hparent _ =>
            hstop k hk hparent)
        · rw [if_pos hne]
          have hmoved := hsink.move hindex hchild hn hless hleast
          rw [← key_swap, ← key_updateTimerMetadata _ index] at hmoved
          have hin : h.inRange index := ⟨hindex, by omega⟩
          have hmin : h.inRange (h.minChild index) := ⟨by omega, hn⟩
          obtain ⟨-, hsize⟩ :=
            (h.swap index (h.minChild index)).updateTimerMetadata_eq index
          have hsize' : ((h.swap index (h.minChild index)).updateTimerMetadata index).size =
            h.size := hsize
          refine ih ((hfull.swap hin hmin).updateTimerMetadata index) hmin.1 ?_ ?_ ?_
          · rw [hsize']
            omega
          · rw [hsize']
            exact hmoved
          · intro hlt
            rw [hsize'] at hlt ⊢
            exact hmoved.done fun k hk hparent _ => by omega

/-- Where no child is less there is nothing to do. -/
theorem siftDown_stuck (fuel : Nat) (hfull : h.Full) (hindex : 1 ≤ index)
    (hstop : ∀ k, k ≤ h.size → k / 2 = index → h.key index ≤ h.key k) :
    siftDown fuel index h = h.updateTimerMetadata index := by
  cases fuel with
  | zero => rfl
  | succ fuel =>
      rw [siftDown]
      split
      case isTrue => rfl
      case isFalse hend =>
        have hinner : index * 2 ≤ h.size := by
          rw [isLeaf, decide_eq_true_iff] at hend
          omega
        rcases minChild_spec hfull hindex hinner with ⟨hsame, -⟩ | ⟨-, hchild, hn, hless, -⟩
        · rw [if_neg (by rw [hsame]; exact fun hne => hne rfl)]
        · exact absurd (hstop _ hn hchild) (not_le.mpr hless)

/-! ### The operations -/

omit [DecidableEq α] in
theorem Indexed.fullHeap (hidx : h.Indexed) : h.Full := hidx.full

omit [DecidableEq α] in
/-- A change of timers that are not stored. -/
theorem Ordered.congr {h' : TimerHeap α} (hord : h.Ordered) (htree : h'.tree = h.tree)
    (hsize : h'.size = h.size)
    (hsame : ∀ u, h.Stores u → rank (h'.timers u) = rank (h.timers u)) : h'.Ordered := by
  rw [Ordered, hsize]
  refine IsHeap.congr hord fun k hpos hn => ?_
  rw [key, key, htree]
  cases hslot : h.tree k with
  | none => rfl
  | some u => exact hsame u ⟨k, ⟨hpos, hn⟩, hslot⟩

theorem insert_ordered {t : α} {h' : TimerHeap α} (hidx : h.Indexed) (hord : h.Ordered)
    (hinsert : h.insert t = .ok h') : h'.Ordered := by
  unfold insert at hinsert
  split at hinsert
  case isFalse => cases hinsert
  case isTrue =>
    cases hinsert
    generalize hgrown : ({ h with
      size := h.size + 1
      tree := Function.update h.tree (h.size + 1) (some t) } : TimerHeap α) = grown
    have hsize : grown.size = h.size + 1 := by rw [← hgrown]
    have hold : ∀ i, i ≠ h.size + 1 → grown.tree i = h.tree i := by
      intro i hi
      simp only [← hgrown, Function.update_of_ne hi]
    have hkey : ∀ i, i ≠ h.size + 1 → grown.key i = h.key i := by
      intro i hi
      rw [key, key, hold i hi, ← hgrown]
    have hfull : grown.Full := by
      intro i hi
      by_cases hlast : i = h.size + 1
      · exact ⟨t, by simp only [← hgrown, hlast, Function.update_self]⟩
      · rw [hold i hlast]
        refine hidx.full i ⟨hi.1, ?_⟩
        have := hi.2
        omega
    refine siftUp_ordered _ hfull ⟨by omega, by omega⟩ (Nat.le_refl _) ?_
    constructor
    · intro k hk hn hne
      rw [hsize] at hn
      rw [hkey k hne, hkey (k / 2) (by omega)]
      exact hord k hk (by omega)
    · intro _ k hn hchild
      rw [hsize] at hn
      omega

omit [DecidableEq α] in
/-- The keys after the last timer was put into slot `i`. -/
theorem key_fill {filled : TimerHeap α} {i : Nat} (hlast : h.inRange h.size)
    (hidx : h.Indexed)
    (htree : filled.tree = Function.update h.tree i (h.tree h.size))
    (htimers : ∀ u, rank (filled.timers u) = rank (h.timers u)) :
    filled.key = fun k => if k = i then h.key h.size else h.key k := by
  funext k
  obtain ⟨last, hslot⟩ := hidx.full _ hlast
  by_cases hk : k = i
  · rw [if_pos hk, key, htree, hk, Function.update_self, key, hslot]
    exact htimers last
  · rw [if_neg hk, key, htree, Function.update_of_ne hk, key]
    cases h.tree k with
    | none => rfl
    | some u => exact htimers u

theorem extractMin_ordered (hidx : h.Indexed) (hord : h.Ordered) (hpos : 0 < h.size) :
    h.extractMin.2.Ordered := by
  rw [extractMin]
  dsimp only
  split
  case isFalse hempty =>
    intro k hk hn
    exact absurd (Nat.le_trans hk hn) (by dsimp only; omega)
  case isTrue hsome =>
    obtain ⟨t, hslot⟩ := hidx.full 1 ⟨Nat.le_refl 1, hpos⟩
    generalize hfilled : ({ h with
      tree := Function.update h.tree 1 (h.tree h.size), size := h.size - 1 } :
        TimerHeap α) = filled
    have hsize : filled.size = h.size - 1 := by rw [← hfilled]
    obtain ⟨hexcept, -⟩ := fill_spec hidx ⟨Nat.le_refl 1, hpos⟩ hslot filled
      (by rw [← hfilled]) hsize fun _ _ => by rw [← hfilled]
    refine siftDown_ordered _ hexcept.full (Nat.le_refl 1) (by omega) ?_
    rw [key_fill ⟨hpos, Nat.le_refl _⟩ hidx (by rw [← hfilled]) fun _ => by rw [← hfilled],
      hsize]
    exact IsHeap.put (hord.mono (Nat.sub_le _ _)) fun htwo => absurd htwo (by decide)

/-- The last timer, which takes the place of `t`, is less than the parent of `t`. -/
def rises (h : TimerHeap α) (t : α) : Bool :=
  decide (1 < (h.timers t).loc ∧ (h.timers t).loc < h.size) &&
    h.lessAt h.size ((h.timers t).loc / 2)

/-- `Remove` sifts in one direction only. -/
theorem remove_ordered_iff {t : α} {h' : TimerHeap α} (hidx : h.Indexed)
    (hord : h.Ordered) (ht : h.Stores t) (hremove : h.remove t = .ok h') :
    h'.Ordered ↔ h.rises t = false := by
  obtain ⟨i, hi, hslot⟩ := ht
  have hloc := hidx.loc i t hi hslot
  have hlast : h.inRange h.size := ⟨Nat.le_trans hi.1 hi.2, Nat.le_refl _⟩
  have hpos : h.size ≠ 0 := Nat.ne_of_gt (Nat.lt_of_lt_of_le hi.1 hi.2)
  unfold remove at hremove
  simp only [hloc, hslot, if_true, hpos, if_false] at hremove
  cases hremove
  generalize hfilled : ({ h.setLoc t 0 with
    tree := Function.update h.tree i (h.tree h.size), size := h.size - 1 } :
      TimerHeap α) = filled
  have hsize : filled.size = h.size - 1 := by rw [← hfilled]
  have htimers : ∀ u, rank (filled.timers u) = rank (h.timers u) := by
    intro u
    rw [← hfilled]
    by_cases hu : u = t
    · rw [hu, setLoc]
      simp only [Function.update_self]
      rfl
    · simp only [setLoc, Function.update_of_ne hu]
  have hkey := @key_fill α h filled i hlast hidx (by rw [← hfilled]) htimers
  obtain ⟨hexcept, -⟩ := fill_spec hidx hi hslot filled (by rw [← hfilled]) hsize
    fun u hu => by rw [← hfilled]; exact Function.update_of_ne hu _ _
  have hrises : h.rises t = true ↔ 1 < i ∧ i < h.size ∧ h.key h.size < h.key (i / 2) := by
    rw [rises, hloc, Bool.and_eq_true, decide_eq_true_iff, and_assoc]
    refine and_congr_right fun hone => and_congr_right fun _ => ?_
    refine hidx.fullHeap.lessAt_iff hlast ⟨by omega, ?_⟩
    have := hi.2
    omega
  have hdown : Sinking filled.key filled.size i → (siftDown (h.size - 1) i filled).Ordered :=
    siftDown_ordered _ hexcept.full hi.1 (by omega)
  constructor
  · intro hordered
    refine Bool.eq_false_of_not_eq_true fun hr => ?_
    obtain ⟨hone, hlt, hless⟩ := hrises.mp hr
    have hfirst : filled.key i = h.key h.size := by rw [hkey]; exact if_pos rfl
    have hrest : ∀ k, k ≠ i → filled.key k = h.key k := by
      intro k hk
      rw [hkey]
      exact if_neg hk
    have hstuck := siftDown_stuck (h.size - 1) hexcept.full hi.1 fun k hk hchild => by
      rw [hfirst, hrest k (by omega)]
      have hgrand := (IsHeap.rising hord (i := i)).grand hone k (by omega) hchild
      exact (hless.le).trans hgrand
    rw [hstuck, Ordered, key_updateTimerMetadata, (filled.updateTimerMetadata_eq i).2,
      hsize] at hordered
    have hup := hordered i hone (by omega)
    rw [hfirst, hrest (i / 2) (by omega)] at hup
    exact absurd hless (not_lt.mpr hup)
  · intro hr
    refine hdown ?_
    rw [hkey, hsize]
    by_cases hlt : i < h.size
    · refine IsHeap.put (hord.mono (Nat.sub_le _ _)) fun htwo => not_lt.mp fun hless => ?_
      rw [hrises.mpr ⟨htwo, hlt, hless⟩] at hr
      cases hr
    · refine (IsHeap.congr (hord.mono (Nat.sub_le _ 1)) fun k _ hn => if_neg ?_).sinking
      omega

end TimerHeap

end TwistSim
