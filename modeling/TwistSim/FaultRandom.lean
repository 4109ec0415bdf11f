/-
The random choices of fault injection: numbers in a range, an item of an intrusive
list, an order of all its items.  The numbers that are drawn are arbitrary.
-/
import Mathlib.Data.List.Perm.Basic
import Mathlib.Data.List.Nodup

namespace TwistSim

namespace FaultRandom

universe u

/-- From 0 to `max`. -/
def randomUInteger (max draw : Nat) : Nat := draw % (max + 1)

/-- From `lo` to `hi`. -/
def randomUIntegerIn (lo hi draw : Nat) : Nat := lo + randomUInteger (hi - lo) draw

variable {α : Type u}

/-- The items that are left beside the one that was unlinked. -/
def unlinkRandomItem (items : List α) (draw : Nat) : Option (α × List α) :=
  let index := randomUInteger (items.length - 1) draw
  items[index]?.map fun item => (item, items.eraseIdx index)

theorem unlinkRandomItem_perm {items rest : List α} {item : α} {draw : Nat}
    (h : unlinkRandomItem items draw = some (item, rest)) :
    (item :: rest).Perm items := by
  obtain ⟨found, hfound, heq⟩ := Option.map_eq_some_iff.mp h
  cases heq
  obtain ⟨hlt, rfl⟩ := List.getElem?_eq_some_iff.mp hfound
  exact List.getElem_cons_eraseIdx_perm hlt

theorem unlinkRandomItem_eq_none {items : List α} {draw : Nat}
    (h : unlinkRandomItem items draw = none) : items = [] := by
  have hout := List.getElem?_eq_none_iff.mp (Option.map_eq_none_iff.mp h)
  cases items with
  | nil => rfl
  | cons item rest =>
      have hlt : randomUInteger ((item :: rest).length - 1) draw < rest.length + 1 :=
        Nat.mod_lt _ (Nat.succ_pos _)
      exact absurd hlt (Nat.not_lt.mpr hout)

/-- `std::swap(items[i], items[j])`. -/
def swapItems (items : List α) (i j : Nat) : List α :=
  match items[i]?, items[j]? with
  | some x, some y => (items.set i y).set j x
  | _, _ => items

theorem swapItems_perm (items : List α) (i j : Nat) : (swapItems items i j).Perm items := by
  unfold swapItems
  split
  · rename_i x y hx hy
    obtain ⟨hi, rfl⟩ := List.getElem?_eq_some_iff.mp hx
    obtain ⟨hj, rfl⟩ := List.getElem?_eq_some_iff.mp hy
    exact List.set_set_perm hi hj
  · exact List.Perm.refl items

/-- The Fisher–Yates shuffle of the positions `i`, `i - 1`, .., 1. -/
def randomShuffleFrom (draws : Nat → Nat) : Nat → List α → List α
  | 0, items => items
  | i + 1, items =>
      randomShuffleFrom draws i
        (swapItems items (i + 1) (randomUInteger (i + 1) (draws (i + 1))))

theorem randomShuffleFrom_perm (draws : Nat → Nat) (i : Nat) (items : List α) :
    (randomShuffleFrom draws i items).Perm items := by
  induction i generalizing items with
  | zero => exact List.Perm.refl items
  | succ i ih => exact (ih _).trans (swapItems_perm items _ _)

def randomShuffleInplace (draws : Nat → Nat) (items : List α) : List α :=
  randomShuffleFrom draws (items.length - 1) items

/-- `ShuffleToVector` empties the list. -/
def shuffleToVector (draws : Nat → Nat) (items : List α) : List α × List α :=
  (randomShuffleInplace draws items, [])

theorem shuffleToVector_perm (draws : Nat → Nat) (items : List α) :
    (shuffleToVector draws items).1.Perm items :=
  randomShuffleFrom_perm draws _ items

end FaultRandom

end TwistSim
