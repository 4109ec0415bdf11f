/-
Binary heaps as functions from slots to keys: the heap order with one slot out of
order, and what a swap with the parent or with the least child does to it.  Slots
are numbered from 1.
-/
import Mathlib.Order.Basic
import Mathlib.Order.Defs.LinearOrder
import Mathlib.Tactic.Common
import Mathlib.Order.Lattice

namespace TwistSim

namespace HeapOrder

variable {K : Type*} [LinearOrder K] {a : Nat → K} {n i j : Nat}

/-- No slot in use is less than its parent. -/
def IsHeap (a : Nat → K) (n : Nat) : Prop :=
  ∀ i, 2 ≤ i → i ≤ n → a (i / 2) ≤ a i

/-- The order with slot `i` perhaps less than its parent. -/
structure Rising (a : Nat → K) (n i : Nat) : Prop where
  except : ∀ k, 2 ≤ k → k ≤ n → k ≠ i → a (k / 2) ≤ a k
  grand : 2 ≤ i → ∀ k, k ≤ n → k / 2 = i → a (i / 2) ≤ a k

/-- The order with slot `i` perhaps greater than its children. -/
structure Sinking (a : Nat → K) (n i : Nat) : Prop where
  except : ∀ k, 2 ≤ k → k ≤ n → k / 2 ≠ i → a (k / 2) ≤ a k
  grand : 2 ≤ i → ∀ k, k ≤ n → k / 2 = i → a (i / 2) ≤ a k

/-- The keys after a swap. -/
def swapped (a : Nat → K) (i j : Nat) (k : Nat) : K :=
  if k = j then a i else if k = i then a j else a k

omit [LinearOrder K] in
theorem swapped_left (hne : i ≠ j) : swapped a i j i = a j := by
  rw [swapped, if_neg hne, if_pos rfl]

omit [LinearOrder K] in
theorem swapped_right : swapped a i j j = a i := if_pos rfl

omit [LinearOrder K] in
theorem swapped_of_ne {k : Nat} (hi : k ≠ i) (hj : k ≠ j) : swapped a i j k = a k := by
  rw [swapped, if_neg hj, if_neg hi]

theorem IsHeap.rising (h : IsHeap a n) : Rising a n i where
  except k hk hn _ := h k hk hn
  grand hi k hn hparent := by
    have hup := h k (by omega) hn
    rw [hparent] at hup
    exact (h i hi (by omega)).trans hup

theorem IsHeap.mono {m : Nat} (h : IsHeap a n) (hle : m ≤ n) : IsHeap a m :=
  fun i hi hm => h i hi (Nat.le_trans hm hle)

theorem IsHeap.sinking (h : IsHeap a n) : Sinking a n i where
  except k hk hn _ := h k hk hn
  grand := h.rising.grand

/-- Only the slots in use matter. -/
theorem IsHeap.congr {b : Nat → K} (h : IsHeap a n)
    (hsame : ∀ k, 1 ≤ k → k ≤ n → b k = a k) : IsHeap b n := by
  intro i hi hn
  rw [hsame i (by omega) hn, hsame (i / 2) (by omega) (by omega)]
  exact h i hi hn

/-- The least key is in the first slot. -/
theorem IsHeap.root_le (h : IsHeap a n) (hi : 1 ≤ i) (hn : i ≤ n) : a 1 ≤ a i := by
  induction i using Nat.strongRecOn with
  | ind i ih =>
      by_cases hroot : i = 1
      · rw [hroot]
      · have hparent := ih (i / 2) (by omega) (by omega) (by omega)
        exact hparent.trans (h i (by omega) hn)

theorem Rising.move (h : Rising a n i) (hi : 2 ≤ i) (hn : i ≤ n) (hless : a i < a (i / 2)) :
    Rising (swapped a i (i / 2)) n (i / 2) where
  except k hk hkn hne := by
    by_cases hki : k = i
    · subst hki
      rw [swapped_right, swapped_left (by omega)]
      exact hless.le
    · rw [swapped_of_ne hki hne]
      by_cases hchild : k / 2 = i
      · rw [hchild, swapped_left (by omega)]
        exact h.grand hi k hkn hchild
      · have hup := h.except k hk hkn hki
        by_cases hsibling : k / 2 = i / 2
        · rw [hsibling, swapped_right]
          exact hless.le.trans (hsibling ▸ hup)
        · rwa [swapped_of_ne hchild hsibling]
  grand hparent k hkn hchild := by
    have hup := h.except (i / 2) hparent (by omega) (by omega)
    rw [swapped_of_ne (by omega) (by omega)]
    by_cases hki : k = i
    · rw [hki, swapped_left (by omega)]
      exact hup
    · rw [swapped_of_ne hki (by omega)]
      have hsibling := h.except k (by omega) hkn hki
      rw [hchild] at hsibling
      exact hup.trans hsibling

theorem Rising.done (h : Rising a n i) (hstop : 2 ≤ i → i ≤ n → a (i / 2) ≤ a i) :
    IsHeap a n := by
  intro k hk hkn
  by_cases hki : k = i
  · rw [hki]
    exact hstop (hki ▸ hk) (hki ▸ hkn)
  · exact h.except k hk hkn hki

/-- The swap with the least child. -/
theorem Sinking.move (h : Sinking a n i) (hi : 1 ≤ i) (hj : j / 2 = i) (hn : j ≤ n)
    (hless : a j < a i) (hleast : ∀ k, k ≤ n → k / 2 = i → a j ≤ a k) :
    Sinking (swapped a i j) n j where
  except k hk hkn hne := by
    by_cases hkj : k = j
    · rw [hkj, hj, swapped_right, swapped_left (by omega)]
      exact hless.le
    · by_cases hki : k = i
      · rw [hki, swapped_left (by omega), swapped_of_ne (by omega) (by omega)]
        exact h.grand (hki ▸ hk) j hn hj
      · rw [swapped_of_ne hki hkj]
        by_cases hsibling : k / 2 = i
        · rw [hsibling, swapped_left (by omega)]
          exact hleast k hkn hsibling
        · rw [swapped_of_ne hsibling hne]
          exact h.except k hk hkn hsibling
  grand _ k hkn hchild := by
    rw [hj, swapped_left (by omega), swapped_of_ne (by omega) (by omega)]
    have hup := h.except k (by omega) hkn (by omega)
    rwa [hchild] at hup

theorem Sinking.done (h : Sinking a n i)
    (hstop : ∀ k, k ≤ n → k / 2 = i → 2 ≤ k → a i ≤ a k) : IsHeap a n := by
  intro k hk hkn
  by_cases hchild : k / 2 = i
  · rw [hchild]
    exact hstop k hkn hchild hk
  · exact h.except k hk hkn hchild

/-- A key that is put into a slot of a heap leaves the order below and above it. -/
theorem IsHeap.put (h : IsHeap a n) {key : K} (hup : 2 ≤ i → a (i / 2) ≤ key) :
    Sinking (fun k => if k = i then key else a k) n i where
  except k hk hkn hne := by
    have hold := h k hk hkn
    by_cases hki : k = i
    · subst hki
      rw [if_pos rfl, if_neg (by omega)]
      exact hup hk
    · rwa [if_neg hki, if_neg hne]
  grand hi k hkn hchild := by
    rw [if_neg (by omega), if_neg (by omega)]
    exact (h.rising (i := i)).grand hi k hkn hchild

end HeapOrder

end TwistSim
