/-
Consecutive extents: a list of starting points, each with a length, that fills
an interval of the naturals without gaps.
-/
import Mathlib.Data.List.Basic
import Mathlib.Order.Interval.Set.Basic
import Mathlib.Data.Set.BooleanAlgebra
import Mathlib.Order.CompletePartialOrder

namespace Extents

/-- The `n` points from `a` on. -/
def span (a n : Nat) : Set Nat := {x | a ≤ x ∧ x < a + n}

theorem disjoint_span {a n b k : Nat} (h : a + n ≤ b ∨ b + k ≤ a) :
    Disjoint (span a n) (span b k) := by
  rw [Set.disjoint_left]
  intro x ha hb
  simp only [span, Set.mem_ofPred_eq] at ha hb
  omega

theorem apart_of_disjoint {a n b k : Nat} (hn : 0 < n) (hk : 0 < k)
    (h : Disjoint (span a n) (span b k)) : a + n ≤ b ∨ b + k ≤ a := by
  rw [Set.disjoint_left] at h
  by_contra hover
  refine h (a := max a b) ?_ ?_ <;> simp only [span, Set.mem_ofPred_eq] <;> omega

theorem disjoint_span_zero (s : Set Nat) (b : Nat) : Disjoint s (span b 0) := by
  rw [Set.disjoint_right]
  intro x hb
  simp only [span, Set.mem_ofPred_eq] at hb
  omega

variable {len len' : Nat → Nat} {a b : Nat} {l : List Nat}

/-- The extents that start at the points of `l` fill the interval from `a` up to
`b`, in order. -/
def Tiles (len : Nat → Nat) : Nat → List Nat → Nat → Prop
  | a, [], b => a = b
  | a, x :: l, b => x = a ∧ Tiles len (a + len a) l b

namespace Tiles

theorem append (h : Tiles len a l b) : Tiles len a (l ++ [b]) (b + len b) := by
  induction l generalizing a with
  | nil => exact ⟨h.symm, by rw [h]; rfl⟩
  | cons x l ih => exact ⟨h.1, ih h.2⟩

theorem congr (hlen : ∀ x ∈ l, len' x = len x) (h : Tiles len a l b) :
    Tiles len' a l b := by
  induction l generalizing a with
  | nil => exact h
  | cons x l ih =>
    obtain ⟨rfl, hrest⟩ := h
    refine ⟨rfl, ?_⟩
    rw [hlen x List.mem_cons_self]
    exact ih (fun y hy => hlen y (List.mem_cons_of_mem _ hy)) hrest

theorem le (h : Tiles len a l b) : a ≤ b := by
  induction l generalizing a with
  | nil => exact Nat.le_of_eq h
  | cons x l ih => exact Nat.le_trans (Nat.le_add_right _ _) (ih h.2)

theorem bounds (h : Tiles len a l b) {x : Nat} (hx : x ∈ l) :
    a ≤ x ∧ x + len x ≤ b := by
  induction l generalizing a with
  | nil => cases hx
  | cons y l ih =>
    obtain ⟨rfl, hrest⟩ := h
    rcases List.mem_cons.mp hx with rfl | hx
    · exact ⟨Nat.le_refl _, hrest.le⟩
    · exact ⟨Nat.le_trans (Nat.le_add_right _ _) (ih hrest hx).1, (ih hrest hx).2⟩

theorem ordered (h : Tiles len a l b) : l.Pairwise fun x y => x + len x ≤ y := by
  induction l generalizing a with
  | nil => exact .nil
  | cons x l ih =>
    obtain ⟨rfl, hrest⟩ := h
    exact .cons (fun y hy => (hrest.bounds hy).1) (ih hrest)

/-- Two extents of a tiling are the same one or do not overlap. -/
theorem apart (h : Tiles len a l b) {x y : Nat} (hx : x ∈ l) (hy : y ∈ l)
    (hne : x ≠ y) : x + len x ≤ y ∨ y + len y ≤ x := by
  induction l generalizing a with
  | nil => cases hx
  | cons z l ih =>
    obtain ⟨rfl, hrest⟩ := h
    rcases List.mem_cons.mp hx with rfl | hxl <;> rcases List.mem_cons.mp hy with rfl | hyl
    · exact absurd rfl hne
    · exact .inl (hrest.bounds hyl).1
    · exact .inr (hrest.bounds hxl).1
    · exact ih hrest hxl hyl

theorem dvd {k : Nat} (h : Tiles len a l b) (ha : k ∣ a) (hlen : ∀ x ∈ l, k ∣ len x) :
    (∀ x ∈ l, k ∣ x) ∧ k ∣ b := by
  induction l generalizing a with
  | nil => exact ⟨nofun, h ▸ ha⟩
  | cons x l ih =>
    obtain ⟨rfl, hrest⟩ := h
    obtain ⟨hall, hend⟩ := ih hrest (Nat.dvd_add ha (hlen _ List.mem_cons_self))
      fun y hy => hlen y (List.mem_cons_of_mem _ hy)
    exact ⟨List.forall_mem_cons.mpr ⟨ha, hall⟩, hend⟩

end Tiles

/-- The number of points of an increasing list below a bound is where the list
crosses it. -/
theorem findIdx_le_crosses {l : List Nat} (hl : l.Pairwise (· < ·)) {x addr : Nat} {i : Nat}
    (hi : l[i]? = some x) : i < l.findIdx (fun y => addr ≤ y) ↔ x < addr := by
  induction l generalizing i with
  | nil => simp at hi
  | cons y l ih =>
    obtain ⟨hy, hl⟩ := List.pairwise_cons.mp hl
    rw [List.findIdx_cons]
    by_cases hle : addr ≤ y
    · simp only [hle, decide_true, cond_true]
      cases i with
      | zero =>
        obtain rfl : y = x := by simpa using hi
        omega
      | succ i =>
        have hx : x ∈ l := List.mem_of_getElem? (i := i) (by simpa using hi)
        have := hy x hx
        omega
    · simp only [hle, decide_false, cond_false]
      cases i with
      | zero =>
        obtain rfl : y = x := by simpa using hi
        omega
      | succ i =>
        rw [Nat.succ_lt_succ_iff]
        exact ih hl (by simpa using hi)

end Extents
