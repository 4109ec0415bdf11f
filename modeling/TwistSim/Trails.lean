/-
Segments of singly linked lists: the cells that a walk along the links visits.  A store
to a cell outside of a segment does not disturb it.
-/
import Mathlib.Logic.Function.Basic
import Mathlib.Data.List.Basic

namespace TwistSim

universe u

variable {α : Type u} {next next' : α → Option α} {p q r : Option α} {l l' : List α}
  {a : α}

/-- From `p`, the links lead along `l` to `q`. -/
def Trail (next : α → Option α) : Option α → List α → Option α → Prop
  | p, [], q => p = q
  | p, a :: l, q => p = some a ∧ Trail next (next a) l q

theorem Trail.congr (h : Trail next p l q) (hsame : ∀ a ∈ l, next' a = next a) :
    Trail next' p l q := by
  induction l generalizing p with
  | nil => exact h
  | cons a l ih =>
      obtain ⟨hp, hrest⟩ := h
      refine ⟨hp, ?_⟩
      rw [hsame a List.mem_cons_self]
      exact ih hrest fun b hb => hsame b (List.mem_cons_of_mem a hb)

/-- A store outside of the segment. -/
theorem Trail.update [DecidableEq α] (h : Trail next p l q) (ha : a ∉ l)
    (x : Option α) : Trail (Function.update next a x) p l q := by
  refine h.congr fun b hb => ?_
  have hne : b ≠ a := fun heq => ha (heq ▸ hb)
  rw [Function.update_of_ne hne]

theorem trail_append : Trail next p (l ++ l') r ↔
    ∃ q, Trail next p l q ∧ Trail next q l' r := by
  induction l generalizing p with
  | nil => exact ⟨fun h => ⟨p, rfl, h⟩, fun ⟨_, hq, h⟩ => hq ▸ h⟩
  | cons a l ih =>
      constructor
      · rintro ⟨hp, hrest⟩
        obtain ⟨q, hl, hl'⟩ := ih.mp hrest
        exact ⟨q, ⟨hp, hl⟩, hl'⟩
      · rintro ⟨q, ⟨hp, hl⟩, hl'⟩
        exact ⟨hp, ih.mpr ⟨q, hl, hl'⟩⟩

theorem Trail.append (h : Trail next p l q) (h' : Trail next q l' r) :
    Trail next p (l ++ l') r :=
  trail_append.mpr ⟨q, h, h'⟩

/-- The last cell of a segment. -/
theorem trail_concat : Trail next p (l ++ [a]) q ↔
    Trail next p l (some a) ∧ next a = q := by
  rw [trail_append]
  constructor
  · rintro ⟨r, hl, rfl, hq⟩
    exact ⟨hl, hq⟩
  · rintro ⟨hl, hq⟩
    exact ⟨some a, hl, rfl, hq⟩

theorem Trail.eq_nil (h : Trail next none l q) : l = [] := by
  cases l with
  | nil => rfl
  | cons a l => cases h.1

theorem Trail.eq_cons (h : Trail next (some a) l none) :
    ∃ rest, l = a :: rest ∧ Trail next (next a) rest none := by
  cases l with
  | nil => cases h
  | cons b rest =>
      obtain ⟨hb, hrest⟩ := h
      cases hb
      exact ⟨rest, rfl, hrest⟩

end TwistSim
