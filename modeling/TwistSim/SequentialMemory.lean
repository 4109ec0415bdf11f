/-
A memory that serves one access after the other, and the histories it can have: a read
finds what the last write left.
-/
import Mathlib.Logic.Function.Basic
import Mathlib.Data.List.Induction
import Mathlib.Data.Option.Basic
import Mathlib.Tactic.Common

namespace TwistSim

universe u v

namespace SequentialMemory

/-- An access to a memory of locations `L` and values `V`. -/
inductive Event (L : Type u) (V : Type v) where
  | init (loc : L) (value : V)
  | read (loc : L) (value : V)
  | write (loc : L) (value : V)
  | destroy (loc : L)
  deriving DecidableEq, Repr

/-- What the live locations hold. -/
abbrev Store (L : Type u) (V : Type v) := L → Option V

variable {L : Type u} {V : Type v} [DecidableEq L]

/-- What a location holds after an access. -/
def leaves (loc : L) (found : Option V) : Event L V → Option V
  | .init l value | .write l value => if l = loc then some value else found
  | .read _ _ => found
  | .destroy l => if l = loc then none else found

def lastWrite (loc : L) (h : List (Event L V)) : Option V := h.foldl (leaves loc) none

theorem lastWrite_concat {loc : L} {h : List (Event L V)} {e : Event L V} :
    lastWrite loc (h ++ [e]) = leaves loc (lastWrite loc h) e := by
  rw [lastWrite, List.foldl_append]
  rfl

variable [DecidableEq V]

/-- The store after an access, if the access is possible. -/
def Event.apply : Event L V → Store L V → Option (Store L V)
  | .init loc value, s => some (Function.update s loc (some value))
  | .read loc value, s => if s loc = some value then some s else none
  | .write loc value, s =>
      if (s loc).isSome then some (Function.update s loc (some value)) else none
  | .destroy loc, s => if (s loc).isSome then some (Function.update s loc none) else none

/-- The store after a history. -/
def replay : List (Event L V) → Store L V → Option (Store L V)
  | [], s => some s
  | e :: rest, s => (e.apply s).bind (replay rest)

/-- A read finds the last write, and nothing dead is accessed. -/
def Event.Allowed (before : List (Event L V)) : Event L V → Prop
  | .init _ _ => True
  | .read loc value => lastWrite loc before = some value
  | .write loc _ | .destroy loc => (lastWrite loc before).isSome = true

def Legal (h : List (Event L V)) : Prop :=
  ∀ before e after, h = before ++ e :: after → e.Allowed before

variable {s s' : Store L V} {h h' : List (Event L V)} {e : Event L V} {loc : L} {value : V}

@[simp] theorem replay_nil : replay [] s = some s := rfl

theorem replay_append : replay (h ++ h') s = (replay h s).bind (replay h') := by
  induction h generalizing s with
  | nil => rfl
  | cons e rest ih =>
      simp only [List.cons_append, replay]
      cases e.apply s with
      | none => rfl
      | some s₁ => exact ih

theorem replay_concat : replay (h ++ [e]) s = (replay h s).bind e.apply := by
  rw [replay_append]
  congr
  funext s'
  simp only [replay]
  cases e.apply s' <;> rfl

/-- An access changes the store as it changes the last write. -/
theorem apply_leaves (happly : e.apply s = some s') : s' loc = leaves loc (s loc) e := by
  have hupdate : ∀ {l : L} {v : Option V}, Function.update s l v = s' →
      s' loc = if l = loc then v else s loc := by
    rintro l v rfl
    by_cases hl : l = loc
    · subst hl
      rw [Function.update_self, if_pos rfl]
    · rw [Function.update_of_ne (Ne.symm hl), if_neg hl]
  cases e with
  | init l v => exact hupdate (Option.some.inj happly)
  | read l v =>
      simp only [Event.apply] at happly
      split at happly
      · cases happly
        rfl
      · cases happly
  | write l v =>
      simp only [Event.apply] at happly
      split at happly
      · exact hupdate (Option.some.inj happly)
      · cases happly
  | destroy l =>
      simp only [Event.apply] at happly
      split at happly
      · exact hupdate (Option.some.inj happly)
      · cases happly

/-- The store is made of the last writes. -/
theorem replay_lastWrite (hreplay : replay h (fun _ => none) = some s) (loc : L) :
    s loc = lastWrite loc h := by
  induction h using List.reverseRecOn generalizing s with
  | nil =>
      cases hreplay
      rfl
  | append_singleton rest e ih =>
      rw [replay_concat] at hreplay
      obtain ⟨s₁, hrest, happly⟩ := Option.bind_eq_some_iff.mp hreplay
      rw [lastWrite_concat, apply_leaves happly, ih hrest]

theorem allowed_iff (hreplay : replay h (fun _ => none) = some s) :
    e.Allowed h ↔ (e.apply s).isSome = true := by
  have hlast := replay_lastWrite hreplay
  cases e with
  | init l v => simp [Event.Allowed, Event.apply]
  | read l v =>
      simp only [Event.Allowed, Event.apply, ← hlast]
      split <;> simp_all
  | write l v =>
      simp only [Event.Allowed, Event.apply, ← hlast]
      split <;> simp_all
  | destroy l =>
      simp only [Event.Allowed, Event.apply, ← hlast]
      split <;> simp_all

/-- The histories of the memory are the legal ones. -/
theorem legal_iff : Legal h ↔ (replay h (fun _ => none)).isSome = true := by
  induction h using List.reverseRecOn with
  | nil => simp [Legal]
  | append_singleton rest e ih =>
      rw [replay_concat]
      constructor
      · intro hlegal
        have hrest : Legal rest := fun before e' after heq =>
          hlegal before e' (after ++ [e]) (by rw [heq]; simp)
        obtain ⟨s₁, hs₁⟩ := Option.isSome_iff_exists.mp (ih.mp hrest)
        rw [hs₁, Option.bind_some, ← allowed_iff hs₁]
        exact hlegal rest e [] rfl
      · intro hsome before e' after heq
        obtain ⟨s₂, hs₂⟩ := Option.isSome_iff_exists.mp hsome
        obtain ⟨s₁, hs₁, happly⟩ := Option.bind_eq_some_iff.mp hs₂
        have hrest : Legal rest := ih.mpr (by rw [hs₁]; rfl)
        rcases List.eq_nil_or_concat after with rfl | ⟨init, last, rfl⟩
        · obtain ⟨rfl, hlast⟩ := List.append_inj' heq rfl
          cases hlast
          exact (allowed_iff hs₁).mpr (by rw [happly]; rfl)
        · have hsplit : rest ++ [e] = (before ++ e' :: init) ++ [last] := by
            rw [heq]
            simp
          exact hrest before e' init (List.append_inj' hsplit rfl).1

end SequentialMemory

end TwistSim
