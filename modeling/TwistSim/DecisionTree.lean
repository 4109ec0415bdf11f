/-
Finite decision trees: interactions whose questions have finitely many
numbered answers.  The leaves of a tree, listed from left to right, are in
lexicographic order of the answers that lead to them.
-/
import TwistSim.Interaction
import Mathlib.Data.List.Basic
import Mathlib.Data.List.Lex
import Mathlib.Data.List.Range

namespace TwistSim

universe v

/-- A question `q` offers the answers below `arity q`. -/
abbrev DecisionTree (Q : Type) (α : Type v) :=
  Interaction Q (fun _ => Nat) α

namespace DecisionTree

open Interaction

variable {Q : Type} {α : Type v}

/-- Every reachable question has an answer. -/
def Branching (arity : Q → Nat) : DecisionTree Q α → Prop
  | ret _ => True
  | ask q next => 0 < arity q ∧ ∀ i < arity q, Branching arity (next i)

/-- The answers `answers` lead to the leaf `value`. -/
inductive Leaf (arity : Q → Nat) : DecisionTree Q α → List Nat → α → Prop
  | ret (value : α) : Leaf arity (.ret value) [] value
  | ask {q : Q} {next : Nat → DecisionTree Q α} {i : Nat}
      {answers : List Nat} {value : α} (hi : i < arity q)
      (h : Leaf arity (next i) answers value) :
      Leaf arity (.ask q next) (i :: answers) value

/-- All leaves from left to right, with the answers that lead to them. -/
def leaves (arity : Q → Nat) : DecisionTree Q α → List (List Nat × α)
  | ret value => [([], value)]
  | ask q next =>
      (List.range (arity q)).flatMap fun i =>
        (leaves arity (next i)).map fun leaf => (i :: leaf.1, leaf.2)

/-- The same program, which also reports the answers it was given. -/
def answered : DecisionTree Q α → DecisionTree Q (List Nat × α)
  | ret value => ret ([], value)
  | ask q next => ask q fun i =>
      (answered (next i)).bind fun leaf => ret (i :: leaf.1, leaf.2)

theorem mem_leaves_iff (arity : Q → Nat) (t : DecisionTree Q α)
    (answers : List Nat) (value : α) :
    (answers, value) ∈ t.leaves arity ↔ Leaf arity t answers value := by
  induction t generalizing answers with
  | ret x =>
      simp only [leaves, List.mem_singleton, Prod.mk.injEq]
      constructor
      · rintro ⟨rfl, rfl⟩
        exact Leaf.ret value
      · intro h
        cases h
        exact ⟨rfl, rfl⟩
  | ask q next ih =>
      simp only [leaves, List.mem_flatMap, List.mem_range, List.mem_map]
      constructor
      · rintro ⟨i, hi, ⟨as, x⟩, hleaf, heq⟩
        simp only [Prod.mk.injEq] at heq
        obtain ⟨rfl, rfl⟩ := heq
        exact Leaf.ask hi ((ih i as).mp hleaf)
      · intro h
        cases h with
        | @ask _ _ i as _ hi hleaf =>
            exact ⟨i, hi, (as, value), (ih i as).mpr hleaf, rfl⟩

theorem leaf_ret_iff {arity : Q → Nat} {x : α} {answers : List Nat}
    {value : α} :
    Leaf arity (.ret x : DecisionTree Q α) answers value ↔
      answers = [] ∧ value = x := by
  constructor
  · intro h
    cases h
    exact ⟨rfl, rfl⟩
  · rintro ⟨rfl, rfl⟩
    exact Leaf.ret _

theorem leaf_ask_iff {arity : Q → Nat} {q : Q} {next : Nat → DecisionTree Q α}
    {answers : List Nat} {value : α} :
    Leaf arity (.ask q next) answers value ↔
      ∃ i rest, answers = i :: rest ∧ i < arity q ∧
        Leaf arity (next i) rest value := by
  constructor
  · intro h
    cases h with
    | @ask _ _ i rest _ hi hleaf => exact ⟨i, rest, rfl, hi, hleaf⟩
  · rintro ⟨i, rest, rfl, hi, hleaf⟩
    exact Leaf.ask hi hleaf

theorem leaf_bind_iff {arity : Q → Nat} {β : Type v} {t : DecisionTree Q α}
    {f : α → DecisionTree Q β} {answers : List Nat} {value : β} :
    Leaf arity (t.bind f) answers value ↔
      ∃ first rest x, answers = first ++ rest ∧ Leaf arity t first x ∧
        Leaf arity (f x) rest value := by
  induction t generalizing answers with
  | ret x =>
      constructor
      · intro h
        exact ⟨[], answers, x, rfl, Leaf.ret x, h⟩
      · rintro ⟨first, rest, y, rfl, hfirst, hrest⟩
        cases hfirst
        exact hrest
  | ask q next ih =>
      constructor
      · intro h
        cases h with
        | @ask _ _ i as _ hi hleaf =>
            obtain ⟨first, rest, x, rfl, hfirst, hrest⟩ := (ih i).mp hleaf
            exact ⟨i :: first, rest, x, rfl, Leaf.ask hi hfirst, hrest⟩
      · rintro ⟨first, rest, x, rfl, hfirst, hrest⟩
        cases hfirst with
        | @ask _ _ i as _ hi hleaf =>
            exact Leaf.ask hi ((ih i).mpr ⟨as, rest, x, rfl, hleaf, hrest⟩)

theorem branching_bind {arity : Q → Nat} {β : Type v} {t : DecisionTree Q α}
    {f : α → DecisionTree Q β} (ht : t.Branching arity)
    (hf : ∀ answers x, Leaf arity t answers x → (f x).Branching arity) :
    Branching arity (t.bind f) := by
  induction t with
  | ret x => exact hf [] x (Leaf.ret x)
  | ask q next ih =>
      refine ⟨ht.1, fun i hi => ih i (ht.2 i hi) fun answers x hleaf => ?_⟩
      exact hf (i :: answers) x (Leaf.ask hi hleaf)

/-- Left to right is lexicographic order; in particular no leaf is listed
twice. -/
theorem leaves_pairwise_lt (arity : Q → Nat) (t : DecisionTree Q α) :
    (t.leaves arity).Pairwise (fun left right => left.1 < right.1) := by
  induction t with
  | ret x => simp [leaves]
  | ask q next ih =>
      rw [leaves, List.pairwise_flatMap]
      constructor
      · intro i _
        rw [List.pairwise_map]
        refine (ih i).imp fun hlt => ?_
        exact List.cons_lt_cons_iff.mpr (Or.inr ⟨rfl, hlt⟩)
      · refine List.pairwise_lt_range.imp ?_
        intro i j hij left hleft right hright
        simp only [List.mem_map] at hleft hright
        obtain ⟨_, _, rfl⟩ := hleft
        obtain ⟨_, _, rfl⟩ := hright
        exact List.cons_lt_cons_iff.mpr (Or.inl hij)

theorem leaf_unique {arity : Q → Nat} {t : DecisionTree Q α}
    {answers : List Nat} {value value' : α}
    (h : Leaf arity t answers value) (h' : Leaf arity t answers value') :
    value = value' := by
  induction h with
  | ret x =>
      cases h'
      rfl
  | ask hi _ ih =>
      cases h' with
      | ask _ hleaf => exact ih hleaf

end DecisionTree

end TwistSim
