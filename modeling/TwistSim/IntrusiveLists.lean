/-
A family of intrusive lists that share one link node per element.  Whether an
element is linked is a property of its node, so it can be asked, and the element
unlinked, without naming the list it is in.
-/
import TwistSim.Basic
import Mathlib.Data.List.Basic
import Mathlib.Data.List.Perm.Basic
import Mathlib.Logic.Function.Basic

namespace TwistSim

universe u v

/-- Lists `κ` of elements `α`; `home` is the state of an element's node. -/
structure IntrusiveLists (κ : Type u) (α : Type v) where
  lists : κ → List α
  home : α → Option κ

namespace IntrusiveLists

variable {κ : Type u} {α : Type v}

def empty : IntrusiveLists κ α where
  lists _ := []
  home _ := none

def isEmpty (l : IntrusiveLists κ α) (k : κ) : Bool := (l.lists k).isEmpty

def isLinked (l : IntrusiveLists κ α) (x : α) : Bool := (l.home x).isSome

/-- Nodes and lists agree, and no element is listed twice. -/
structure Consistent (l : IntrusiveLists κ α) : Prop where
  nodup : ∀ k, (l.lists k).Nodup
  mem_iff : ∀ k x, x ∈ l.lists k ↔ l.home x = some k

theorem empty_consistent : (empty : IntrusiveLists κ α).Consistent where
  nodup _ := List.nodup_nil
  mem_iff k x := by simp [empty]

theorem isLinked_eq_false_iff {l : IntrusiveLists κ α} (h : l.Consistent)
    (x : α) : l.isLinked x = false ↔ ∀ k, x ∉ l.lists k := by
  simp only [isLinked, Option.isSome_eq_false_iff, Option.isNone_iff_eq_none]
  constructor
  · intro hnone k hmem
    rw [h.mem_iff, hnone] at hmem
    cases hmem
  · intro hnot
    cases hhome : l.home x with
    | none => rfl
    | some k => exact absurd ((h.mem_iff k x).mpr hhome) (hnot k)

variable [DecidableEq κ] [DecidableEq α]

/-- Replace list `k` and relink `x`. -/
def link (l : IntrusiveLists κ α) (k : κ) (x : α) (list : List α) :
    IntrusiveLists κ α where
  lists := Function.update l.lists k list
  home := Function.update l.home x (some k)

def pushBack (l : IntrusiveLists κ α) (k : κ) (x : α) :
    Except Panic (IntrusiveLists κ α) :=
  if l.isLinked x then .error (.verify "cannot link already linked node")
  else .ok (l.link k x (l.lists k ++ [x]))

def pushFront (l : IntrusiveLists κ α) (k : κ) (x : α) :
    Except Panic (IntrusiveLists κ α) :=
  if l.isLinked x then .error (.verify "cannot link already linked node")
  else .ok (l.link k x (x :: l.lists k))

/-- Unlink the node of `x` from whatever list it is in. -/
def unlink (l : IntrusiveLists κ α) (x : α) : IntrusiveLists κ α :=
  match l.home x with
  | none => l
  | some k =>
      { lists := Function.update l.lists k ((l.lists k).erase x)
        home := Function.update l.home x none }

def popFront (l : IntrusiveLists κ α) (k : κ) :
    Option α × IntrusiveLists κ α :=
  match l.lists k with
  | [] => (none, l)
  | front :: _ => (some front, l.unlink front)

/-- `Remove` of the schedulers' wait queues: the node decides, not the list. -/
def remove (l : IntrusiveLists κ α) (x : α) : Bool × IntrusiveLists κ α :=
  if l.isLinked x then (true, l.unlink x) else (false, l)

theorem link_consistent {l : IntrusiveLists κ α} (h : l.Consistent) (k : κ)
    {x : α} {list : List α} (hx : l.isLinked x = false)
    (hperm : list.Perm (x :: l.lists k)) : (l.link k x list).Consistent where
  nodup k' := by
    have hnot := (isLinked_eq_false_iff h x).mp hx
    by_cases hk : k' = k
    · subst hk
      simp only [link, Function.update_self]
      exact hperm.nodup_iff.mpr (List.nodup_cons.mpr ⟨hnot k', h.nodup k'⟩)
    · simp only [link, Function.update_of_ne hk]
      exact h.nodup k'
  mem_iff k' y := by
    have hnot := (isLinked_eq_false_iff h x).mp hx
    by_cases hy : y = x
    · subst hy
      by_cases hk : k' = k
      · subst hk
        simp [link, hperm.mem_iff]
      · simp [link, Function.update_of_ne hk, hnot k', Ne.symm hk]
    · by_cases hk : k' = k
      · subst hk
        simp [link, hperm.mem_iff, hy, h.mem_iff]
      · simp [link, Function.update_of_ne hk, hy, h.mem_iff]

theorem unlink_lists {l : IntrusiveLists κ α} (h : l.Consistent) (x : α)
    (k : κ) : (l.unlink x).lists k = (l.lists k).erase x := by
  unfold unlink
  cases hhome : l.home x with
  | none =>
      have hnot : x ∉ l.lists k := by
        rw [h.mem_iff, hhome]
        simp
      simp [List.erase_of_not_mem hnot]
  | some k₀ =>
      by_cases hk : k = k₀
      · subst hk
        simp
      · have hnot : x ∉ l.lists k := by
          rw [h.mem_iff, hhome]
          simpa using Ne.symm hk
        simp [Function.update_of_ne hk, List.erase_of_not_mem hnot]

theorem unlink_home {l : IntrusiveLists κ α} (x : α) :
    (l.unlink x).home = Function.update l.home x none := by
  unfold unlink
  cases hhome : l.home x with
  | none =>
      simp only
      rw [← hhome, Function.update_eq_self]
  | some k₀ => rfl

theorem unlink_consistent {l : IntrusiveLists κ α} (h : l.Consistent) (x : α) :
    (l.unlink x).Consistent where
  nodup k := by
    rw [unlink_lists h]
    exact (h.nodup k).erase x
  mem_iff k y := by
    rw [unlink_lists h, unlink_home, (h.nodup k).mem_erase_iff]
    by_cases hy : y = x
    · subst hy
      simp
    · simp [hy, h.mem_iff]

theorem pushBack_eq {l : IntrusiveLists κ α} {k : κ} {x : α}
    (hx : l.isLinked x = false) :
    l.pushBack k x = .ok (l.link k x (l.lists k ++ [x])) := by
  rw [pushBack, hx]
  rfl

theorem pushFront_eq {l : IntrusiveLists κ α} {k : κ} {x : α}
    (hx : l.isLinked x = false) :
    l.pushFront k x = .ok (l.link k x (x :: l.lists k)) := by
  rw [pushFront, hx]
  rfl

/-- What `popFront` takes is the head of its list and of no other. -/
theorem popFront_cases {l : IntrusiveLists κ α} (h : l.Consistent) (k : κ) :
    (l.lists k = [] ∧ l.popFront k = (none, l)) ∨
      ∃ x rest, l.lists k = x :: rest ∧ l.popFront k = (some x, l.unlink x) ∧
        (l.unlink x).lists = Function.update l.lists k rest := by
  unfold popFront
  cases hlist : l.lists k with
  | nil => exact Or.inl ⟨rfl, rfl⟩
  | cons x rest =>
      refine Or.inr ⟨x, rest, rfl, rfl, ?_⟩
      have hmem : x ∈ l.lists k := by
        rw [hlist]
        exact List.mem_cons_self
      have hhome := (h.mem_iff k x).mp hmem
      simp only [unlink, hhome, hlist, List.erase_cons_head]

end IntrusiveLists

end TwistSim
