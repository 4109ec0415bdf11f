/-
The thread-local variables of a thread, from its first access to its exit: a slot
is filled on demand, `tls::Manager::Destroy` empties the slots in one pass, and the
constructors and destructors that run are user code, which may access slots too.
-/
import TwistSim.Runs
import TwistSim.Statics

namespace TwistSim

namespace Tls

open Statics (VarId)

def kSlots : Nat := 128

/-- `StaticThreadLocalVar` owns the object that its slot refers to,
`StaticThreadLocalPtr` does not. -/
inductive Kind where
  | var | ptr
  deriving DecidableEq, Repr

/-- What slots refer to, numbered in the order in which `SlotCtor` returned it. -/
abbrev Object := Nat

/-- User code that the manager has called and that has not returned. -/
inductive Frame where
  /-- `vars_[index]->SlotCtor()`. -/
  | ctor (index : Nat)
  /-- `vars_[i]->SlotDtor(..)`, called by the pass. -/
  | dtor
  deriving DecidableEq, Repr

inductive Event where
  | constructed (object : Object)
  /-- `Access` has returned the slot of the object. -/
  | accessed (object : Object)
  /-- Its destructor has been called. -/
  | destroyed (object : Object)
  deriving DecidableEq, Repr

/-- A thread with its `tls::Storage`.  `vars` is `vars_` up to `count_`, and `pass`
the index of the loop in `Destroy`. -/
structure State where
  vars : List VarId
  tls : Nat → Option Object
  pass : Option Nat
  frames : List Frame
  objects : Nat
  log : List Event

/-- What happens next, in the thread or, while it is switched out, in another. -/
inductive Step where
  /-- `_Visit` of a local variable. -/
  | visit (var : VarId)
  /-- `_Visit` by another thread. -/
  | visitElsewhere (var : VarId)
  /-- `Ptr` or `AccessSlot`. -/
  | access (var : VarId)
  /-- The innermost constructor returns. -/
  | constructed
  /-- The innermost constructor throws. -/
  | threw
  /-- The destructor that the pass has called returns. -/
  | destructed
  /-- `RunUser` has returned, and `Destroy` is called. -/
  | destroy
  /-- A turn of the loop in `Destroy`, up to the destructor. -/
  | iterate
  deriving DecidableEq, Repr

namespace State

/-- A thread starts with an empty storage. -/
def start (vars : List VarId) : State where
  vars := vars
  tls _ := none
  pass := none
  frames := []
  objects := 0
  log := []

/-- `key_`, once it is set: the slot that `Register` has acquired. -/
def key (s : State) (var : VarId) : Option Nat := s.vars.idxOf? var

/-- `if (!key_) Register(this)`. -/
def register (s : State) (var : VarId) : Option State :=
  if (s.key var).isSome then some s
  else if s.vars.length < kSlots then some { s with vars := s.vars ++ [var] }
  -- Thread-local vars limit reached: 128
  else none

/-- `vars_[index]->SlotCtor()` is called. -/
def slotCtor (s : State) (index : Nat) : State :=
  { s with frames := .ctor index :: s.frames }

/-- `Visit(tls, *key_)`. -/
def visit (s : State) (var : VarId) : Option State :=
  (s.key var).map fun index =>
    match s.tls index with
    | none => s.slotCtor index
    | some _ => s

/-- `Access(tls, *key_)`. -/
def access (s : State) (var : VarId) : Option State :=
  (s.key var).map fun index =>
    match s.tls index with
    | none => s.slotCtor index
    | some object => { s with log := s.log ++ [.accessed object] }

/-- User code runs: before `Destroy`, or because the pass has called it. -/
def userRuns (s : State) : Bool := s.pass.isNone || !s.frames.isEmpty

variable (kind : VarId → Kind)

/-- The variable with this slot owns its objects. -/
def owns (s : State) (index : Nat) : Bool := s.vars[index]?.map kind == some .var

/-- `slot->Set(..)` with what the constructor has returned. -/
def set (s : State) (index : Nat) (frames : List Frame) : State :=
  { s with
    tls := Function.update s.tls index (some s.objects)
    frames := frames
    objects := s.objects + 1
    log := if s.owns kind index then s.log ++ [.constructed s.objects] else s.log }

/-- `if (tls[i].IsInit()) vars_[i]->SlotDtor(tls[i].Reset())`. -/
def iterate (s : State) (i : Nat) : State :=
  match s.tls i with
  | none => { s with pass := some (i + 1) }
  | some object =>
      let s := { s with tls := Function.update s.tls i none }
      if s.owns kind i then
        { s with frames := [.dtor], log := s.log ++ [.destroyed object] }
      else { s with pass := some (i + 1) }

def next (s : State) : Step → Option State
  | .visit var =>
      if s.userRuns then (s.register var).bind fun s => s.visit var else none
  | .visitElsewhere var => if s.userRuns then s.register var else none
  | .access var => if s.userRuns then s.access var else none
  | .constructed =>
      match s.frames with
      | .ctor index :: rest => some (s.set kind index rest)
      | _ => none
  | .threw =>
      match s.frames with
      | .ctor _ :: rest => some { s with frames := rest }
      | _ => none
  | .destructed =>
      match s.frames, s.pass with
      | [.dtor], some i => some { s with frames := [], pass := some (i + 1) }
      | _, _ => none
  | .destroy =>
      match s.frames, s.pass with
      | [], none => some { s with pass := some 0 }
      | _, _ => none
  | .iterate =>
      match s.frames, s.pass with
      | [], some i => if i < s.vars.length then some (s.iterate kind i) else none
      | _, _ => none

/-- `Destroy` has returned. -/
def Returned (s : State) : Prop :=
  s.frames = [] ∧ ∃ i, s.pass = some i ∧ s.vars.length ≤ i

/-- Every object has been destroyed once, no slot is initialized, and nobody was
given an object that had been destroyed. -/
structure Complete (s : State) : Prop where
  destroyed : ∀ o, .constructed o ∈ s.log → s.log.count (.destroyed o) = 1
  empty : ∀ j, s.tls j = none
  alive : ∀ o pre post, s.log = pre ++ .accessed o :: post → .destroyed o ∉ pre

/-- What is constructed goes to a slot that the pass has not reached, and that is
empty if its variable owns its objects. -/
def ahead (s : State) : Step → Bool
  | .constructed =>
      match s.frames with
      | .ctor j :: _ =>
          s.pass.all (fun i => decide (i < j)) && (!s.owns kind j || (s.tls j).isNone)
      | _ => true
  | _ => true

end State

variable {kind : VarId → Kind} {s s' : State} {o : Object} {j : Nat}

/-! ### What a step can do -/

/-- The effects of a step that fills no slot. -/
inductive Quiet (kind : VarId → Kind) (s : State) : State → Prop where
  | stay : Quiet kind s s
  | register (var : VarId) : Quiet kind s { s with vars := s.vars ++ [var] }
  | slotCtor (index : Nat) (hlt : index < s.vars.length) (huser : s.userRuns = true) :
      Quiet kind s (s.slotCtor index)
  | accessed (index : Nat) (object : Object) (htls : s.tls index = some object) :
      Quiet kind s { s with log := s.log ++ [.accessed object] }
  | threw (index : Nat) (rest : List Frame) (hframes : s.frames = .ctor index :: rest) :
      Quiet kind s { s with frames := rest }
  | destructed (i : Nat) (hframes : s.frames = [.dtor]) (hpass : s.pass = some i) :
      Quiet kind s { s with frames := [], pass := some (i + 1) }
  | destroy (hframes : s.frames = []) (hpass : s.pass = none) : Quiet kind s { s with pass := some 0 }
  | skip (i : Nat) (hframes : s.frames = []) (hpass : s.pass = some i)
      (htls : s.tls i = none) : Quiet kind s { s with pass := some (i + 1) }
  | forget (i : Nat) (object : Object) (hframes : s.frames = []) (hpass : s.pass = some i)
      (htls : s.tls i = some object) (hptr : s.owns kind i = false) :
      Quiet kind s
        { s with tls := Function.update s.tls i none, pass := some (i + 1) }
  | delete (i : Nat) (object : Object) (hframes : s.frames = []) (hpass : s.pass = some i)
      (htls : s.tls i = some object) :
      Quiet kind s
        { s with
          tls := Function.update s.tls i none
          frames := [.dtor]
          log := s.log ++ [.destroyed object] }

theorem State.key_lt {var : VarId} {index : Nat} (h : s.key var = some index) :
    index < s.vars.length := by
  rw [State.key, List.idxOf?, List.findIdx?_eq_some_iff_getElem] at h
  exact h.1

theorem register_quiet {var : VarId} (h : s.register var = some s') :
    Quiet kind s s' ∧ s'.userRuns = s.userRuns := by
  unfold State.register at h
  split at h
  · cases h
    exact ⟨.stay, rfl⟩
  · split at h
    · cases h
      exact ⟨.register var, rfl⟩
    · cases h

theorem visit_quiet {var : VarId} (hruns : s.userRuns = true)
    (h : s.visit var = some s') : Quiet kind s s' := by
  obtain ⟨index, hkey, rfl⟩ := Option.map_eq_some_iff.mp h
  split
  · exact .slotCtor index (State.key_lt hkey) hruns
  · exact .stay

theorem access_quiet {var : VarId} (hruns : s.userRuns = true)
    (h : s.access var = some s') : Quiet kind s s' := by
  obtain ⟨index, hkey, rfl⟩ := Option.map_eq_some_iff.mp h
  split
  case h_1 => exact .slotCtor index (State.key_lt hkey) hruns
  case h_2 object htls => exact .accessed index object htls

theorem iterate_quiet {i : Nat} (hframes : s.frames = []) (hpass : s.pass = some i) :
    Quiet kind s (s.iterate kind i) := by
  unfold State.iterate
  split
  case h_1 htls => exact .skip i hframes hpass htls
  case h_2 object htls =>
    dsimp only
    split
    case isTrue => exact .delete i object hframes hpass htls
    case isFalse hptr =>
      exact .forget i object hframes hpass htls (Bool.eq_false_of_not_eq_true hptr)

/-- A step sets a slot, or it has no more than two other effects. -/
theorem next_cases {e : Step} (h : s.next kind e = some s') :
    (∃ s₁, Quiet kind s s₁ ∧ Quiet kind s₁ s' ∧ s.ahead kind e = true) ∨
      ∃ index rest, e = .constructed ∧ s.frames = .ctor index :: rest ∧
        s' = s.set kind index rest := by
  cases e with
  | visit var =>
      simp only [State.next] at h
      split at h
      · rename_i hruns
        obtain ⟨s₁, hregister, hvisit⟩ := Option.bind_eq_some_iff.mp h
        obtain ⟨hquiet, hsame⟩ := register_quiet hregister
        exact .inl ⟨s₁, hquiet, visit_quiet (hsame.trans hruns) hvisit, rfl⟩
      · cases h
  | visitElsewhere var =>
      simp only [State.next] at h
      split at h
      · exact .inl ⟨s', (register_quiet h).1, .stay, rfl⟩
      · cases h
  | access var =>
      simp only [State.next] at h
      split at h
      · rename_i hruns
        exact .inl ⟨s', access_quiet hruns h, .stay, rfl⟩
      · cases h
  | constructed =>
      simp only [State.next] at h
      split at h
      case h_1 index rest hframes =>
        exact .inr ⟨index, rest, rfl, hframes, (Option.some.inj h).symm⟩
      case h_2 => cases h
  | threw =>
      simp only [State.next] at h
      split at h
      case h_1 index rest hframes =>
        cases h
        exact .inl ⟨_, .threw index rest hframes, .stay, rfl⟩
      case h_2 => cases h
  | destructed =>
      simp only [State.next] at h
      split at h
      case h_1 i hframes hpass =>
        cases h
        exact .inl ⟨_, .destructed i hframes hpass, .stay, rfl⟩
      case h_2 => cases h
  | destroy =>
      simp only [State.next] at h
      split at h
      case h_1 hframes hpass =>
        cases h
        exact .inl ⟨_, .destroy hframes hpass, .stay, rfl⟩
      case h_2 => cases h
  | iterate =>
      simp only [State.next] at h
      split at h
      case h_1 i hframes hpass =>
        split at h
        · cases h
          exact .inl ⟨_, iterate_quiet hframes hpass, .stay, rfl⟩
        · cases h
      case h_2 => cases h

/-! ### What always holds -/

/-- The slots and the log are about the same objects. -/
structure Stored (kind : VarId → Kind) (s : State) : Prop where
  slot_lt : ∀ j o, s.tls j = some o → j < s.vars.length
  numbered : ∀ j o, s.tls j = some o → o < s.objects
  recorded : ∀ o, .constructed o ∈ s.log → o < s.objects
  known : ∀ o, .destroyed o ∈ s.log → o < s.objects
  injective : ∀ j k o, s.tls j = some o → s.tls k = some o → j = k
  alive : ∀ j o, s.tls j = some o → .destroyed o ∉ s.log
  owned : ∀ j o, s.tls j = some o →
    (.constructed o ∈ s.log ↔ s.owns kind j = true)
  once : ∀ o, s.log.count (.destroyed o) ≤ 1
  seen : ∀ o pre post, s.log = pre ++ .accessed o :: post → .destroyed o ∉ pre

/-- The frames are those of variables, and on top of the pass. -/
structure Framed (s : State) : Prop where
  ctor_lt : ∀ j, .ctor j ∈ s.frames → j < s.vars.length
  bottom : ∀ i, s.pass = some i → s.frames = [] ∨ s.frames.getLast? = some .dtor

theorem owns_register {var : VarId} (hlt : j < s.vars.length) :
    State.owns kind { s with vars := s.vars ++ [var] } j = s.owns kind j := by
  simp only [State.owns, List.getElem?_append_left hlt]

/-- Nobody is given an object that has been destroyed, if that holds of the next
event too. -/
theorem seen_append {log : List Event} {e : Event}
    (h : ∀ o pre post, log = pre ++ .accessed o :: post → .destroyed o ∉ pre)
    (he : ∀ o, e = .accessed o → .destroyed o ∉ log) (pre post : List Event)
    (heq : log ++ [e] = pre ++ .accessed o :: post) : .destroyed o ∉ pre := by
  rcases List.eq_nil_or_concat post with rfl | ⟨front, last, rfl⟩
  · obtain ⟨rfl, hlast⟩ := List.append_inj' heq rfl
    exact he o (List.cons.inj hlast).1
  · have heq' : log ++ [e] = (pre ++ .accessed o :: front) ++ [last] := by
      rw [heq, List.concat_eq_append, List.append_assoc, List.cons_append]
    exact h o pre front (List.append_inj' heq' rfl).1

theorem count_append_of_ne {log : List Event} {e : Event} (hne : e ≠ .destroyed o) :
    (log ++ [e]).count (.destroyed o) = log.count (.destroyed o) := by
  rw [List.count_append, List.count_singleton, if_neg (by simpa using hne), Nat.add_zero]

/-- An event that neither constructs nor destroys. -/
theorem mem_append_accessed {log : List Event} {e : Event} {object : Object}
    (hne : e ≠ .accessed object) : e ∈ log ++ [.accessed object] ↔ e ∈ log := by
  simp [hne]

theorem Stored.register (h : Stored kind s) (var : VarId) :
    Stored kind { s with vars := s.vars ++ [var] } where
  slot_lt j o htls := by
    rw [List.length_append]
    exact Nat.lt_add_right _ (h.slot_lt j o htls)
  numbered := h.numbered
  recorded := h.recorded
  known := h.known
  injective := h.injective
  alive := h.alive
  owned j o htls := by
    rw [owns_register (h.slot_lt j o htls)]
    exact h.owned j o htls
  once := h.once
  seen := h.seen

theorem Stored.accessed (h : Stored kind s) (htls : s.tls j = some o) :
    Stored kind { s with log := s.log ++ [.accessed o] } where
  slot_lt := h.slot_lt
  numbered := h.numbered
  recorded o' hmem := h.recorded o' ((mem_append_accessed (by simp)).mp hmem)
  known o' hmem := h.known o' ((mem_append_accessed (by simp)).mp hmem)
  injective := h.injective
  alive k o' hk hmem := h.alive k o' hk ((mem_append_accessed (by simp)).mp hmem)
  owned k o' hk := (mem_append_accessed (by simp)).trans (h.owned k o' hk)
  once o' := by
    rw [count_append_of_ne (by simp)]
    exact h.once o'
  seen o' pre post := seen_append h.seen (fun o'' heq => by
    cases heq
    exact h.alive j o htls) pre post

/-- What a slot refers to after `Reset` of one. -/
theorem reset_some {tls : Nat → Option Object} {k : Nat}
    (h : Function.update tls j none k = some o) : k ≠ j ∧ tls k = some o := by
  rcases eq_or_ne k j with rfl | hne
  · rw [Function.update_self] at h
    cases h
  · rw [Function.update_of_ne hne] at h
    exact ⟨hne, h⟩

theorem reset_none {tls : Nat → Option Object} {k : Nat} (h : tls k = none) :
    Function.update tls j none k = none := by
  by_contra hsome
  obtain ⟨o, ho⟩ := Option.ne_none_iff_exists'.mp hsome
  exact absurd (reset_some ho).2 (by rw [h]; exact nofun)

theorem Stored.reset (h : Stored kind s) (j : Nat) :
    Stored kind { s with tls := Function.update s.tls j none } where
  slot_lt k o hk := h.slot_lt k o (reset_some hk).2
  numbered k o hk := h.numbered k o (reset_some hk).2
  recorded := h.recorded
  known := h.known
  injective k l o hk hl := h.injective k l o (reset_some hk).2 (reset_some hl).2
  alive k o hk := h.alive k o (reset_some hk).2
  owned k o hk := h.owned k o (reset_some hk).2
  once := h.once
  seen := h.seen

theorem Stored.destroyed (h : Stored kind s) (hlt : o < s.objects)
    (hgone : ∀ k, s.tls k ≠ some o) (hnew : .destroyed o ∉ s.log) :
    Stored kind { s with log := s.log ++ [.destroyed o] } where
  slot_lt := h.slot_lt
  numbered := h.numbered
  recorded o' hmem := h.recorded o' (by simpa using hmem)
  known o' hmem := by
    rcases List.mem_append.mp hmem with hmem | hmem
    · exact h.known o' hmem
    · cases List.mem_singleton.mp hmem
      exact hlt
  injective := h.injective
  alive k o' hk hmem := by
    rcases List.mem_append.mp hmem with hmem | hmem
    · exact h.alive k o' hk hmem
    · cases List.mem_singleton.mp hmem
      exact hgone k hk
  owned k o' hk := by
    refine Iff.trans ?_ (h.owned k o' hk)
    simp
  once o' := by
    rcases eq_or_ne o' o with rfl | hne
    · rw [List.count_append, List.count_eq_zero_of_not_mem hnew]
      simp
    · rw [count_append_of_ne (by simpa using hne.symm)]
      exact h.once o'
  seen o' pre post := seen_append h.seen (fun o'' heq => by cases heq) pre post

theorem mem_set_log {index : Nat} {rest : List Frame} {e : Event} :
    e ∈ (s.set kind index rest).log ↔
      e ∈ s.log ∨ (e = .constructed s.objects ∧ s.owns kind index = true) := by
  unfold State.set
  cases s.owns kind index <;> simp

theorem Stored.set (h : Stored kind s) (hlt : j < s.vars.length) (rest : List Frame) :
    Stored kind (s.set kind j rest) := by
  have hslot : ∀ k o, (s.set kind j rest).tls k = some o →
      (k = j ∧ o = s.objects) ∨ (k ≠ j ∧ s.tls k = some o) := by
    intro k o hk
    rcases eq_or_ne k j with rfl | hne
    · replace hk : Function.update s.tls k (some s.objects) k = some o := hk
      rw [Function.update_self] at hk
      exact .inl ⟨rfl, (Option.some.inj hk).symm⟩
    · replace hk : Function.update s.tls j (some s.objects) k = some o := hk
      rw [Function.update_of_ne hne] at hk
      exact .inr ⟨hne, hk⟩
  have hfresh : ∀ k, s.tls k ≠ some s.objects := fun k hk =>
    Nat.lt_irrefl _ (h.numbered k _ hk)
  have hdestroyed : ∀ o, .destroyed o ∈ (s.set kind j rest).log → .destroyed o ∈ s.log := by
    intro o hmem
    rcases mem_set_log.mp hmem with hmem | ⟨heq, -⟩
    · exact hmem
    · cases heq
  refine ⟨?_, ?_, ?_, ?_, ?_, ?_, ?_, ?_, ?_⟩
  case refine_1 =>
    intro k o hk
    rcases hslot k o hk with ⟨rfl, -⟩ | ⟨-, hk⟩
    · exact hlt
    · exact h.slot_lt k o hk
  case refine_2 =>
    intro k o hk
    rcases hslot k o hk with ⟨-, rfl⟩ | ⟨-, hk⟩
    · exact Nat.lt_succ_self _
    · exact Nat.lt_succ_of_lt (h.numbered k o hk)
  case refine_3 =>
    intro o hmem
    rcases mem_set_log.mp hmem with hmem | ⟨heq, -⟩
    · exact Nat.lt_succ_of_lt (h.recorded o hmem)
    · cases heq
      exact Nat.lt_succ_self _
  case refine_4 =>
    exact fun o hmem => Nat.lt_succ_of_lt (h.known o (hdestroyed o hmem))
  case refine_5 =>
    intro k l o hk hl
    rcases hslot k o hk with ⟨hkj, ho⟩ | ⟨-, hk⟩ <;>
      rcases hslot l o hl with ⟨hlj, ho'⟩ | ⟨-, hl⟩
    · exact hkj.trans hlj.symm
    · exact absurd (ho ▸ hl) (hfresh l)
    · exact absurd (ho' ▸ hk) (hfresh k)
    · exact h.injective k l o hk hl
  case refine_6 =>
    intro k o hk hmem
    have hold := hdestroyed o hmem
    rcases hslot k o hk with ⟨-, rfl⟩ | ⟨-, hk⟩
    · exact Nat.lt_irrefl _ (h.known _ hold)
    · exact h.alive k o hk hold
  case refine_7 =>
    intro k o hk
    refine mem_set_log.trans ?_
    rcases hslot k o hk with ⟨rfl, rfl⟩ | ⟨-, hk⟩
    · have hnot : .constructed s.objects ∉ s.log := fun hmem =>
        Nat.lt_irrefl _ (h.recorded _ hmem)
      simp only [hnot, false_or, true_and]
      exact Iff.rfl
    · have hne : o ≠ s.objects := Nat.ne_of_lt (h.numbered k o hk)
      refine Iff.trans ?_ (h.owned k o hk)
      simp [hne]
  case refine_8 =>
    intro o
    refine Nat.le_trans (Nat.le_of_eq ?_) (h.once o)
    unfold State.set
    split
    · exact count_append_of_ne (by simp)
    · rfl
  case refine_9 =>
    intro o pre post
    unfold State.set
    split
    · exact seen_append h.seen (fun o heq => by cases heq) pre post
    · exact h.seen o pre post

theorem Quiet.stored (h : Quiet kind s s') (hs : Stored kind s) : Stored kind s' := by
  cases h with
  | stay => exact hs
  | register var => exact hs.register var
  | slotCtor index hlt huser => exact { hs with }
  | accessed index object htls => exact hs.accessed htls
  | threw index rest hframes => exact { hs with }
  | destructed i hframes hpass => exact { hs with }
  | destroy hframes hpass => exact { hs with }
  | skip i hframes hpass htls => exact { hs with }
  | forget i object hframes hpass htls hptr => exact { hs.reset i with }
  | delete i object hframes hpass htls =>
      have hgone : ∀ k, Function.update s.tls i none k ≠ some object := by
        intro k hk
        obtain ⟨hne, hk⟩ := reset_some hk
        exact hne (hs.injective k i object hk htls)
      exact { (hs.reset i).destroyed (hs.numbered i object htls) hgone
        (hs.alive i object htls) with }

/-- A constructor that the pass has led to is not the last frame. -/
theorem Framed.rest (h : Framed s) {rest : List Frame}
    (hframes : s.frames = .ctor j :: rest) {i : Nat} (hpass : s.pass = some i) :
    rest.getLast? = some .dtor := by
  have hlast := (h.bottom i hpass).resolve_left (by rw [hframes]; exact List.cons_ne_nil _ _)
  rw [hframes] at hlast
  cases rest with
  | nil => cases hlast
  | cons frame rest => rwa [List.getLast?_cons_cons] at hlast

theorem Framed.pop (h : Framed s) {rest : List Frame}
    (hframes : s.frames = .ctor j :: rest) : Framed { s with frames := rest } where
  ctor_lt k hk := h.ctor_lt k (hframes ▸ List.mem_cons_of_mem _ hk)
  bottom _ hpass := .inr (h.rest hframes hpass)

theorem framed_idle (hframes : s.frames = []) : Framed s where
  ctor_lt j hj := by
    rw [hframes] at hj
    cases hj
  bottom _ _ := .inl hframes

theorem Quiet.framed (h : Quiet kind s s') (hs : Framed s) : Framed s' := by
  cases h with
  | stay => exact hs
  | register var =>
      refine ⟨fun j hj => ?_, hs.bottom⟩
      rw [List.length_append]
      exact Nat.lt_add_right _ (hs.ctor_lt j hj)
  | slotCtor index hlt huser =>
      refine ⟨fun j hj => ?_, fun i hpass => .inr ?_⟩
      · rcases List.mem_cons.mp hj with heq | hj
        · cases heq
          exact hlt
        · exact hs.ctor_lt j hj
      · have hpass : s.pass = some i := hpass
        have hne : s.frames ≠ [] := by
          intro hnil
          simp [State.userRuns, hpass, hnil] at huser
        exact (List.getLast?_cons_of_ne_nil hne).trans
          ((hs.bottom i hpass).resolve_left hne)
  | accessed index object htls => exact ⟨hs.ctor_lt, hs.bottom⟩
  | threw index rest hframes => exact hs.pop hframes
  | destructed i hframes hpass => exact framed_idle rfl
  | destroy hframes hpass => exact framed_idle hframes
  | skip i hframes hpass htls => exact framed_idle hframes
  | forget i object hframes hpass htls hptr => exact framed_idle hframes
  | delete i object hframes hpass htls =>
      exact ⟨fun j hj => by simp at hj, fun _ _ => .inr rfl⟩

theorem Framed.set (h : Framed s) {rest : List Frame}
    (hframes : s.frames = .ctor j :: rest) : Framed (s.set kind j rest) :=
  ⟨(h.pop hframes).ctor_lt, (h.pop hframes).bottom⟩

/-- All that always holds. -/
structure Sound (kind : VarId → Kind) (s : State) : Prop where
  stored : Stored kind s
  framed : Framed s

theorem sound_start (vars : List VarId) : Sound kind (State.start vars) where
  stored := by
    constructor <;> simp [State.start]
  framed := framed_idle rfl

theorem Quiet.sound (h : Quiet kind s s') (hs : Sound kind s) : Sound kind s' :=
  ⟨h.stored hs.stored, h.framed hs.framed⟩

theorem Sound.set (h : Sound kind s) {rest : List Frame}
    (hframes : s.frames = .ctor j :: rest) : Sound kind (s.set kind j rest) where
  stored := h.stored.set (h.framed.ctor_lt j (hframes ▸ List.mem_cons_self)) rest
  framed := h.framed.set hframes

theorem next_sound {e : Step} (hs : Sound kind s) (h : s.next kind e = some s') :
    Sound kind s' := by
  rcases next_cases h with ⟨s₁, hfirst, hsecond, -⟩ | ⟨index, rest, -, hframes, rfl⟩
  · exact hsecond.sound (hfirst.sound hs)
  · exact hs.set hframes

/-! ### What the pass achieves -/

/-- The slots that the pass has left are empty, and every object that has been
constructed is in a slot or has been destroyed. -/
structure Swept (s : State) : Prop where
  behind : ∀ i, s.pass = some i → ∀ j < i, s.tls j = none
  here : ∀ i, s.pass = some i → s.frames ≠ [] → s.tls i = none
  kept : ∀ o, .constructed o ∈ s.log →
    .destroyed o ∈ s.log ∨ ∃ j, s.tls j = some o

theorem swept_start (vars : List VarId) : Swept (State.start vars) where
  behind i hpass := by cases hpass
  here i hpass := by cases hpass
  kept o hmem := by cases hmem

theorem Swept.advance (h : Swept s) {i : Nat} (hpass : s.pass = some i)
    (hempty : s.tls i = none) :
    Swept { s with frames := [], pass := some (i + 1) } where
  behind k hk j hj := by
    cases hk
    rcases Nat.lt_succ_iff_lt_or_eq.mp hj with hlt | rfl
    · exact h.behind i hpass j hlt
    · exact hempty
  here k hk hne := absurd rfl hne
  kept := h.kept

theorem Quiet.swept (h : Quiet kind s s') (hsound : Stored kind s) (hs : Swept s) :
    Swept s' := by
  cases h with
  | stay => exact hs
  | register var => exact { hs with }
  | slotCtor index hlt huser =>
      refine ⟨hs.behind, fun i hpass _ => hs.here i hpass fun hnil => ?_, hs.kept⟩
      have hpass : s.pass = some i := hpass
      simp [State.userRuns, hpass, hnil] at huser
  | accessed index object htls =>
      refine ⟨hs.behind, hs.here, fun o hmem => ?_⟩
      refine (hs.kept o ((mem_append_accessed (by simp)).mp hmem)).imp_left fun hmem => ?_
      exact (mem_append_accessed (by simp)).mpr hmem
  | threw index rest hframes =>
      refine ⟨hs.behind, fun i hpass _ => hs.here i hpass ?_, hs.kept⟩
      rw [hframes]
      exact List.cons_ne_nil _ _
  | destructed i hframes hpass =>
      refine hs.advance hpass (hs.here i hpass ?_)
      rw [hframes]
      exact List.cons_ne_nil _ _
  | destroy hframes hpass =>
      refine ⟨fun i hi j hj => ?_, fun i hi hne => absurd hframes hne, hs.kept⟩
      cases hi
      exact absurd hj (Nat.not_lt_zero j)
  | skip i hframes hpass htls =>
      have hnext := hs.advance hpass htls
      rw [← hframes] at hnext
      exact hnext
  | forget i object hframes hpass htls hptr =>
      refine ⟨fun k hk j hj => ?_, fun k hk hne => absurd hframes hne, fun o hmem => ?_⟩
      · cases hk
        rcases Nat.lt_succ_iff_lt_or_eq.mp hj with hlt | rfl
        · exact reset_none (hs.behind i hpass j hlt)
        · exact Function.update_self _ _ _
      · refine (hs.kept o hmem).imp_right fun ⟨j, hj⟩ => ⟨j, ?_⟩
        have hne : j ≠ i := by
          rintro rfl
          have howns := (hsound.owned j o hj).mp hmem
          rw [hptr] at howns
          cases howns
        rw [← hj]
        exact Function.update_of_ne hne _ _
  | delete i object hframes hpass htls =>
      refine ⟨fun k hk j hj => reset_none (hs.behind k hk j hj), fun k hk _ => ?_,
        fun o hmem => ?_⟩
      · have hki : i = k := Option.some.inj (hpass.symm.trans hk)
        rw [← hki]
        exact Function.update_self _ _ _
      · have hmem : .constructed o ∈ s.log := by simpa using hmem
        rcases hs.kept o hmem with hdone | ⟨j, hj⟩
        · exact .inl (List.mem_append_left _ hdone)
        · rcases eq_or_ne j i with rfl | hne
          · cases Option.some.inj (hj.symm.trans htls)
            exact .inl (List.mem_append_right _ List.mem_cons_self)
          · exact .inr ⟨j, (Function.update_of_ne hne _ _).trans hj⟩

/-- A step that meets the condition leaves nothing behind. -/
theorem Swept.next (hs : Swept s) (hsound : Sound kind s) {e : Step}
    (hahead : s.ahead kind e = true) (h : s.next kind e = some s') : Swept s' := by
  rcases next_cases h with ⟨s₁, hfirst, hsecond, -⟩ | ⟨index, rest, rfl, hframes, rfl⟩
  · exact hsecond.swept (hfirst.sound hsound).stored (hfirst.swept hsound.stored hs)
  · simp only [State.ahead, hframes, Bool.and_eq_true, Option.all_eq_true,
      decide_eq_true_eq, Bool.or_eq_true, Bool.not_eq_true', Option.isNone_iff_eq_none]
      at hahead
    obtain ⟨hbeyond, hfree⟩ := hahead
    have hother : ∀ i k, s.pass = some i → k ≤ i → s.tls k = none →
        (s.set kind index rest).tls k = none := by
      intro i k hpass hle hk
      have hne : k ≠ index := Nat.ne_of_lt (Nat.lt_of_le_of_lt hle (hbeyond i hpass))
      exact (Function.update_of_ne hne _ _).trans hk
    refine ⟨fun i hpass j hj => ?_, fun i hpass _ => ?_, fun o hmem => ?_⟩
    · exact hother i j hpass (Nat.le_of_lt hj) (hs.behind i hpass j hj)
    · refine hother i i hpass (Nat.le_refl i) (hs.here i hpass ?_)
      rw [hframes]
      exact List.cons_ne_nil _ _
    · rcases mem_set_log.mp hmem with hold | ⟨heq, -⟩
      · rcases hs.kept o hold with hdone | ⟨j, hj⟩
        · exact .inl (mem_set_log.mpr (.inl hdone))
        · refine .inr ⟨j, ?_⟩
          have hne : j ≠ index := by
            rintro rfl
            have howns := (hsound.stored.owned j o hj).mp hold
            rcases hfree with hptr | hnone
            · exact absurd howns (by rw [hptr]; exact Bool.false_ne_true)
            · exact absurd hj (by rw [hnone]; exact nofun)
          exact (Function.update_of_ne hne _ _).trans hj
      · cases heq
        exact .inr ⟨index, Function.update_self _ _ _⟩

theorem Swept.complete (hs : Swept s) (hsound : Sound kind s) (hreturned : s.Returned) :
    s.Complete := by
  obtain ⟨hframes, i, hpass, hle⟩ := hreturned
  have hempty : ∀ j, s.tls j = none := by
    intro j
    by_contra hsome
    obtain ⟨o, ho⟩ := Option.ne_none_iff_exists'.mp hsome
    have hlt := hsound.stored.slot_lt j o ho
    exact hsome (hs.behind i hpass j (Nat.lt_of_lt_of_le hlt hle))
  refine ⟨fun o hmem => ?_, hempty, hsound.stored.seen⟩
  have hdone : .destroyed o ∈ s.log := (hs.kept o hmem).resolve_right fun ⟨j, hj⟩ => by
    rw [hempty j] at hj
    cases hj
  exact Nat.le_antisymm (hsound.stored.once o) (List.count_pos_iff.mpr hdone)

/-! ### What it leaves behind -/

/-- A slot that the pass has left is filled, or an object is in no slot any more. -/
inductive Spoilt (s : State) : Prop where
  | behind (i j : Nat) (o : Object) (hpass : s.pass = some i) (htls : s.tls j = some o)
      (hle : j ≤ i) (hlt : s.frames = [] → j < i) : Spoilt s
  | lost (o : Object) (hmem : .constructed o ∈ s.log) (hdone : .destroyed o ∉ s.log)
      (hgone : ∀ j, s.tls j ≠ some o) : Spoilt s

theorem Quiet.spoilt (h : Quiet kind s s') (hframed : Framed s) (hs : Spoilt s) :
    Spoilt s' := by
  cases hs with
  | behind i j o hpass htls hle hlt =>
      cases h with
      | stay => exact .behind i j o hpass htls hle hlt
      | register var => exact .behind i j o hpass htls hle hlt
      | slotCtor index hindex huser => exact .behind i j o hpass htls hle nofun
      | accessed index object hobject => exact .behind i j o hpass htls hle hlt
      | threw index rest hframes =>
          refine .behind i j o hpass htls hle fun hnil => ?_
          have hlast := hframed.rest hframes hpass
          rw [show rest = [] from hnil] at hlast
          cases hlast
      | destructed k hframes hk =>
          cases hpass.symm.trans hk
          exact .behind (i + 1) j o rfl htls (Nat.le_succ_of_le hle)
            fun _ => Nat.lt_succ_of_le hle
      | destroy hframes hnone =>
          rw [hpass] at hnone
          cases hnone
      | skip k hframes hk hempty =>
          cases hpass.symm.trans hk
          exact .behind (i + 1) j o rfl htls (Nat.le_succ_of_le hle)
            fun _ => Nat.lt_succ_of_le hle
      | forget k object hframes hk hobject hptr =>
          cases hpass.symm.trans hk
          have hne : j ≠ i := Nat.ne_of_lt (hlt hframes)
          exact .behind (i + 1) j o rfl ((Function.update_of_ne hne _ _).trans htls)
            (Nat.le_succ_of_le hle) fun _ => Nat.lt_succ_of_le hle
      | delete k object hframes hk hobject =>
          cases hpass.symm.trans hk
          have hne : j ≠ i := Nat.ne_of_lt (hlt hframes)
          exact .behind i j o hpass ((Function.update_of_ne hne _ _).trans htls) hle nofun
  | lost o hmem hdone hgone =>
      cases h with
      | stay => exact .lost o hmem hdone hgone
      | register var => exact .lost o hmem hdone hgone
      | slotCtor index hindex huser => exact .lost o hmem hdone hgone
      | accessed index object hobject =>
          exact .lost o (List.mem_append_left _ hmem)
            (fun hnow => hdone ((mem_append_accessed (by simp)).mp hnow)) hgone
      | threw index rest hframes => exact .lost o hmem hdone hgone
      | destructed i hframes hpass => exact .lost o hmem hdone hgone
      | destroy hframes hnone => exact .lost o hmem hdone hgone
      | skip i hframes hpass hempty => exact .lost o hmem hdone hgone
      | forget i object hframes hpass hobject hptr =>
          exact .lost o hmem hdone fun j hj => hgone j (reset_some hj).2
      | delete i object hframes hpass hobject =>
          refine .lost o (List.mem_append_left _ hmem) (fun hnow => ?_)
            fun j hj => hgone j (reset_some hj).2
          rcases List.mem_append.mp hnow with hold | hnew
          · exact hdone hold
          · cases List.mem_singleton.mp hnew
            exact hgone i hobject

theorem set_spoilt {rest : List Frame} (hsound : Sound kind s)
    (hframes : s.frames = .ctor j :: rest) (hs : Spoilt s) :
    Spoilt (s.set kind j rest) := by
  cases hs with
  | behind i k o hpass htls hle hlt =>
      have hrest : rest ≠ [] := by
        have hlast := hsound.framed.rest hframes hpass
        rintro rfl
        cases hlast
      rcases eq_or_ne k j with rfl | hne
      · exact .behind i k s.objects hpass (Function.update_self _ _ _) hle
          fun hnil => absurd hnil hrest
      · exact .behind i k o hpass ((Function.update_of_ne hne _ _).trans htls) hle
          fun hnil => absurd hnil hrest
  | lost o hmem hdone hgone =>
      refine .lost o (mem_set_log.mpr (.inl hmem)) (fun hnow => ?_) fun k hk => ?_
      · rcases mem_set_log.mp hnow with hold | ⟨heq, -⟩
        · exact hdone hold
        · cases heq
      · replace hk : Function.update s.tls j (some s.objects) k = some o := hk
        rcases eq_or_ne k j with rfl | hne
        · rw [Function.update_self] at hk
          cases hk
          exact Nat.lt_irrefl _ (hsound.stored.recorded _ hmem)
        · rw [Function.update_of_ne hne] at hk
          exact hgone k hk

theorem next_spoilt (hsound : Sound kind s) {e : Step} (hs : Spoilt s)
    (h : s.next kind e = some s') : Spoilt s' := by
  rcases next_cases h with ⟨s₁, hfirst, hsecond, -⟩ | ⟨index, rest, -, hframes, rfl⟩
  · exact hsecond.spoilt (hfirst.framed hsound.framed) (hfirst.spoilt hsound.framed hs)
  · exact set_spoilt hsound hframes hs

/-- A step that does not meet the condition spoils the rest. -/
theorem spoilt_of_not_ahead (hsound : Sound kind s) {e : Step}
    (hahead : s.ahead kind e = false) (h : s.next kind e = some s') : Spoilt s' := by
  rcases next_cases h with ⟨s₁, -, -, hyes⟩ | ⟨j, rest, rfl, hframes, rfl⟩
  · rw [hahead] at hyes
    cases hyes
  · simp only [State.ahead, hframes, Bool.and_eq_false_iff, Bool.or_eq_false_iff,
      Bool.not_eq_false'] at hahead
    rcases hahead with hreached | ⟨howns, hfull⟩
    · obtain ⟨i, hpass, hle⟩ : ∃ i, s.pass = some i ∧ j ≤ i := by
        cases hpass : s.pass with
        | none =>
            rw [hpass] at hreached
            cases hreached
        | some i =>
            refine ⟨i, rfl, ?_⟩
            rw [hpass] at hreached
            exact Nat.le_of_not_lt (of_decide_eq_false hreached)
      have hrest : rest ≠ [] := by
        have hlast := hsound.framed.rest hframes hpass
        rintro rfl
        cases hlast
      exact .behind i j s.objects hpass (Function.update_self _ _ _) hle
        fun hnil => absurd hnil hrest
    · obtain ⟨o, ho⟩ : ∃ o, s.tls j = some o := by
        cases ho : s.tls j with
        | none =>
            rw [ho] at hfull
            cases hfull
        | some o => exact ⟨o, rfl⟩
      have hmem := (hsound.stored.owned j o ho).mpr howns
      refine .lost o (mem_set_log.mpr (.inl hmem)) (fun hnow => ?_) fun k hk => ?_
      · rcases mem_set_log.mp hnow with hold | ⟨heq, -⟩
        · exact hsound.stored.alive j o ho hold
        · cases heq
      · replace hk : Function.update s.tls j (some s.objects) k = some o := hk
        rcases eq_or_ne k j with rfl | hne
        · rw [Function.update_self] at hk
          cases hk
          exact Nat.lt_irrefl _ (hsound.stored.recorded _ hmem)
        · rw [Function.update_of_ne hne] at hk
          exact hne (hsound.stored.injective k j o hk ho)

theorem Spoilt.not_complete (hs : Spoilt s) : ¬s.Complete := by
  intro hcomplete
  cases hs with
  | behind i j o hpass htls hle hlt =>
      rw [hcomplete.empty j] at htls
      cases htls
  | lost o hmem hdone hgone =>
      have hone := hcomplete.destroyed o hmem
      rw [List.count_eq_zero_of_not_mem hdone] at hone
      cases hone

/-! ### Whole runs -/

/-- What holds after a run: it has kept the condition, or something is left. -/
theorem run_swept (hsound : Sound kind s) (hs : Swept s) {steps : List Step}
    (h : runEvents (State.next kind) (fun s e => s.ahead kind e = true) steps s = some s') :
    Sound kind s' ∧ Swept s' := by
  induction steps generalizing s with
  | nil =>
      cases h
      exact ⟨hsound, hs⟩
  | cons e steps ih =>
      unfold runEvents at h
      split at h
      case isTrue hahead =>
        obtain ⟨s₁, hnext, hrest⟩ := Option.bind_eq_some_iff.mp h
        exact ih (next_sound hsound hnext) (hs.next hsound hahead hnext) hrest
      case isFalse => cases h

theorem run_spoilt (hsound : Sound kind s) (hs : Spoilt s) {steps : List Step}
    (h : runEvents (State.next kind) (fun _ _ => True) steps s = some s') : Spoilt s' := by
  induction steps generalizing s with
  | nil =>
      cases h
      exact hs
  | cons e steps ih =>
      obtain ⟨s₁, hnext, hrest⟩ := Option.bind_eq_some_iff.mp h
      exact ih (next_sound hsound hnext) (next_spoilt hsound hs hnext) hrest

/-- A run keeps the condition, or it has spoilt something. -/
theorem run_ahead_or_spoilt (hsound : Sound kind s) {steps : List Step}
    (h : runEvents (State.next kind) (fun _ _ => True) steps s = some s') :
    runEvents (State.next kind) (fun s e => s.ahead kind e = true) steps s = some s' ∨
      Spoilt s' := by
  induction steps generalizing s with
  | nil => exact .inl h
  | cons e steps ih =>
      obtain ⟨s₁, hnext, hrest⟩ := Option.bind_eq_some_iff.mp h
      cases hahead : s.ahead kind e with
      | false =>
          exact .inr (run_spoilt (next_sound hsound hnext)
            (spoilt_of_not_ahead hsound hahead hnext) hrest)
      | true =>
          refine (ih (next_sound hsound hnext) hrest).imp_left fun hrun => ?_
          rw [runEvents, if_pos hahead, hnext]
          exact hrun

/-- When `Destroy` returns, everything has been destroyed once exactly if nothing
was constructed in a slot that the pass had reached, or over another object. -/
theorem destroy_complete_iff (kind : VarId → Kind) (vars : List VarId)
    (steps : List Step) (s : State)
    (h : runEvents (State.next kind) (fun _ _ => True) steps (State.start vars) = some s)
    (hreturned : s.Returned) :
    s.Complete ↔
      runEvents (State.next kind) (fun s e => s.ahead kind e = true) steps
        (State.start vars) = some s := by
  constructor
  · intro hcomplete
    exact (run_ahead_or_spoilt (sound_start vars) h).resolve_right
      fun hspoilt => hspoilt.not_complete hcomplete
  · intro hahead
    obtain ⟨hsound, hswept⟩ := run_swept (sound_start vars) (swept_start vars) hahead
    exact hswept.complete hsound hreturned

/-- The destructor of the second variable reads the first one. -/
def backwards : List Step :=
  [.access 0, .constructed, .access 1, .constructed, .destroy, .iterate, .destructed,
    .iterate, .access 0, .constructed, .destructed]

/-- The destructor of the first variable reads the second one. -/
def forwards : List Step :=
  [.access 0, .constructed, .access 1, .constructed, .destroy, .iterate, .access 1,
    .destructed, .iterate, .destructed]

/-- A destructor may use the variables that were registered later. -/
theorem forwards_complete :
    ∃ s, s.Returned ∧
      runEvents (State.next fun _ => .var) (fun _ _ => True) forwards
        (State.start [0, 1]) = some s ∧ s.Complete := by
  obtain ⟨s, hs⟩ := Option.isSome_iff_exists.mp (show (runEvents (State.next fun _ => .var)
    (fun _ _ => True) forwards (State.start [0, 1])).isSome = true by decide)
  have hreturned : s.Returned := by
    cases hs
    exact ⟨rfl, 2, rfl, Nat.le_refl _⟩
  refine ⟨s, hreturned, hs, (destroy_complete_iff _ _ _ s hs hreturned).mpr ?_⟩
  rw [← hs]
  rfl

/-- The first variable has a slot again when `Destroy` has returned. -/
theorem backwards_leaks :
    ∃ s, s.Returned ∧
      runEvents (State.next fun _ => .var) (fun _ _ => True) backwards
        (State.start [0, 1]) = some s ∧ ¬s.Complete ∧
      .constructed 2 ∈ s.log ∧ .destroyed 2 ∉ s.log := by
  refine ⟨_, ⟨rfl, 2, rfl, Nat.le_refl _⟩, rfl, fun hcomplete => ?_, by decide, by decide⟩
  cases hcomplete.empty 0

end Tls

end TwistSim
