/-
The static variables of a simulation, from `ConstructGlobalVars` to `DestroyVars`,
under every interleaving of the threads that visit local ones: the constructors and
destructors are user code, which may switch, throw and visit further variables.
-/
import Mathlib.Data.List.Nodup
import TwistSim.Runs
import TwistSim.Statics

namespace TwistSim

namespace StaticVars

open Statics (VarId)

/-- The main thread, in `Entry`.  The lists are what the iterators still have to
visit: whatever is linked in the meantime comes after them. -/
inductive Phase where
  | constructGlobals (rest : List VarId)
  /-- `RunUser`, up to `AtThreadExit`. -/
  | user
  | destroyLocals (rest : List VarId)
  | destroyGlobals (rest : List VarId)
  /-- `DestroyVars` has returned. -/
  | over
  deriving DecidableEq, Repr

namespace Phase

/-- Before `DestroyVars`. -/
def growing : Phase → Bool
  | constructGlobals _ | user => true
  | _ => false

/-- The globals whose `var_` is set. -/
def up : Phase → VarId → Bool
  | constructGlobals rest, var => !rest.elem var
  | user, _ | destroyLocals _, _ => true
  | destroyGlobals rest, var => rest.elem var
  | .over, _ => false

/-- What the iterator has ahead of it. -/
def Ahead (globals : List VarId) : Phase → Prop
  | constructGlobals rest => rest <:+ globals
  | destroyLocals rest => ∀ var ∈ rest, var ∉ globals
  | destroyGlobals rest => rest <:+ globals.reverse
  | user | .over => True

/-- Before `locals_.UnlinkAll`. -/
def listed : Phase → Bool
  | constructGlobals _ | user | destroyLocals _ => true
  | _ => false

end Phase

inductive Event where
  /-- The first visit of a local variable. -/
  | registered (var : VarId)
  | constructed (var : VarId)
  | constructedGlobal (var : VarId)
  /-- `_Visit` has returned, and the thread may refer to the variable. -/
  | obtained (t : ThreadId) (var : VarId)
  /-- The destructor has been called. -/
  | destroyed (var : VarId)
  deriving DecidableEq, Repr

/-- `initialized` says which `var_` are set, and `ctors` which local variables every
thread is constructing, innermost first.  While `running`, the main thread executes
user code, and may be switched out. -/
structure State where
  globals : List VarId
  locals : List VarId
  initialized : VarId → Bool
  phase : Phase
  running : Bool
  ctors : ThreadId → List VarId
  log : List Event
  panic : Option Panic

inductive Step where
  /-- `_Visit` of a local variable. -/
  | visit (t : ThreadId) (var : VarId)
  /-- The constructor of a local variable returns. -/
  | constructed (t : ThreadId)
  | threw (t : ThreadId)
  /-- The user code that the main thread has called in this phase returns. -/
  | returned
  /-- The main thread goes on until it calls user code or the phase is over. -/
  | proceed
  deriving DecidableEq, Repr

def mainThread : ThreadId := 1

namespace State

/-- The globals are in the order in which they are constructed. -/
def start (globals : List VarId) : State where
  globals := globals
  locals := []
  initialized _ := false
  phase := .constructGlobals globals
  running := false
  ctors _ := []
  log := []
  panic := none

def crash (s : State) (p : Panic) : State := { s with panic := some p }

/-- `_Visit`, up to the constructor: `Register` links the variable first. -/
def visit (s : State) (t : ThreadId) (var : VarId) : State :=
  if s.initialized var then { s with log := s.log ++ [.obtained t var] }
  else if s.locals.elem var then
    s.crash (.verify "cannot link already linked node")
  else
    { s with
      locals := s.locals ++ [var]
      ctors := Function.update s.ctors t (var :: s.ctors t)
      log := s.log ++ [.registered var] }

/-- `var_` is set, and `_Visit` returns. -/
def constructed (s : State) (t : ThreadId) (var : VarId) (rest : List VarId) : State :=
  { s with
    initialized := Function.update s.initialized var true
    ctors := Function.update s.ctors t rest
    log := s.log ++ [.constructed var] ++ [.obtained t var] }

def returned (s : State) : Option State :=
  match s.phase with
  | .constructGlobals (var :: rest) =>
      some { s with
        initialized := Function.update s.initialized var true
        phase := .constructGlobals rest
        running := false
        log := s.log ++ [.constructedGlobal var] }
  | .user => some { s with phase := .destroyLocals s.locals.reverse, running := false }
  | .destroyLocals _ | .destroyGlobals _ => some { s with running := false }
  | .constructGlobals [] | .over => none

/-- `Dtor`, up to the destructor of the object. -/
def dtor (s : State) (var : VarId) (phase : Phase) : State :=
  if s.initialized var then
    { s with
      initialized := Function.update s.initialized var false
      phase := phase
      running := true
      log := s.log ++ [.destroyed var] }
  else s.crash (.assertion "Static var not initialized")

def proceed (s : State) : Option State :=
  match s.phase with
  | .constructGlobals [] => some { s with phase := .user, running := true }
  | .constructGlobals (var :: _) =>
      if s.initialized var then
        some (s.crash (.assertion "Static var already initialized"))
      else some { s with running := true }
  | .destroyLocals [] =>
      some { s with locals := [], phase := .destroyGlobals s.globals.reverse }
  | .destroyLocals (var :: rest) => some (s.dtor var (.destroyLocals rest))
  | .destroyGlobals [] => some { s with phase := .over }
  | .destroyGlobals (var :: rest) => some (s.dtor var (.destroyGlobals rest))
  | .user | .over => none

/-- An exception of a global variable ends the simulation, as a panic does. -/
def next (s : State) (e : Step) : Option State :=
  if s.panic.isSome then none
  else
    match e, s.running with
    | .visit t var, true => if s.globals.elem var then none else some (s.visit t var)
    | .constructed t, true =>
        match s.ctors t with
        | var :: rest => some (s.constructed t var rest)
        | [] => none
    | .threw t, true =>
        match s.ctors t with
        | _ :: rest => some { s with ctors := Function.update s.ctors t rest }
        | [] => none
    | .returned, true => if s.ctors mainThread = [] then s.returned else none
    | .proceed, false => s.proceed
    | _, _ => none

/-- No check has failed; every local variable has been constructed at most once,
before anyone has got it, and it is linked once until all are unlinked. -/
structure Safe (s : State) : Prop where
  quiet : s.panic = none
  once : ∀ var, s.log.count (.constructed var) ≤ 1
  after : ∀ t var pre post, s.log = pre ++ .obtained t var :: post →
    .constructed var ∈ pre
  linked : s.phase.listed = true →
    ∀ var, .constructed var ∈ s.log → s.locals.count var = 1

/-- Nobody visits a variable that has been registered and is not there: because its
constructor is running or has thrown, or because it has been destroyed.  No such
variable is left for `DestroyVars`. -/
def settled (s : State) : Step → Bool
  | .visit _ var => s.initialized var || !s.log.elem (.registered var)
  | .proceed =>
      match s.phase with
      | .destroyLocals (var :: _) => s.initialized var
      | _ => true
  | _ => true

end State

variable {s s' : State} {t : ThreadId} {var : VarId}

/-! ### What a step can do -/

/-- The effects of a step. -/
inductive Moves (s : State) : Step → State → Prop where
  | obtain (t : ThreadId) (var : VarId) (hlocal : var ∉ s.globals)
      (hinit : s.initialized var = true) :
      Moves s (.visit t var) { s with log := s.log ++ [.obtained t var] }
  | collide (t : ThreadId) (var : VarId) (p : Panic) (hinit : s.initialized var = false)
      (hlinked : var ∈ s.locals) : Moves s (.visit t var) (s.crash p)
  | register (t : ThreadId) (var : VarId) (hlocal : var ∉ s.globals)
      (hinit : s.initialized var = false) (hlinked : var ∉ s.locals)
      (hrunning : s.running = true) :
      Moves s (.visit t var)
        { s with
          locals := s.locals ++ [var]
          ctors := Function.update s.ctors t (var :: s.ctors t)
          log := s.log ++ [.registered var] }
  | construct (t : ThreadId) (var : VarId) (rest : List VarId)
      (hctors : s.ctors t = var :: rest) (hrunning : s.running = true) :
      Moves s (.constructed t) (s.constructed t var rest)
  | throw (t : ThreadId) (var : VarId) (rest : List VarId)
      (hctors : s.ctors t = var :: rest) :
      Moves s (.threw t) { s with ctors := Function.update s.ctors t rest }
  | globalDone (var : VarId) (rest : List VarId)
      (hphase : s.phase = .constructGlobals (var :: rest)) :
      Moves s .returned
        { s with
          initialized := Function.update s.initialized var true
          phase := .constructGlobals rest
          running := false
          log := s.log ++ [.constructedGlobal var] }
  | userDone (hphase : s.phase = .user) :
      Moves s .returned
        { s with phase := .destroyLocals s.locals.reverse, running := false }
  | dtorDone (hphase : s.phase.growing = false) :
      Moves s .returned { s with running := false }
  | startUser (hphase : s.phase = .constructGlobals []) :
      Moves s .proceed { s with phase := .user, running := true }
  | startGlobal (var : VarId) (rest : List VarId)
      (hphase : s.phase = .constructGlobals (var :: rest)) :
      Moves s .proceed { s with running := true }
  | globalTwice (var : VarId) (rest : List VarId) (p : Panic)
      (hphase : s.phase = .constructGlobals (var :: rest))
      (hinit : s.initialized var = true) : Moves s .proceed (s.crash p)
  | unlink (hphase : s.phase = .destroyLocals []) :
      Moves s .proceed
        { s with locals := [], phase := .destroyGlobals s.globals.reverse }
  | destroyLocal (var : VarId) (rest : List VarId)
      (hphase : s.phase = .destroyLocals (var :: rest)) (hinit : s.initialized var = true) :
      Moves s .proceed
        { s with
          initialized := Function.update s.initialized var false
          phase := .destroyLocals rest
          running := true
          log := s.log ++ [.destroyed var] }
  | localMissing (var : VarId) (rest : List VarId) (p : Panic)
      (hphase : s.phase = .destroyLocals (var :: rest))
      (hinit : s.initialized var = false) : Moves s .proceed (s.crash p)
  | destroyGlobal (var : VarId) (rest : List VarId)
      (hphase : s.phase = .destroyGlobals (var :: rest))
      (hinit : s.initialized var = true) :
      Moves s .proceed
        { s with
          initialized := Function.update s.initialized var false
          phase := .destroyGlobals rest
          running := true
          log := s.log ++ [.destroyed var] }
  | globalMissing (var : VarId) (rest : List VarId) (p : Panic)
      (hphase : s.phase = .destroyGlobals (var :: rest))
      (hinit : s.initialized var = false) : Moves s .proceed (s.crash p)
  | finish (hphase : s.phase = .destroyGlobals []) :
      Moves s .proceed { s with phase := .over }

theorem visit_moves (hlocal : var ∉ s.globals) (hrunning : s.running = true) :
    Moves s (.visit t var) (s.visit t var) := by
  unfold State.visit
  split
  case isTrue hinit => exact .obtain t var hlocal hinit
  case isFalse hinit =>
    have hinit := Bool.eq_false_of_not_eq_true hinit
    split
    case isTrue hlinked => exact .collide t var _ hinit (List.elem_iff.mp hlinked)
    case isFalse hlinked =>
      exact .register t var hlocal hinit (fun hmem => hlinked (List.elem_iff.mpr hmem))
        hrunning

theorem returned_moves (h : s.returned = some s') : Moves s .returned s' := by
  unfold State.returned at h
  split at h
  case h_1 var rest hphase =>
    cases h
    exact .globalDone var rest hphase
  case h_2 hphase =>
    cases h
    exact .userDone hphase
  case h_3 rest hphase =>
    cases h
    exact .dtorDone (by rw [hphase]; rfl)
  case h_4 rest hphase =>
    cases h
    exact .dtorDone (by rw [hphase]; rfl)
  case h_5 => cases h
  case h_6 => cases h

theorem proceed_moves (h : s.proceed = some s') : Moves s .proceed s' := by
  unfold State.proceed at h
  split at h
  case h_1 hphase =>
    cases h
    exact .startUser hphase
  case h_2 var rest hphase =>
    split at h
    case isTrue hinit =>
      cases h
      exact .globalTwice var rest _ hphase hinit
    case isFalse hinit =>
      cases h
      exact .startGlobal var rest hphase
  case h_3 hphase =>
    cases h
    exact .unlink hphase
  case h_4 var rest hphase =>
    cases h
    unfold State.dtor
    split
    case isTrue hinit => exact .destroyLocal var rest hphase hinit
    case isFalse hinit =>
      exact .localMissing var rest _ hphase (Bool.eq_false_of_not_eq_true hinit)
  case h_5 hphase =>
    cases h
    exact .finish hphase
  case h_6 var rest hphase =>
    cases h
    unfold State.dtor
    split
    case isTrue hinit => exact .destroyGlobal var rest hphase hinit
    case isFalse hinit =>
      exact .globalMissing var rest _ hphase (Bool.eq_false_of_not_eq_true hinit)
  case h_7 => cases h
  case h_8 => cases h

theorem next_moves {e : Step} (h : s.next e = some s') : Moves s e s' := by
  unfold State.next at h
  split at h
  · cases h
  · split at h
    case h_1 t var hrunning =>
      split at h
      · cases h
      · rename_i hlocal
        cases h
        exact visit_moves (fun hmem => hlocal (List.elem_iff.mpr hmem)) hrunning
    case h_2 t hrunning =>
      split at h
      case h_1 var rest hctors =>
        cases h
        exact .construct t var rest hctors hrunning
      case h_2 => cases h
    case h_3 t hrunning =>
      split at h
      case h_1 var rest hctors =>
        cases h
        exact .throw t var rest hctors
      case h_2 => cases h
    case h_4 hrunning =>
      split at h
      · exact returned_moves h
      · cases h
    case h_5 hrunning => exact proceed_moves h
    case h_6 => cases h

/-! ### Constructed once -/

/-- What holds as long as every step is settled. -/
structure Tidy (s : State) : Prop where
  quiet : s.panic = none
  fresh : ∀ t, ∀ var ∈ s.ctors t, .registered var ∈ s.log ∧
    .constructed var ∉ s.log ∧ var ∉ s.globals ∧ s.initialized var = false
  solo : ∀ t u var, var ∈ s.ctors t → var ∈ s.ctors u → t = u
  nested : ∀ t, (s.ctors t).Nodup
  once : ∀ var, s.log.count (.constructed var) ≤ 1
  known : ∀ var, .constructed var ∈ s.log → .registered var ∈ s.log ∧ var ∉ s.globals
  present : ∀ var, s.initialized var = true →
    var ∈ s.globals ∨ .constructed var ∈ s.log
  after : ∀ t var pre post, s.log = pre ++ .obtained t var :: post →
    .constructed var ∈ pre
  linked : ∀ var ∈ s.locals, .registered var ∈ s.log ∧ var ∉ s.globals
  listed : s.phase.listed = true → ∀ var, .registered var ∈ s.log → var ∈ s.locals
  distinct : s.locals.Nodup
  apart : s.globals.Nodup
  up : ∀ var ∈ s.globals, s.initialized var = s.phase.up var
  ahead : s.phase.Ahead s.globals

theorem tidy_start {globals : List VarId} (hnodup : globals.Nodup) :
    Tidy (State.start globals) where
  quiet := rfl
  fresh t var hmem := by cases hmem
  solo t u var hmem := by cases hmem
  nested t := List.nodup_nil
  once var := Nat.zero_le 1
  known var hmem := by cases hmem
  present var hinit := by cases hinit
  after t var pre post heq := by simp [State.start] at heq
  linked var hmem := by cases hmem
  listed _ var hmem := by cases hmem
  distinct := List.nodup_nil
  apart := hnodup
  up var hmem := by
    have helem : globals.elem var = true := List.elem_iff.mpr hmem
    simp only [State.start, Phase.up, helem, Bool.not_true]
  ahead := List.suffix_rfl

/-- An event that `Tidy` says little about. -/
def Event.inert : Event → Bool
  | .registered _ | .constructed _ => false
  | _ => true

theorem mem_append_inert {log : List Event} {e e' : Event} (hinert : e.inert = true)
    (he' : e'.inert = false) : e' ∈ log ++ [e] ↔ e' ∈ log := by
  have hne : e' ≠ e := by
    rintro rfl
    rw [hinert] at he'
    cases he'
  simp [hne]

/-- Nobody gets a variable before it is constructed, if that holds of the next event
too. -/
theorem after_append {log : List Event} {e : Event}
    (h : ∀ t var pre post, log = pre ++ .obtained t var :: post → .constructed var ∈ pre)
    (he : ∀ t var, e = .obtained t var → .constructed var ∈ log)
    (pre post : List Event) (heq : log ++ [e] = pre ++ .obtained t var :: post) :
    .constructed var ∈ pre := by
  rcases List.eq_nil_or_concat post with rfl | ⟨front, last, rfl⟩
  · obtain ⟨rfl, hlast⟩ := List.append_inj' heq rfl
    exact he t var (List.cons.inj hlast).1
  · have heq' : log ++ [e] = (pre ++ .obtained t var :: front) ++ [last] := by
      rw [heq, List.concat_eq_append, List.append_assoc, List.cons_append]
    exact h t var pre front (List.append_inj' heq' rfl).1

theorem Tidy.logged (h : Tidy s) {e : Event} (hinert : e.inert = true)
    (he : ∀ t var, e = .obtained t var → .constructed var ∈ s.log) :
    Tidy { s with log := s.log ++ [e] } where
  quiet := h.quiet
  fresh t var hmem := by
    obtain ⟨hregistered, hnot, hlocal, hinit⟩ := h.fresh t var hmem
    exact ⟨List.mem_append_left _ hregistered,
      fun hnow => hnot ((mem_append_inert hinert rfl).mp hnow), hlocal, hinit⟩
  solo := h.solo
  nested := h.nested
  once var := by
    have hne : e ≠ .constructed var := by
      rintro rfl
      cases hinert
    rw [List.count_append, List.count_singleton, if_neg (by simpa using hne), Nat.add_zero]
    exact h.once var
  known var hmem := by
    obtain ⟨hregistered, hlocal⟩ := h.known var ((mem_append_inert hinert rfl).mp hmem)
    exact ⟨List.mem_append_left _ hregistered, hlocal⟩
  present var hinit := (h.present var hinit).imp_right (List.mem_append_left _)
  after t var pre post := after_append h.after he pre post
  linked var hmem :=
    ⟨List.mem_append_left _ (h.linked var hmem).1, (h.linked var hmem).2⟩
  listed hlisted var hmem := h.listed hlisted var ((mem_append_inert hinert rfl).mp hmem)
  distinct := h.distinct
  apart := h.apart
  up := h.up
  ahead := h.ahead

/-- A variable that nobody has visited is linked and its constructor is called. -/
theorem Tidy.register (h : Tidy s) (t : ThreadId) (hlocal : var ∉ s.globals)
    (hinit : s.initialized var = false) (hnew : .registered var ∉ s.log) :
    Tidy
      { s with
        locals := s.locals ++ [var]
        ctors := Function.update s.ctors t (var :: s.ctors t)
        log := s.log ++ [.registered var] } := by
  have hctors : ∀ u v, v ∈ Function.update s.ctors t (var :: s.ctors t) u →
      (u = t ∧ v = var) ∨ v ∈ s.ctors u := by
    intro u v hmem
    rcases eq_or_ne u t with rfl | hne
    · rw [Function.update_self] at hmem
      exact (List.mem_cons.mp hmem).imp (fun heq => ⟨rfl, heq⟩) id
    · rw [Function.update_of_ne hne] at hmem
      exact .inr hmem
  have hidle : ∀ u, var ∉ s.ctors u := fun u hmem => hnew (h.fresh u var hmem).1
  have hunlinked : var ∉ s.locals := fun hmem => hnew (h.linked var hmem).1
  have hold : ∀ v, .constructed v ∈ s.log ++ [.registered var] ↔
      .constructed v ∈ s.log := fun v => by simp
  exact { h with
    fresh := fun u v hmem => by
      rcases hctors u v hmem with ⟨-, rfl⟩ | hmem
      · refine ⟨List.mem_append_right _ List.mem_cons_self, fun hnow => ?_, hlocal, hinit⟩
        exact hnew (h.known v ((hold v).mp hnow)).1
      · obtain ⟨hregistered, hnot, hrest⟩ := h.fresh u v hmem
        exact ⟨List.mem_append_left _ hregistered, fun hnow => hnot ((hold v).mp hnow), hrest⟩
    solo := fun u w v hu hw => by
      rcases hctors u v hu with ⟨hut, huv⟩ | hu <;>
        rcases hctors w v hw with ⟨hwt, hwv⟩ | hw
      · exact hut.trans hwt.symm
      · exact absurd (huv ▸ hw) (hidle w)
      · exact absurd (hwv ▸ hu) (hidle u)
      · exact h.solo u w v hu hw
    nested := update_cases (P := fun _ ctors => List.Nodup ctors)
      (List.nodup_cons.mpr ⟨hidle t, h.nested t⟩) fun u _ => h.nested u
    once := fun v => by
      rw [List.count_append, List.count_singleton, if_neg (by simp), Nat.add_zero]
      exact h.once v
    known := fun v hmem => by
      obtain ⟨hregistered, hglobal⟩ := h.known v ((hold v).mp hmem)
      exact ⟨List.mem_append_left _ hregistered, hglobal⟩
    present := fun v hv => (h.present v hv).imp_right (hold v).mpr
    after := fun u v pre post => after_append h.after (fun u v heq => by cases heq) pre post
    linked := fun v hmem => by
      rcases List.mem_append.mp hmem with hmem | hmem
      · exact ⟨List.mem_append_left _ (h.linked v hmem).1, (h.linked v hmem).2⟩
      · cases List.mem_singleton.mp hmem
        exact ⟨List.mem_append_right _ List.mem_cons_self, hlocal⟩
    listed := fun hlisted v hmem => by
      rcases List.mem_append.mp hmem with hmem | hmem
      · exact List.mem_append_left _ (h.listed hlisted v hmem)
      · cases List.mem_singleton.mp hmem
        exact List.mem_append_right _ List.mem_cons_self
    distinct := List.nodup_append.mpr ⟨h.distinct, List.pairwise_singleton _ var,
      fun v hv w hw heq => hunlinked (List.mem_singleton.mp hw ▸ heq ▸ hv)⟩ }

theorem mem_popped {rest : List VarId} (hctors : s.ctors t = var :: rest) {u : ThreadId}
    {v : VarId} (hmem : v ∈ Function.update s.ctors t rest u) : v ∈ s.ctors u := by
  rcases eq_or_ne u t with rfl | hne
  · rw [Function.update_self] at hmem
    exact hctors ▸ List.mem_cons_of_mem var hmem
  · rwa [Function.update_of_ne hne] at hmem

theorem Tidy.pop (h : Tidy s) {rest : List VarId} (hctors : s.ctors t = var :: rest) :
    Tidy { s with ctors := Function.update s.ctors t rest } :=
  { h with
    fresh := fun u v hmem => h.fresh u v (mem_popped hctors hmem)
    solo := fun u w v hu hw => h.solo u w v (mem_popped hctors hu) (mem_popped hctors hw)
    nested := update_cases (P := fun _ ctors => List.Nodup ctors)
      (List.nodup_cons.mp (hctors ▸ h.nested t)).2 fun u _ => h.nested u }

/-- The innermost constructor is nobody else's, and it is not nested in itself. -/
theorem Tidy.not_mem_popped (h : Tidy s) {rest : List VarId}
    (hctors : s.ctors t = var :: rest) (u : ThreadId) :
    var ∉ Function.update s.ctors t rest u := by
  intro hmem
  rcases eq_or_ne u t with rfl | hne
  · rw [Function.update_self] at hmem
    exact (List.nodup_cons.mp (hctors ▸ h.nested u)).1 hmem
  · rw [Function.update_of_ne hne] at hmem
    exact hne (h.solo u t var hmem (hctors ▸ List.mem_cons_self))

theorem Tidy.constructed (h : Tidy s) {rest : List VarId}
    (hctors : s.ctors t = var :: rest) : Tidy (s.constructed t var rest) := by
  obtain ⟨hregistered, hnew, hlocal, -⟩ := h.fresh t var (hctors ▸ List.mem_cons_self)
  have hpop := h.pop hctors
  have hidle := h.not_mem_popped hctors
  have hbuilt : Tidy
      { s with
        initialized := Function.update s.initialized var true
        ctors := Function.update s.ctors t rest
        log := s.log ++ [.constructed var] } :=
    { hpop with
      fresh := fun u v hmem => by
        obtain ⟨hv, hnot, hglobal, hinit⟩ := hpop.fresh u v hmem
        have hne : v ≠ var := fun heq => hidle u (heq ▸ hmem)
        refine ⟨List.mem_append_left _ hv, fun hnow => ?_, hglobal,
          (Function.update_of_ne hne _ _).trans hinit⟩
        rcases List.mem_append.mp hnow with hnow | hnow
        · exact hnot hnow
        · cases List.mem_singleton.mp hnow
          exact hne rfl
      once := fun v => by
        rcases eq_or_ne v var with rfl | hne
        · rw [List.count_append, List.count_eq_zero_of_not_mem hnew]
          simp
        · rw [List.count_append, List.count_singleton,
            if_neg (by simpa using fun heq => hne heq.symm), Nat.add_zero]
          exact h.once v
      known := fun v hmem => by
        rcases List.mem_append.mp hmem with hmem | hmem
        · exact ⟨List.mem_append_left _ (h.known v hmem).1, (h.known v hmem).2⟩
        · cases List.mem_singleton.mp hmem
          exact ⟨List.mem_append_left _ hregistered, hlocal⟩
      present := fun v hv => by
        rcases eq_or_ne v var with rfl | hne
        · exact .inr (List.mem_append_right _ List.mem_cons_self)
        · replace hv : Function.update s.initialized var true v = true := hv
          rw [Function.update_of_ne hne] at hv
          exact (h.present v hv).imp_right (List.mem_append_left _)
      after := fun u v pre post =>
        after_append h.after (fun u v heq => by cases heq) pre post
      linked := fun v hmem =>
        ⟨List.mem_append_left _ (h.linked v hmem).1, (h.linked v hmem).2⟩
      listed := fun hlisted v hmem => h.listed hlisted v (by simpa using hmem)
      up := fun v hmem =>
        (Function.update_of_ne (fun heq : v = var => hlocal (heq ▸ hmem)) _ _).trans
          (h.up v hmem) }
  refine hbuilt.logged rfl fun u v heq => ?_
  cases heq
  exact List.mem_append_right _ List.mem_cons_self

/-- `var_` of a variable changes that no constructor is about. -/
theorem Tidy.globalDone (h : Tidy s) {rest : List VarId}
    (hphase : s.phase = .constructGlobals (var :: rest)) :
    Tidy
      { s with
        initialized := Function.update s.initialized var true
        phase := .constructGlobals rest
        running := false
        log := s.log ++ [.constructedGlobal var] } := by
  have hahead := h.ahead
  rw [hphase] at hahead
  have hnodup : (var :: rest).Nodup := h.apart.sublist hahead.sublist
  have hmem : var ∈ s.globals := hahead.subset List.mem_cons_self
  have hbuilt : Tidy
      { s with
        initialized := Function.update s.initialized var true
        phase := .constructGlobals rest
        running := false } :=
    { h with
      fresh := fun u v hv => by
        obtain ⟨hregistered, hnot, hlocal, hinit⟩ := h.fresh u v hv
        exact ⟨hregistered, hnot, hlocal,
          (Function.update_of_ne (fun heq : v = var => hlocal (heq ▸ hmem)) _ _).trans hinit⟩
      present := fun v hv => by
        rcases eq_or_ne v var with rfl | hne
        · exact .inl hmem
        · replace hv : Function.update s.initialized var true v = true := hv
          rw [Function.update_of_ne hne] at hv
          exact h.present v hv
      listed := fun _ v hv => h.listed (by rw [hphase]; rfl) v hv
      up := fun v hv => by
        show Function.update s.initialized var true v = !rest.elem v
        rcases eq_or_ne v var with rfl | hne
        · rw [Function.update_self, Bool.eq_false_of_not_eq_true (mt List.elem_iff.mp
            (List.nodup_cons.mp hnodup).1), Bool.not_false]
        · rw [Function.update_of_ne hne, h.up v hv, hphase]
          simp [Phase.up, hne]
      ahead := (List.suffix_cons var rest).trans hahead }
  exact hbuilt.logged rfl fun u v heq => by cases heq

/-- `Dtor` of a variable that is initialized. -/
theorem Tidy.destroyed (h : Tidy s) {phase : Phase} (hphase : phase.Ahead s.globals)
    (hlisted : phase.listed = true → s.phase.listed = true)
    (hup : ∀ v ∈ s.globals,
      Function.update s.initialized var false v = phase.up v) :
    Tidy
      { s with
        initialized := Function.update s.initialized var false
        phase := phase
        running := true
        log := s.log ++ [.destroyed var] } := by
  have hbuilt : Tidy
      { s with
        initialized := Function.update s.initialized var false
        phase := phase
        running := true } :=
    { h with
      fresh := fun u v hv => by
        obtain ⟨hregistered, hnot, hlocal, hinit⟩ := h.fresh u v hv
        refine ⟨hregistered, hnot, hlocal, ?_⟩
        rcases eq_or_ne v var with rfl | hne
        · exact Function.update_self _ _ _
        · exact (Function.update_of_ne hne _ _).trans hinit
      present := fun v hv => by
        rcases eq_or_ne v var with rfl | hne
        · replace hv : Function.update s.initialized v false v = true := hv
          rw [Function.update_self] at hv
          cases hv
        · replace hv : Function.update s.initialized var false v = true := hv
          rw [Function.update_of_ne hne] at hv
          exact h.present v hv
      listed := fun hnow v hv => h.listed (hlisted hnow) v hv
      up := hup
      ahead := hphase }
  exact hbuilt.logged rfl fun u v heq => by cases heq

/-- A settled step fails no check, and leaves the variables tidy. -/
theorem Tidy.moves (h : Tidy s) {e : Step} (hsettled : s.settled e = true)
    (hmoves : Moves s e s') : Tidy s' := by
  cases hmoves with
  | obtain t var hlocal hinit =>
      refine h.logged rfl fun u v heq => ?_
      cases heq
      exact (h.present var hinit).resolve_left hlocal
  | collide t var p hinit hlinked =>
      have hregistered := (h.linked var hlinked).1
      simp [State.settled, hinit, hregistered] at hsettled
  | register t var hlocal hinit hlinked hrunning =>
      refine h.register t hlocal hinit fun hregistered => ?_
      simp [State.settled, hinit, hregistered] at hsettled
  | construct t var rest hctors hrunning => exact h.constructed hctors
  | throw t var rest hctors => exact h.pop hctors
  | globalDone var rest hphase => exact h.globalDone hphase
  | userDone hphase =>
      exact { h with
        listed := fun _ v hv => h.listed (by rw [hphase]; rfl) v hv
        up := fun v hv => (h.up v hv).trans (by rw [hphase]; rfl)
        ahead := fun v hv => (h.linked v (List.mem_reverse.mp hv)).2 }
  | dtorDone hphase => exact { h with }
  | startUser hphase =>
      exact { h with
        listed := fun _ v hv => h.listed (by rw [hphase]; rfl) v hv
        up := fun v hv => (h.up v hv).trans (by rw [hphase]; rfl)
        ahead := trivial }
  | startGlobal var rest hphase => exact { h with }
  | globalTwice var rest p hphase hinit =>
      have hahead := h.ahead
      rw [hphase] at hahead
      have hup := h.up var (hahead.subset List.mem_cons_self)
      rw [hinit, hphase] at hup
      simp [Phase.up] at hup
  | unlink hphase =>
      exact { h with
        linked := fun v hv => by cases hv
        listed := fun hlisted => by cases hlisted
        distinct := List.nodup_nil
        up := fun v hv => by
          rw [h.up v hv, hphase]
          exact (List.elem_iff.mpr (List.mem_reverse.mpr hv)).symm
        ahead := List.suffix_rfl }
  | destroyLocal var rest hphase hinit =>
      have hahead := h.ahead
      rw [hphase] at hahead
      refine h.destroyed (fun v hv => hahead v (List.mem_cons_of_mem _ hv))
        (fun _ => by rw [hphase]; rfl) fun v hv => ?_
      have hne : v ≠ var := fun heq => hahead var List.mem_cons_self (heq ▸ hv)
      rw [Function.update_of_ne hne, h.up v hv, hphase]
      rfl
  | localMissing var rest p hphase hinit =>
      simp [State.settled, hphase, hinit] at hsettled
  | destroyGlobal var rest hphase hinit =>
      have hahead := h.ahead
      rw [hphase] at hahead
      have hnodup : (var :: rest).Nodup :=
        (List.nodup_reverse.mpr h.apart).sublist hahead.sublist
      refine h.destroyed ((List.suffix_cons var rest).trans hahead) nofun fun v hv => ?_
      show Function.update s.initialized var false v = rest.elem v
      rcases eq_or_ne v var with rfl | hne
      · rw [Function.update_self, Bool.eq_false_of_not_eq_true (mt List.elem_iff.mp
          (List.nodup_cons.mp hnodup).1)]
      · rw [Function.update_of_ne hne, h.up v hv, hphase]
        simp [Phase.up, hne]
  | globalMissing var rest p hphase hinit =>
      have hahead := h.ahead
      rw [hphase] at hahead
      have hmem : var ∈ s.globals :=
        List.mem_reverse.mp (hahead.subset List.mem_cons_self)
      have hup := h.up var hmem
      rw [hinit, hphase] at hup
      simp [Phase.up] at hup
  | finish hphase =>
      exact { h with
        listed := fun hlisted => by cases hlisted
        up := fun v hv => (h.up v hv).trans (by rw [hphase]; rfl)
        ahead := trivial }

theorem Tidy.safe (h : Tidy s) : s.Safe where
  quiet := h.quiet
  once := h.once
  after := h.after
  linked hlisted var hmem := by
    have hlinked := h.listed hlisted var (h.known var hmem).1
    exact List.count_eq_one_of_mem h.distinct hlinked

/-- A step that is not settled fails a check while the locals are linked. -/
theorem Tidy.crashes (h : Tidy s) {e : Step} (hsettled : s.settled e = false)
    (hlisted : s.phase.listed = true) (hnext : s.next e = some s') :
    s'.panic.isSome = true := by
  cases next_moves hnext with
  | obtain t var hlocal hinit => simp [State.settled, hinit] at hsettled
  | collide t var p hinit hlinked => rfl
  | register t var hlocal hinit hlinked hrunning =>
      simp only [State.settled, hinit, Bool.false_or, Bool.not_eq_false'] at hsettled
      exact absurd (h.listed hlisted var (List.elem_iff.mp hsettled)) hlinked
  | construct t var rest hctors hrunning => cases hsettled
  | throw t var rest hctors => cases hsettled
  | globalDone var rest hphase => cases hsettled
  | userDone hphase => cases hsettled
  | dtorDone hphase => cases hsettled
  | startUser hphase => simp [State.settled, hphase] at hsettled
  | startGlobal var rest hphase => simp [State.settled, hphase] at hsettled
  | globalTwice var rest p hphase hinit => rfl
  | unlink hphase => simp [State.settled, hphase] at hsettled
  | destroyLocal var rest hphase hinit => simp [State.settled, hphase, hinit] at hsettled
  | localMissing var rest p hphase hinit => rfl
  | destroyGlobal var rest hphase hinit => simp [State.settled, hphase] at hsettled
  | globalMissing var rest p hphase hinit => rfl
  | finish hphase => simp [State.settled, hphase] at hsettled

theorem reach_tidy {globals : List VarId} (hnodup : globals.Nodup)
    (h : Reach State.next (fun s e => s.settled e = true) (State.start globals) s) :
    Tidy s :=
  h.invariant (tidy_start hnodup) fun _ _ _ htidy hsettled hnext =>
    htidy.moves hsettled (next_moves hnext)

/-- In every interleaving in which nobody visits a variable whose constructor is
running or has thrown, or that has been destroyed, and in which no such variable is
left to be destroyed, the local variables are constructed once and no check fails;
the first step that is not like this fails a check. -/
theorem constructed_once (globals : List VarId) (hnodup : globals.Nodup) (s : State)
    (h : Reach State.next (fun s e => s.settled e = true) (State.start globals) s) :
    s.Safe ∧ ∀ e s', s.next e = some s' → s.settled e = false →
      s.phase.listed = true → s'.panic.isSome = true :=
  ⟨(reach_tidy hnodup h).safe, fun _ _ hnext hsettled hlisted =>
    (reach_tidy hnodup h).crashes hsettled hlisted hnext⟩

/-- Thread 2 constructs the variable, and thread 3 gets it. -/
theorem constructed_once_shared :
    ∃ s, Reach State.next (fun s e => s.settled e = true) (State.start []) s ∧ s.Safe ∧
      .obtained 2 7 ∈ s.log ∧ .obtained 3 7 ∈ s.log := by
  obtain ⟨s, hreach, htwo, hthree⟩ := @exists_reach _ _ State.next
    (fun s e => s.settled e = true) (State.start []) _
    [.proceed, .visit 2 7, .constructed 2, .visit 3 7]
    (fun s => .obtained 2 7 ∈ s.log ∧ .obtained 3 7 ∈ s.log) _ (by decide)
  exact ⟨s, hreach, (constructed_once [] List.nodup_nil s hreach).1, htwo, hthree⟩

/-- Thread 3 visits the variable while thread 2 is switched out in its constructor. -/
theorem visit_during_constructor :
    ∃ s, Reach State.next (fun _ _ => True) (State.start []) s ∧ ¬s.Safe ∧
      s.panic = some (.verify "cannot link already linked node") := by
  obtain ⟨s, hreach, hpanic⟩ := @exists_reach _ _ State.next (fun _ _ => True)
    (State.start []) _ [.proceed, .visit 2 7, .visit 3 7]
    (fun s => s.panic = some (.verify "cannot link already linked node")) _ (by decide)
  refine ⟨s, hreach, fun hsafe => ?_, hpanic⟩
  rw [hsafe.quiet] at hpanic
  cases hpanic

/-! ### Destroyed in order -/

def destroyedVars (log : List Event) : List VarId :=
  log.filterMap fun e => match e with
    | .destroyed var => some var
    | _ => none

/-- The local variables, as their constructors have returned. -/
def completed (log : List Event) : List VarId :=
  log.filterMap fun e => match e with
    | .constructed var => some var
    | _ => none

def completedGlobals (log : List Event) : List VarId :=
  log.filterMap fun e => match e with
    | .constructedGlobal var => some var
    | _ => none

namespace State

/-- Everything has been destroyed once, the locals before the globals and both in
the reverse order of their construction, and nothing is left for the next run. -/
structure Complete (s : State) : Prop where
  order : destroyedVars s.log =
    (completed s.log).reverse ++ (completedGlobals s.log).reverse
  once : ∀ var, .constructed var ∈ s.log ∨ .constructedGlobal var ∈ s.log →
    s.log.count (.destroyed var) = 1
  cleared : ∀ var, s.initialized var = false
  unlinked : s.locals = []

def Returned (s : State) : Prop := s.phase = .over ∧ s.panic = none

/-- Local variables are constructed in the order in which they are linked and before
`DestroyVars`, and none is linked when the locals have been unlinked. -/
def orderly (s : State) : Step → Bool
  | .visit _ var =>
      match s.phase with
      | .destroyGlobals _ | .over => s.initialized var
      | _ => true
  | .constructed t =>
      match s.ctors t with
      | var :: _ =>
          s.phase.growing && s.locals.find? (fun v => !s.initialized v) == some var
      | [] => true
  | _ => true

/-- In which order `DestroyVars` destroys everything, as it looks now. -/
def plan (s : State) : List VarId :=
  destroyedVars s.log ++
    match s.phase with
    | .constructGlobals _ | .user => s.locals.reverse ++ s.globals.reverse
    | .destroyLocals rest => rest ++ s.globals.reverse
    | .destroyGlobals rest => rest
    | .over => []

/-- In which order everything that is constructed has to be destroyed. -/
def made (s : State) : List VarId := (completed s.log).reverse ++ s.globals.reverse

end State

section Log

variable {log : List Event}

theorem mem_completed : var ∈ completed log ↔ .constructed var ∈ log := by
  simp only [completed, List.mem_filterMap]
  constructor
  · rintro ⟨e, hmem, he⟩
    cases e <;> cases he
    exact hmem
  · exact fun hmem => ⟨_, hmem, rfl⟩

theorem mem_completedGlobals :
    var ∈ completedGlobals log ↔ .constructedGlobal var ∈ log := by
  simp only [completedGlobals, List.mem_filterMap]
  constructor
  · rintro ⟨e, hmem, he⟩
    cases e <;> cases he
    exact hmem
  · exact fun hmem => ⟨_, hmem, rfl⟩

theorem count_destroyedVars :
    (destroyedVars log).count var = log.count (.destroyed var) := by
  induction log with
  | nil => rfl
  | cons e log ih =>
      have hcons : destroyedVars (e :: log) = destroyedVars [e] ++ destroyedVars log :=
        List.filterMap_append (l := [e])
      rw [hcons, List.count_append, ih, List.count_cons, Nat.add_comm]
      congr 1
      cases e with
      | destroyed v => simp [destroyedVars, List.count_singleton]
      | _ => rfl

end Log

/-- What the log says about the main thread. -/
structure Books (s : State) : Prop where
  early : s.phase.growing = true → destroyedVars s.log = []
  built : ∀ rest, s.phase = .constructGlobals rest →
    completedGlobals s.log ++ rest = s.globals
  done : (∀ rest, s.phase ≠ .constructGlobals rest) → completedGlobals s.log = s.globals

theorem books_start (globals : List VarId) : Books (State.start globals) where
  early _ := rfl
  built rest hphase := by
    cases hphase
    rfl
  done hphase := absurd rfl (hphase globals)

theorem Books.same (h : Books s) (hphase : s'.phase = s.phase)
    (hglobals : s'.globals = s.globals)
    (hdestroyed : destroyedVars s'.log = destroyedVars s.log)
    (hbuilt : completedGlobals s'.log = completedGlobals s.log) : Books s' where
  early hgrowing := by
    rw [hdestroyed]
    exact h.early (hphase ▸ hgrowing)
  built rest hrest := by
    rw [hbuilt, hglobals]
    exact h.built rest (hphase ▸ hrest)
  done hrest := by
    rw [hbuilt, hglobals]
    exact h.done (hphase ▸ hrest)

theorem Books.register (h : Books s) (t : ThreadId) :
    Books
      { s with
        locals := s.locals ++ [var]
        ctors := Function.update s.ctors t (var :: s.ctors t)
        log := s.log ++ [.registered var] } :=
  h.same rfl rfl (by simp [destroyedVars]) (by simp [completedGlobals])

/-- The main thread leaves the phase in which it constructs the globals. -/
theorem Books.advance (h : Books s) (hdone : s.phase = .constructGlobals [] ∨
      ∀ rest, s.phase ≠ .constructGlobals rest) (hphase : ∀ rest, s'.phase ≠ .constructGlobals rest)
    (hearly : s'.phase.growing = true → destroyedVars s'.log = [])
    (hglobals : s'.globals = s.globals)
    (hbuilt : completedGlobals s'.log = completedGlobals s.log) : Books s' where
  early := hearly
  built rest hrest := absurd hrest (hphase rest)
  done _ := by
    rw [hbuilt, hglobals]
    rcases hdone with hlast | hdone
    · simpa using h.built [] hlast
    · exact h.done hdone

theorem Books.moves (h : Books s) {e : Step} (hmoves : Moves s e s') : Books s' := by
  cases hmoves with
  | obtain t var hlocal hinit =>
      exact h.same rfl rfl (by simp [destroyedVars]) (by simp [completedGlobals])
  | collide t var p hinit hlinked => exact h.same rfl rfl rfl rfl
  | register t var hlocal hinit hlinked hrunning => exact h.register t
  | construct t var rest hctors hrunning =>
      exact h.same rfl rfl (by simp [State.constructed, destroyedVars])
        (by simp [State.constructed, completedGlobals])
  | throw t var rest hctors => exact h.same rfl rfl rfl rfl
  | globalDone var rest hphase =>
      refine ⟨fun _ => ?_, fun rest' hrest => ?_, fun hrest => absurd rfl (hrest rest)⟩
      · simpa [destroyedVars] using h.early (by rw [hphase]; rfl)
      · cases hrest
        simpa [completedGlobals] using h.built _ hphase
  | userDone hphase =>
      exact h.advance (.inr fun rest hrest => by rw [hphase] at hrest; cases hrest) nofun
        nofun rfl rfl
  | dtorDone hphase => exact h.same rfl rfl rfl rfl
  | startUser hphase =>
      exact h.advance (.inl hphase) nofun (fun _ => h.early (by rw [hphase]; rfl)) rfl rfl
  | startGlobal var rest hphase => exact h.same rfl rfl rfl rfl
  | globalTwice var rest p hphase hinit => exact h.same rfl rfl rfl rfl
  | unlink hphase =>
      exact h.advance (.inr fun rest hrest => by rw [hphase] at hrest; cases hrest) nofun
        nofun rfl rfl
  | destroyLocal var rest hphase hinit =>
      exact h.advance (.inr fun rest hrest => by rw [hphase] at hrest; cases hrest) nofun
        nofun rfl (by simp [completedGlobals])
  | localMissing var rest p hphase hinit => exact h.same rfl rfl rfl rfl
  | destroyGlobal var rest hphase hinit =>
      exact h.advance (.inr fun rest hrest => by rw [hphase] at hrest; cases hrest) nofun
        nofun rfl (by simp [completedGlobals])
  | globalMissing var rest p hphase hinit => exact h.same rfl rfl rfl rfl
  | finish hphase =>
      exact h.advance (.inr fun rest hrest => by rw [hphase] at hrest; cases hrest) nofun
        nofun rfl rfl

theorem suffix_of_eq {l l' : List VarId} (h : l = l') : l <:+ l' := h ▸ List.suffix_rfl

/-- A step of user code adds to the front of the plan, until `DestroyVars` begins. -/
structure Grows (s s' : State) : Prop where
  plan : s.plan <:+ s'.plan
  made : s.made <:+ s'.made
  fixed : s.phase.growing = false → s'.phase.growing = false ∧ s'.plan = s.plan

theorem Grows.same (hphase : s'.phase.growing = s.phase.growing) (hplan : s'.plan = s.plan)
    (hmade : s'.made = s.made) : Grows s s' :=
  ⟨hplan ▸ List.suffix_rfl, hmade ▸ List.suffix_rfl, fun h => ⟨hphase.trans h, hplan⟩⟩

theorem plan_growing (h : Books s) (hgrowing : s.phase.growing = true) :
    s.plan = s.locals.reverse ++ s.globals.reverse := by
  rw [State.plan, h.early hgrowing, List.nil_append]
  cases hphase : s.phase with
  | constructGlobals rest => rfl
  | user => rfl
  | destroyLocals rest => rw [hphase] at hgrowing; cases hgrowing
  | destroyGlobals rest => rw [hphase] at hgrowing; cases hgrowing
  | «over» => rw [hphase] at hgrowing; cases hgrowing

/-- A variable that is linked before `DestroyVars` will be the first to be destroyed. -/
theorem plan_register (t : ThreadId) (h : Books s) :
    (s.phase.growing = true → State.plan
      { s with
        locals := s.locals ++ [var]
        ctors := Function.update s.ctors t (var :: s.ctors t)
        log := s.log ++ [.registered var] } = var :: s.plan) ∧
    (s.phase.growing = false → State.plan
      { s with
        locals := s.locals ++ [var]
        ctors := Function.update s.ctors t (var :: s.ctors t)
        log := s.log ++ [.registered var] } = s.plan) := by
  constructor
  · intro hgrowing
    rw [plan_growing h hgrowing, plan_growing (h.register t) hgrowing]
    simp
  · intro hgrowing
    cases hphase : s.phase with
    | constructGlobals rest => simp [hphase, Phase.growing] at hgrowing
    | user => simp [hphase, Phase.growing] at hgrowing
    | destroyLocals rest => simp [State.plan, destroyedVars, hphase]
    | destroyGlobals rest => simp [State.plan, destroyedVars, hphase]
    | «over» => simp [State.plan, destroyedVars, hphase]

theorem plan_constructed (t : ThreadId) (rest : List VarId) :
    (s.constructed t var rest).plan = s.plan := by
  simp [State.plan, State.constructed, destroyedVars]

theorem made_constructed {rest : List VarId} :
    (s.constructed t var rest).made = var :: s.made := by
  simp [State.made, State.constructed, completed]

theorem Moves.grows {e : Step} (h : Moves s e s') (hbooks : Books s) : Grows s s' := by
  cases h with
  | obtain t var hlocal hinit =>
      exact .same rfl (by simp [State.plan, destroyedVars]) (by simp [State.made, completed])
  | collide t var p hinit hlinked => exact .same rfl rfl rfl
  | register t var hlocal hinit hlinked hrunning =>
      refine ⟨?_, suffix_of_eq (by simp [State.made, completed]), fun hover => ⟨hover, ?_⟩⟩
      · cases hgrowing : s.phase.growing with
        | true =>
            rw [(plan_register t hbooks).1 hgrowing]
            exact List.suffix_cons var s.plan
        | false => exact suffix_of_eq ((plan_register t hbooks).2 hgrowing).symm
      · exact (plan_register t hbooks).2 hover
  | construct t var rest hctors hrunning =>
      refine ⟨suffix_of_eq (plan_constructed t rest).symm, ?_, fun hover =>
        ⟨hover, plan_constructed t rest⟩⟩
      rw [made_constructed]
      exact List.suffix_cons var s.made
  | throw t var rest hctors => exact .same rfl rfl rfl
  | globalDone var rest hphase =>
      exact .same (by rw [hphase]; rfl) (by simp [State.plan, destroyedVars, hphase])
        (by simp [State.made, completed])
  | userDone hphase =>
      refine ⟨suffix_of_eq (by simp [State.plan, hphase]), List.suffix_rfl, fun hover => ?_⟩
      rw [hphase] at hover
      cases hover
  | dtorDone hphase => exact .same rfl rfl rfl
  | startUser hphase =>
      exact .same (by rw [hphase]; rfl) (by simp [State.plan, hphase]) rfl
  | startGlobal var rest hphase => exact .same rfl rfl rfl
  | globalTwice var rest p hphase hinit => exact .same rfl rfl rfl
  | unlink hphase =>
      exact .same (by rw [hphase]; rfl) (by simp [State.plan, hphase]) rfl
  | destroyLocal var rest hphase hinit =>
      exact .same (by rw [hphase]; rfl) (by simp [State.plan, destroyedVars, hphase])
        (by simp [State.made, completed])
  | localMissing var rest p hphase hinit => exact .same rfl rfl rfl
  | destroyGlobal var rest hphase hinit =>
      exact .same (by rw [hphase]; rfl) (by simp [State.plan, destroyedVars, hphase])
        (by simp [State.made, completed])
  | globalMissing var rest p hphase hinit => exact .same rfl rfl rfl
  | finish hphase =>
      exact .same (by rw [hphase]; rfl) (by simp [State.plan, hphase]) rfl

/-- `DestroyVars` cannot succeed any more: what is constructed and what will be
destroyed differ, or a variable has been constructed or linked too late. -/
inductive Spoilt (s : State) : Prop where
  | mismatch (ps qs : List VarId) (hplan : ps <:+ s.plan) (hmade : qs <:+ s.made)
      (hlength : ps.length = qs.length) (hne : ps ≠ qs) : Spoilt s
  | excess (hphase : s.phase.growing = false) (hlt : s.plan.length < s.made.length) :
      Spoilt s
  | linked (hphase : s.phase.listed = false) (hne : s.locals ≠ []) : Spoilt s

theorem Spoilt.moves (hs : Spoilt s) (hbooks : Books s) {e : Step} (h : Moves s e s') :
    Spoilt s' := by
  have hgrows := h.grows hbooks
  cases hs with
  | mismatch ps qs hplan hmade hlength hne =>
      exact .mismatch ps qs (hplan.trans hgrows.plan) (hmade.trans hgrows.made) hlength hne
  | excess hphase hlt =>
      obtain ⟨hafter, hplan⟩ := hgrows.fixed hphase
      refine .excess hafter ?_
      rw [hplan]
      exact Nat.lt_of_lt_of_le hlt hgrows.made.length_le
  | linked hphase hne =>
      cases h with
      | obtain t var hlocal hinit => exact .linked hphase hne
      | collide t var p hinit hlinked => exact .linked hphase hne
      | register t var hlocal hinit hlinked hrunning =>
          exact .linked hphase (List.append_ne_nil_of_left_ne_nil hne _)
      | construct t var rest hctors hrunning => exact .linked hphase hne
      | throw t var rest hctors => exact .linked hphase hne
      | globalDone var rest hrest => rw [hrest] at hphase; cases hphase
      | userDone huser => rw [huser] at hphase; cases hphase
      | dtorDone hdone => exact .linked hphase hne
      | startUser hrest => rw [hrest] at hphase; cases hphase
      | startGlobal var rest hrest => exact .linked hphase hne
      | globalTwice var rest p hrest hinit => exact .linked hphase hne
      | unlink hrest => rw [hrest] at hphase; cases hphase
      | destroyLocal var rest hrest hinit => rw [hrest] at hphase; cases hphase
      | localMissing var rest p hrest hinit => exact .linked hphase hne
      | destroyGlobal var rest hrest hinit => exact .linked rfl hne
      | globalMissing var rest p hrest hinit => exact .linked hphase hne
      | finish hrest => exact .linked rfl hne

/-- After `DestroyVars` the plan is what has been destroyed. -/
theorem plan_over (hphase : s.phase = .over) : s.plan = destroyedVars s.log := by
  simp [State.plan, hphase]

theorem Books.made_over (h : Books s) (hphase : s.phase = .over) :
    s.made = (completed s.log).reverse ++ (completedGlobals s.log).reverse := by
  rw [State.made, h.done fun rest hrest => by rw [hphase] at hrest; cases hrest]

theorem Spoilt.not_complete (hs : Spoilt s) (hbooks : Books s) (hphase : s.phase = .over) :
    ¬s.Complete := by
  intro hcomplete
  have heq : s.plan = s.made := by
    rw [plan_over hphase, hbooks.made_over hphase]
    exact hcomplete.order
  cases hs with
  | mismatch ps qs hplan hmade hlength hne =>
      rw [heq] at hplan
      have hsuffix := List.suffix_of_suffix_length_le hplan hmade (Nat.le_of_eq hlength)
      exact hne (hsuffix.eq_of_length hlength)
  | excess hgrowing hlt =>
      rw [heq] at hlt
      exact Nat.lt_irrefl _ hlt
  | linked hlisted hne => exact hne hcomplete.unlinked

/-- What holds besides as long as every step is orderly. -/
structure Kept (s : State) : Prop where
  suffix : s.made <:+ s.plan
  exact : s.phase.growing = false → s.phase.listed = false ∨ s.running = true ∨
    destroyedVars s.log ≠ [] → s.made = s.plan
  inits : ∀ var, var ∉ s.globals →
    (s.initialized var = true ↔ .constructed var ∈ s.log ∧ var ∉ destroyedVars s.log)
  distinct : s.plan.Nodup
  unlinked : s.phase.listed = false → s.locals = []

theorem kept_start {globals : List VarId} (hnodup : globals.Nodup) :
    Kept (State.start globals) where
  suffix := List.suffix_rfl
  exact hgrowing := by cases hgrowing
  inits var _ := by
    constructor
    · exact nofun
    · exact fun h => by cases h.1
  distinct := List.nodup_reverse.mpr hnodup
  unlinked hlisted := by cases hlisted

/-- The parts of the state that `Kept` is about are the same, apart from the log. -/
theorem Kept.same (h : Kept s) (hphase : s'.phase = s.phase)
    (hrunning : s'.running = true → s.running = true ∨ s.phase.growing = true)
    (hplan : s'.plan = s.plan) (hmade : s'.made = s.made)
    (hdestroyed : destroyedVars s'.log = destroyedVars s.log)
    (hinits : ∀ var, var ∉ s'.globals → (s'.initialized var = true ↔
      .constructed var ∈ s'.log ∧ var ∉ destroyedVars s.log))
    (hlocals : s.phase.listed = false → s'.locals = s.locals) : Kept s' where
  suffix := by
    rw [hplan, hmade]
    exact h.suffix
  exact hgrowing hexact := by
    rw [hphase] at hgrowing hexact
    rw [hdestroyed] at hexact
    rw [hplan, hmade]
    refine h.exact hgrowing (hexact.imp_right fun hexact => hexact.imp_left fun hnow => ?_)
    refine (hrunning hnow).resolve_right fun hyes => ?_
    rw [hgrowing] at hyes
    cases hyes
  inits var hlocal := by
    rw [hdestroyed]
    exact hinits var hlocal
  distinct := hplan ▸ h.distinct
  unlinked hlisted := by
    rw [hphase] at hlisted
    rw [hlocals hlisted]
    exact h.unlinked hlisted

/-- While nothing has been destroyed, the local variables that are linked are those
that have been constructed, followed by those that have not. -/
theorem Kept.split (h : Kept s) (htidy : Tidy s) (hbooks : Books s)
    (hgrowing : s.phase.growing = true) : ∃ pending,
      s.locals = completed s.log ++ pending ∧
        ∀ var ∈ pending, s.initialized var = false := by
  obtain ⟨front, hfront⟩ := h.suffix
  rw [plan_growing hbooks hgrowing, State.made, ← List.append_assoc] at hfront
  have hlocals : s.locals = completed s.log ++ front.reverse := by
    rw [← List.reverse_reverse s.locals, ← List.append_cancel_right hfront,
      List.reverse_append, List.reverse_reverse]
  refine ⟨front.reverse, hlocals, fun var hmem => ?_⟩
  have hlinked : var ∈ s.locals := hlocals ▸ List.mem_append_right _ hmem
  refine Bool.eq_false_of_not_eq_true fun hinit => ?_
  have hdone := (h.inits var (htidy.linked var hlinked).2).mp hinit
  have hnodup := List.nodup_append.mp (hlocals ▸ htidy.distinct)
  exact hnodup.2.2 var (mem_completed.mpr hdone.1) var hmem rfl

/-- The variables that have been constructed are initialized until they are
destroyed. -/
theorem Kept.completed_init (h : Kept s) (htidy : Tidy s) (hbooks : Books s)
    (hgrowing : s.phase.growing = true) (hmem : var ∈ completed s.log) :
    s.initialized var = true := by
  have hbuilt := mem_completed.mp hmem
  refine (h.inits var (htidy.known var hbuilt).2).mpr ⟨hbuilt, ?_⟩
  rw [hbooks.early hgrowing]
  exact List.not_mem_nil

/-- The first local variable that is not initialized is the one that has been
registered after all that are constructed. -/
theorem Kept.find_pending (h : Kept s) (htidy : Tidy s) (hbooks : Books s)
    (hgrowing : s.phase.growing = true) {pending : List VarId}
    (hlocals : s.locals = completed s.log ++ pending)
    (hpending : ∀ var ∈ pending, s.initialized var = false) :
    s.locals.find? (fun v => !s.initialized v) = pending.head? := by
  rw [hlocals, List.find?_append]
  have hnone : (completed s.log).find? (fun v => !s.initialized v) = none := by
    refine List.find?_eq_none.mpr fun v hv => ?_
    rw [h.completed_init htidy hbooks hgrowing hv]
    exact Bool.false_ne_true
  rw [hnone, Option.none_or]
  cases pending with
  | nil => rfl
  | cons v rest =>
      rw [List.find?_cons_of_pos (by simp [hpending v List.mem_cons_self])]
      rfl

theorem Kept.constructed (h : Kept s) (htidy : Tidy s) (hbooks : Books s)
    {rest : List VarId} (hctors : s.ctors t = var :: rest)
    (hgrowing : s.phase.growing = true)
    (hfirst : s.locals.find? (fun v => !s.initialized v) = some var) :
    Kept (s.constructed t var rest) := by
  obtain ⟨pending, hlocals, hpending⟩ := h.split htidy hbooks hgrowing
  rw [h.find_pending htidy hbooks hgrowing hlocals hpending] at hfirst
  obtain ⟨later, rfl⟩ : ∃ later, pending = var :: later := by
    cases pending with
    | nil => cases hfirst
    | cons v later =>
        cases hfirst
        exact ⟨later, rfl⟩
  have hplan : s.plan = later.reverse ++ var :: s.made := by
    rw [plan_growing hbooks hgrowing, hlocals]
    simp [State.made]
  refine ⟨?_, fun hover => ?_, fun v hlocal => ?_, ?_, fun hlisted => ?_⟩
  · rw [plan_constructed, made_constructed, hplan]
    exact List.suffix_append later.reverse (var :: s.made)
  · replace hover : s.phase.growing = false := hover
    rw [hgrowing] at hover
    cases hover
  · have hdestroyed : destroyedVars (s.constructed t var rest).log = [] := by
      simpa [State.constructed, destroyedVars] using hbooks.early hgrowing
    rw [hdestroyed]
    have hold := h.inits v hlocal
    rw [hbooks.early hgrowing] at hold
    rcases eq_or_ne v var with rfl | hne
    · simp [State.constructed]
    · simpa [State.constructed, hne] using hold
  · rw [plan_constructed]
    exact h.distinct
  · exact h.unlinked hlisted

/-- As soon as something is destroyed, everything that is linked is constructed. -/
theorem Kept.exact_of_first (h : Kept s) (hlocal : var ∉ s.globals)
    (hinit : s.initialized var = true) {rest : List VarId}
    (hplan : s.plan = destroyedVars s.log ++ var :: rest)
    (hgrowing : s.phase.growing = false) : s.made = s.plan := by
  by_cases hfirst : destroyedVars s.log = []
  · rw [hfirst, List.nil_append] at hplan
    have hsuffix := h.suffix
    rw [hplan, List.suffix_cons_iff] at hsuffix
    rcases hsuffix with heq | hsuffix
    · rw [heq, hplan]
    · have hmade : var ∈ s.made := by
        have hbuilt := ((h.inits var hlocal).mp hinit).1
        exact List.mem_append_left _ (List.mem_reverse.mpr (mem_completed.mpr hbuilt))
      have hnodup := h.distinct
      rw [hplan] at hnodup
      exact absurd (hsuffix.subset hmade) (List.nodup_cons.mp hnodup).1
  · exact h.exact hgrowing (.inr (.inr hfirst))

theorem Kept.destroyed (h : Kept s) {phase : Phase}
    (hplan : State.plan
      { s with
        initialized := Function.update s.initialized var false
        phase := phase
        running := true
        log := s.log ++ [.destroyed var] } = s.plan)
    (hexact : s.made = s.plan) (hunlinked : phase.listed = false → s.phase.listed = false) :
    Kept
      { s with
        initialized := Function.update s.initialized var false
        phase := phase
        running := true
        log := s.log ++ [.destroyed var] } := by
  have hmade : State.made
      { s with
        initialized := Function.update s.initialized var false
        phase := phase
        running := true
        log := s.log ++ [.destroyed var] } = s.made := by
    simp [State.made, completed]
  refine ⟨?_, fun _ _ => ?_, fun v hlocal => ?_, ?_, fun hlisted => ?_⟩
  · rw [hplan, hmade]
    exact h.suffix
  · rw [hplan, hmade]
    exact hexact
  · have hdestroyed : destroyedVars (s.log ++ [.destroyed var]) =
        destroyedVars s.log ++ [var] := by
      simp [destroyedVars]
    show Function.update s.initialized var false v = true ↔
      .constructed v ∈ s.log ++ [.destroyed var] ∧
        v ∉ destroyedVars (s.log ++ [.destroyed var])
    rw [hdestroyed]
    rcases eq_or_ne v var with rfl | hne
    · simp
    · rw [Function.update_of_ne hne]
      simpa [hne] using h.inits v hlocal
  · rw [hplan]
    exact h.distinct
  · exact h.unlinked (hunlinked hlisted)

/-- The main thread enters the next phase. -/
theorem Kept.turn (h : Kept s) (hplan : s'.plan = s.plan) (hmade : s'.made = s.made)
    (hglobals : s'.globals = s.globals) (hinit : s'.initialized = s.initialized)
    (hlog : s'.log = s.log)
    (hexact : s'.phase.growing = false → s'.phase.listed = false ∨ s'.running = true ∨
      destroyedVars s.log ≠ [] → s.made = s.plan)
    (hunlinked : s'.phase.listed = false → s'.locals = []) : Kept s' where
  suffix := by
    rw [hplan, hmade]
    exact h.suffix
  exact hover hnow := by
    rw [hplan, hmade]
    exact hexact hover (hlog ▸ hnow)
  inits := by
    rw [hglobals, hinit, hlog]
    exact h.inits
  distinct := by
    rw [hplan]
    exact h.distinct
  unlinked := hunlinked

theorem Phase.listed_of_growing {phase : Phase} (h : phase.growing = true) :
    phase.listed = true := by
  cases phase <;> first | rfl | cases h

/-- Before `DestroyVars` there is less to keep. -/
theorem kept_growing (hgrowing : s.phase.growing = true) (hsuffix : s.made <:+ s.plan)
    (hinits : ∀ var, var ∉ s.globals →
      (s.initialized var = true ↔ .constructed var ∈ s.log ∧ var ∉ destroyedVars s.log))
    (hdistinct : s.plan.Nodup) : Kept s where
  suffix := hsuffix
  exact hover := by
    rw [hgrowing] at hover
    cases hover
  inits := hinits
  distinct := hdistinct
  unlinked hlisted := by
    rw [Phase.listed_of_growing hgrowing] at hlisted
    cases hlisted

theorem Kept.register (h : Kept s) (hbooks : Books s) (t : ThreadId)
    (hlocal : var ∉ s.globals) (hinit : s.initialized var = false)
    (hlinked : var ∉ s.locals) (hrunning : s.running = true)
    (horderly : s.orderly (.visit t var) = true) :
    Kept
      { s with
        locals := s.locals ++ [var]
        ctors := Function.update s.ctors t (var :: s.ctors t)
        log := s.log ++ [.registered var] } := by
  have hmade : State.made
      { s with
        locals := s.locals ++ [var]
        ctors := Function.update s.ctors t (var :: s.ctors t)
        log := s.log ++ [.registered var] } = s.made := by
    simp [State.made, completed]
  have hinits : ∀ v, v ∉ s.globals → (s.initialized v = true ↔
      .constructed v ∈ s.log ++ [.registered var] ∧
        v ∉ destroyedVars (s.log ++ [.registered var])) := by
    intro v hv
    simpa [destroyedVars] using h.inits v hv
  cases hgrowing : s.phase.growing with
  | true =>
      have hplan := (@plan_register s var t hbooks).1 hgrowing
      refine kept_growing hgrowing ?_ hinits ?_
      · rw [hmade, hplan]
        exact h.suffix.trans (List.suffix_cons var s.plan)
      · rw [hplan]
        refine List.nodup_cons.mpr ⟨?_, h.distinct⟩
        rw [plan_growing hbooks hgrowing]
        simpa using ⟨hlinked, hlocal⟩
  | false =>
      have hplan := (@plan_register s var t hbooks).2 hgrowing
      refine ⟨?_, fun _ _ => ?_, hinits, hplan ▸ h.distinct, fun hlisted => ?_⟩
      · rw [hmade, hplan]
        exact h.suffix
      · rw [hmade, hplan]
        exact h.exact hgrowing (.inr (.inl hrunning))
      · replace hlisted : s.phase.listed = false := hlisted
        cases hphase : s.phase with
        | constructGlobals rest => rw [hphase] at hgrowing; cases hgrowing
        | user => rw [hphase] at hgrowing; cases hgrowing
        | destroyLocals rest => rw [hphase] at hlisted; cases hlisted
        | destroyGlobals rest => simp [State.orderly, hphase, hinit] at horderly
        | «over» => simp [State.orderly, hphase, hinit] at horderly

/-- When all locals have been destroyed, nothing else has been constructed. -/
theorem Kept.exact_of_last (h : Kept s) (hphase : s.phase = .destroyLocals []) :
    s.made = s.plan := by
  by_cases hfirst : destroyedVars s.log = []
  · have hplan : s.plan = s.globals.reverse := by
      simp [State.plan, hphase, hfirst]
    refine h.suffix.eq_of_length_le ?_
    rw [hplan, State.made, List.length_append]
    exact Nat.le_add_left _ _
  · exact h.exact (by rw [hphase]; rfl) (.inr (.inr hfirst))

theorem Kept.moves (h : Kept s) (htidy : Tidy s) (hbooks : Books s) {e : Step}
    (horderly : s.orderly e = true) (hmoves : Moves s e s') (hquiet : s'.panic = none) :
    Kept s' := by
  cases hmoves with
  | obtain t var hlocal hinit =>
      refine h.same rfl .inl (by simp [State.plan, destroyedVars])
        (by simp [State.made, completed]) (by simp [destroyedVars]) (fun v hv => ?_)
        fun _ => rfl
      simpa using h.inits v hv
  | collide t var p hinit hlinked => cases hquiet
  | register t var hlocal hinit hlinked hrunning =>
      exact h.register hbooks t hlocal hinit hlinked hrunning horderly
  | construct t var rest hctors hrunning =>
      simp only [State.orderly, hctors, Bool.and_eq_true, beq_iff_eq] at horderly
      exact h.constructed htidy hbooks hctors horderly.1 horderly.2
  | throw t var rest hctors => exact h.same rfl .inl rfl rfl rfl h.inits fun _ => rfl
  | globalDone var rest hphase =>
      have hahead := htidy.ahead
      rw [hphase] at hahead
      have hmem : var ∈ s.globals := hahead.subset List.mem_cons_self
      refine kept_growing rfl ?_ (fun v hv => ?_) ?_
      · simpa [State.made, State.plan, completed, destroyedVars, hphase] using h.suffix
      · have hne : v ≠ var := fun heq => hv (heq ▸ hmem)
        simpa [destroyedVars, hne] using h.inits v hv
      · simpa [State.plan, destroyedVars, hphase] using h.distinct
  | userDone hphase =>
      refine h.turn (by simp [State.plan, hphase]) rfl rfl rfl rfl (fun _ hexact => ?_) nofun
      rcases hexact with hnow | hnow | hnow
      · cases hnow
      · cases hnow
      · exact absurd (hbooks.early (by rw [hphase]; rfl)) hnow
  | dtorDone hphase => exact h.same rfl nofun rfl rfl rfl h.inits fun _ => rfl
  | startUser hphase =>
      exact h.turn (by simp [State.plan, hphase]) rfl rfl rfl rfl nofun nofun
  | startGlobal var rest hphase =>
      refine h.same rfl (fun _ => .inr ?_) rfl rfl rfl h.inits fun _ => rfl
      rw [hphase]
      rfl
  | globalTwice var rest p hphase hinit => cases hquiet
  | unlink hphase =>
      exact h.turn (by simp [State.plan, hphase]) rfl rfl rfl rfl
        (fun _ _ => h.exact_of_last hphase) fun _ => rfl
  | destroyLocal var rest hphase hinit =>
      have hahead := htidy.ahead
      rw [hphase] at hahead
      refine h.destroyed (by simp [State.plan, destroyedVars, hphase])
        (h.exact_of_first (hahead var List.mem_cons_self) hinit
          (by simp [State.plan, hphase]; rfl) (by rw [hphase]; rfl)) nofun
  | localMissing var rest p hphase hinit => cases hquiet
  | destroyGlobal var rest hphase hinit =>
      exact h.destroyed (by simp [State.plan, destroyedVars, hphase])
        (h.exact (by rw [hphase]; rfl) (.inl (by rw [hphase]; rfl)))
        fun _ => by rw [hphase]; rfl
  | globalMissing var rest p hphase hinit => cases hquiet
  | finish hphase =>
      have hlisted : s.phase.listed = false := by rw [hphase]; rfl
      exact h.turn (by simp [State.plan, hphase]) rfl rfl rfl rfl
        (fun _ _ => h.exact (by rw [hphase]; rfl) (.inl hlisted)) fun _ => h.unlinked hlisted

/-- An orderly step that fails no check is settled. -/
theorem Tidy.settled_of_orderly (h : Tidy s) {e : Step} (horderly : s.orderly e = true)
    (hnext : s.next e = some s') (hquiet : s'.panic = none) : s.settled e = true := by
  refine Bool.eq_true_of_not_eq_false fun hsettled => ?_
  cases hlisted : s.phase.listed with
  | true =>
      have hcrash := h.crashes hsettled hlisted hnext
      rw [hquiet] at hcrash
      cases hcrash
  | false =>
      cases hphase : s.phase with
      | constructGlobals rest => rw [hphase] at hlisted; cases hlisted
      | user => rw [hphase] at hlisted; cases hlisted
      | destroyLocals rest => rw [hphase] at hlisted; cases hlisted
      | destroyGlobals rest =>
          cases e with
          | visit t var =>
              simp only [State.orderly, hphase] at horderly
              simp [State.settled, horderly] at hsettled
          | proceed => simp [State.settled, hphase] at hsettled
          | _ => cases hsettled
      | «over» =>
          cases e with
          | visit t var =>
              simp only [State.orderly, hphase] at horderly
              simp [State.settled, horderly] at hsettled
          | proceed => simp [State.settled, hphase] at hsettled
          | _ => cases hsettled

/-- A variable is constructed before one that has been linked earlier. -/
theorem Kept.mismatch (h : Kept s) (htidy : Tidy s) (hbooks : Books s)
    {rest : List VarId} (hctors : s.ctors t = var :: rest)
    (hgrowing : s.phase.growing = true)
    (hfirst : s.locals.find? (fun v => !s.initialized v) ≠ some var) :
    Spoilt (s.constructed t var rest) := by
  obtain ⟨hregistered, hnew, -, -⟩ := htidy.fresh t var (hctors ▸ List.mem_cons_self)
  obtain ⟨pending, hlocals, hpending⟩ := h.split htidy hbooks hgrowing
  rw [h.find_pending htidy hbooks hgrowing hlocals hpending] at hfirst
  have hmem : var ∈ pending := by
    have hlinked := htidy.listed (Phase.listed_of_growing hgrowing) var hregistered
    rw [hlocals] at hlinked
    exact (List.mem_append.mp hlinked).resolve_left fun hdone =>
      hnew (mem_completed.mp hdone)
  obtain ⟨w, later, rfl⟩ : ∃ w later, pending = w :: later := by
    cases pending with
    | nil => cases hmem
    | cons w later => exact ⟨w, later, rfl⟩
  have hplan : s.plan = later.reverse ++ w :: s.made := by
    rw [plan_growing hbooks hgrowing, hlocals]
    simp [State.made]
  refine .mismatch (w :: s.made) (var :: s.made) ?_ ?_ rfl ?_
  · rw [plan_constructed, hplan]
    exact List.suffix_append later.reverse (w :: s.made)
  · exact suffix_of_eq made_constructed.symm
  · intro heq
    exact hfirst (congrArg some (List.cons.inj heq).1)

/-- The first step that is not orderly spoils the rest. -/
theorem Kept.spoilt (h : Kept s) (htidy : Tidy s) (hbooks : Books s) {e : Step}
    (horderly : s.orderly e = false) (hmoves : Moves s e s') (hquiet : s'.panic = none) :
    Spoilt s' := by
  cases hmoves with
  | obtain t var hlocal hinit =>
      cases hphase : s.phase <;> simp [State.orderly, hphase, hinit] at horderly
  | collide t var p hinit hlinked => cases hquiet
  | register t var hlocal hinit hlinked hrunning =>
      refine .linked (Bool.eq_false_of_not_eq_true fun hlisted => ?_)
        (List.append_ne_nil_of_right_ne_nil _ (List.cons_ne_nil _ _))
      replace hlisted : s.phase.listed = true := hlisted
      cases hphase : s.phase with
      | constructGlobals rest => simp [State.orderly, hphase] at horderly
      | user => simp [State.orderly, hphase] at horderly
      | destroyLocals rest => simp [State.orderly, hphase] at horderly
      | destroyGlobals rest => rw [hphase] at hlisted; cases hlisted
      | «over» => rw [hphase] at hlisted; cases hlisted
  | construct t var rest hctors hrunning =>
      cases hgrowing : s.phase.growing with
      | true =>
          refine h.mismatch htidy hbooks hctors hgrowing fun hfirst => ?_
          simp [State.orderly, hctors, hgrowing, hfirst] at horderly
      | false =>
          refine .excess hgrowing ?_
          rw [plan_constructed, made_constructed,
            h.exact hgrowing (.inr (.inl hrunning)), List.length_cons]
          exact Nat.lt_succ_self _
  | globalTwice var rest p hphase hinit => cases hquiet
  | localMissing var rest p hphase hinit => cases hquiet
  | globalMissing var rest p hphase hinit => cases hquiet
  | _ => cases horderly

theorem Kept.complete (h : Kept s) (htidy : Tidy s) (hbooks : Books s)
    (hphase : s.phase = .over) : s.Complete := by
  have hplan := plan_over hphase
  have hmade : destroyedVars s.log = s.made := by
    rw [← hplan]
    exact (h.exact (by rw [hphase]; rfl) (.inl (by rw [hphase]; rfl))).symm
  refine ⟨?_, fun var hmem => ?_, fun var => ?_, h.unlinked (by rw [hphase]; rfl)⟩
  · rw [hmade]
    exact hbooks.made_over hphase
  · rw [← count_destroyedVars]
    refine List.count_eq_one_of_mem (hplan ▸ h.distinct) ?_
    rw [hmade, hbooks.made_over hphase]
    rcases hmem with hmem | hmem
    · exact List.mem_append_left _ (List.mem_reverse.mpr (mem_completed.mpr hmem))
    · exact List.mem_append_right _ (List.mem_reverse.mpr (mem_completedGlobals.mpr hmem))
  · refine Bool.eq_false_of_not_eq_true fun hinit => ?_
    by_cases hglobal : var ∈ s.globals
    · rw [htidy.up var hglobal, hphase] at hinit
      cases hinit
    · obtain ⟨hbuilt, hnot⟩ := (h.inits var hglobal).mp hinit
      rw [hmade] at hnot
      exact hnot (List.mem_append_left _ (List.mem_reverse.mpr (mem_completed.mpr hbuilt)))

/-! ### Whole runs -/

theorem quiet_of_next {e : Step} (h : s.next e = some s') : s.panic = none := by
  unfold State.next at h
  split at h
  · cases h
  · rename_i hquiet
    exact Option.not_isSome_iff_eq_none.mp hquiet

/-- No check has failed in a run that ends without a panic. -/
theorem run_quiet {C : State → Step → Prop} [∀ s e, Decidable (C s e)] {steps : List Step}
    (h : runEvents State.next C steps s = some s') (hquiet : s'.panic = none) :
    s.panic = none := by
  cases steps with
  | nil =>
      cases h
      exact hquiet
  | cons e steps =>
      unfold runEvents at h
      split at h
      · obtain ⟨s₁, hnext, -⟩ := Option.bind_eq_some_iff.mp h
        exact quiet_of_next hnext
      · cases h

theorem run_spoilt (hs : Spoilt s) (hbooks : Books s) {steps : List Step}
    (h : runEvents State.next (fun _ _ => True) steps s = some s') :
    Spoilt s' ∧ Books s' := by
  induction steps generalizing s with
  | nil =>
      cases h
      exact ⟨hs, hbooks⟩
  | cons e steps ih =>
      obtain ⟨s₁, hnext, hrest⟩ := Option.bind_eq_some_iff.mp h
      have hmoves := next_moves hnext
      exact ih (hs.moves hbooks hmoves) (hbooks.moves hmoves) hrest

/-- A run that fails no check is orderly and keeps its invariants, or something is
spoilt in it. -/
theorem run_kept_or_spoilt (htidy : Tidy s) (hkept : Kept s) (hbooks : Books s)
    {steps : List Step} (h : runEvents State.next (fun _ _ => True) steps s = some s')
    (hquiet : s'.panic = none) :
    (runEvents State.next (fun s e => s.orderly e = true) steps s = some s' ∧
      Tidy s' ∧ Kept s' ∧ Books s') ∨
    (runEvents State.next (fun s e => s.orderly e = true) steps s = none ∧
      Spoilt s' ∧ Books s') := by
  induction steps generalizing s with
  | nil =>
      cases h
      exact .inl ⟨rfl, htidy, hkept, hbooks⟩
  | cons e steps ih =>
      obtain ⟨s₁, hnext, hrest⟩ := Option.bind_eq_some_iff.mp h
      have hmoves := next_moves hnext
      have hquiet₁ := run_quiet hrest hquiet
      cases horderly : s.orderly e with
      | false =>
          refine .inr ⟨?_, run_spoilt (hkept.spoilt htidy hbooks horderly hmoves hquiet₁)
            (hbooks.moves hmoves) hrest⟩
          rw [runEvents, if_neg (by rw [horderly]; exact Bool.false_ne_true)]
      | true =>
          have hsettled := htidy.settled_of_orderly horderly hnext hquiet₁
          have hrun : runEvents State.next (fun s e => s.orderly e = true) (e :: steps) s =
              runEvents State.next (fun s e => s.orderly e = true) steps s₁ := by
            rw [runEvents, if_pos horderly, hnext]
            rfl
          rw [hrun]
          exact ih (htidy.moves hsettled hmoves)
            (hkept.moves htidy hbooks horderly hmoves hquiet₁) (hbooks.moves hmoves) hrest

/-- When `DestroyVars` has returned, everything has been destroyed once and in the
reverse order exactly if the local variables have been constructed in the order in
which they are linked, before `DestroyVars`, and none was linked after the others
had been unlinked. -/
theorem destroy_vars_complete_iff (globals : List VarId) (hnodup : globals.Nodup)
    (steps : List Step) (s : State)
    (h : runEvents State.next (fun _ _ => True) steps (State.start globals) = some s)
    (hreturned : s.Returned) :
    s.Complete ↔
      runEvents State.next (fun s e => s.orderly e = true) steps (State.start globals) =
        some s := by
  obtain ⟨hphase, hquiet⟩ := hreturned
  rcases run_kept_or_spoilt (tidy_start hnodup) (kept_start hnodup) (books_start globals)
    h hquiet with ⟨hrun, htidy, hkept, hbooks⟩ | ⟨hrun, hspoilt, hbooks⟩
  · exact ⟨fun _ => hrun, fun _ => hkept.complete htidy hbooks hphase⟩
  · refine ⟨fun hcomplete => absurd hcomplete (hspoilt.not_complete hbooks hphase),
      fun hcontra => ?_⟩
    rw [hrun] at hcontra
    cases hcontra

/-- A global variable, and two local ones that are visited one after the other. -/
def inTurn : List Step :=
  [.proceed, .returned, .proceed, .visit 1 1, .constructed 1, .visit 1 2, .constructed 1,
    .returned, .proceed, .returned, .proceed, .returned, .proceed, .proceed, .returned,
    .proceed]

/-- The constructor of the first local variable visits the second one. -/
def nested : List Step :=
  [.proceed, .visit 1 1, .visit 1 2, .constructed 1, .constructed 1, .returned, .proceed,
    .returned, .proceed, .returned, .proceed, .proceed]

/-- The destructor of the local variable visits another one. -/
def late : List Step :=
  [.proceed, .visit 1 1, .constructed 1, .returned, .proceed, .visit 1 2, .constructed 1,
    .returned, .proceed, .proceed]

theorem inTurn_complete :
    ∃ s, s.Returned ∧
      runEvents State.next (fun _ _ => True) inTurn (State.start [0]) = some s ∧
      s.Complete ∧ destroyedVars s.log = [2, 1, 0] := by
  refine ⟨_, ⟨rfl, rfl⟩, rfl, ?_, rfl⟩
  exact (destroy_vars_complete_iff [0] (by decide) inTurn _ rfl ⟨rfl, rfl⟩).mpr rfl

/-- What is constructed inside another constructor is destroyed first, and what a
destructor constructs stays for the next simulation. -/
theorem destroy_vars_incomplete :
    (∃ s, s.Returned ∧
      runEvents State.next (fun _ _ => True) nested (State.start []) = some s ∧
      completed s.log = [2, 1] ∧ destroyedVars s.log = [2, 1] ∧ ¬s.Complete) ∧
    ∃ s, s.Returned ∧
      runEvents State.next (fun _ _ => True) late (State.start []) = some s ∧
      .constructed 2 ∈ s.log ∧ .destroyed 2 ∉ s.log ∧ s.initialized 2 = true ∧
        ¬s.Complete := by
  refine ⟨⟨_, ⟨rfl, rfl⟩, rfl, rfl, rfl, fun hcomplete => ?_⟩,
    _, ⟨rfl, rfl⟩, rfl, by decide, by decide, rfl, fun hcomplete => ?_⟩
  · exact absurd hcomplete.order (by decide)
  · exact absurd (hcomplete.cleared 2) (by decide)

end StaticVars

end TwistSim
