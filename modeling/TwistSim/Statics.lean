/-
The registry of twisted static variables: it outlives the simulations of a
process, so every simulation has to leave it as it found it.
-/
import TwistSim.Basic
import Mathlib.Logic.Function.Basic

namespace TwistSim

namespace Statics

abbrev VarId := Nat

/-- What `InitGlobalBefore` compares; file names are compared as pointers. -/
structure VarInfo where
  initOrder : Int
  file : Addr
  line : Nat
  deriving DecidableEq, Repr

def initGlobalBefore (lhs rhs : VarInfo) : Bool :=
  if lhs.initOrder ≠ rhs.initOrder then decide (lhs.initOrder < rhs.initOrder)
  else if lhs.file ≠ rhs.file then decide (lhs.file < rhs.file)
  else decide (lhs.line < rhs.line)

/-- `ss::Manager`.  `initialized` says of every variable, static or thread-local,
whether its `var_` or `key_` is set. -/
structure Manager where
  info : VarId → VarInfo
  globals : List VarId
  globalsInitOrder : Bool
  locals : List VarId
  initialized : VarId → Bool

namespace Manager

variable (m : Manager)

/-- The candidate that `Sort` moves next: the first of the least. -/
def candidate (first : VarId) (rest : List VarId) : VarId :=
  rest.foldl (fun candidate curr =>
    if initGlobalBefore (m.info curr) (m.info candidate) then curr else candidate)
    first

/-- `IntrusiveList::Sort`; every turn moves one variable. -/
def sortLoop : Nat → List VarId → List VarId
  | 0, _ => []
  | _, [] => []
  | fuel + 1, first :: rest =>
      let next := m.candidate first rest
      next :: sortLoop fuel ((first :: rest).erase next)

/-- The globals in the order of `ConstructGlobalVars`. -/
def sortedGlobals : List VarId :=
  if m.globalsInitOrder then m.globals
  else m.sortLoop m.globals.length m.globals

def setInitialized (var : VarId) (flag : Bool) : Manager :=
  { m with initialized := Function.update m.initialized var flag }

/-- `BurnVars`. -/
def burnVars : Manager :=
  { m with
    initialized := fun var =>
      m.initialized var && !m.globals.elem var && !m.locals.elem var
    locals := [] }

end Manager

/-- The steps of user code that touch the registry. -/
inductive Op where
  /-- Sort the globals once, and read them. -/
  | sortGlobals
  /-- Read the globals, last first. -/
  | globalsBackwards
  /-- Read the locals, last first. -/
  | localsBackwards
  /-- `_Visit` of a local variable, up to its constructor. -/
  | visit (var : VarId)
  /-- `Ctor` has constructed the object. -/
  | construct (var : VarId)
  /-- `Dtor` takes the object. -/
  | destroy (var : VarId)
  /-- `locals_.UnlinkAll`. -/
  | unlinkLocals
  deriving DecidableEq, Repr

/-- What a step tells the user code. -/
inductive Reply where
  | unit
  | first (flag : Bool)
  | vars (list : List VarId)
  deriving DecidableEq, Repr

def exec (m : Manager) : Op → Except Panic (Reply × Manager)
  | .sortGlobals =>
      .ok (.vars m.sortedGlobals,
        { m with globals := m.sortedGlobals, globalsInitOrder := true })
  | .globalsBackwards => .ok (.vars m.globals.reverse, m)
  | .localsBackwards => .ok (.vars m.locals.reverse, m)
  | .visit var =>
      if m.initialized var then .ok (.first false, m)
      else if m.globals.elem var || m.locals.elem var then
        .error (.verify "cannot link already linked node")
      else .ok (.first true, { m with locals := m.locals ++ [var] })
  | .construct var =>
      if m.initialized var then
        .error (.assertion "Static var already initialized")
      else .ok (.unit, m.setInitialized var true)
  | .destroy var =>
      if m.initialized var then .ok (.unit, m.setInitialized var false)
      else .error (.assertion "Static var not initialized")
  | .unlinkLocals => .ok (.unit, { m with locals := [] })

end Statics

end TwistSim
