/-
Vocabulary shared by the simulator, its memory model and its schedulers:
threads, memory orders, synchronization actions, statuses and crashes.
-/
import Mathlib.Logic.Basic

namespace TwistSim

/-- `kMaxThreads`, the size of every per-thread array. -/
def maxThreads : Nat := 16

/-- Thread identifiers are handed out from 1; 0 is the impossible id. -/
abbrev ThreadId := Nat

/-- Addresses of user memory. -/
abbrev Addr := Nat

/-- `fmt::ptr`. -/
def formatPtr (addr : Addr) : String :=
  "0x" ++ String.ofList (Nat.toDigits 16 addr)

/-- `wheels::SourceLocation`. -/
structure SourceLocation where
  file : String
  function : String
  line : Nat
  deriving DecidableEq, Repr

/-- The `fmt` rendering of a source location. -/
def SourceLocation.format (loc : SourceLocation) : String :=
  loc.file ++ ":" ++ toString loc.line ++ " [" ++ loc.function ++ "]"

/-- A failed assertion or undefined behaviour: the process dies. -/
inductive Panic where
  | verify (error : String)
  | assertion (error : String)
  | unreachable (error : String)
  | undefined (what : String)
  deriving DecidableEq, Repr

/-- Final status of a simulation. -/
inductive Status where
  | ok | libraryAssert | unhandledException | deadlock | memoryLeak
  | memoryDoubleFree | invalidMemoryAccess | dataRace | userAbort | pruned
  deriving DecidableEq, Repr

/-- Why a function of the simulator does not return: `AbortIter` ended the
iteration, or the process died. -/
inductive Stop where
  | abort (status : Status) (err : String)
  | panic (p : Panic)
  deriving DecidableEq, Repr

theorem map_eq_ok {ε α β : Type} {x : Except ε α} {f : α → β} {b : β}
    (h : x.map f = .ok b) : ∃ a, x = .ok a ∧ f a = b := by
  cases x with
  | error e => cases h
  | ok a => exact ⟨a, rfl, Except.ok.inj h⟩

/-- Status of a system call. -/
inductive CallStatus where
  | ok | timeout | interrupted
  deriving DecidableEq, Repr

inductive ThreadState where
  | starting | runnable | running | sleeping | lfSuspended | parked
  | terminated | deadlocked
  deriving DecidableEq, Repr

structure ThreadAttrs where
  preemptive : Bool
  lockFree : Bool
  deriving DecidableEq, Repr

inductive MemoryOrder where
  | relaxed | consume | acquire | release | acqRel | seqCst
  deriving DecidableEq, Repr

namespace MemoryOrder

def isLoadOrder : MemoryOrder → Bool
  | relaxed | acquire | seqCst => true
  | _ => false

def isAcquireOrder : MemoryOrder → Bool
  | acquire | acqRel | seqCst => true
  | _ => false

def isStoreOrder : MemoryOrder → Bool
  | relaxed | acqRel | release | seqCst => true
  | _ => false

def isReleaseOrder : MemoryOrder → Bool
  | release | acqRel | seqCst => true
  | _ => false

end MemoryOrder

inductive ActionType where
  | atomicInit | atomicLoad | atomicDebugLoad | atomicStore
  | atomicRmwLoad | atomicRmwCommit | atomicDestroy | atomicThreadFence
  deriving DecidableEq, Repr

/-- A synchronization action, as the user library submits it. -/
structure Action where
  loc : Addr
  size : Nat
  type : ActionType
  value : Nat
  mo : MemoryOrder
  operation : String
  sourceLoc : SourceLocation
  deriving DecidableEq, Repr

inductive AccessType where
  | init | read | write | destroy
  deriving DecidableEq, Repr

def isRead (a : AccessType) : Bool := a == .read

/-- Everything but a read counts as a write. -/
def isWrite (a : AccessType) : Bool := !isRead a

/-- The current access to a non-atomic location. -/
structure Access where
  loc : Addr
  type : AccessType
  sourceLoc : SourceLocation
  deriving DecidableEq, Repr

end TwistSim
