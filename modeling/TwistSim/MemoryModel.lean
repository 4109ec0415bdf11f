/-
The memory model of the simulator: vector clocks, shadow atomics, shadow
variables and shadow allocations, and the operations that update them.
-/
import TwistSim.Basic
import Mathlib.Logic.Function.Basic
import Mathlib.Order.Defs.LinearOrder
import Mathlib.Algebra.Group.Nat.Defs

namespace TwistSim

/-- `Epoch` is a `uint32_t`. -/
abbrev Epoch := Nat

def epochSize : Nat := 2 ^ 32

/-- The array `v_`, indexed by thread id minus one. -/
abbrev VectorClock := Nat → Epoch

namespace VectorClock

def init : VectorClock := fun _ => 0

def get (v : VectorClock) (tid : ThreadId) : Epoch := v (tid - 1)

variable (threadCount : Nat)

def tick (v : VectorClock) (tid : ThreadId) : Except Panic VectorClock :=
  if tid ≤ threadCount then
    .ok (Function.update v (tid - 1) ((v (tid - 1) + 1) % epochSize))
  else .error (.assertion "Too many threads")

def reset (v : VectorClock) : VectorClock :=
  fun i => if i < threadCount then 0 else v i

def assign (v that : VectorClock) : VectorClock :=
  fun i => if i < threadCount then that i else v i

def join (v that : VectorClock) : VectorClock :=
  fun i => if i < threadCount then max (v i) (that i) else v i

end VectorClock

/-- `sync::ThreadContext`. -/
structure ThreadContext where
  current : VectorClock
  acquire : VectorClock
  release : VectorClock
  epoch : Epoch

def ThreadContext.init : ThreadContext :=
  ⟨VectorClock.init, VectorClock.init, VectorClock.init, 0⟩

structure AtomicStore where
  clock : VectorClock
  value : Nat

structure AtomicVar where
  sourceLoc : SourceLocation
  size : Nat
  lastStore : AtomicStore
  dtor : Bool

/-- An access as the shadow variable remembers it. -/
structure OldAccess where
  loc : Addr
  type : AccessType
  thread : ThreadId
  epoch : Epoch
  sourceLoc : SourceLocation
  deriving DecidableEq, Repr

structure NonAtomicVar where
  sourceLoc : SourceLocation
  lastRead : ThreadId → Option OldAccess
  lastWrite : Option OldAccess
  dtor : Option OldAccess

def NonAtomicVar.init (sourceLoc : SourceLocation) : NonAtomicVar where
  sourceLoc := sourceLoc
  lastRead _ := none
  lastWrite := none
  dtor := none

def NonAtomicVar.log (var : NonAtomicVar) (a : OldAccess) : NonAtomicVar :=
  if isRead a.type then
    { var with lastRead := Function.update var.lastRead a.thread (some a) }
  else { var with lastWrite := some a }

structure Alloc where
  alive : Bool
  size : Nat
  thread : ThreadId
  sourceLoc : Option SourceLocation
  free : VectorClock

def Alloc.init : Alloc := ⟨false, 0, 0, none, VectorClock.init⟩

/-- `SeqCstMemoryModel`, with the thread contexts it updates and the answer of
`ThreadCount()`. -/
structure Memory where
  atomics : Addr → Option AtomicVar
  nonAtomics : Addr → Option NonAtomicVar
  allocs : Addr → Option Alloc
  sync : ThreadId → ThreadContext
  threadCount : Nat

namespace Memory

def empty : Memory where
  atomics _ := none
  nonAtomics _ := none
  allocs _ := none
  sync _ := ThreadContext.init
  threadCount := 0

/-- The parts of `CreateThread` that the memory model sees. -/
def createThread (m : Memory) : Except Panic (ThreadId × Memory) :=
  if m.threadCount < maxThreads then
    .ok (m.threadCount + 1,
      { m with
        threadCount := m.threadCount + 1
        sync := Function.update m.sync (m.threadCount + 1) ThreadContext.init })
  else .error (.verify "Too many threads")

def setSync (m : Memory) (thread : ThreadId) (ctx : ThreadContext) : Memory :=
  { m with sync := Function.update m.sync thread ctx }

def setAtomic (m : Memory) (loc : Addr) (atomic : AtomicVar) : Memory :=
  { m with atomics := Function.update m.atomics loc (some atomic) }

def setNonAtomic (m : Memory) (loc : Addr) (var : NonAtomicVar) : Memory :=
  { m with nonAtomics := Function.update m.nonAtomics loc (some var) }

def setAlloc (m : Memory) (addr : Addr) (alloc : Alloc) : Memory :=
  { m with allocs := Function.update m.allocs addr (some alloc) }

section Updates

variable (m : Memory) (thread : ThreadId) (ctx : ThreadContext) (loc : Addr)
  (atomic : AtomicVar) (var : NonAtomicVar) (alloc : Alloc)

@[simp] theorem setSync_sync_self : (m.setSync thread ctx).sync thread = ctx := by
  simp [setSync]

@[simp] theorem setSync_sync_of_ne {other : ThreadId} (h : other ≠ thread) :
    (m.setSync thread ctx).sync other = m.sync other := by
  simp [setSync, h]

@[simp] theorem setSync_setSync (ctx' : ThreadContext) :
    (m.setSync thread ctx).setSync thread ctx' = m.setSync thread ctx' := by
  simp [setSync]

@[simp] theorem setSync_self : m.setSync thread (m.sync thread) = m := by
  simp [setSync]

@[simp] theorem setSync_atomics : (m.setSync thread ctx).atomics = m.atomics := rfl

@[simp] theorem setSync_nonAtomics :
    (m.setSync thread ctx).nonAtomics = m.nonAtomics := rfl

@[simp] theorem setSync_allocs : (m.setSync thread ctx).allocs = m.allocs := rfl

@[simp] theorem setSync_threadCount :
    (m.setSync thread ctx).threadCount = m.threadCount := rfl

@[simp] theorem setAtomic_atomics : (m.setAtomic loc atomic).atomics =
    Function.update m.atomics loc (some atomic) := rfl

@[simp] theorem setAtomic_sync : (m.setAtomic loc atomic).sync = m.sync := rfl

@[simp] theorem setAtomic_nonAtomics :
    (m.setAtomic loc atomic).nonAtomics = m.nonAtomics := rfl

@[simp] theorem setAtomic_allocs :
    (m.setAtomic loc atomic).allocs = m.allocs := rfl

@[simp] theorem setAtomic_threadCount :
    (m.setAtomic loc atomic).threadCount = m.threadCount := rfl

@[simp] theorem setNonAtomic_nonAtomics : (m.setNonAtomic loc var).nonAtomics =
    Function.update m.nonAtomics loc (some var) := rfl

@[simp] theorem setAlloc_allocs : (m.setAlloc loc alloc).allocs =
    Function.update m.allocs loc (some alloc) := rfl

@[simp] theorem setAlloc_sync : (m.setAlloc loc alloc).sync = m.sync := rfl

@[simp] theorem setAlloc_threadCount :
    (m.setAlloc loc alloc).threadCount = m.threadCount := rfl

end Updates

/-! ### Threads -/

def tick (m : Memory) (thread : ThreadId) : Except Stop Memory :=
  match (m.sync thread).current.tick m.threadCount thread with
  | .error p => .error (.panic p)
  | .ok current =>
      .ok (m.setSync thread
        { m.sync thread with
          current
          epoch := ((m.sync thread).epoch + 1) % epochSize })

/-- The tick of a thread that exists. -/
def ticked (m : Memory) (thread : ThreadId) : Memory :=
  m.setSync thread
    { m.sync thread with
      current := Function.update (m.sync thread).current (thread - 1)
        (((m.sync thread).current (thread - 1) + 1) % epochSize)
      epoch := ((m.sync thread).epoch + 1) % epochSize }

theorem tick_eq {m : Memory} {thread : ThreadId} (h : thread ≤ m.threadCount) :
    m.tick thread = .ok (m.ticked thread) := by
  simp only [tick, VectorClock.tick, h, if_true, ticked]

def spawn (m : Memory) (parent child : ThreadId) : Except Stop Memory :=
  tick (m.setSync child
    { m.sync child with
      current :=
        (m.sync child).current.assign m.threadCount (m.sync parent).current })
    child

/-- Wake acts as release operation. -/
def wake (m : Memory) (waker waiter : ThreadId) : Except Stop Memory :=
  tick (m.setSync waiter
    { m.sync waiter with
      current :=
        (m.sync waiter).current.join m.threadCount (m.sync waker).release })
    waiter

/-! ### Fences -/

def fenceRelease (m : Memory) (thread : ThreadId) : Memory :=
  m.setSync thread
    { m.sync thread with
      release :=
        (m.sync thread).release.assign m.threadCount (m.sync thread).current }

def fenceAcquire (m : Memory) (thread : ThreadId) : Memory :=
  m.setSync thread
    { m.sync thread with
      current :=
        (m.sync thread).current.join m.threadCount (m.sync thread).acquire }

def atomicThreadFence (m : Memory) (thread : ThreadId) (fence : Action) :
    Except Stop Memory :=
  match fence.mo with
  | .acquire => .ok (m.fenceAcquire thread)
  | .release => .ok (m.fenceRelease thread)
  | .acqRel => .ok ((m.fenceAcquire thread).fenceRelease thread)
  | _ => .error (.panic (.unreachable "Fence not supported"))

/-! ### Atomics -/

def invalidAccess {α : Type} (err : String) : Except Stop α :=
  .error (.abort .invalidMemoryAccess err)

def getShadowAtomicVar (m : Memory) (action : Action) : Except Stop AtomicVar :=
  match m.atomics action.loc with
  | none =>
      invalidAccess s!"Invalid atomic access: addr = {formatPtr action.loc}, operation = {action.operation}, source location = {action.sourceLoc.format}"
  | some atomic =>
      if atomic.dtor then
        invalidAccess s!"Accessing destroyed atomic: addr = {formatPtr action.loc}, source location = {atomic.sourceLoc.format}, operation = {action.operation}, access source location = {action.sourceLoc.format}"
      else .ok atomic

theorem getShadowAtomicVar_ok {m : Memory} {action : Action}
    {atomic : AtomicVar} (h : m.getShadowAtomicVar action = .ok atomic) :
    m.atomics action.loc = some atomic := by
  unfold getShadowAtomicVar at h
  cases hatomic : m.atomics action.loc with
  | none =>
      rw [hatomic] at h
      cases h
  | some found =>
      rw [hatomic] at h
      by_cases hdtor : found.dtor = true
      · simp [hdtor, invalidAccess] at h
      · simpa [hdtor] using h

/-- `FutexAtomic`. -/
def futexAtomic (m : Memory) (loc : Addr) : Except Stop AtomicVar :=
  let unknown := s!"Invalid atomic access: addr = {formatPtr loc}"
  match m.atomics loc with
  | none => invalidAccess unknown
  | some atomic => if atomic.dtor then invalidAccess unknown else .ok atomic

/-- Initialization is not atomic. -/
def atomicInit (m : Memory) (init : Action) : Memory :=
  m.setAtomic init.loc
    { sourceLoc := init.sourceLoc
      size := init.size
      lastStore := ⟨VectorClock.init, init.value⟩
      dtor := false }

def atomicLoadRelaxed (m : Memory) (reader : ThreadId) (atomic : AtomicVar) :
    Nat × Memory :=
  (atomic.lastStore.value, m.setSync reader
    { m.sync reader with
      acquire :=
        (m.sync reader).acquire.join m.threadCount atomic.lastStore.clock })

def atomicStoreRelaxed (m : Memory) (writer : ThreadId) (loc : Addr)
    (atomic : AtomicVar) (value : Nat) : Memory :=
  m.setAtomic loc
    { atomic with
      lastStore :=
        ⟨atomic.lastStore.clock.assign m.threadCount (m.sync writer).release,
          value⟩ }

def atomicRmwCommitRelaxed (m : Memory) (writer : ThreadId) (loc : Addr)
    (atomic : AtomicVar) (value : Nat) : Memory :=
  m.setAtomic loc
    { atomic with
      lastStore :=
        ⟨atomic.lastStore.clock.join m.threadCount (m.sync writer).release,
          value⟩ }

/-- The common part of `AtomicLoad` and `AtomicRmwLoad`: an acquire load is a
relaxed load followed by an acquire fence. -/
def loadThenFence (m : Memory) (reader : ThreadId) (action : Action) :
    Except Stop (Nat × Memory) :=
  match m.getShadowAtomicVar action with
  | .error e => .error e
  | .ok atomic =>
      let (value, m) := m.atomicLoadRelaxed reader atomic
      .ok (value,
        if action.mo.isAcquireOrder then m.fenceAcquire reader else m)

def atomicLoad (m : Memory) (reader : ThreadId) (load : Action) :
    Except Stop (Nat × Memory) :=
  if load.mo.isLoadOrder then m.loadThenFence reader load
  else .error (.panic (.assertion "Unexpected memory order for atomic load"))

def atomicDebugLoad (m : Memory) (load : Action) : Except Stop (Nat × Memory) :=
  (m.getShadowAtomicVar load).map fun atomic => (atomic.lastStore.value, m)

def atomicRmwLoad (m : Memory) (writer : ThreadId) (rmw : Action) :
    Except Stop (Nat × Memory) :=
  m.loadThenFence writer rmw

/-- The common part of `AtomicStore` and `AtomicRmwCommit`: a release fence
followed by the relaxed operation. -/
def fenceThenWrite (m : Memory) (writer : ThreadId) (action : Action)
    (write : Memory → AtomicVar → Memory) : Except Stop Memory :=
  (m.getShadowAtomicVar action).map fun atomic =>
    write (if action.mo.isReleaseOrder then m.fenceRelease writer else m) atomic

def atomicStore (m : Memory) (writer : ThreadId) (store : Action) :
    Except Stop Memory :=
  if store.mo.isStoreOrder then
    m.fenceThenWrite writer store fun m atomic =>
      m.atomicStoreRelaxed writer store.loc atomic store.value
  else .error (.panic (.assertion "Unexpected memory order for atomic store"))

def atomicRmwCommit (m : Memory) (writer : ThreadId) (rmw : Action) :
    Except Stop Memory :=
  m.fenceThenWrite writer rmw fun m atomic =>
    m.atomicRmwCommitRelaxed writer rmw.loc atomic rmw.value

def atomicDestroy (m : Memory) (destroy : Action) : Except Stop Memory :=
  (m.getShadowAtomicVar destroy).map fun atomic =>
    m.setAtomic destroy.loc { atomic with dtor := true }

/-- What `Sync` does after the tick. -/
def syncAction (m : Memory) (thread : ThreadId) (action : Action) :
    Except Stop (Nat × Memory) :=
  match action.type with
  | .atomicInit => .ok (0, m.atomicInit action)
  | .atomicDestroy => (m.atomicDestroy action).map fun m => (0, m)
  | .atomicLoad => m.atomicLoad thread action
  | .atomicDebugLoad => m.atomicDebugLoad action
  | .atomicStore => (m.atomicStore thread action).map fun m => (0, m)
  | .atomicRmwLoad => m.atomicRmwLoad thread action
  | .atomicRmwCommit => (m.atomicRmwCommit thread action).map fun m => (0, m)
  | .atomicThreadFence =>
      (m.atomicThreadFence thread action).map fun m => (0, m)

/-- `Sync`. -/
def syncCall (m : Memory) (thread : ThreadId) (action : Action) :
    Except Stop (Nat × Memory) :=
  match m.tick thread with
  | .error e => .error e
  | .ok m => m.syncAction thread action

/-! ### Non-atomics -/

def conflict (a b : AccessType) : Bool := isWrite a || isWrite b

def happensBefore (m : Memory) (old : OldAccess) (thread : ThreadId) : Bool :=
  decide (old.epoch ≤ (m.sync thread).current.get old.thread)

/-- Is `old` an access of another thread that does not happen before? -/
def isRace (m : Memory) (thread : ThreadId) (old : Option OldAccess) :
    Option OldAccess :=
  old.filter fun old =>
    decide (old.thread ≠ thread) && !m.happensBefore old thread

/-- The loop over the last reads, by thread id. -/
def raceWithReads (m : Memory) (thread : ThreadId) (var : NonAtomicVar) :
    Option OldAccess :=
  (List.range' 1 m.threadCount).findSome? fun i =>
    if i ≠ thread then
      (var.lastRead i).filter fun old => !m.happensBefore old thread
    else none

def checkDataRaces (m : Memory) (thread : ThreadId) (var : NonAtomicVar)
    (curr : Access) : Option OldAccess :=
  match m.isRace thread var.lastWrite with
  | some race => some race
  | none => if isWrite curr.type then m.raceWithReads thread var else none

/-- The record of the current access. -/
def currAccess (m : Memory) (thread : ThreadId) (access : Access) : OldAccess :=
  ⟨access.loc, access.type, thread, (m.sync thread).epoch, access.sourceLoc⟩

def initNonAtomicVar (m : Memory) (thread : ThreadId) (access : Access) :
    Except Stop (Option OldAccess × Memory) :=
  let fresh := m.setNonAtomic access.loc
    ((NonAtomicVar.init access.sourceLoc).log (m.currAccess thread access))
  match m.nonAtomics access.loc with
  | none => .ok (none, fresh)
  | some var =>
      -- Reuse location
      if var.dtor.isNone then
        invalidAccess s!"Trying to initialize shared variable on memory location that is already occupied by another live shared variable: addr = {formatPtr access.loc}, access source location = {access.sourceLoc.format}"
      else
        match m.checkDataRaces thread var access with
        | some race => .ok (some race, m)
        | none => .ok (none, fresh)

def accessLiveNonAtomicVar (m : Memory) (thread : ThreadId) (access : Access) :
    Except Stop (Option OldAccess × Memory) :=
  match m.nonAtomics access.loc with
  | none =>
      invalidAccess s!"Invalid shared variable access: addr = {formatPtr access.loc}, source location = {access.sourceLoc.format}"
  | some var =>
      match m.checkDataRaces thread var access with
      | some race => .ok (some race, m)
      | none =>
          let curr := m.currAccess thread access
          let var :=
            if access.type = .destroy then { var with dtor := some curr }
            else var
          .ok (none, m.setNonAtomic access.loc (var.log curr))

def accessNonAtomicVar (m : Memory) (thread : ThreadId) (access : Access) :
    Except Stop (Option OldAccess × Memory) :=
  match m.tick thread with
  | .error e => .error e
  | .ok m =>
      if access.type = .init then m.initNonAtomicVar thread access
      else m.accessLiveNonAtomicVar thread access

/-! ### Memory allocations -/

def getShadowAllocation (m : Memory) (addr : Addr) : Alloc :=
  (m.allocs addr).getD Alloc.init

/-- `scope` is the source location of the caller, when it is not the runtime. -/
def malloc (m : Memory) (thread : ThreadId) (addr : Addr) (size : Nat)
    (scope : Option SourceLocation) : Memory :=
  let alloc := m.getShadowAllocation addr
  let m := m.setAlloc addr
    { alloc with alive := true, size, thread, sourceLoc := scope }
  m.setSync thread
    { m.sync thread with
      current := (m.sync thread).current.join m.threadCount alloc.free }

def free (m : Memory) (thread : ThreadId) (addr : Addr) : Memory :=
  let alloc := m.getShadowAllocation addr
  m.setAlloc addr
    { alloc with
      alive := false
      free := alloc.free.assign m.threadCount (m.sync thread).current }

end Memory

end TwistSim
