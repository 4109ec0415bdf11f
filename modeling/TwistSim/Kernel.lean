/-
The state of a simulation and the operations that move threads between the
scheduler, the futex wait queues and the timer queue.
-/
import TwistSim.Scheduler
import TwistSim.Effects
import TwistSim.MemoryModel
import TwistSim.TimerHeap
import TwistSim.RandomNumbers
import Mathlib.Algebra.Group.Int.Defs

namespace TwistSim

/-! ### Virtual time -/

/-- Conversion to `int64_t`. -/
def toInt64 (x : Int) : Int := Int.bmod x (2 ^ 64)

/-- `Ticks` is a `uint64_t`. -/
def ticksSize : Nat := 2 ^ 64

namespace Time

/-- `Now`, in nanoseconds. -/
def now (tick : Int) (ticks : Nat) : Int := toInt64 (ticks * tick)

/-- `ToTicks`, rounding up. -/
def toTicks (tick : Int) (instant : Int) : Nat :=
  ((instant.tdiv tick + if instant.tmod tick = 0 then 0 else 1) % 2 ^ 64).toNat

def advanceTo (tick : Int) (future : Int) (ticks : Nat) : Except Panic Nat :=
  if future < now tick ticks then .error (.verify "Time cannot move backward")
  else if tick = 0 then .error (.undefined "division by zero")
  else if toTicks tick future < ticks then .error (.verify "Time is broken")
  else .ok ((ticks + (toTicks tick future - ticks)) % ticksSize)

/-- `After`; signed overflow is undefined. -/
def after (tick : Int) (delay : Int) (ticks : Nat) : Except Panic Int :=
  let instant := now tick ticks + delay
  if -2 ^ 63 ≤ instant ∧ instant < 2 ^ 63 then .ok instant
  else .error (.undefined "signed overflow")

end Time

/-! ### Futexes -/

inductive FutexType where
  | futex | atomic | thread | mutexLock | mutexTryLock | condVar | waitGroup
  deriving DecidableEq, Repr

structure WaiterContext where
  type : FutexType
  operation : String
  sourceLoc : SourceLocation
  waitingFor : Option ThreadId := none
  deriving DecidableEq, Repr

inductive FutexAtomicType where
  | uint32 | uint64Half | std
  deriving DecidableEq, Repr

inductive FutexAtomicPart where
  | whole | lowHalf | highHalf
  deriving DecidableEq, Repr

structure FutexKey where
  atomic : Addr
  part : FutexAtomicPart
  deriving DecidableEq, Repr

structure FutexLoc where
  atomic : Addr
  size : Nat
  part : FutexAtomicPart
  type : FutexAtomicType
  deriving DecidableEq, Repr

def FutexLoc.futexKey (loc : FutexLoc) : FutexKey := ⟨loc.atomic, loc.part⟩

def getFutexValue (atomic : AtomicVar) (value : Nat) (loc : FutexLoc) :
    Except Panic Nat :=
  match loc.type with
  | .uint32 =>
      if atomic.size = loc.size then .ok value
      else .error (.verify "Atomic size mismatch")
  | .uint64Half =>
      if atomic.size ≠ 8 then .error (.verify "Unsupported atomic size")
      else if atomic.size ≠ loc.size then .error (.verify "Atomic size mismatch")
      else
        match loc.part with
        | .lowHalf => .ok (value % 2 ^ 32)
        | .highHalf => .ok (value / 2 ^ 32 % 2 ^ 32)
        | .whole => .error (.unreachable "Unexpected futex location")
  | .std => .ok value

/-- A futex keeps its first waiter itself and asks the scheduler for a queue
when a second one arrives. -/
structure WaitQueue where
  waiters : Option QueueId
  singleton : Option ThreadId
  deriving DecidableEq, Repr

/-! ### Threads and the simulator -/

structure Thread where
  state : ThreadState
  parentId : Option ThreadId
  main : Bool
  attrs : ThreadAttrs
  action : Option Action
  load : Nat
  waiter : Option WaiterContext
  futex : Option FutexKey
  /-- Is the `timer` pointer set?  It can only point to the thread's own timer. -/
  timer : Bool
  status : CallStatus
  runs : Nat

def Thread.reset : Thread where
  state := .starting
  parentId := none
  main := false
  attrs := ⟨true, false⟩
  action := none
  load := 0
  waiter := none
  futex := none
  timer := false
  status := .ok
  runs := 0

/-- `system::Params`, and the two facts about the build that matter. -/
structure Params where
  tick : Int := 10000
  allowDetachedThreads : Bool := true
  mallocHappensBefore : Bool := true
  digestAtomicLoads : Bool := false
  allowDigestAtomicLoads : Bool := true
  /-- `__TWIST_SIM_ISOLATION__` -/
  isolation : Bool := true
  /-- `FixedMapping` of the user memory. -/
  fixedMapping : Bool := true
  deriving DecidableEq, Repr

/-- `Simulator`.  A thread is named by its id, which is never handed out again;
the futexes without an entry in `futex_` are the empty ones. -/
structure Sim where
  params : Params
  ticks : Nat
  digest : UInt64
  digestAtomicLoads : Bool
  alive : List ThreadId
  threads : ThreadId → Thread
  burntThreads : Nat
  iter : Nat
  lastCheckpoint : Nat
  memory : Memory
  /-- The keys of the memory model's `allocs_`, in order. -/
  allocations : List Addr
  futex : FutexKey → WaitQueue
  futexKeys : List FutexKey
  timerQueue : TimerQueue ThreadId
  /-- Is `Simulator::current`, which is shared by the process, set? -/
  current : Bool
  done : Bool
  stdout : String
  stderr : String
  status : Option Status

/-- A simulator after `Init`. -/
def Sim.init (params : Params) (current : Bool) : Sim where
  params := params
  ticks := 0
  digest := 0
  digestAtomicLoads := params.digestAtomicLoads ||
    (params.allowDigestAtomicLoads && params.isolation && params.fixedMapping)
  alive := []
  threads _ := Thread.reset
  burntThreads := 0
  iter := 0
  lastCheckpoint := 0
  memory := Memory.empty
  allocations := []
  futex _ := ⟨none, none⟩
  futexKeys := []
  timerQueue := TimerQueue.empty fun _ => ⟨0, 0, 0, .sleepTimer⟩
  current := current
  done := false
  stdout := ""
  stderr := ""
  status := none

def Sim.view (sim : Sim) : KernelView where
  currTick := sim.ticks
  attrs t := (sim.threads t).attrs
  action t := (sim.threads t).action.map (·.type)
  alive t := sim.alive.elem t

def Sim.now (sim : Sim) : Int := Time.now sim.params.tick sim.ticks

def Sim.setThread (sim : Sim) (t : ThreadId) (thread : Thread) : Sim :=
  { sim with threads := Function.update sim.threads t thread }

def Sim.setFutex (sim : Sim) (key : FutexKey) (queue : WaitQueue) : Sim :=
  { sim with futex := Function.update sim.futex key queue }

/-- What ends a computation of the simulator early. -/
inductive Thrown where
  | sysAbortEx
  | panic (p : Panic)
  deriving DecidableEq, Repr

abbrev KernelM (α : Type) := Effect Call Call.Reply Sim Thrown α

namespace Kernel

open Effect

def query (q : Query) : KernelM q.Reply := do
  let sim ← get
  ask (sim.view, q)

def modifyThread (t : ThreadId) (f : Thread → Thread) : KernelM Unit :=
  modify fun sim => sim.setThread t (f (sim.threads t))

def panic {α : Type} (p : Panic) : KernelM α := raise (.panic p)

def verify (cond : Bool) (error : String) : KernelM Unit :=
  if cond then pure () else panic (.verify error)

def checked {α : Type} (x : Except Panic α) : KernelM α :=
  match x with
  | .ok value => pure value
  | .error p => panic p

def writeStderr (text : String) : KernelM Unit :=
  modify fun sim => { sim with stderr := sim.stderr ++ text }

/-- `_SysAbort`. -/
def sysAbort {α : Type} (status : Status) : KernelM α := do
  let sim ← get
  if sim.params.isolation then
    modify fun sim => { sim with status := some status }
    raise .sysAbortEx
  else panic (.unreachable sim.stderr)

def abortIter {α : Type} (status : Status) (err : String) : KernelM α := do
  writeStderr (err ++ "\n")
  sysAbort status

def prune {α : Type} (why : String) : KernelM α :=
  abortIter .pruned ("Simulation aborted by scheduler: " ++ why)

/-- An operation of the memory model. -/
def onMemory {α : Type} (op : Memory → Except Stop (α × Memory)) : KernelM α := do
  let sim ← get
  match op sim.memory with
  | .ok (value, memory) =>
      modify fun sim => { sim with memory }
      pure value
  | .error (.abort status err) => abortIter status err
  | .error (.panic p) => panic p

/-- An operation of the memory model without a result. -/
def onMemory' (op : Memory → Except Stop Memory) : KernelM Unit :=
  onMemory fun m => (op m).map fun m => ((), m)

/-! ### Wait queues -/

/-- `GetFutex`. -/
def getFutex (key : FutexKey) : KernelM WaitQueue := do
  modify fun sim =>
    if sim.futexKeys.elem key then sim
    else { sim with futexKeys := sim.futexKeys ++ [key] }
  let sim ← get
  pure (sim.futex key)

def setFutex (key : FutexKey) (queue : WaitQueue) : KernelM Unit :=
  modify fun sim => sim.setFutex key queue

def waitQueuePush (key : FutexKey) (waiter : ThreadId) : KernelM Unit := do
  let queue ← getFutex key
  match queue.waiters, queue.singleton with
  | some id, _ => query (.queuePush id waiter)
  | none, none => setFutex key ⟨none, some waiter⟩
  | none, some first => do
      -- Switch from singleton queue to scheduler queue
      let id ← query .newWaitQueue
      setFutex key ⟨some id, none⟩
      query (.queuePush id first)
      query (.queuePush id waiter)

/-- `Pop` or `PopAll`, as `q` says. -/
def waitQueuePop (key : FutexKey)
    (q : (id : QueueId) → KernelM (Option ThreadId)) :
    KernelM (Option ThreadId) := do
  let queue ← getFutex key
  match queue.waiters with
  | some id => q id
  | none => do
      setFutex key ⟨none, none⟩
      pure queue.singleton

def waitQueueRemove (key : FutexKey) (waiter : ThreadId) : KernelM Unit := do
  let sim ← get
  let queue := sim.futex key
  let removed ← match queue.waiters with
    | some id => query (.queueRemove id waiter)
    | none => do
        setFutex key ⟨none, none⟩
        pure (queue.singleton == some waiter)
  verify removed "Waiter not found in WaitQueue"

/-! ### Timers -/

/-- `AddTimer` of a new timer object of thread `t`. -/
def addTimer (t : ThreadId) (when : Int) (alarm : WakeType) : KernelM Unit := do
  let sim ← get
  let queue ← checked ((sim.timerQueue.create t when alarm).add t)
  modify fun sim => { sim with timerQueue := queue }

/-- `timer_queue_.Remove`. -/
def removeTimer (t : ThreadId) : KernelM Bool := do
  let sim ← get
  let (removed, queue) ← checked (sim.timerQueue.remove t)
  modify fun sim => { sim with timerQueue := queue }
  pure removed

def cancelTimer (t : ThreadId) : KernelM Unit := do
  let removed ← removeTimer t
  verify removed "Timer not found"

/-! ### Waking threads -/

def scheduleWaiter (waiter : ThreadId) (status : CallStatus) : KernelM Unit := do
  modifyThread waiter fun thread => { thread with status }
  query (.wake waiter)

/-- What `Wake` does for its reason, and the status the waiter gets. -/
def wakeReason (waker : Option ThreadId) (waiter : ThreadId) :
    WakeType → KernelM CallStatus
  | .sleepTimer => pure .ok
  | .futexWake => do
      match waker with
      | some waker => onMemory' fun m => m.wake waker waiter
      | none => panic (.undefined "null waker")
      let sim ← get
      if (sim.threads waiter).timer then cancelTimer waiter
      pure .ok
  | .futexTimer => do
      let sim ← get
      match (sim.threads waiter).futex with
      | some key => waitQueueRemove key waiter
      | none => panic (.undefined "null futex")
      pure .timeout
  | .spurious => do
      let sim ← get
      match (sim.threads waiter).futex with
      | some key => waitQueueRemove key waiter
      | none => pure ()
      let sim ← get
      if (sim.threads waiter).timer then cancelTimer waiter
      pure .interrupted

/-- From simulator context. -/
def wake (waker : Option ThreadId) (waiter : ThreadId) (type : WakeType) :
    KernelM Unit := do
  let sim ← get
  let state := (sim.threads waiter).state
  if state ≠ .parked ∧ state ≠ .sleeping then
    panic (.assertion "Unexpected thread state")
  else do
    let status ← wakeReason waker waiter type
    modifyThread waiter fun thread =>
      { thread with state := .runnable, futex := none, timer := false, waiter := none }
    scheduleWaiter waiter status

/-- `Alarm`, with the loop of `PollTimers`; at most `fuel` timers fire. -/
def pollTimersLoop : Nat → KernelM Bool
  | 0 => pure false
  | fuel + 1 => do
      let sim ← get
      match sim.timerQueue.poll sim.now with
      | (none, _) => pure false
      | (some t, queue) => do
          modify fun sim => { sim with timerQueue := queue }
          wake none t (queue.heap.timers t).alarm
          let _ ← pollTimersLoop fuel
          pure true

/-- `PollTimers`: no alarm adds a timer, so the size of the queue is enough. -/
def pollTimers : KernelM Bool := do
  let sim ← get
  pollTimersLoop sim.timerQueue.heap.size

/-! ### Creating and destroying threads -/

def createThread : KernelM ThreadId := do
  let sim ← get
  let (id, memory) ← checked sim.memory.createThread
  modify fun sim =>
    { sim.setThread id Thread.reset with memory, alive := sim.alive ++ [id] }
  pure id

def destroyThread (t : ThreadId) : KernelM Unit :=
  modify fun sim => { sim with alive := sim.alive.erase t }

/-- `Burn(Thread*)`. -/
def burnThread (t : ThreadId) : KernelM Unit := do
  query (.remove t)
  let sim ← get
  if (sim.threads t).timer then
    let _ ← removeTimer t
  match (sim.threads t).futex with
  | some key => waitQueueRemove key t
  | none => pure ()
  modify fun sim => { sim with burntThreads := sim.burntThreads + 1 }
  destroyThread t

def burnThreads : List ThreadId → KernelM Unit
  | [] => pure ()
  | t :: rest => do
      burnThread t
      burnThreads rest

end Kernel

end TwistSim
