/-
Programs and the scheduling loop.  One step of the loop starts an iteration, or
resumes the running thread until its next call.
-/
import TwistSim.SystemCalls
import TwistSim.Statics

namespace TwistSim

/-- What user code does when it stops: a call to the simulator, or a step on the
registry of static variables. -/
inductive Request where
  | sys (call : SysCall)
  | statics (op : Statics.Op)
  deriving DecidableEq, Repr

/-- What user code is resumed with. -/
inductive Resumption where
  | answer (a : Answer)
  | statics (r : Statics.Reply)
  deriving DecidableEq, Repr

/-- A deterministic program: `U` is all of the user memory. -/
structure Program (U : Type) where
  resume : ThreadId → Resumption → U → Request × U
  heapStat : U → HeapStat

/-- User memory, and the registry that the process keeps outside of it. -/
structure UserSpace (U : Type) where
  user : U
  statics : Statics.Manager

/-- Where `RunLoop` is: at the condition of the inner loop, about to run user
code of a thread, or through. -/
inductive Control where
  | head (budget : Nat)
  | run (thread : ThreadId) (resumption : Resumption) (budget : Nat)
  | finished
  deriving DecidableEq, Repr

namespace Kernel

open Effect

variable {U : Type}

/-! ### Starting -/

def spawnMainThread : KernelM Unit := do
  let main ← createThread
  modifyThread main fun thread => { thread with main := true }
  query (.spawn main)

def startLoop : KernelM Unit := do
  let sim ← get
  verify (!sim.current) "Cannot run simulator from another simulator"
  modify fun sim => { sim with current := true }
  query .start
  spawnMainThread

/-! ### Deadlock -/

def isDeadlock : KernelM Bool := do
  let idle ← query .isIdle
  let sim ← get
  pure (idle && sim.timerQueue.isEmpty && !sim.alive.isEmpty)

def isParkedOrSuspended (t : ThreadId) : KernelM Bool := do
  let sim ← get
  if (sim.threads t).state = .parked then pure true
  else query (.isSuspended t)

def validateDeadlock : List ThreadId → KernelM Unit
  | [] => pure ()
  | t :: rest => do
      let blocked ← isParkedOrSuspended t
      verify blocked "Internal error"
      validateDeadlock rest

def blockedReport (t : ThreadId) (waiter : WaiterContext) : String :=
  let waiting := match waiter.waitingFor with
    | some other => s!", waiting for thread #{other}"
    | none => ""
  s!"Thread #{t} is blocked at {waiter.operation} ({waiter.sourceLoc.format}){waiting}\n"

def reportThreads : List ThreadId → KernelM Unit
  | [] => pure ()
  | t :: rest => do
      let sim ← get
      if (sim.threads t).state = .parked then do
        modifyThread t fun thread => { thread with state := .deadlocked }
        match (sim.threads t).waiter with
        | some waiter => writeStderr (blockedReport t waiter)
        | none => panic (.undefined "null waiter")
      else do
        -- After `validateDeadlock` the thread can only be suspended.
        match (sim.threads t).action with
        | some action => writeStderr s!"Thread #{t} is suspended before {action.operation} ({action.sourceLoc.format})\n"
        | none => panic (.undefined "null action")
      reportThreads rest

def reportDeadlock : KernelM Unit := do
  let sim ← get
  writeStderr s!"Deadlock detected: {sim.alive.length} threads\n"
  writeStderr s!"Scheduler loop iterations: {sim.iter}\n"
  if sim.lastCheckpoint ≠ 0 then
    writeStderr s!"Last checkpoint: iteration #{sim.lastCheckpoint}\n"
  writeStderr "\n"
  reportThreads sim.alive

def checkDeadlock : KernelM Unit := do
  let deadlock ← isDeadlock
  if deadlock then do
    let sim ← get
    validateDeadlock sim.alive
    reportDeadlock
    sysAbort .deadlock

/-! ### One iteration -/

def maintenance : KernelM Unit := do
  let sim ← get
  if !sim.timerQueue.isEmpty then
    let _ ← pollTimers
  -- There are no spurious wakeups yet, but the scheduler is asked.
  let _ ← isDeadlock

def advanceToNextDeadLine : KernelM Unit := do
  let sim ← get
  match sim.timerQueue.nextDeadLine with
  | some deadline => do
      let ticks ← checked (Time.advanceTo sim.params.tick deadline sim.ticks)
      modify fun sim => { sim with ticks }
  | none => panic (.assertion "Min on empty timer heap")

/-- Is there a reason to keep running? -/
def idle : KernelM Bool := do
  checkDeadlock
  let sim ← get
  if sim.timerQueue.isEmpty then pure false
  else do
    let progress ← pollTimers
    if progress then pure true
    else do
      advanceToNextDeadLine
      let _ ← pollTimers
      pure true

def feedDigest (d : UInt64) : KernelM Unit :=
  modify fun sim => { sim with digest := hashCombine sim.digest d }

def isDigestableLoad (type : ActionType) : Bool :=
  match type with
  | .atomicLoad | .atomicRmwLoad => true
  | _ => false

def completeSync (thread : ThreadId) : KernelM Unit := do
  let sim ← get
  match (sim.threads thread).action with
  | some action => do
      modifyThread thread fun thread => { thread with action := none }
      let load ← onMemory fun m => m.syncCall thread action
      if isDigestableLoad action.type && sim.digestAtomicLoads then
        feedDigest (UInt64.ofNat load)
      modifyThread thread fun thread => { thread with load }
  | none => pure ()

/-- The simulator's side of `Run`: the thread is about to run. -/
def switchTo (thread : ThreadId) : KernelM Unit :=
  modifyThread thread fun thread =>
    { thread with state := .running, runs := thread.runs + 1 }

/-- `Iter`, until user code runs. -/
def beginIter : KernelM ThreadId := do
  modify fun sim =>
    { sim with iter := sim.iter + 1, ticks := (sim.ticks + 1) % ticksSize }
  let sim ← get
  if sim.iter % 8 = 0 then maintenance
  let picked ← query .pickNext
  match picked with
  | .error why => prune why
  | .ok next => do
      feedDigest (UInt64.ofNat next)
      completeSync next
      switchTo next
      pure next

/-- `Iter` after the maintenance: the scheduler picks a thread, and it is switched to. -/
def runPicked : KernelM ThreadId := do
  let picked ← query .pickNext
  match picked with
  | .error why => prune why
  | .ok next => do
      feedDigest (UInt64.ofNat next)
      completeSync next
      switchTo next
      pure next

/-! ### The loop -/

/-- Between two runs of user code. -/
def stepHead (budget : Nat) : KernelM Control := do
  let isIdle ← query .isIdle
  if !isIdle && decide (0 < budget) then do
    let next ← beginIter
    let sim ← get
    let thread := sim.threads next
    pure (.run next (.answer (.resumed thread.status thread.load)) budget)
  else if 0 < budget then do
    let again ← idle
    pure (if again then .head budget else .finished)
  else pure .finished

/-- `HandleSystemCall`, and what `Iter` does with its result. -/
def stepSys (thread : ThreadId) (stat : HeapStat) (call : SysCall) (budget : Nat) :
    KernelM Control := do
  let answer ← handleSystemCall thread stat call
  match answer with
  | some answer => do
      switchTo thread
      pure (.run thread (.answer answer) budget)
  | none => pure (.head (budget - 1))

/-- One step of `RunLoop`. -/
def step (program : Program U) : Control → UserSpace U →
    KernelM (Control × UserSpace U)
  | .head budget, space => do
      let control ← stepHead budget
      pure (control, space)
  | .run thread resumption budget, space =>
      let (request, user) := program.resume thread resumption space.user
      match request with
      | .sys call => do
          let control ← stepSys thread (program.heapStat user) call budget
          pure (control, { space with user })
      | .statics op => do
          let (reply, statics) ← checked (Statics.exec space.statics op)
          pure (.run thread (.statics reply) budget, ⟨user, statics⟩)
  | .finished, space => pure (.finished, space)

/-! ### Ending a simulation -/

def resetMemoryModel (sim : Sim) : Sim :=
  { sim with
    memory := { Memory.empty with threadCount := sim.memory.threadCount }
    allocations := [] }

/-- `Burn`, without its result. -/
def burn (statics : Statics.Manager) : KernelM Statics.Manager := do
  let sim ← get
  if sim.params.isolation then do
    burnThreads sim.alive
    let sim ← get
    let queue ← checked sim.timerQueue.reset
    modify fun sim =>
      { resetMemoryModel sim with timerQueue := queue, current := false, done := true }
    pure statics.burnVars
  else panic (.unreachable "Scheduler::Burn not supported: set TWIST_SIM_ISOLATION=ON")

/-- A step of `RunLoop`; an abort burns the simulation and ends the loop. -/
def guardedStep (program : Program U) (control : Control) (space : UserSpace U) :
    KernelM (Control × UserSpace U) :=
  Effect.handle (step program control space) fun e =>
    match e with
    | .sysAbortEx => do
        let statics ← burn space.statics
        pure (.finished, { space with statics })
    | .panic p => panic p

/-- `fuel` steps at most; the result says where they end. -/
def steps (program : Program U) : Nat → Control → UserSpace U →
    KernelM (Control × UserSpace U)
  | 0, control, space => pure (control, space)
  | _ + 1, .finished, space => pure (.finished, space)
  | fuel + 1, control, space => do
      let (control, space) ← guardedStep program control space
      steps program fuel control space

/-- `RunLoop`: where it is after `fuel` steps. -/
def runLoop (program : Program U) (fuel budget : Nat) (space : UserSpace U) :
    KernelM (Control × UserSpace U) := do
  let sim ← get
  if sim.done then pure (.finished, space)
  else steps program fuel (.head budget) space

/-- The destructors of the wait queues. -/
def clearFutexes : List FutexKey → KernelM Unit
  | [] => pure ()
  | key :: rest => do
      let sim ← get
      let isEmpty ← match (sim.futex key).waiters with
        | some id => query (.queueIsEmpty id)
        | none => pure (sim.futex key).singleton.isNone
      verify isEmpty "Destroying non-empty wait queue"
      setFutex key ⟨none, none⟩
      clearFutexes rest

def stopLoop : KernelM Unit := do
  let isIdle ← query .isIdle
  verify isIdle "Broken scheduler"
  let sim ← get
  verify sim.timerQueue.isEmpty "Broken scheduler"
  modify fun sim => { resetMemoryModel sim with done := true }
  clearFutexes sim.futexKeys
  modify fun sim => { sim with futexKeys := [], current := false }

structure Result where
  status : Status
  stdOut : String
  stdErr : String
  threads : Nat
  iters : Nat
  digest : UInt64
  deriving DecidableEq

def result : KernelM Result := do
  let sim ← get
  match sim.status with
  | some status =>
      pure ⟨status, sim.stdout, sim.stderr, sim.memory.threadCount, sim.iter, sim.digest⟩
  | none => panic (.undefined "*status_ of an empty optional")

def unlimitedIterBudget : Nat := 2 ^ 64 - 1

/-- `Run`; the result is missing when the loop is still running after `fuel`
steps. -/
def run (program : Program U) (fuel : Nat) (space : UserSpace U) :
    KernelM (Option Result × UserSpace U) := do
  startLoop
  let (control, space) ← runLoop program fuel unlimitedIterBudget space
  match control with
  | .finished => do
      stopLoop
      let result ← result
      pure (some result, space)
  | _ => pure (none, space)

end Kernel

end TwistSim
