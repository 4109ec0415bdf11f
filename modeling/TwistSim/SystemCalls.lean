/-
The system calls of the simulator and their handlers.  A handler either resumes
the caller with an answer or leaves it to the scheduler, a futex or a timer.
-/
import TwistSim.Kernel
import Mathlib.Data.List.Sort

namespace TwistSim

/-- What user code can ask of the simulator. -/
inductive SysCall where
  | noop
  | spawn
  | getId
  | detach (id : ThreadId)
  | yield
  | switchTo (target : ThreadId)
  | sleepFor (delay : Int)
  | sleepUntil (deadline : Int)
  | sync (action : Action)
  | accessNonAtomicVar (access : Access)
  | futexWait (loc : FutexLoc) (old : Nat) (ctx : WaiterContext)
  | futexWaitTimed (loc : FutexLoc) (old : Nat) (deadline : Int)
      (ctx : WaiterContext)
  | futexWake (loc : FutexLoc) (count : Nat)
  | malloc (addr : Addr) (size : Nat) (scope : Option SourceLocation)
  | free (addr : Addr)
  | now
  | randomNumber
  | randomChoice (alts : Nat)
  | spuriousTryFailure
  | write (fd : Int) (buf : String)
  | abort (status : Status)
  | setThreadAttrPreemptive (on : Bool)
  | setThreadAttrLockFree (on : Bool)
  | schedHintProgress
  | schedHintNewIter
  | isModelChecker
  | threadExit
  deriving DecidableEq, Repr

/-- What a thread finds when it runs again: the status and the load of the call
that suspended it, or the result of a call that did not. -/
inductive Answer where
  | resumed (status : CallStatus) (load : Nat)
  | value (v : Int)
  deriving DecidableEq, Repr

/-- `HeapStat` of the user memory. -/
structure HeapStat where
  allocCount : Nat
  freeCount : Nat
  userBytesAllocated : Nat
  userBytesFreed : Nat
  deriving DecidableEq, Repr

/-- The difference of two `size_t`. -/
def sizeSub (a b : Nat) : Nat := (a + 2 ^ 64 - b) % 2 ^ 64

namespace Kernel

open Effect

def ofBool (b : Bool) : Int := if b then 1 else 0

/-! ### Threads -/

def sysSpawn (parent : ThreadId) : KernelM ThreadId := do
  let child ← createThread
  modifyThread child fun thread => { thread with parentId := some parent }
  onMemory' fun m => m.spawn parent child
  query (.spawn child)
  pure child

def sysDetach (id : ThreadId) : KernelM Unit := do
  let sim ← get
  if sim.alive.elem id then
    modifyThread id fun thread => { thread with parentId := none }

def sysSwitchTo (active next : ThreadId) : KernelM Unit := do
  let sim ← get
  verify (sim.threads active).attrs.preemptive
    "SwitchTo is not supported in non-preemptive mode"
  query (.switchTo active next)

def sysSleep (sleeper : ThreadId) (deadline : Int) : KernelM Unit := do
  addTimer sleeper deadline .sleepTimer
  modifyThread sleeper fun thread =>
    { thread with state := .sleeping, futex := none, timer := true, waiter := none }

/-! ### Memory -/

def sysSync (thread : ThreadId) (action : Action) : KernelM Unit := do
  modifyThread thread fun thread => { thread with action := some action }
  query (.interrupt thread)

def accessName (type : AccessType) : String :=
  if isRead type then "READ" else "WRITE"

def raceReport (thread : ThreadId) (access : Access) (race : OldAccess) : String :=
  s!"Data race detected on memory location {formatPtr access.loc}: \n" ++
  s!"- Current {accessName access.type} from thread #{thread} at {access.sourceLoc.format}\n" ++
  s!"- Previous {accessName race.type} from thread #{race.thread} at {race.sourceLoc.format}\n"

def sysAccessNonAtomicVar (thread : ThreadId) (access : Access) : KernelM Unit := do
  let race ← onMemory fun m => m.accessNonAtomicVar thread access
  match race with
  | some race => do
      writeStderr (raceReport thread access race)
      sysAbort .dataRace
  | none => pure ()

/-- `GetShadowAllocation` adds the address to the map. -/
def noteAllocation (addr : Addr) (allocations : List Addr) : List Addr :=
  if allocations.elem addr then allocations
  else allocations.orderedInsert (· ≤ ·) addr

def sysMalloc (thread : ThreadId) (addr : Addr) (size : Nat)
    (scope : Option SourceLocation) : KernelM Unit :=
  modify fun sim =>
    if sim.params.mallocHappensBefore then
      { sim with
        memory := sim.memory.malloc thread addr size scope
        allocations := noteAllocation addr sim.allocations }
    else sim

def sysFree (thread : ThreadId) (addr : Addr) : KernelM Unit :=
  modify fun sim =>
    if sim.params.mallocHappensBefore then
      { sim with
        memory := sim.memory.free thread addr
        allocations := noteAllocation addr sim.allocations }
    else sim

/-! ### Futexes -/

def vulnerableToSpuriousWakeup (waiter : WaiterContext) : Bool :=
  match waiter.type with
  | .futex | .atomic | .condVar | .mutexTryLock => true
  | _ => false

def spuriousWakeup (ctx : WaiterContext) : KernelM Bool :=
  if vulnerableToSpuriousWakeup ctx then query .spuriousWakeup else pure false

def futexValue (loc : FutexLoc) : KernelM Nat := do
  let sim ← get
  let atomic ← onMemory fun m =>
    (m.futexAtomic loc.atomic).map fun atomic => (atomic, sim.memory)
  checked (getFutexValue atomic atomic.lastStore.value loc)

def park (waiter : ThreadId) (key : FutexKey) (deadline : Option Int)
    (ctx : WaiterContext) : KernelM Unit := do
  waitQueuePush key waiter
  match deadline with
  | some when => addTimer waiter when .futexTimer
  | none => pure ()
  modifyThread waiter fun thread =>
    { thread with
      state := .parked
      futex := some key
      timer := deadline.isSome
      waiter := some ctx }

def sysFutexWait (waiter : ThreadId) (loc : FutexLoc) (old : Nat)
    (deadline : Option Int) (ctx : WaiterContext) : KernelM Unit := do
  let spurious ← spuriousWakeup ctx
  if spurious then scheduleWaiter waiter .interrupted
  else do
    let value ← futexValue loc
    if value ≠ old then scheduleWaiter waiter .ok
    else park waiter loc.futexKey deadline ctx

/-- Wake everything that `PopAll` hands out; a queue holds at most `maxThreads`
waiters. -/
def wakeAll (waker : ThreadId) (key : FutexKey) : Nat → KernelM Unit
  | 0 => panic (.undefined "more waiters than threads")
  | fuel + 1 => do
      let waiter ← waitQueuePop key fun id => query (.queuePopAll id)
      match waiter with
      | some waiter => do
          wake (some waker) waiter .futexWake
          wakeAll waker key fuel
      | none => pure ()

def sysFutexWake (waker : ThreadId) (loc : FutexLoc) (count : Nat) :
    KernelM Unit := do
  if count = 1 then do
    let waiter ← waitQueuePop loc.futexKey fun id => query (.queuePop id)
    match waiter with
    | some waiter => wake (some waker) waiter .futexWake
    | none => pure ()
  else if count = 0 then wakeAll waker loc.futexKey (maxThreads + 1)
  else panic (.unreachable s!"'count' value {count} not supported")

/-! ### Output -/

def sysWrite (fd : Int) (buf : String) : KernelM Unit :=
  if fd = 1 then modify fun sim => { sim with stdout := sim.stdout ++ buf }
  else if fd = 2 then writeStderr buf
  else panic (.unreachable s!"Cannot write to fd {fd}")

/-! ### Exit -/

def leakReport (sim : Sim) (addr : Addr) : String :=
  match sim.memory.allocs addr with
  | some alloc =>
      if alloc.alive then
        let context := match alloc.sourceLoc with
          | some loc => s!", context = {loc.format}"
          | none => ""
        s!"- address = {formatPtr addr}, size = {alloc.size}, thread = #{alloc.thread}{context}\n"
      else ""
  | none => ""

def checkMemory (stat : HeapStat) : KernelM Unit := do
  let sim ← get
  if sim.params.isolation && sim.burntThreads == 0 &&
      stat.allocCount != stat.freeCount then
    let bytesLeaked := sizeSub stat.userBytesAllocated stat.userBytesFreed
    let leakCount := sizeSub stat.allocCount stat.freeCount
    writeStderr s!"Memory leaks: {bytesLeaked} byte(s) leaked in {leakCount} allocation(s)\n"
    writeStderr (String.join (sim.allocations.map (leakReport sim)))
    sysAbort .memoryLeak

def burnDetachedThreads : KernelM Unit := do
  let sim ← get
  burnThreads (sim.alive.filter fun t =>
    !(sim.threads t).main && (sim.threads t).parentId.isNone)

def mainCompleted (stat : HeapStat) : KernelM Unit := do
  let sim ← get
  if sim.params.isolation && sim.params.allowDetachedThreads then
    burnDetachedThreads
  let sim ← get
  verify sim.alive.isEmpty "There are alive threads after main completion"
  checkMemory stat
  modify fun sim => { sim with status := some .ok }

def sysThreadExit (thread : ThreadId) (stat : HeapStat) : KernelM Unit := do
  let limit ← query (.exit thread)
  match limit with
  | .error why => prune why
  | .ok () => do
      let sim ← get
      let main := (sim.threads thread).main
      destroyThread thread
      if main then mainCompleted stat

/-! ### Dispatch -/

/-- The caller is resumed at once. -/
def resume (caller : ThreadId) (v : Int) : KernelM (Option Answer) := do
  modifyThread caller fun thread => { thread with status := .ok }
  pure (some (.value v))

/-- The caller is suspended. -/
def suspend : KernelM (Option Answer) := pure none

/-- A call that does not leave user space. -/
def inline (v : Int) : KernelM (Option Answer) := pure (some (.value v))

/-- `HandleSystemCall`; `stat` is what the user memory reports. -/
def handleSystemCall (me : ThreadId) (stat : HeapStat) :
    SysCall → KernelM (Option Answer)
  | .noop => resume me 0
  | .spawn => do
      let id ← sysSpawn me
      resume me id
  | .getId => inline me
  | .detach id => do
      sysDetach id
      resume me 0
  | .yield => do
      query (.yield me)
      suspend
  | .switchTo target => do
      sysSwitchTo me target
      suspend
  | .sleepFor delay => do
      let sim ← get
      let deadline ← checked (Time.after sim.params.tick delay sim.ticks)
      sysSleep me deadline
      suspend
  | .sleepUntil deadline => do
      sysSleep me deadline
      suspend
  | .sync action => do
      sysSync me action
      suspend
  | .accessNonAtomicVar access => do
      sysAccessNonAtomicVar me access
      resume me 0
  | .futexWait loc old ctx => do
      sysFutexWait me loc old none ctx
      suspend
  | .futexWaitTimed loc old deadline ctx => do
      sysFutexWait me loc old (some deadline) ctx
      suspend
  | .futexWake loc count => do
      sysFutexWake me loc count
      resume me 0
  | .malloc addr size scope => do
      sysMalloc me addr size scope
      resume me 0
  | .free addr => do
      sysFree me addr
      resume me 0
  | .now => do
      let sim ← get
      inline sim.now
  | .randomNumber => do
      let number ← query .randomNumber
      resume me (number : Nat)
  | .randomChoice alts =>
      if alts = 0 then panic (.assertion "alts == 0")
      else if alts = 1 then inline 0
      else do
        let index ← query (.randomChoice alts)
        resume me (index : Nat)
  | .spuriousTryFailure => do
      let fail ← query .spuriousTryFailure
      resume me (ofBool fail)
  | .write fd buf => do
      sysWrite fd buf
      resume me 0
  | .abort status => sysAbort status
  | .setThreadAttrPreemptive on => do
      let sim ← get
      let prev := (sim.threads me).attrs.preemptive
      modifyThread me fun thread =>
        { thread with attrs := { thread.attrs with preemptive := on } }
      inline (ofBool prev)
  | .setThreadAttrLockFree on => do
      let sim ← get
      let prev := (sim.threads me).attrs.lockFree
      modifyThread me fun thread =>
        { thread with attrs := { thread.attrs with lockFree := on } }
      query (.lockFree me on)
      resume me (ofBool prev)
  | .schedHintProgress => do
      query (.progress me)
      resume me 0
  | .schedHintNewIter => do
      modify fun sim => { sim with lastCheckpoint := sim.iter }
      query .newIter
      resume me 0
  | .isModelChecker => do
      let answer ← query .isModelChecker
      inline (ofBool answer)
  | .threadExit => do
      sysThreadExit me stat
      suspend

end Kernel

end TwistSim
