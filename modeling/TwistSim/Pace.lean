/-
Which iteration it is, and whether the simulation is done: only `Iter` counts the
iterations, and only `Burn` and `StopLoop` end a simulation.
-/
import TwistSim.RunLoop

namespace TwistSim

open Effect
open Interaction (returns_bind returns_ask)

namespace Kernel

variable {α β : Type} {U : Type}

def pace (sim : Sim) : Nat × Bool := (sim.iter, sim.done)

/-- Whatever the scheduler answers, it is still the same iteration of the same
simulation when the operation returns or throws. -/
def Stays (m : KernelM α) : Prop :=
  ∀ sim r sim', (m sim).Returns (r, sim') → pace sim' = pace sim

/-! ### Combinators -/

theorem stays_pure (x : α) : Stays (pure x) := by
  rintro sim r sim' ⟨⟩
  rfl

theorem stays_get : Stays get := by
  rintro sim r sim' ⟨⟩
  rfl

theorem stays_modify {f : Sim → Sim} (hf : ∀ sim, pace (f sim) = pace sim) :
    Stays (modify f) := by
  rintro sim r sim' ⟨⟩
  exact hf sim

theorem stays_raise (e : Thrown) : Stays (raise e : KernelM α) := by
  rintro sim r sim' ⟨⟩
  rfl

theorem stays_bind {m : KernelM α} {f : α → KernelM β} (hm : Stays m)
    (hf : ∀ x, Stays (f x)) : Stays (m >>= f) := by
  intro sim r sim' h
  obtain ⟨⟨x | x, sim₁⟩, hfirst, hthen⟩ := returns_bind.mp h
  · obtain ⟨rfl, rfl⟩ := Prod.mk.inj hthen
    exact hm sim (.error x) sim' hfirst
  · exact (hf x sim₁ r sim' hthen).trans (hm sim (.ok x) sim₁ hfirst)

theorem stays_query (q : Query) : Stays (query q) := by
  rintro sim r sim' ⟨reply, ⟨⟩⟩
  rfl

theorem stays_modifyThread (t : ThreadId) (f : Thread → Thread) :
    Stays (modifyThread t f) :=
  stays_modify fun _ => rfl

theorem stays_panic (p : Panic) : Stays (panic p : KernelM α) :=
  stays_raise _

theorem stays_verify (cond : Bool) (error : String) : Stays (verify cond error) := by
  unfold verify
  split
  · exact stays_pure ()
  · exact stays_panic _

theorem stays_checked (x : Except Panic α) : Stays (checked x) := by
  cases x with
  | ok value => exact stays_pure value
  | error p => exact stays_panic p

theorem stays_writeStderr (text : String) : Stays (writeStderr text) :=
  stays_modify fun _ => rfl

theorem stays_sysAbort (status : Status) : Stays (sysAbort status : KernelM α) := by
  refine stays_bind stays_get fun sim => ?_
  split
  · exact stays_bind (stays_modify fun _ => rfl) fun _ => stays_raise _
  · exact stays_panic _

theorem stays_abortIter (status : Status) (err : String) :
    Stays (abortIter status err : KernelM α) :=
  stays_bind (stays_writeStderr _) fun _ => stays_sysAbort status

theorem stays_prune (why : String) : Stays (prune why : KernelM α) :=
  stays_abortIter _ _

theorem stays_onMemory (op : Memory → Except Stop (α × Memory)) :
    Stays (onMemory op) := by
  refine stays_bind stays_get fun sim => ?_
  split
  · exact stays_bind (stays_modify fun _ => rfl) fun _ => stays_pure _
  · exact stays_abortIter _ _
  · exact stays_panic _

/-! ### Wait queues and timers -/

theorem stays_getFutex (key : FutexKey) : Stays (getFutex key) := by
  refine stays_bind (stays_modify fun sim => ?_) fun _ =>
    stays_bind stays_get fun _ => stays_pure _
  split
  · rfl
  · rfl

theorem stays_setFutex (key : FutexKey) (queue : WaitQueue) :
    Stays (setFutex key queue) :=
  stays_modify fun _ => rfl

theorem stays_waitQueuePush (key : FutexKey) (waiter : ThreadId) :
    Stays (waitQueuePush key waiter) := by
  refine stays_bind (stays_getFutex key) fun queue => ?_
  split
  · exact stays_query _
  · exact stays_setFutex _ _
  · refine stays_bind (stays_query _) fun id => ?_
    refine stays_bind (stays_setFutex _ _) fun _ => ?_
    exact stays_bind (stays_query _) fun _ => stays_query _

theorem stays_waitQueuePop {key : FutexKey}
    {q : QueueId → KernelM (Option ThreadId)} (hq : ∀ id, Stays (q id)) :
    Stays (waitQueuePop key q) := by
  refine stays_bind (stays_getFutex key) fun queue => ?_
  split
  · exact hq _
  · exact stays_bind (stays_setFutex _ _) fun _ => stays_pure _

theorem stays_waitQueueRemove (key : FutexKey) (waiter : ThreadId) :
    Stays (waitQueueRemove key waiter) := by
  refine stays_bind stays_get fun sim => ?_
  dsimp only
  split
  · exact stays_bind (stays_query _) fun _ => stays_verify _ _
  · exact stays_bind (stays_setFutex _ _) fun _ =>
      stays_bind (stays_pure _) fun _ => stays_verify _ _

theorem stays_addTimer (t : ThreadId) (when : Int) (alarm : WakeType) :
    Stays (addTimer t when alarm) :=
  stays_bind stays_get fun _ => stays_bind (stays_checked _) fun _ =>
    stays_modify fun _ => rfl

theorem stays_removeTimer (t : ThreadId) : Stays (removeTimer t) :=
  stays_bind stays_get fun _ => stays_bind (stays_checked _) fun _ =>
    stays_bind (stays_modify fun _ => rfl) fun _ => stays_pure _

theorem stays_cancelTimer (t : ThreadId) : Stays (cancelTimer t) :=
  stays_bind (stays_removeTimer t) fun _ => stays_verify _ _

/-! ### Waking threads -/

theorem stays_scheduleWaiter (waiter : ThreadId) (status : CallStatus) :
    Stays (scheduleWaiter waiter status) :=
  stays_bind (stays_modifyThread _ _) fun _ => stays_query _

theorem stays_wakeReason (waker : Option ThreadId) (waiter : ThreadId)
    (type : WakeType) : Stays (wakeReason waker waiter type) := by
  have hcancel : ∀ status, Stays (do
      let sim ← get
      if (sim.threads waiter).timer then cancelTimer waiter
      pure status : KernelM CallStatus) := by
    intro status
    refine stays_bind stays_get fun sim => ?_
    dsimp only
    split
    · exact stays_bind (stays_cancelTimer _) fun _ => stays_pure _
    · exact stays_pure _
  cases type with
  | sleepTimer => exact stays_pure _
  | futexWake =>
      cases waker with
      | some waker => exact stays_bind (stays_onMemory _) fun _ => hcancel _
      | none => exact stays_bind (stays_panic _) fun _ => hcancel _
  | futexTimer =>
      refine stays_bind stays_get fun sim => ?_
      dsimp only
      split
      · exact stays_bind (stays_waitQueueRemove _ _) fun _ => stays_pure _
      · exact stays_bind (stays_panic _) fun _ => stays_pure _
  | spurious =>
      refine stays_bind stays_get fun sim => ?_
      dsimp only
      split
      · exact stays_bind (stays_waitQueueRemove _ _) fun _ => hcancel _
      · exact hcancel _

theorem stays_wake (waker : Option ThreadId) (waiter : ThreadId) (type : WakeType) :
    Stays (wake waker waiter type) := by
  refine stays_bind stays_get fun sim => ?_
  dsimp only
  split
  · exact stays_panic _
  · refine stays_bind (stays_wakeReason _ _ _) fun status => ?_
    exact stays_bind (stays_modifyThread _ _) fun _ => stays_scheduleWaiter _ _

theorem stays_pollTimersLoop (fuel : Nat) : Stays (pollTimersLoop fuel) := by
  induction fuel with
  | zero => exact stays_pure _
  | succ fuel ih =>
      refine stays_bind stays_get fun sim => ?_
      split
      · exact stays_pure _
      · refine stays_bind (stays_modify fun _ => rfl) fun _ => ?_
        exact stays_bind (stays_wake _ _ _) fun _ => stays_bind ih fun _ => stays_pure _

theorem stays_pollTimers : Stays pollTimers :=
  stays_bind stays_get fun _ => stays_pollTimersLoop _

/-! ### Threads -/

theorem stays_createThread : Stays createThread :=
  stays_bind stays_get fun _ => stays_bind (stays_checked _) fun _ =>
    stays_bind (stays_modify fun _ => rfl) fun _ => stays_pure _

theorem stays_destroyThread (t : ThreadId) : Stays (destroyThread t) :=
  stays_modify fun _ => rfl

theorem stays_burnThread (t : ThreadId) : Stays (burnThread t) := by
  have hend : Stays (do
      modify fun sim => { sim with burntThreads := sim.burntThreads + 1 }
      destroyThread t : KernelM Unit) :=
    stays_bind (stays_modify fun _ => rfl) fun _ => stays_destroyThread t
  refine stays_bind (stays_query _) fun _ => stays_bind stays_get fun sim => ?_
  dsimp only
  split
  · refine stays_bind (stays_removeTimer t) fun _ => ?_
    split
    · exact stays_bind (stays_waitQueueRemove _ _) fun _ => hend
    · exact hend
  · split
    · exact stays_bind (stays_waitQueueRemove _ _) fun _ => hend
    · exact hend

theorem stays_burnThreads (threads : List ThreadId) : Stays (burnThreads threads) := by
  induction threads with
  | nil => exact stays_pure ()
  | cons t rest ih => exact stays_bind (stays_burnThread t) fun _ => ih

/-! ### The loop -/

theorem stays_isDeadlock : Stays isDeadlock :=
  stays_bind (stays_query _) fun _ => stays_bind stays_get fun _ => stays_pure _

theorem stays_validateDeadlock (threads : List ThreadId) :
    Stays (validateDeadlock threads) := by
  induction threads with
  | nil => exact stays_pure ()
  | cons t rest ih =>
      refine stays_bind (stays_bind stays_get fun sim => ?_) fun _ =>
        stays_bind (stays_verify _ _) fun _ => ih
      split
      · exact stays_pure _
      · exact stays_query _

theorem stays_reportThreads (threads : List ThreadId) :
    Stays (reportThreads threads) := by
  induction threads with
  | nil => exact stays_pure ()
  | cons t rest ih =>
      refine stays_bind stays_get fun sim => ?_
      split
      · refine stays_bind (stays_modifyThread _ _) fun _ => ?_
        split
        · exact stays_bind (stays_writeStderr _) fun _ => ih
        · exact stays_bind (stays_panic _) fun _ => ih
      · split
        · exact stays_bind (stays_writeStderr _) fun _ => ih
        · exact stays_bind (stays_panic _) fun _ => ih

theorem stays_reportDeadlock : Stays reportDeadlock := by
  refine stays_bind stays_get fun sim => ?_
  refine stays_bind (stays_writeStderr _) fun _ => ?_
  refine stays_bind (stays_writeStderr _) fun _ => ?_
  have hreport : Stays (do
      writeStderr "\n"
      reportThreads sim.alive : KernelM Unit) :=
    stays_bind (stays_writeStderr _) fun _ => stays_reportThreads _
  dsimp only
  split
  · exact stays_bind (stays_writeStderr _) fun _ => hreport
  · exact hreport

theorem stays_checkDeadlock : Stays checkDeadlock := by
  refine stays_bind stays_isDeadlock fun deadlock => ?_
  split
  · refine stays_bind stays_get fun sim => ?_
    refine stays_bind (stays_validateDeadlock _) fun _ => ?_
    exact stays_bind stays_reportDeadlock fun _ => stays_sysAbort _
  · exact stays_pure ()

theorem stays_maintenance : Stays maintenance := by
  have hquiet : Stays (do
      let _ ← isDeadlock
      pure () : KernelM Unit) :=
    stays_bind stays_isDeadlock fun _ => stays_pure ()
  refine stays_bind stays_get fun sim => ?_
  dsimp only
  split
  · exact stays_bind stays_pollTimers fun _ => hquiet
  · exact hquiet

theorem stays_advanceToNextDeadLine : Stays advanceToNextDeadLine := by
  refine stays_bind stays_get fun sim => ?_
  split
  · exact stays_bind (stays_checked _) fun _ => stays_modify fun _ => rfl
  · exact stays_panic _

theorem stays_idle : Stays idle := by
  refine stays_bind stays_checkDeadlock fun _ => stays_bind stays_get fun sim => ?_
  split
  · exact stays_pure _
  · refine stays_bind stays_pollTimers fun progress => ?_
    split
    · exact stays_pure _
    · exact stays_bind stays_advanceToNextDeadLine fun _ =>
        stays_bind stays_pollTimers fun _ => stays_pure _

theorem stays_feedDigest (d : UInt64) : Stays (feedDigest d) :=
  stays_modify fun _ => rfl

theorem stays_completeSync (thread : ThreadId) : Stays (completeSync thread) := by
  refine stays_bind stays_get fun sim => ?_
  split
  · refine stays_bind (stays_modifyThread _ _) fun _ => ?_
    refine stays_bind (stays_onMemory _) fun load => ?_
    dsimp only
    split
    · exact stays_bind (stays_feedDigest _) fun _ => stays_modifyThread _ _
    · exact stays_modifyThread _ _
  · exact stays_pure ()

theorem stays_switchTo (thread : ThreadId) : Stays (switchTo thread) :=
  stays_modifyThread _ _

/-! ### System calls -/

theorem stays_sysSpawn (parent : ThreadId) : Stays (sysSpawn parent) :=
  stays_bind stays_createThread fun _ => stays_bind (stays_modifyThread _ _) fun _ =>
    stays_bind (stays_onMemory _) fun _ => stays_bind (stays_query _) fun _ =>
      stays_pure _

theorem stays_sysDetach (id : ThreadId) : Stays (sysDetach id) := by
  refine stays_bind stays_get fun sim => ?_
  split
  · exact stays_modifyThread _ _
  · exact stays_pure ()

theorem stays_sysSwitchTo (active next : ThreadId) : Stays (sysSwitchTo active next) :=
  stays_bind stays_get fun _ => stays_bind (stays_verify _ _) fun _ => stays_query _

theorem stays_sysSleep (sleeper : ThreadId) (deadline : Int) :
    Stays (sysSleep sleeper deadline) :=
  stays_bind (stays_addTimer _ _ _) fun _ => stays_modifyThread _ _

theorem stays_sysSync (thread : ThreadId) (action : Action) :
    Stays (sysSync thread action) :=
  stays_bind (stays_modifyThread _ _) fun _ => stays_query _

theorem stays_sysAccessNonAtomicVar (thread : ThreadId) (access : Access) :
    Stays (sysAccessNonAtomicVar thread access) := by
  refine stays_bind (stays_onMemory _) fun race => ?_
  split
  · exact stays_bind (stays_writeStderr _) fun _ => stays_sysAbort _
  · exact stays_pure ()

theorem stays_sysMalloc (thread : ThreadId) (addr : Addr) (size : Nat)
    (scope : Option SourceLocation) : Stays (sysMalloc thread addr size scope) := by
  refine stays_modify fun sim => ?_
  split
  · rfl
  · rfl

theorem stays_sysFree (thread : ThreadId) (addr : Addr) : Stays (sysFree thread addr) := by
  refine stays_modify fun sim => ?_
  split
  · rfl
  · rfl

theorem stays_park (waiter : ThreadId) (key : FutexKey) (deadline : Option Int)
    (ctx : WaiterContext) : Stays (park waiter key deadline ctx) := by
  refine stays_bind (stays_waitQueuePush _ _) fun _ => ?_
  cases deadline with
  | some when =>
      exact stays_bind (stays_addTimer _ _ _) fun _ => stays_modifyThread _ _
  | none => exact stays_modifyThread _ _

theorem stays_sysFutexWait (waiter : ThreadId) (loc : FutexLoc) (old : Nat)
    (deadline : Option Int) (ctx : WaiterContext) :
    Stays (sysFutexWait waiter loc old deadline ctx) := by
  have hspurious : Stays (spuriousWakeup ctx) := by
    unfold spuriousWakeup
    split
    · exact stays_query _
    · exact stays_pure _
  have hvalue : Stays (futexValue loc) :=
    stays_bind stays_get fun _ => stays_bind (stays_onMemory _) fun _ => stays_checked _
  refine stays_bind hspurious fun spurious => ?_
  split
  · exact stays_scheduleWaiter _ _
  · refine stays_bind hvalue fun value => ?_
    split
    · exact stays_scheduleWaiter _ _
    · exact stays_park _ _ _ _

theorem stays_wakeAll (waker : ThreadId) (key : FutexKey) (fuel : Nat) :
    Stays (wakeAll waker key fuel) := by
  induction fuel with
  | zero => exact stays_panic _
  | succ fuel ih =>
      refine stays_bind (stays_waitQueuePop fun id => stays_query _) fun waiter => ?_
      split
      · exact stays_bind (stays_wake _ _ _) fun _ => ih
      · exact stays_pure ()

theorem stays_sysFutexWake (waker : ThreadId) (loc : FutexLoc) (count : Nat) :
    Stays (sysFutexWake waker loc count) := by
  unfold sysFutexWake
  split
  · refine stays_bind (stays_waitQueuePop fun id => stays_query _) fun waiter => ?_
    split
    · exact stays_wake _ _ _
    · exact stays_pure ()
  · split
    · exact stays_wakeAll _ _ _
    · exact stays_panic _

theorem stays_sysWrite (fd : Int) (buf : String) : Stays (sysWrite fd buf) := by
  unfold sysWrite
  split
  · exact stays_modify fun _ => rfl
  · split
    · exact stays_writeStderr _
    · exact stays_panic _

theorem stays_mainCompleted (stat : HeapStat) : Stays (mainCompleted stat) := by
  have hcheck : Stays (checkMemory stat) := by
    refine stays_bind stays_get fun sim => ?_
    split
    · refine stays_bind (stays_writeStderr _) fun _ => ?_
      exact stays_bind (stays_writeStderr _) fun _ => stays_sysAbort _
    · exact stays_pure ()
  have hend : Stays (do
      let sim ← get
      verify sim.alive.isEmpty "There are alive threads after main completion"
      checkMemory stat
      modify fun sim => { sim with status := some .ok } : KernelM Unit) :=
    stays_bind stays_get fun _ => stays_bind (stays_verify _ _) fun _ =>
      stays_bind hcheck fun _ => stays_modify fun _ => rfl
  have hburn : Stays burnDetachedThreads :=
    stays_bind stays_get fun _ => stays_burnThreads _
  refine stays_bind stays_get fun sim => ?_
  dsimp only
  split
  · exact stays_bind hburn fun _ => hend
  · exact hend

theorem stays_sysThreadExit (thread : ThreadId) (stat : HeapStat) :
    Stays (sysThreadExit thread stat) := by
  refine stays_bind (stays_query _) fun limit => ?_
  split
  · exact stays_prune _
  · refine stays_bind stays_get fun sim => ?_
    refine stays_bind (stays_destroyThread _) fun _ => ?_
    split
    · exact stays_mainCompleted _
    · exact stays_pure ()

theorem stays_resume (caller : ThreadId) (v : Int) : Stays (resume caller v) :=
  stays_bind (stays_modifyThread _ _) fun _ => stays_pure _

theorem stays_handleSystemCall (me : ThreadId) (stat : HeapStat) (call : SysCall) :
    Stays (handleSystemCall me stat call) := by
  have hsuspend : Stays suspend := stays_pure _
  cases call with
  | noop => exact stays_resume me 0
  | spawn => exact stays_bind (stays_sysSpawn me) fun id => stays_resume me id
  | getId => exact stays_pure _
  | detach id => exact stays_bind (stays_sysDetach id) fun _ => stays_resume me 0
  | yield => exact stays_bind (stays_query _) fun _ => hsuspend
  | switchTo target => exact stays_bind (stays_sysSwitchTo me target) fun _ => hsuspend
  | sleepFor delay =>
      exact stays_bind stays_get fun _ => stays_bind (stays_checked _) fun _ =>
        stays_bind (stays_sysSleep me _) fun _ => hsuspend
  | sleepUntil deadline => exact stays_bind (stays_sysSleep me _) fun _ => hsuspend
  | sync action => exact stays_bind (stays_sysSync me action) fun _ => hsuspend
  | accessNonAtomicVar access =>
      exact stays_bind (stays_sysAccessNonAtomicVar me access) fun _ => stays_resume me 0
  | futexWait loc old ctx =>
      exact stays_bind (stays_sysFutexWait me loc old none ctx) fun _ => hsuspend
  | futexWaitTimed loc old deadline ctx =>
      exact stays_bind (stays_sysFutexWait me loc old _ ctx) fun _ => hsuspend
  | futexWake loc count =>
      exact stays_bind (stays_sysFutexWake me loc count) fun _ => stays_resume me 0
  | malloc addr size scope =>
      exact stays_bind (stays_sysMalloc me addr size scope) fun _ => stays_resume me 0
  | free addr => exact stays_bind (stays_sysFree me addr) fun _ => stays_resume me 0
  | now => exact stays_bind stays_get fun _ => stays_pure _
  | randomNumber => exact stays_bind (stays_query _) fun number => stays_resume me _
  | randomChoice alts =>
      dsimp only [handleSystemCall]
      split
      · exact stays_panic _
      · split
        · exact stays_pure _
        · exact stays_bind (stays_query _) fun index => stays_resume me _
  | spuriousTryFailure => exact stays_bind (stays_query _) fun fail => stays_resume me _
  | write fd buf => exact stays_bind (stays_sysWrite fd buf) fun _ => stays_resume me 0
  | abort status => exact stays_sysAbort status
  | setThreadAttrPreemptive on =>
      exact stays_bind stays_get fun _ => stays_bind (stays_modifyThread _ _) fun _ =>
        stays_pure _
  | setThreadAttrLockFree on =>
      exact stays_bind stays_get fun _ => stays_bind (stays_modifyThread _ _) fun _ =>
        stays_bind (stays_query _) fun _ => stays_resume me _
  | schedHintProgress => exact stays_bind (stays_query _) fun _ => stays_resume me 0
  | schedHintNewIter =>
      exact stays_bind (stays_modify fun _ => rfl) fun _ =>
        stays_bind (stays_query _) fun _ => stays_resume me 0
  | isModelChecker => exact stays_bind (stays_query _) fun _ => stays_pure _
  | threadExit => exact stays_bind (stays_sysThreadExit me stat) fun _ => hsuspend

end Kernel

end TwistSim
