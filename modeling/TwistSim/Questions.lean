/-
What the simulator asks of its scheduler, and when: threads are taken away from it only
where the main thread ends or the simulation is burnt.
-/
import TwistSim.Turns

namespace TwistSim

open Effect

namespace Interaction

universe u v w

variable {Q : Type u} {R : Q → Type u} {α β : Type v}

theorem Asks.bind {C : Q → Prop} {t : Interaction Q R α} {f : α → Interaction Q R β}
    (h : t.Asks C) (hf : ∀ x, (f x).Asks C) : (t.bind f).Asks C := by
  induction t with
  | ret value => exact hf value
  | ask q next ih => exact ⟨h.1, fun r => ih r (h.2 r)⟩

/-- What the program asks at all it asks of this handler. -/
theorem Asks.along {C : Q → Prop} {t : Interaction Q R α} {σ ε : Type w}
    {handle : (q : Q) → σ → Except ε (R q × σ)} {s : σ} (h : t.Asks C) :
    t.Along handle (fun _ q => C q) s := by
  induction t generalizing s with
  | ret value => trivial
  | ask q next ih => exact ⟨h.1, fun r s' _ => ih r (h.2 r)⟩

theorem Asks.mono {C D : Q → Prop} (hCD : ∀ q, C q → D q) {t : Interaction Q R α}
    (h : t.Asks C) : t.Asks D := by
  induction t with
  | ret value => trivial
  | ask q next ih => exact ⟨hCD q h.1, fun r => ih r (h.2 r)⟩

/-- A handler that answers whatever a program can ask brings it to its end. -/
theorem Asks.answered {C : Q → Prop} {σ ε : Type w} {handle : (q : Q) → σ → Except ε (R q × σ)}
    (hanswers : ∀ q s, C q → ∃ r s', handle q s = .ok (r, s')) {t : Interaction Q R α}
    (h : t.Asks C) (s : σ) : ∃ x s', t.interp handle s = .ok (x, s') := by
  induction t generalizing s with
  | ret value => exact ⟨value, s, rfl⟩
  | ask q next ih =>
      obtain ⟨r, s₁, hreply⟩ := hanswers q s h.1
      obtain ⟨x, s', hrest⟩ := ih r (h.2 r) s₁
      refine ⟨x, s', ?_⟩
      rw [interp_ask, hreply]
      exact hrest

/-- The second part of a program goes on where the first one ends. -/
theorem Along.after {σ ε : Type w} {handle : (q : Q) → σ → Except ε (R q × σ)}
    {C : σ → Q → Prop} {t : Interaction Q R α} {f : α → Interaction Q R β} {s s' : σ} {x : α}
    (h : (t.bind f).Along handle C s) (hrun : t.interp handle s = .ok (x, s')) :
    (f x).Along handle C s' := by
  induction t generalizing s with
  | ret value =>
      cases hrun
      exact h
  | ask q next ih =>
      rw [interp_ask] at hrun
      cases hreply : handle q s with
      | error e =>
          rw [hreply] at hrun
          cases hrun
      | ok reply =>
          rw [hreply] at hrun
          exact ih reply.1 (h.2 reply.1 reply.2 hreply) hrun

theorem Along.bind {σ ε : Type w} {handle : (q : Q) → σ → Except ε (R q × σ)}
    {C : σ → Q → Prop} {t : Interaction Q R α} {f : α → Interaction Q R β} {s : σ}
    (h : t.Along handle C s)
    (hf : ∀ x s', t.interp handle s = .ok (x, s') → (f x).Along handle C s') :
    (t.bind f).Along handle C s := by
  induction t generalizing s with
  | ret value => exact hf value s rfl
  | ask q next ih =>
      refine ⟨h.1, fun r s' hr => ih r (h.2 r s' hr) fun x s₁ hrun => hf x s₁ ?_⟩
      rw [interp_ask, hr]
      exact hrun

/-- A handler that gives the same answers where the condition holds. -/
theorem Along.interp_congr {σ ε : Type w} {handle handle' : (q : Q) → σ → Except ε (R q × σ)}
    {C : σ → Q → Prop} (hsame : ∀ q s, C s q → handle' q s = handle q s)
    {t : Interaction Q R α} {s : σ} (h : t.Along handle C s) :
    t.interp handle' s = t.interp handle s := by
  induction t generalizing s with
  | ret value => rfl
  | ask q next ih =>
      rw [interp_ask, interp_ask, hsame q s h.1]
      cases hreply : handle q s with
      | error e => rfl
      | ok reply => exact ih reply.1 (h.2 reply.1 reply.2 hreply)

theorem Along.congr {σ ε : Type w} {handle handle' : (q : Q) → σ → Except ε (R q × σ)}
    {C D : σ → Q → Prop} (hsame : ∀ q s, C s q → handle' q s = handle q s)
    {t : Interaction Q R α} {s : σ} (h : t.Along handle C s) (h' : t.Along handle' D s) :
    t.Along handle D s := by
  induction t generalizing s with
  | ret value => trivial
  | ask q next ih =>
      refine ⟨h'.1, fun r s' hr => ih r (h.2 r s' hr) (h'.2 r s' ?_)⟩
      rw [hsame q s h.1]
      exact hr

theorem Along.and {σ ε : Type w} {handle : (q : Q) → σ → Except ε (R q × σ)}
    {C D : σ → Q → Prop} {t : Interaction Q R α} {s : σ} (hC : t.Along handle C s)
    (hD : t.Along handle D s) : t.Along handle (fun s q => C s q ∧ D s q) s := by
  induction t generalizing s with
  | ret value => trivial
  | ask q next ih => exact ⟨⟨hC.1, hD.1⟩, fun r s' hr => ih r (hC.2 r s' hr) (hD.2 r s' hr)⟩

end Interaction

/-- A question of a simulation that goes on.  A choice is between two alternatives at
least. -/
def Query.Moving : Query → Prop
  | .start | .remove _ => False
  | .randomChoice alts => 1 < alts
  | _ => True

/-- Such a question, but for the one for the next thread. -/
def Query.Steady : Query → Prop
  | .pickNext => False
  | q => q.Moving

/-- Such a question on behalf of a thread. -/
def Query.Serving : Query → Prop
  | .isSuspended _ => False
  | q => q.Steady

theorem Query.Steady.moving {q : Query} (h : q.Steady) : q.Moving := by
  cases q with
  | pickNext => exact absurd h id
  | _ => exact h

theorem Query.Serving.steady {q : Query} (h : q.Serving) : q.Steady := by
  cases q with
  | isSuspended t => exact absurd h id
  | _ => exact h

theorem Query.Serving.moving {q : Query} (h : q.Serving) : q.Moving := h.steady.moving

/-- A question about a thread that is burnt. -/
def Query.Burning : Query → Prop
  | .remove _ | .queueRemove _ _ => True
  | _ => False

/-- A question about a thread that ends, with all that it takes along. -/
def Query.Ending : Query → Prop
  | .exit _ => True
  | q => q.Burning

theorem Query.Burning.ending {q : Query} (h : q.Burning) : q.Ending := by
  cases q with
  | remove t => trivial
  | queueRemove q t => trivial
  | _ => exact absurd h id

namespace Kernel

variable {α β : Type} {A : Query → Prop}

/-- Whatever the answers are, the operation asks nothing else. -/
def Asks (A : Query → Prop) (m : KernelM α) : Prop :=
  ∀ sim, (m sim).Asks fun call => A call.2

theorem Asks.mono {B : Query → Prop} {m : KernelM α} (h : Asks A m) (hAB : ∀ q, A q → B q) :
    Asks B m :=
  fun sim => Interaction.Asks.mono (fun call : Call => hAB call.2) (h sim)

/-! ### Combinators -/

theorem asks_pure (x : α) : Asks A (pure x) := fun _ => trivial

theorem asks_modify (f : Sim → Sim) : Asks A (modify f) := fun _ => trivial

theorem asks_panic (p : Panic) : Asks A (panic p : KernelM α) := fun _ => trivial

theorem asks_query {q : Query} (hq : A q) : Asks A (query q) := fun _ => ⟨hq, fun _ => trivial⟩

theorem asks_bind {m : KernelM α} {f : α → KernelM β} (hm : Asks A m)
    (hf : ∀ x, Asks A (f x)) : Asks A (m >>= f) := by
  intro sim
  refine Interaction.Asks.bind (hm sim) fun r => ?_
  obtain ⟨x | e, sim'⟩ := r
  · trivial
  · exact hf e sim'

theorem asks_read {f : Sim → KernelM β} (hf : ∀ sim, Asks A (f sim)) : Asks A (get >>= f) :=
  fun sim => hf sim sim

theorem asks_verify (cond : Bool) (error : String) : Asks A (verify cond error) := by
  unfold verify
  split
  · exact asks_pure ()
  · exact asks_panic _

theorem asks_checked (x : Except Panic α) : Asks A (checked x) := by
  cases x with
  | ok value => exact asks_pure value
  | error p => exact asks_panic p

theorem asks_sysAbort (status : Status) : Asks A (sysAbort status : KernelM α) := by
  refine asks_read fun sim => ?_
  split
  · exact asks_bind (asks_modify _) fun _ _ => trivial
  · exact asks_panic _

theorem asks_abortIter (status : Status) (err : String) :
    Asks A (abortIter status err : KernelM α) :=
  asks_bind (asks_modify _) fun _ => asks_sysAbort status

theorem asks_onMemory (op : Memory → Except Stop (α × Memory)) : Asks A (onMemory op) := by
  refine asks_read fun sim => ?_
  split
  · exact asks_bind (asks_modify _) fun _ => asks_pure _
  · exact asks_abortIter _ _
  · exact asks_panic _

/-! ### Queues and timers -/

theorem asks_getFutex (key : FutexKey) : Asks A (getFutex key) :=
  asks_bind (asks_modify _) fun _ => asks_read fun _ => asks_pure _

theorem asks_waitQueuePush (key : FutexKey) (waiter : ThreadId) :
    Asks Query.Serving (waitQueuePush key waiter) := by
  refine asks_bind (asks_getFutex key) fun queue => ?_
  split
  · exact asks_query trivial
  · exact asks_modify _
  · exact asks_bind (asks_query trivial) fun id => asks_bind (asks_modify _) fun _ =>
      asks_bind (asks_query trivial) fun _ => asks_query trivial

theorem asks_waitQueuePop {key : FutexKey} {q : QueueId → KernelM (Option ThreadId)}
    (hq : ∀ id, Asks A (q id)) : Asks A (waitQueuePop key q) := by
  refine asks_bind (asks_getFutex key) fun queue => ?_
  split
  · exact hq _
  · exact asks_bind (asks_modify _) fun _ => asks_pure _

theorem asks_waitQueueRemove (hA : ∀ q t, A (.queueRemove q t)) (key : FutexKey)
    (waiter : ThreadId) : Asks A (waitQueueRemove key waiter) := by
  refine asks_read fun sim => ?_
  dsimp only
  split
  · exact asks_bind (asks_query (hA _ _)) fun _ => asks_verify _ _
  · exact asks_bind (asks_modify _) fun _ => asks_verify _ _

theorem asks_addTimer (t : ThreadId) (when : Int) (alarm : WakeType) :
    Asks A (addTimer t when alarm) :=
  asks_read fun _ => asks_bind (asks_checked _) fun _ => asks_modify _

theorem asks_removeTimer (t : ThreadId) : Asks A (removeTimer t) :=
  asks_read fun _ => asks_bind (asks_checked _) fun _ =>
    asks_bind (asks_modify _) fun _ => asks_pure _

theorem asks_cancelTimer (t : ThreadId) : Asks A (cancelTimer t) :=
  asks_bind (asks_removeTimer t) fun _ => asks_verify _ _

/-! ### Waking -/

theorem asks_scheduleWaiter (waiter : ThreadId) (status : CallStatus) :
    Asks Query.Serving (scheduleWaiter waiter status) :=
  asks_bind (asks_modify _) fun _ => asks_query trivial

theorem asks_wakeReason (waker : Option ThreadId) (waiter : ThreadId) (type : WakeType) :
    Asks Query.Serving (wakeReason waker waiter type) := by
  have hcancel : ∀ status : CallStatus, Asks Query.Serving (do
      let sim ← get
      if (sim.threads waiter).timer then cancelTimer waiter
      pure status : KernelM CallStatus) := by
    intro status
    refine asks_read fun sim => ?_
    dsimp only
    split
    · exact asks_bind (asks_cancelTimer waiter) fun _ => asks_pure status
    · exact asks_pure status
  have hremove := asks_waitQueueRemove (A := Query.Serving) fun _ _ => trivial
  cases type with
  | sleepTimer => exact asks_pure _
  | futexWake =>
      cases waker with
      | some waker =>
          exact asks_bind (asks_onMemory _) fun _ => hcancel .ok
      | none => exact asks_bind (asks_panic _) fun _ => hcancel .ok
  | futexTimer =>
      refine asks_read fun sim => ?_
      dsimp only
      split
      · exact asks_bind (hremove _ _) fun _ => asks_pure _
      · exact asks_bind (asks_panic _) fun _ => asks_pure _
  | spurious =>
      refine asks_read fun sim => ?_
      dsimp only
      split
      · exact asks_bind (hremove _ _) fun _ => hcancel .interrupted
      · exact hcancel .interrupted

theorem asks_wake (waker : Option ThreadId) (waiter : ThreadId) (type : WakeType) :
    Asks Query.Serving (wake waker waiter type) := by
  refine asks_read fun sim => ?_
  dsimp only
  split
  · exact asks_panic _
  · exact asks_bind (asks_wakeReason waker waiter type) fun _ =>
      asks_bind (asks_modify _) fun _ => asks_scheduleWaiter waiter _

theorem asks_pollTimersLoop (fuel : Nat) : Asks Query.Serving (pollTimersLoop fuel) := by
  induction fuel with
  | zero => exact asks_pure _
  | succ fuel ih =>
      refine asks_read fun sim => ?_
      split
      · exact asks_pure _
      · exact asks_bind (asks_modify _) fun _ => asks_bind (asks_wake _ _ _) fun _ =>
          asks_bind ih fun _ => asks_pure _

theorem asks_pollTimers : Asks Query.Serving pollTimers :=
  asks_read fun _ => asks_pollTimersLoop _

/-! ### System calls -/

theorem asks_createThread : Asks A createThread :=
  asks_read fun _ => asks_bind (asks_checked _) fun _ =>
    asks_bind (asks_modify _) fun _ => asks_pure _

theorem asks_sysSpawn (parent : ThreadId) : Asks Query.Serving (sysSpawn parent) :=
  asks_bind asks_createThread fun _ => asks_bind (asks_modify _) fun _ =>
    asks_bind (asks_onMemory _) fun _ => asks_bind (asks_query trivial) fun _ => asks_pure _

theorem asks_sysDetach (id : ThreadId) : Asks A (sysDetach id) := by
  refine asks_read fun sim => ?_
  split
  · exact asks_modify _
  · exact asks_pure ()

theorem asks_sysSleep (sleeper : ThreadId) (deadline : Int) : Asks A (sysSleep sleeper deadline) :=
  asks_bind (asks_addTimer _ _ _) fun _ => asks_modify _

theorem asks_sysAccessNonAtomicVar (thread : ThreadId) (access : Access) :
    Asks A (sysAccessNonAtomicVar thread access) := by
  refine asks_bind (asks_onMemory _) fun race => ?_
  split
  · exact asks_bind (asks_modify _) fun _ => asks_sysAbort _
  · exact asks_pure ()

theorem asks_park (waiter : ThreadId) (key : FutexKey) (deadline : Option Int)
    (ctx : WaiterContext) : Asks Query.Serving (park waiter key deadline ctx) := by
  refine asks_bind (asks_waitQueuePush key waiter) fun _ => ?_
  cases deadline with
  | some when => exact asks_bind (asks_addTimer _ _ _) fun _ => asks_modify _
  | none => exact asks_modify _

theorem asks_futexValue (loc : FutexLoc) : Asks A (futexValue loc) :=
  asks_read fun _ => asks_bind (asks_onMemory _) fun _ => asks_checked _

theorem asks_sysFutexWait (waiter : ThreadId) (loc : FutexLoc) (old : Nat)
    (deadline : Option Int) (ctx : WaiterContext) :
    Asks Query.Serving (sysFutexWait waiter loc old deadline ctx) := by
  have hspurious : Asks Query.Serving (spuriousWakeup ctx) := by
    unfold spuriousWakeup
    split
    · exact asks_query trivial
    · exact asks_pure _
  refine asks_bind hspurious fun spurious => ?_
  split
  · exact asks_scheduleWaiter _ _
  · refine asks_bind (asks_futexValue loc) fun value => ?_
    split
    · exact asks_scheduleWaiter _ _
    · exact asks_park _ _ _ _

theorem asks_wakeAll (waker : ThreadId) (key : FutexKey) (fuel : Nat) :
    Asks Query.Serving (wakeAll waker key fuel) := by
  induction fuel with
  | zero => exact asks_panic _
  | succ fuel ih =>
      refine asks_bind (asks_waitQueuePop fun _ => asks_query trivial) fun waiter => ?_
      split
      · exact asks_bind (asks_wake _ _ _) fun _ => ih
      · exact asks_pure ()

theorem asks_sysFutexWake (waker : ThreadId) (loc : FutexLoc) (count : Nat) :
    Asks Query.Serving (sysFutexWake waker loc count) := by
  unfold sysFutexWake
  split
  · refine asks_bind (asks_waitQueuePop fun _ => asks_query trivial) fun waiter => ?_
    split
    · exact asks_wake _ _ _
    · exact asks_pure ()
  · split
    · exact asks_wakeAll _ _ _
    · exact asks_panic _

theorem asks_sysWrite (fd : Int) (buf : String) : Asks A (sysWrite fd buf) := by
  unfold sysWrite
  split
  · exact asks_modify _
  · split
    · exact asks_modify _
    · exact asks_panic _

/-! ### The end of a thread -/

theorem asks_burnThread (t : ThreadId) : Asks Query.Burning (burnThread t) := by
  have hend : Asks Query.Burning (do
      modify fun sim => { sim with burntThreads := sim.burntThreads + 1 }
      destroyThread t : KernelM Unit) := asks_bind (asks_modify _) fun _ => asks_modify _
  refine asks_bind (asks_query trivial) fun _ => asks_read fun sim => ?_
  dsimp only
  split
  · refine asks_bind (asks_removeTimer t) fun _ => ?_
    split
    · exact asks_bind (asks_waitQueueRemove (fun _ _ => trivial) _ _) fun _ => hend
    · exact hend
  · split
    · exact asks_bind (asks_waitQueueRemove (fun _ _ => trivial) _ _) fun _ => hend
    · exact hend

theorem asks_burnThreads (threads : List ThreadId) :
    Asks Query.Burning (burnThreads threads) := by
  induction threads with
  | nil => exact asks_pure ()
  | cons t rest ih => exact asks_bind (asks_burnThread t) fun _ => ih

theorem asks_burn (statics : Statics.Manager) : Asks Query.Burning (burn statics) := by
  refine asks_read fun sim => ?_
  split
  · exact asks_bind (asks_burnThreads _) fun _ => asks_read fun _ =>
      asks_bind (asks_checked _) fun _ => asks_bind (asks_modify _) fun _ => asks_pure _
  · exact asks_panic _

theorem asks_mainCompleted (stat : HeapStat) : Asks Query.Burning (mainCompleted stat) := by
  have hcheck : Asks Query.Burning (checkMemory stat) := by
    refine asks_read fun sim => ?_
    split
    · exact asks_bind (asks_modify _) fun _ => asks_bind (asks_modify _) fun _ =>
        asks_sysAbort _
    · exact asks_pure ()
  have hend : Asks Query.Burning (do
      let sim ← get
      verify sim.alive.isEmpty "There are alive threads after main completion"
      checkMemory stat
      modify fun sim => { sim with status := some .ok } : KernelM Unit) :=
    asks_read fun _ => asks_bind (asks_verify _ _) fun _ =>
      asks_bind hcheck fun _ => asks_modify _
  refine asks_read fun sim => ?_
  dsimp only
  split
  · exact asks_bind (asks_read fun _ => asks_burnThreads _) fun _ => hend
  · exact hend

theorem asks_sysThreadExit (thread : ThreadId) (stat : HeapStat) :
    Asks Query.Ending (sysThreadExit thread stat) := by
  refine asks_bind (asks_query trivial) fun limit => ?_
  cases limit with
  | error why => exact asks_abortIter _ _
  | ok =>
      refine asks_read fun sim => asks_bind (asks_modify _) fun _ => ?_
      split
      · exact (asks_mainCompleted stat).mono fun _ => Query.Burning.ending
      · exact asks_pure ()

/-! ### A turn -/

theorem asks_handleSystemCall (me : ThreadId) (stat : HeapStat) {call : SysCall}
    (hcall : call ≠ .threadExit) : Asks Query.Serving (handleSystemCall me stat call) := by
  have hresume : ∀ v, Asks Query.Serving (resume me v) := fun v =>
    asks_bind (asks_modify _) fun _ => asks_pure _
  have hsuspend : Asks Query.Serving suspend := asks_pure _
  cases call with
  | noop => exact hresume 0
  | spawn => exact asks_bind (asks_sysSpawn me) fun id => hresume id
  | getId => exact asks_pure _
  | detach id => exact asks_bind (asks_sysDetach id) fun _ => hresume 0
  | yield => exact asks_bind (asks_query trivial) fun _ => hsuspend
  | switchTo target =>
      exact asks_bind (asks_read fun _ => asks_bind (asks_verify _ _) fun _ =>
        asks_query trivial) fun _ => hsuspend
  | sleepFor delay =>
      exact asks_read fun _ => asks_bind (asks_checked _) fun _ =>
        asks_bind (asks_sysSleep me _) fun _ => hsuspend
  | sleepUntil deadline => exact asks_bind (asks_sysSleep me _) fun _ => hsuspend
  | sync action =>
      exact asks_bind (asks_bind (asks_modify _) fun _ => asks_query trivial) fun _ => hsuspend
  | accessNonAtomicVar access =>
      exact asks_bind (asks_sysAccessNonAtomicVar me access) fun _ => hresume 0
  | futexWait loc old ctx =>
      exact asks_bind (asks_sysFutexWait me loc old none ctx) fun _ => hsuspend
  | futexWaitTimed loc old deadline ctx =>
      exact asks_bind (asks_sysFutexWait me loc old _ ctx) fun _ => hsuspend
  | futexWake loc count => exact asks_bind (asks_sysFutexWake me loc count) fun _ => hresume 0
  | malloc addr size scope => exact asks_bind (asks_modify _) fun _ => hresume 0
  | free addr => exact asks_bind (asks_modify _) fun _ => hresume 0
  | now => exact asks_read fun _ => asks_pure _
  | randomNumber => exact asks_bind (asks_query trivial) fun number => hresume _
  | randomChoice alts =>
      dsimp only [handleSystemCall]
      split
      · exact asks_panic _
      · split
        · exact asks_pure _
        · rename_i hzero hone
          refine asks_bind (asks_query ?_) fun index => hresume _
          exact Nat.lt_of_le_of_ne (Nat.pos_of_ne_zero hzero) (Ne.symm hone)
  | spuriousTryFailure => exact asks_bind (asks_query trivial) fun fail => hresume _
  | write fd buf => exact asks_bind (asks_sysWrite fd buf) fun _ => hresume 0
  | abort status => exact asks_sysAbort status
  | setThreadAttrPreemptive on =>
      exact asks_read fun _ => asks_bind (asks_modify _) fun _ => asks_pure _
  | setThreadAttrLockFree on =>
      exact asks_read fun _ => asks_bind (asks_modify _) fun _ =>
        asks_bind (asks_query trivial) fun _ => hresume _
  | schedHintProgress => exact asks_bind (asks_query trivial) fun _ => hresume 0
  | schedHintNewIter =>
      exact asks_bind (asks_modify _) fun _ => asks_bind (asks_query trivial) fun _ => hresume 0
  | isModelChecker => exact asks_bind (asks_query trivial) fun _ => asks_pure _
  | threadExit => exact absurd rfl hcall

theorem asks_isDeadlock (hA : A .isIdle) : Asks A isDeadlock :=
  asks_bind (asks_query hA) fun _ => asks_read fun _ => asks_pure _

theorem asks_validateDeadlock (hA : ∀ t, A (.isSuspended t)) (threads : List ThreadId) :
    Asks A (validateDeadlock threads) := by
  induction threads with
  | nil => exact asks_pure ()
  | cons t rest ih =>
      refine asks_bind (asks_read fun sim => ?_) fun blocked =>
        asks_bind (asks_verify _ _) fun _ => ih
      split
      · exact asks_pure _
      · exact asks_query (hA t)

theorem asks_reportThreads (threads : List ThreadId) : Asks A (reportThreads threads) := by
  induction threads with
  | nil => exact asks_pure ()
  | cons t rest ih =>
      refine asks_read fun sim => ?_
      dsimp only
      split
      · refine asks_bind (asks_modify _) fun _ => ?_
        split
        · exact asks_bind (asks_modify _) fun _ => ih
        · exact asks_bind (asks_panic _) fun _ => ih
      · split
        · exact asks_bind (asks_modify _) fun _ => ih
        · exact asks_bind (asks_panic _) fun _ => ih

theorem asks_reportDeadlock : Asks A reportDeadlock := by
  refine asks_read fun sim => asks_bind (asks_modify _) fun _ =>
    asks_bind (asks_modify _) fun _ => ?_
  dsimp only
  split
  · exact asks_bind (asks_modify _) fun _ => asks_bind (asks_modify _) fun _ =>
      asks_reportThreads _
  · exact asks_bind (asks_modify _) fun _ => asks_reportThreads _

theorem asks_checkDeadlock (hidle : A .isIdle) (hsuspended : ∀ t, A (.isSuspended t)) :
    Asks A checkDeadlock := by
  refine asks_bind (asks_isDeadlock hidle) fun deadlock => ?_
  split
  · exact asks_read fun _ => asks_bind (asks_validateDeadlock hsuspended _) fun _ =>
      asks_bind asks_reportDeadlock fun _ => asks_sysAbort _
  · exact asks_pure ()

theorem asks_maintenance : Asks Query.Steady maintenance := by
  have hpoll := asks_pollTimers.mono fun _ => Query.Serving.steady
  refine asks_read fun sim => ?_
  dsimp only
  split
  · exact asks_bind hpoll fun _ => asks_bind (asks_isDeadlock trivial) fun _ => asks_pure _
  · exact asks_bind (asks_isDeadlock trivial) fun _ => asks_pure _

theorem asks_idle : Asks Query.Steady idle := by
  have hpoll := asks_pollTimers.mono fun _ => Query.Serving.steady
  have hadvance : Asks Query.Steady advanceToNextDeadLine := by
    refine asks_read fun sim => ?_
    split
    · exact asks_bind (asks_checked _) fun _ => asks_modify _
    · exact asks_panic _
  refine asks_bind (asks_checkDeadlock trivial fun _ => trivial) fun _ => asks_read fun sim => ?_
  split
  · exact asks_pure _
  · refine asks_bind hpoll fun progress => ?_
    split
    · exact asks_pure _
    · exact asks_bind hadvance fun _ => asks_bind hpoll fun _ => asks_pure _

theorem asks_completeSync (thread : ThreadId) : Asks A (completeSync thread) := by
  refine asks_read fun sim => ?_
  split
  · refine asks_bind (asks_modify _) fun _ => asks_bind (asks_onMemory _) fun load => ?_
    dsimp only
    split
    · exact asks_bind (asks_modify _) fun _ => asks_modify _
    · exact asks_modify _
  · exact asks_pure ()

theorem asks_beginIter : Asks Query.Moving beginIter := by
  have hpick : Asks Query.Moving runPicked := by
    refine asks_bind (asks_query trivial) fun picked => ?_
    cases picked with
    | error why => exact asks_abortIter _ _
    | ok next =>
        exact asks_bind (asks_modify _) fun _ => asks_bind (asks_completeSync next) fun _ =>
          asks_bind (asks_modify _) fun _ => asks_pure _
  refine asks_bind (asks_modify _) fun _ => asks_read fun sim => ?_
  dsimp only
  split
  · exact asks_bind (asks_maintenance.mono fun _ => Query.Steady.moving) fun _ => hpick
  · exact hpick

theorem asks_stepHead (budget : Nat) : Asks Query.Moving (stepHead budget) := by
  refine asks_bind (asks_query trivial) fun isIdle => ?_
  split
  · exact asks_bind asks_beginIter fun _ => asks_read fun _ => asks_pure _
  · split
    · exact asks_bind (asks_idle.mono fun _ => Query.Steady.moving) fun _ => asks_pure _
    · exact asks_pure _

theorem asks_stepSys {thread : ThreadId} {stat : HeapStat} {call : SysCall} {budget : Nat}
    (h : Asks A (handleSystemCall thread stat call)) :
    Asks A (stepSys thread stat call budget) := by
  refine asks_bind h fun answer => ?_
  cases answer with
  | some answer => exact asks_bind (asks_modify _) fun _ => asks_pure _
  | none => exact asks_pure _

/-- `Start` asks the scheduler to start before everything else. -/
theorem startLoop_eq (params : Params) :
    startLoop (Sim.init params false) =
      .ask ((Sim.init params true).view, .start) fun _ =>
        spawnMainThread (Sim.init params true) := rfl

/-- The main thread is handed to the scheduler. -/
theorem asks_spawnMainThread : Asks (fun q => ∃ t, q = .spawn t) spawnMainThread :=
  asks_bind asks_createThread fun main => asks_bind (asks_modify _) fun _ =>
    asks_query ⟨main, rfl⟩

section Step

variable {U : Type} {program : Program U} {control : Control} {space : UserSpace U}

/-- The turn of a thread that does not end. -/
theorem asks_step_run {t : ThreadId} {resumption : Resumption} {budget : Nat}
    (h : (program.resume t resumption space.user).1 ≠ .sys .threadExit) :
    Asks Query.Serving (step program (.run t resumption budget) space) := by
  cases hresume : program.resume t resumption space.user with
  | mk request user =>
      rw [hresume] at h
      simp only [step, hresume]
      cases request with
      | sys call =>
          have hcall : call ≠ .threadExit := fun heq => h (heq ▸ rfl)
          exact asks_bind (asks_stepSys (asks_handleSystemCall t (program.heapStat user) hcall))
            fun _ => asks_pure _
      | statics op => exact asks_bind (asks_checked _) fun _ => asks_pure _

/-- A turn of a simulation in which no thread ends. -/
theorem asks_step (h : ∀ t resumption budget, control = .run t resumption budget →
      (program.resume t resumption space.user).1 ≠ .sys .threadExit) :
    Asks Query.Moving (step program control space) := by
  cases control with
  | head budget => exact asks_bind (asks_stepHead budget) fun _ => asks_pure _
  | run t resumption budget =>
      exact (asks_step_run (h t resumption budget rfl)).mono fun _ => Query.Serving.moving
  | finished => exact asks_pure _

/-- The turn in which a thread ends. -/
theorem asks_step_exit {t : ThreadId} {resumption : Resumption} {budget : Nat}
    (h : (program.resume t resumption space.user).1 = .sys .threadExit) :
    Asks Query.Ending (step program (.run t resumption budget) space) := by
  cases hresume : program.resume t resumption space.user with
  | mk request user =>
      rw [hresume] at h
      obtain rfl : request = .sys .threadExit := h
      simp only [step, hresume]
      exact asks_bind (asks_stepSys (asks_bind (asks_sysThreadExit t _) fun _ =>
        asks_pure _)) fun _ => asks_pure _

end Step

end Kernel

end TwistSim
