/-
How a simulation ends before its time: what has happened in a step that throws an abort.
-/
import TwistSim.Inversion

namespace TwistSim

open Effect
open Interaction (returns_bind interp_returns interp_bind)

namespace Effect

/-- A sequence that throws: one of its parts does. -/
theorem interp_bind_error {Q : Type} {R : Q → Type} {S E α β σ ε : Type}
    {h : (q : Q) → σ → Except ε (R q × σ)} {m : Effect Q R S E α} {f : α → Effect Q R S E β}
    {s s' : S} {a a' : σ} {e : E}
    (hrun : ((m >>= f) s).interp h a = .ok ((.error e, s'), a')) :
    (m s).interp h a = .ok ((.error e, s'), a') ∨
      ∃ x s₁ a₁, (m s).interp h a = .ok ((.ok x, s₁), a₁) ∧
        (f x s₁).interp h a₁ = .ok ((.error e, s'), a') := by
  rw [show (m >>= f) s = (m s).bind _ from rfl, interp_bind] at hrun
  cases hm : (m s).interp h a with
  | error e =>
      rw [hm] at hrun
      cases hrun
  | ok result =>
      rw [hm] at hrun
      obtain ⟨⟨x | x, s₁⟩, a₁⟩ := result
      · cases hrun
        exact Or.inl rfl
      · exact Or.inr ⟨x, s₁, a₁, rfl, hrun⟩

end Effect

/-- The simulation is about to end; nobody has died, and there is a status.  Without
isolation there would be no abort. -/
structure Sim.Halts (sim sim' : Sim) : Prop where
  crew : sim'.alive = sim.alive
  status : sim'.status ≠ none
  isolated : sim'.params.isolation = true

variable {U σ : Type}

namespace Kernel

variable {α β : Type} {S : IScheduler σ} {sim sim' : Sim} {s s' : σ}

/-! ### What never aborts -/

/-- Whatever the scheduler answers, the operation does not end the simulation. -/
def Unbroken (m : KernelM α) : Prop :=
  ∀ sim sim', ¬ (m sim).Returns (.error .sysAbortEx, sim')

theorem Unbroken.elim {m : KernelM α} (hm : Unbroken m)
    (h : (m sim).interp S.answer s = .ok ((.error .sysAbortEx, sim'), s')) : False :=
  hm sim sim' (interp_returns h)

theorem unbroken_pure (x : α) : Unbroken (pure x) := by
  rintro sim sim' ⟨⟩

theorem unbroken_modify (f : Sim → Sim) : Unbroken (modify f) := by
  rintro sim sim' ⟨⟩

theorem unbroken_panic (p : Panic) : Unbroken (panic p : KernelM α) := by
  rintro sim sim' ⟨⟩

theorem unbroken_query (q : Query) : Unbroken (query q) := by
  rintro sim sim' ⟨reply, ⟨⟩⟩

theorem unbroken_bind {m : KernelM α} {f : α → KernelM β} (hm : Unbroken m)
    (hf : ∀ x, Unbroken (f x)) : Unbroken (m >>= f) := by
  intro sim sim' h
  obtain ⟨⟨x | x, sim₁⟩, hfirst, hthen⟩ := returns_bind.mp h
  · obtain ⟨heq, rfl⟩ := Prod.mk.inj hthen
    cases heq
    exact hm sim sim' hfirst
  · exact hf x sim₁ sim' hthen

theorem unbroken_read {f : Sim → KernelM β} (hf : ∀ sim, Unbroken (f sim)) :
    Unbroken (get >>= f) :=
  fun sim sim' => hf sim sim sim'

theorem unbroken_verify (cond : Bool) (error : String) : Unbroken (verify cond error) := by
  unfold verify
  split
  · exact unbroken_pure ()
  · exact unbroken_panic _

theorem unbroken_checked (x : Except Panic α) : Unbroken (checked x) := by
  cases x with
  | ok value => exact unbroken_pure value
  | error p => exact unbroken_panic p

/-- An operation of the memory model that only fails by a panic. -/
theorem unbroken_onMemory {op : Memory → Except Stop (α × Memory)}
    (hop : ∀ m status err, op m ≠ .error (.abort status err)) : Unbroken (onMemory op) := by
  refine unbroken_read fun sim => ?_
  split
  · exact unbroken_bind (unbroken_modify _) fun _ => unbroken_pure _
  · rename_i status err heq
    exact absurd heq (hop _ status err)
  · exact unbroken_panic _

theorem tick_panics {m : Memory} {t : ThreadId} {status : Status} {err : String} :
    (m.tick t).map (fun m => ((), m)) ≠ .error (.abort status err) := by
  unfold Memory.tick
  split
  · rintro ⟨⟩
  · rintro ⟨⟩

theorem unbroken_getFutex (key : FutexKey) : Unbroken (getFutex key) :=
  unbroken_bind (unbroken_modify _) fun _ => unbroken_read fun _ => unbroken_pure _

theorem unbroken_waitQueuePush (key : FutexKey) (waiter : ThreadId) :
    Unbroken (waitQueuePush key waiter) := by
  refine unbroken_bind (unbroken_getFutex key) fun queue => ?_
  split
  · exact unbroken_query _
  · exact unbroken_modify _
  · exact unbroken_bind (unbroken_query _) fun _ => unbroken_bind (unbroken_modify _) fun _ =>
      unbroken_bind (unbroken_query _) fun _ => unbroken_query _

theorem unbroken_waitQueuePop {key : FutexKey} {q : QueueId → KernelM (Option ThreadId)}
    (hq : ∀ id, Unbroken (q id)) : Unbroken (waitQueuePop key q) := by
  refine unbroken_bind (unbroken_getFutex key) fun queue => ?_
  split
  · exact hq _
  · exact unbroken_bind (unbroken_modify _) fun _ => unbroken_pure _

theorem unbroken_waitQueueRemove (key : FutexKey) (waiter : ThreadId) :
    Unbroken (waitQueueRemove key waiter) := by
  refine unbroken_read fun sim => ?_
  dsimp only
  split
  · exact unbroken_bind (unbroken_query _) fun _ => unbroken_verify _ _
  · exact unbroken_bind (unbroken_modify _) fun _ => unbroken_verify _ _

theorem unbroken_addTimer (t : ThreadId) (when : Int) (alarm : WakeType) :
    Unbroken (addTimer t when alarm) :=
  unbroken_read fun _ => unbroken_bind (unbroken_checked _) fun _ => unbroken_modify _

theorem unbroken_removeTimer (t : ThreadId) : Unbroken (removeTimer t) :=
  unbroken_read fun _ => unbroken_bind (unbroken_checked _) fun _ =>
    unbroken_bind (unbroken_modify _) fun _ => unbroken_pure _

theorem unbroken_cancelTimer (t : ThreadId) : Unbroken (cancelTimer t) :=
  unbroken_bind (unbroken_removeTimer t) fun _ => unbroken_verify _ _

theorem unbroken_scheduleWaiter (waiter : ThreadId) (status : CallStatus) :
    Unbroken (scheduleWaiter waiter status) :=
  unbroken_bind (unbroken_modify _) fun _ => unbroken_query _

theorem unbroken_wakeReason (waker : Option ThreadId) (waiter : ThreadId) (type : WakeType) :
    Unbroken (wakeReason waker waiter type) := by
  have hcancel : ∀ status : CallStatus, Unbroken (do
      let sim ← get
      if (sim.threads waiter).timer then cancelTimer waiter
      pure status : KernelM CallStatus) := by
    intro status
    refine unbroken_read fun sim => ?_
    dsimp only
    split
    · exact unbroken_bind (unbroken_cancelTimer waiter) fun _ => unbroken_pure status
    · exact unbroken_pure status
  cases type with
  | sleepTimer => exact unbroken_pure _
  | futexWake =>
      cases waker with
      | some waker =>
          exact unbroken_bind (unbroken_onMemory fun _ _ _ => tick_panics) fun _ => hcancel _
      | none => exact unbroken_bind (unbroken_panic _) fun _ => hcancel _
  | futexTimer =>
      refine unbroken_read fun sim => ?_
      dsimp only
      split
      · exact unbroken_bind (unbroken_waitQueueRemove _ _) fun _ => unbroken_pure _
      · exact unbroken_bind (unbroken_panic _) fun _ => unbroken_pure _
  | spurious =>
      refine unbroken_read fun sim => ?_
      dsimp only
      split
      · exact unbroken_bind (unbroken_waitQueueRemove _ _) fun _ => hcancel _
      · exact hcancel _

theorem unbroken_wake (waker : Option ThreadId) (waiter : ThreadId) (type : WakeType) :
    Unbroken (wake waker waiter type) := by
  refine unbroken_read fun sim => ?_
  dsimp only
  split
  · exact unbroken_panic _
  · exact unbroken_bind (unbroken_wakeReason _ _ _) fun _ =>
      unbroken_bind (unbroken_modify _) fun _ => unbroken_scheduleWaiter _ _

theorem unbroken_pollTimersLoop (fuel : Nat) : Unbroken (pollTimersLoop fuel) := by
  induction fuel with
  | zero => exact unbroken_pure _
  | succ fuel ih =>
      refine unbroken_read fun sim => ?_
      split
      · exact unbroken_pure _
      · exact unbroken_bind (unbroken_modify _) fun _ =>
          unbroken_bind (unbroken_wake _ _ _) fun _ => unbroken_bind ih fun _ => unbroken_pure _

theorem unbroken_pollTimers : Unbroken pollTimers :=
  unbroken_read fun _ => unbroken_pollTimersLoop _

theorem unbroken_isDeadlock : Unbroken isDeadlock :=
  unbroken_bind (unbroken_query _) fun _ => unbroken_read fun _ => unbroken_pure _

theorem unbroken_maintenance : Unbroken maintenance := by
  have hquiet : Unbroken (isDeadlock >>= fun _ => pure ()) :=
    unbroken_bind unbroken_isDeadlock fun _ => unbroken_pure ()
  refine unbroken_read fun sim => ?_
  dsimp only
  split
  · exact unbroken_bind unbroken_pollTimers fun _ => hquiet
  · exact hquiet

theorem unbroken_advanceToNextDeadLine : Unbroken advanceToNextDeadLine := by
  refine unbroken_read fun sim => ?_
  split
  · exact unbroken_bind (unbroken_checked _) fun _ => unbroken_modify _
  · exact unbroken_panic _

theorem unbroken_sysSpawn (parent : ThreadId) : Unbroken (sysSpawn parent) :=
  unbroken_bind (unbroken_read fun _ => unbroken_bind (unbroken_checked _) fun _ =>
    unbroken_bind (unbroken_modify _) fun _ => unbroken_pure _) fun _ =>
    unbroken_bind (unbroken_modify _) fun _ =>
      unbroken_bind (unbroken_onMemory fun _ _ _ => tick_panics) fun _ =>
        unbroken_bind (unbroken_query _) fun _ => unbroken_pure _

theorem unbroken_sysDetach (id : ThreadId) : Unbroken (sysDetach id) := by
  refine unbroken_read fun sim => ?_
  split
  · exact unbroken_modify _
  · exact unbroken_pure ()

theorem unbroken_sysSleep (sleeper : ThreadId) (deadline : Int) :
    Unbroken (sysSleep sleeper deadline) :=
  unbroken_bind (unbroken_addTimer _ _ _) fun _ => unbroken_modify _

theorem unbroken_park (waiter : ThreadId) (key : FutexKey) (deadline : Option Int)
    (ctx : WaiterContext) : Unbroken (park waiter key deadline ctx) := by
  refine unbroken_bind (unbroken_waitQueuePush _ _) fun _ => ?_
  cases deadline with
  | some when => exact unbroken_bind (unbroken_addTimer _ _ _) fun _ => unbroken_modify _
  | none => exact unbroken_modify _

theorem unbroken_wakeAll (waker : ThreadId) (key : FutexKey) (fuel : Nat) :
    Unbroken (wakeAll waker key fuel) := by
  induction fuel with
  | zero => exact unbroken_panic _
  | succ fuel ih =>
      refine unbroken_bind (unbroken_waitQueuePop fun id => unbroken_query _) fun waiter => ?_
      split
      · exact unbroken_bind (unbroken_wake _ _ _) fun _ => ih
      · exact unbroken_pure ()

theorem unbroken_sysFutexWake (waker : ThreadId) (loc : FutexLoc) (count : Nat) :
    Unbroken (sysFutexWake waker loc count) := by
  unfold sysFutexWake
  split
  · refine unbroken_bind (unbroken_waitQueuePop fun id => unbroken_query _) fun waiter => ?_
    split
    · exact unbroken_wake _ _ _
    · exact unbroken_pure ()
  · split
    · exact unbroken_wakeAll _ _ _
    · exact unbroken_panic _

theorem unbroken_sysWrite (fd : Int) (buf : String) : Unbroken (sysWrite fd buf) := by
  unfold sysWrite
  split
  · exact unbroken_modify _
  · split
    · exact unbroken_modify _
    · exact unbroken_panic _

theorem unbroken_burnThread (t : ThreadId) : Unbroken (burnThread t) := by
  have hend : Unbroken (do
      modify fun sim => { sim with burntThreads := sim.burntThreads + 1 }
      destroyThread t : KernelM Unit) :=
    unbroken_bind (unbroken_modify _) fun _ => unbroken_modify _
  refine unbroken_bind (unbroken_query _) fun _ => unbroken_read fun sim => ?_
  dsimp only
  split
  · refine unbroken_bind (unbroken_removeTimer t) fun _ => ?_
    split
    · exact unbroken_bind (unbroken_waitQueueRemove _ _) fun _ => hend
    · exact hend
  · split
    · exact unbroken_bind (unbroken_waitQueueRemove _ _) fun _ => hend
    · exact hend

theorem unbroken_burnThreads (threads : List ThreadId) : Unbroken (burnThreads threads) := by
  induction threads with
  | nil => exact unbroken_pure ()
  | cons t rest ih => exact unbroken_bind (unbroken_burnThread t) fun _ => ih

theorem unbroken_resume (caller : ThreadId) (v : Int) : Unbroken (resume caller v) :=
  unbroken_bind (unbroken_modify _) fun _ => unbroken_pure _

/-! ### What an abort leaves -/

theorem sysAbort_throws {status : Status}
    (h : (sysAbort status sim : Scheduled (Except Thrown α × Sim)).interp S.answer s =
      .ok ((.error .sysAbortEx, sim'), s')) :
    sim' = { sim with status := some status } ∧ s' = s ∧ sim.params.isolation = true := by
  rcases interp_bind_error h with hget | ⟨_, _, _, ⟨⟩, hthen⟩
  · cases hget
  · split at hthen
    · rename_i hisolated
      rcases interp_bind_error hthen with hmodify | ⟨_, _, _, ⟨⟩, ⟨⟩⟩
      · cases hmodify
      · exact ⟨rfl, rfl, hisolated⟩
    · cases hthen

theorem abortIter_throws {status : Status} {err : String}
    (h : (abortIter status err sim : Scheduled (Except Thrown α × Sim)).interp S.answer s =
      .ok ((.error .sysAbortEx, sim'), s')) : sim.Halts sim' ∧ s' = s := by
  rcases interp_bind_error h with hwrite | ⟨_, _, _, ⟨⟩, hthen⟩
  · cases hwrite
  · obtain ⟨rfl, rfl, hisolated⟩ := sysAbort_throws hthen
    exact ⟨⟨rfl, nofun, hisolated⟩, rfl⟩

theorem onMemory_throws {op : Memory → Except Stop (α × Memory)}
    (h : (onMemory op sim).interp S.answer s = .ok ((.error .sysAbortEx, sim'), s')) :
    sim.Halts sim' ∧ s' = s := by
  rcases interp_bind_error h with hget | ⟨_, _, _, ⟨⟩, hthen⟩
  · cases hget
  · cases hop : op sim.memory with
    | ok result =>
        rw [hop] at hthen
        rcases interp_bind_error hthen with hmodify | ⟨_, _, _, ⟨⟩, ⟨⟩⟩
        cases hmodify
    | error stop =>
        rw [hop] at hthen
        cases stop with
        | abort status err => exact abortIter_throws hthen
        | panic p => cases hthen

/-- In a sequence the last part throws, if only it can. -/
theorem throws_last {m : KernelM α} {f : α → KernelM β} (hm : Unbroken m)
    (h : ((m >>= f) sim).interp S.answer s = .ok ((.error .sysAbortEx, sim'), s')) :
    ∃ x sim₁ s₁, (m sim).interp S.answer s = .ok ((.ok x, sim₁), s₁) ∧
      (f x sim₁).interp S.answer s₁ = .ok ((.error .sysAbortEx, sim'), s') :=
  (interp_bind_error h).resolve_left fun hfirst => hm.elim hfirst

/-- In a sequence the first part throws, if only it can. -/
theorem throws_first {m : KernelM α} {f : α → KernelM β} (hf : ∀ x, Unbroken (f x))
    (h : ((m >>= f) sim).interp S.answer s = .ok ((.error .sysAbortEx, sim'), s')) :
    (m sim).interp S.answer s = .ok ((.error .sysAbortEx, sim'), s') :=
  (interp_bind_error h).resolve_right fun ⟨_, _, _, _, hthen⟩ => (hf _).elim hthen

/-! ### Calls -/

theorem sysAccessNonAtomicVar_throws {thread : ThreadId} {access : Access}
    (h : (sysAccessNonAtomicVar thread access sim).interp S.answer s =
      .ok ((.error .sysAbortEx, sim'), s')) : sim.Halts sim' ∧ s' = s := by
  rcases interp_bind_error h with hmemory | ⟨race, sim₁, s₁, hmemory, hreport⟩
  · exact onMemory_throws hmemory
  · obtain ⟨memory, -, rfl, rfl⟩ := onMemory_ok hmemory
    cases race with
    | none => cases hreport
    | some race =>
        obtain ⟨_, _, _, ⟨⟩, habort⟩ := throws_last (unbroken_modify _) hreport
        obtain ⟨rfl, rfl, hisolated⟩ := sysAbort_throws habort
        exact ⟨⟨rfl, nofun, hisolated⟩, rfl⟩

theorem futexValue_throws {loc : FutexLoc}
    (h : (futexValue loc sim).interp S.answer s = .ok ((.error .sysAbortEx, sim'), s')) :
    sim.Halts sim' ∧ s' = s := by
  rcases interp_bind_error h with hget | ⟨_, _, _, ⟨⟩, hmemory⟩
  · cases hget
  · exact onMemory_throws (throws_first (fun _ => unbroken_checked _) hmemory)

theorem sysFutexWait_throws {waiter : ThreadId} {loc : FutexLoc} {old : Nat}
    {deadline : Option Int} {ctx : WaiterContext}
    (h : (sysFutexWait waiter loc old deadline ctx sim).interp S.answer s =
      .ok ((.error .sysAbortEx, sim'), s')) :
    sim.Halts sim' ∧ (s' = s ∨ ∃ r, S.answer (sim.view, .spuriousWakeup) s = .ok (r, s')) := by
  have hspurious : Unbroken (spuriousWakeup ctx) := by
    unfold spuriousWakeup
    split
    · exact unbroken_query _
    · exact unbroken_pure _
  obtain ⟨spurious, sim₁, s₁, hasked, hthen⟩ := throws_last hspurious h
  have hrest : ∀ value, Unbroken (if value ≠ old then scheduleWaiter waiter .ok
      else park waiter loc.futexKey deadline ctx) := by
    intro value
    split
    · exact unbroken_scheduleWaiter _ _
    · exact unbroken_park _ _ _ _
  split at hthen
  · exact ((unbroken_scheduleWaiter _ _).elim hthen).elim
  · obtain ⟨hhalts, rfl⟩ := futexValue_throws (throws_first hrest hthen)
    unfold spuriousWakeup at hasked
    split at hasked
    · obtain ⟨hanswer, rfl⟩ := query_ok hasked
      exact ⟨hhalts, Or.inr ⟨spurious, hanswer⟩⟩
    · cases hasked
      exact ⟨hhalts, Or.inl rfl⟩

/-- A call that ends the simulation while its thread is alive has asked the scheduler for a
spurious wakeup at most. -/
theorem handleSystemCall_throws {me : ThreadId} {stat : HeapStat} {call : SysCall}
    (hstays : call ≠ .threadExit)
    (h : (handleSystemCall me stat call sim).interp S.answer s =
      .ok ((.error .sysAbortEx, sim'), s')) :
    sim.Halts sim' ∧ (s' = s ∨ ∃ r, S.answer (sim.view, .spuriousWakeup) s = .ok (r, s')) := by
  have hresume : ∀ v, Unbroken (resume me v) := unbroken_resume me
  have hnever : Unbroken (handleSystemCall me stat call) →
      sim.Halts sim' ∧ (s' = s ∨ ∃ r, S.answer (sim.view, .spuriousWakeup) s = .ok (r, s')) :=
    fun hunbroken => (hunbroken.elim h).elim
  cases call with
  | noop => exact hnever (hresume 0)
  | spawn => exact hnever (unbroken_bind (unbroken_sysSpawn me) fun id => hresume id)
  | getId => exact hnever (unbroken_pure _)
  | detach id => exact hnever (unbroken_bind (unbroken_sysDetach id) fun _ => hresume 0)
  | yield => exact hnever (unbroken_bind (unbroken_query _) fun _ => unbroken_pure _)
  | switchTo target =>
      exact hnever (unbroken_bind (unbroken_read fun _ =>
        unbroken_bind (unbroken_verify _ _) fun _ => unbroken_query _) fun _ => unbroken_pure _)
  | sleepFor delay =>
      exact hnever (unbroken_read fun _ => unbroken_bind (unbroken_checked _) fun _ =>
        unbroken_bind (unbroken_sysSleep me _) fun _ => unbroken_pure _)
  | sleepUntil deadline =>
      exact hnever (unbroken_bind (unbroken_sysSleep me _) fun _ => unbroken_pure _)
  | sync action =>
      exact hnever (unbroken_bind (unbroken_bind (unbroken_modify _) fun _ =>
        unbroken_query _) fun _ => unbroken_pure _)
  | accessNonAtomicVar access =>
      obtain ⟨hhalts, heq⟩ := sysAccessNonAtomicVar_throws (throws_first (fun _ => hresume 0) h)
      exact ⟨hhalts, Or.inl heq⟩
  | futexWait loc old ctx =>
      exact sysFutexWait_throws (throws_first (fun _ => unbroken_pure _) h)
  | futexWaitTimed loc old deadline ctx =>
      exact sysFutexWait_throws (throws_first (fun _ => unbroken_pure _) h)
  | futexWake loc count =>
      exact hnever (unbroken_bind (unbroken_sysFutexWake me loc count) fun _ => hresume 0)
  | malloc addr size scope =>
      exact hnever (unbroken_bind (unbroken_modify _) fun _ => hresume 0)
  | free addr => exact hnever (unbroken_bind (unbroken_modify _) fun _ => hresume 0)
  | now => exact hnever (unbroken_read fun _ => unbroken_pure _)
  | randomNumber => exact hnever (unbroken_bind (unbroken_query _) fun _ => hresume _)
  | randomChoice alts =>
      refine hnever ?_
      dsimp only [handleSystemCall]
      split
      · exact unbroken_panic _
      · split
        · exact unbroken_pure _
        · exact unbroken_bind (unbroken_query _) fun _ => hresume _
  | spuriousTryFailure => exact hnever (unbroken_bind (unbroken_query _) fun _ => hresume _)
  | write fd buf => exact hnever (unbroken_bind (unbroken_sysWrite fd buf) fun _ => hresume 0)
  | abort status =>
      obtain ⟨rfl, rfl, hisolated⟩ := sysAbort_throws h
      exact ⟨⟨rfl, nofun, hisolated⟩, Or.inl rfl⟩
  | setThreadAttrPreemptive on =>
      exact hnever (unbroken_read fun _ => unbroken_bind (unbroken_modify _) fun _ =>
        unbroken_pure _)
  | setThreadAttrLockFree on =>
      exact hnever (unbroken_read fun _ => unbroken_bind (unbroken_modify _) fun _ =>
        unbroken_bind (unbroken_query _) fun _ => hresume _)
  | schedHintProgress => exact hnever (unbroken_bind (unbroken_query _) fun _ => hresume 0)
  | schedHintNewIter =>
      exact hnever (unbroken_bind (unbroken_modify _) fun _ =>
        unbroken_bind (unbroken_query _) fun _ => hresume 0)
  | isModelChecker => exact hnever (unbroken_bind (unbroken_query _) fun _ => unbroken_pure _)
  | threadExit => exact absurd rfl hstays

/-! ### Exit -/

/-- The threads that `BurnDetachedThreads` burns. -/
def detached (sim : Sim) : List ThreadId :=
  sim.alive.filter fun t => !(sim.threads t).main && (sim.threads t).parentId.isNone

/-- The end of the main thread, up to the check for leaks: nobody is left. -/
def Deserted (S : IScheduler σ) (sim : Sim) (s : σ) (sim' : Sim) (s' : σ) : Prop :=
  (sim' = sim ∧ s' = s ∨
      (burnThreads (detached sim) sim).interp S.answer s = .ok ((.ok (), sim'), s')) ∧
    sim'.alive = []

theorem verify_ok {cond : Bool} {error : String} {u : Unit}
    (h : (verify cond error sim).interp S.answer s = .ok ((.ok u, sim'), s')) :
    cond = true ∧ sim' = sim ∧ s' = s := by
  cases cond with
  | true =>
      cases h
      exact ⟨rfl, rfl, rfl⟩
  | false => cases h

theorem checkMemory_ok {stat : HeapStat} {u : Unit}
    (h : (checkMemory stat sim).interp S.answer s = .ok ((.ok u, sim'), s')) :
    sim' = sim ∧ s' = s := by
  obtain ⟨_, _, _, ⟨⟩, hcheck⟩ := interp_bind_ok h
  split at hcheck
  · obtain ⟨_, _, _, -, hcheck⟩ := interp_bind_ok hcheck
    obtain ⟨_, _, _, -, hcheck⟩ := interp_bind_ok hcheck
    exact (within_sysAbort (S := S) (R := fun _ _ => False) _ _ _ _ _ _ hcheck).elim
  · cases hcheck
    exact ⟨rfl, rfl⟩

theorem checkMemory_throws {stat : HeapStat}
    (h : (checkMemory stat sim).interp S.answer s = .ok ((.error .sysAbortEx, sim'), s')) :
    sim.Halts sim' ∧ s' = s := by
  rcases interp_bind_error h with hget | ⟨_, _, _, ⟨⟩, hcheck⟩
  · cases hget
  · split at hcheck
    · obtain ⟨_, _, _, ⟨⟩, hcheck⟩ := throws_last (unbroken_modify _) hcheck
      obtain ⟨_, _, _, ⟨⟩, habort⟩ := throws_last (unbroken_modify _) hcheck
      obtain ⟨rfl, rfl, hisolated⟩ := sysAbort_throws habort
      exact ⟨⟨rfl, nofun, hisolated⟩, rfl⟩
    · cases hcheck

/-- `MainCompleted` after the detached threads are burnt. -/
def mainEnds (stat : HeapStat) : KernelM Unit := do
  let sim ← get
  verify sim.alive.isEmpty "There are alive threads after main completion"
  checkMemory stat
  modify fun sim => { sim with status := some .ok }

theorem mainCompleted_eq (stat : HeapStat) :
    mainCompleted stat = (do
      let sim ← get
      if sim.params.isolation && sim.params.allowDetachedThreads then do
        burnDetachedThreads
        mainEnds stat
      else mainEnds stat) := rfl

theorem mainEnds_ok {stat : HeapStat} {u : Unit}
    (h : (mainEnds stat sim).interp S.answer s = .ok ((.ok u, sim'), s')) :
    sim.alive = [] ∧ sim' = { sim with status := some .ok } ∧ s' = s := by
  obtain ⟨_, _, _, ⟨⟩, h⟩ := interp_bind_ok h
  obtain ⟨_, _, _, hverify, hthen⟩ := interp_bind_ok h
  obtain ⟨hempty, rfl, rfl⟩ := verify_ok hverify
  obtain ⟨_, _, _, hcheck, ⟨⟩⟩ := interp_bind_ok hthen
  obtain ⟨rfl, rfl⟩ := checkMemory_ok hcheck
  exact ⟨List.isEmpty_iff.mp hempty, rfl, rfl⟩

theorem mainEnds_throws {stat : HeapStat}
    (h : (mainEnds stat sim).interp S.answer s = .ok ((.error .sysAbortEx, sim'), s')) :
    sim.alive = [] ∧ sim.Halts sim' ∧ s' = s := by
  rcases interp_bind_error h with hget | ⟨_, _, _, ⟨⟩, h⟩
  · cases hget
  · obtain ⟨_, _, _, hverify, hthen⟩ := throws_last (unbroken_verify _ _) h
    obtain ⟨hempty, rfl, rfl⟩ := verify_ok hverify
    obtain ⟨hhalts, rfl⟩ := checkMemory_throws (throws_first (fun _ => unbroken_modify _) hthen)
    exact ⟨List.isEmpty_iff.mp hempty, hhalts, rfl⟩

theorem mainCompleted_ok {stat : HeapStat} {u : Unit}
    (h : (mainCompleted stat sim).interp S.answer s = .ok ((.ok u, sim'), s')) :
    ∃ sim₁, Deserted S sim s sim₁ s' ∧ sim' = { sim₁ with status := some .ok } := by
  rw [mainCompleted_eq] at h
  obtain ⟨_, _, _, ⟨⟩, h⟩ := interp_bind_ok h
  split at h
  · obtain ⟨_, sim₁, s₁, hburn, hends⟩ := interp_bind_ok h
    obtain ⟨hempty, hsim, rfl⟩ := mainEnds_ok hends
    exact ⟨sim₁, ⟨Or.inr hburn, hempty⟩, hsim⟩
  · obtain ⟨hempty, hsim, rfl⟩ := mainEnds_ok h
    exact ⟨sim, ⟨Or.inl ⟨rfl, rfl⟩, hempty⟩, hsim⟩

theorem mainCompleted_throws {stat : HeapStat}
    (h : (mainCompleted stat sim).interp S.answer s = .ok ((.error .sysAbortEx, sim'), s')) :
    ∃ sim₁, Deserted S sim s sim₁ s' ∧ sim₁.Halts sim' := by
  rw [mainCompleted_eq] at h
  rcases interp_bind_error h with hget | ⟨_, _, _, ⟨⟩, h⟩
  · cases hget
  · split at h
    · have hburns : Unbroken burnDetachedThreads := unbroken_read fun _ => unbroken_burnThreads _
      obtain ⟨_, sim₁, s₁, hburn, hends⟩ := throws_last hburns h
      obtain ⟨hempty, hhalts, rfl⟩ := mainEnds_throws hends
      exact ⟨sim₁, ⟨Or.inr hburn, hempty⟩, hhalts⟩
    · obtain ⟨hempty, hhalts, rfl⟩ := mainEnds_throws h
      exact ⟨sim, ⟨Or.inl ⟨rfl, rfl⟩, hempty⟩, hhalts⟩

/-- The thread is gone. -/
def left (sim : Sim) (t : ThreadId) : Sim := { sim with alive := sim.alive.erase t }

/-- The ways in which a thread exits and the simulation goes on. -/
inductive Exited (S : IScheduler σ) (sim : Sim) (s : σ) (t : ThreadId) : Sim → σ → Prop where
  | child {s' : σ} (hexit : S.answer (sim.view, .exit t) s = .ok (.ok (), s'))
      (hmain : (sim.threads t).main = false) : Exited S sim s t (left sim t) s'
  | main {sim₁ : Sim} {s₁ s' : σ} (hexit : S.answer (sim.view, .exit t) s = .ok (.ok (), s₁))
      (hdeserted : Deserted S (left sim t) s₁ sim₁ s') :
      Exited S sim s t { sim₁ with status := some .ok } s'

theorem sysThreadExit_ok {t : ThreadId} {stat : HeapStat} {u : Unit}
    (h : (sysThreadExit t stat sim).interp S.answer s = .ok ((.ok u, sim'), s')) :
    Exited S sim s t sim' s' := by
  obtain ⟨limit, sim₁, s₁, hquery, h⟩ := interp_bind_ok h
  obtain ⟨hexit, rfl⟩ := query_ok hquery
  cases limit with
  | error why => exact (within_abortIter (S := S) (R := fun _ _ => False) _ _ _ _ _ _ _ h).elim
  | ok value =>
      obtain ⟨_, _, _, ⟨⟩, h⟩ := interp_bind_ok h
      obtain ⟨_, _, _, ⟨⟩, h⟩ := interp_bind_ok h
      split at h
      · obtain ⟨sim₂, hdeserted, rfl⟩ := mainCompleted_ok h
        exact Exited.main hexit hdeserted
      · rename_i hmain
        cases h
        exact Exited.child hexit (Bool.eq_false_of_not_eq_true hmain)

/-- An exit that ends the simulation. -/
theorem sysThreadExit_throws {t : ThreadId} {stat : HeapStat}
    (h : (sysThreadExit t stat sim).interp S.answer s =
      .ok ((.error .sysAbortEx, sim'), s')) :
    (∃ why, S.answer (sim.view, .exit t) s = .ok (.error why, s') ∧ sim.Halts sim') ∨
      ∃ s₁ sim₁, S.answer (sim.view, .exit t) s = .ok (.ok (), s₁) ∧
        Deserted S (left sim t) s₁ sim₁ s' ∧ sim₁.Halts sim' := by
  obtain ⟨limit, sim₁, s₁, hquery, hthen⟩ := throws_last (unbroken_query _) h
  obtain ⟨hexit, rfl⟩ := query_ok hquery
  cases limit with
  | error why =>
      obtain ⟨hhalts, rfl⟩ := abortIter_throws hthen
      exact Or.inl ⟨why, hexit, hhalts⟩
  | ok value =>
      rcases interp_bind_error hthen with hget | ⟨_, _, _, ⟨⟩, hthen⟩
      · cases hget
      · rcases interp_bind_error hthen with hleft | ⟨_, _, _, ⟨⟩, hthen⟩
        · cases hleft
        · split at hthen
          · obtain ⟨sim₂, hdeserted, hhalts⟩ := mainCompleted_throws hthen
            exact Or.inr ⟨s₁, sim₂, hexit, hdeserted, hhalts⟩
          · cases hthen

/-! ### The loop -/

theorem unbroken_validateDeadlock (threads : List ThreadId) :
    Unbroken (validateDeadlock threads) := by
  induction threads with
  | nil => exact unbroken_pure ()
  | cons t rest ih =>
      refine unbroken_bind (unbroken_read fun sim => ?_) fun blocked =>
        unbroken_bind (unbroken_verify _ _) fun _ => ih
      split
      · exact unbroken_pure _
      · exact unbroken_query _

theorem unbroken_reportThreads (threads : List ThreadId) : Unbroken (reportThreads threads) := by
  induction threads with
  | nil => exact unbroken_pure ()
  | cons t rest ih =>
      refine unbroken_read fun sim => ?_
      dsimp only
      split
      · refine unbroken_bind (unbroken_modify _) fun _ => ?_
        split
        · exact unbroken_bind (unbroken_modify _) fun _ => ih
        · exact unbroken_bind (unbroken_panic _) fun _ => ih
      · split
        · exact unbroken_bind (unbroken_modify _) fun _ => ih
        · exact unbroken_bind (unbroken_panic _) fun _ => ih

theorem unbroken_reportDeadlock : Unbroken reportDeadlock := by
  refine unbroken_read fun sim => unbroken_bind (unbroken_modify _) fun _ =>
    unbroken_bind (unbroken_modify _) fun _ => ?_
  dsimp only
  split
  · exact unbroken_bind (unbroken_modify _) fun _ => unbroken_bind (unbroken_modify _) fun _ =>
      unbroken_reportThreads _
  · exact unbroken_bind (unbroken_modify _) fun _ => unbroken_reportThreads _

theorem quiet_validateDeadlock {R : Sim × σ → Sim × σ → Prop}
    (hR : Allows S Sim.Quiet Query.Plain R) (threads : List ThreadId) :
    Within S R (validateDeadlock threads) := by
  induction threads with
  | nil => exact within_pure hR ()
  | cons t rest ih =>
      refine within_bind hR (within_read hR fun sim => ?_) fun blocked =>
        within_bind hR (within_verify hR _ _) fun _ => ih
      split
      · exact within_pure hR _
      · exact within_query hR rfl

theorem quiet_reportThreads {R : Sim × σ → Sim × σ → Prop}
    (hR : Allows S Sim.Quiet Query.Plain R) (threads : List ThreadId) :
    Within S R (reportThreads threads) := by
  induction threads with
  | nil => exact within_pure hR ()
  | cons t rest ih =>
      have hdeadlocked : Within S R (modifyThread t fun thread =>
          { thread with state := .deadlocked }) :=
        quiet_modifyThread hR t fun _ => ⟨rfl, rfl, rfl, rfl, rfl⟩
      refine within_read hR fun sim => ?_
      dsimp only
      split
      · refine within_bind hR hdeadlocked fun _ => ?_
        split
        · exact within_bind hR (quiet_writeStderr hR _) fun _ => ih
        · exact within_bind hR (within_panic _) fun _ => ih
      · split
        · exact within_bind hR (quiet_writeStderr hR _) fun _ => ih
        · exact within_bind hR (within_panic _) fun _ => ih

theorem quiet_reportDeadlock {R : Sim × σ → Sim × σ → Prop}
    (hR : Allows S Sim.Quiet Query.Plain R) : Within S R reportDeadlock := by
  have hwrite : ∀ text, Within S R (writeStderr text) := quiet_writeStderr hR
  refine within_read hR fun sim => within_bind hR (hwrite _) fun _ =>
    within_bind hR (hwrite _) fun _ => ?_
  dsimp only
  split
  · exact within_bind hR (hwrite _) fun _ => within_bind hR (hwrite _) fun _ =>
      quiet_reportThreads hR _
  · exact within_bind hR (hwrite _) fun _ => quiet_reportThreads hR _

theorem checkDeadlock_throws
    (h : (checkDeadlock sim).interp S.answer s = .ok ((.error .sysAbortEx, sim'), s')) :
    (∃ s₁, S.answer (sim.view, .isIdle) s = .ok (true, s₁)) ∧ sim.Halts sim' := by
  obtain ⟨deadlock, sim₁, s₁, hdeadlock, hthen⟩ := throws_last unbroken_isDeadlock h
  obtain ⟨idle, sim₂, s₂, hquery, hresult⟩ := interp_bind_ok hdeadlock
  obtain ⟨hidle, rfl⟩ := query_ok hquery
  obtain ⟨_, _, _, ⟨⟩, ⟨⟩⟩ := interp_bind_ok hresult
  split at hthen
  · rename_i hset
    simp only [Bool.and_eq_true] at hset
    obtain ⟨⟨rfl, -⟩, -⟩ := hset
    rcases interp_bind_error hthen with hget | ⟨_, _, _, ⟨⟩, hthen⟩
    · cases hget
    · obtain ⟨_, sim₃, s₃, hvalid, hthen⟩ := throws_last (unbroken_validateDeadlock _) hthen
      obtain ⟨_, sim₄, s₄, hreport, hthen⟩ := throws_last unbroken_reportDeadlock hthen
      obtain ⟨rfl, rfl, hisolated⟩ := sysAbort_throws hthen
      have hquiet := (quiet_validateDeadlock allows_quiet _ _ _ _ _ _ hvalid).trans
        (quiet_reportDeadlock allows_quiet _ _ _ _ _ hreport)
      exact ⟨⟨s₁, hidle⟩, hquiet.sameCrew.crew, nofun, hisolated⟩
  · cases hthen

theorem idle_throws
    (h : (idle sim).interp S.answer s = .ok ((.error .sysAbortEx, sim'), s')) :
    (checkDeadlock sim).interp S.answer s = .ok ((.error .sysAbortEx, sim'), s') := by
  refine throws_first (fun _ => unbroken_read fun sim => ?_) h
  split
  · exact unbroken_pure _
  · refine unbroken_bind unbroken_pollTimers fun progress => ?_
    split
    · exact unbroken_pure _
    · exact unbroken_bind unbroken_advanceToNextDeadLine fun _ =>
        unbroken_bind unbroken_pollTimers fun _ => unbroken_pure _

/-- An action that breaks off. -/
theorem completeSync_throws {thread : ThreadId}
    (h : (completeSync thread sim).interp S.answer s =
      .ok ((.error .sysAbortEx, sim'), s')) : sim.Halts sim' ∧ s' = s := by
  rcases interp_bind_error h with hget | ⟨sim, _, _, ⟨⟩, hthen⟩
  · cases hget
  · cases haction : (sim.threads thread).action with
    | none =>
        simp only [haction] at hthen
        cases hthen
    | some action =>
        simp only [haction] at hthen
        obtain ⟨_, _, _, ⟨⟩, hthen⟩ := throws_last (unbroken_modify _) hthen
        have hrest : ∀ load : Nat, Unbroken (if isDigestableLoad action.type &&
            sim.digestAtomicLoads then do
              feedDigest (UInt64.ofNat load)
              modifyThread thread fun thread => { thread with load }
            else modifyThread thread fun thread => { thread with load }) := by
          intro load
          split
          · exact unbroken_bind (unbroken_modify _) fun _ => unbroken_modify _
          · exact unbroken_modify _
        obtain ⟨hhalts, rfl⟩ := onMemory_throws (throws_first hrest hthen)
        exact ⟨⟨hhalts.crew, hhalts.status, hhalts.isolated⟩, rfl⟩

/-- How a simulation breaks off between two runs of user code. -/
inductive Breaks (S : IScheduler σ) (sim : Sim) (s : σ) : Sim → σ → Prop where
  | deadlock {sim' : Sim} {s₁ s' : σ} (hidle : S.answer (sim.view, .isIdle) s = .ok (true, s₁))
      (hcheck : (checkDeadlock sim).interp S.answer s₁ = .ok ((.error .sysAbortEx, sim'), s')) :
      Breaks S sim s sim' s'
  | picks {sim₁ sim' : Sim} {s₁ s₂ s' : σ} {picked : Except String ThreadId}
      (hidle : S.answer (sim.view, .isIdle) s = .ok (false, s₁))
      (hupkeep : (upkeep (nextIter sim) (nextIter sim)).interp S.answer s₁ =
        .ok ((.ok (), sim₁), s₂))
      (hpick : S.answer (sim₁.view, .pickNext) s₂ = .ok (picked, s'))
      (hhalts : sim₁.Halts sim') : Breaks S sim s sim' s'

/-- The thread that is picked does not run. -/
theorem runPicked_throws
    (h : (runPicked sim).interp S.answer s = .ok ((.error .sysAbortEx, sim'), s')) :
    (∃ picked, S.answer (sim.view, .pickNext) s = .ok (picked, s')) ∧ sim.Halts sim' := by
  obtain ⟨picked, sim₁, s₁, hquery, hthen⟩ := throws_last (unbroken_query _) h
  obtain ⟨hpick, rfl⟩ := query_ok hquery
  cases picked with
  | error why =>
      obtain ⟨hhalts, rfl⟩ := abortIter_throws hthen
      exact ⟨⟨_, hpick⟩, hhalts⟩
  | ok next =>
      obtain ⟨_, _, _, ⟨⟩, hthen⟩ := throws_last (unbroken_modify _) hthen
      have hrest : ∀ _ : Unit, Unbroken (switchTo next >>= fun _ => pure next) := fun _ =>
        unbroken_bind (unbroken_modify _) fun _ => unbroken_pure next
      obtain ⟨hhalts, rfl⟩ := completeSync_throws (throws_first hrest hthen)
      exact ⟨⟨_, hpick⟩, hhalts.crew, hhalts.status, hhalts.isolated⟩

theorem breaks_of_stepHead {budget : Nat}
    (h : (stepHead budget sim).interp S.answer s = .ok ((.error .sysAbortEx, sim'), s')) :
    Breaks S sim s sim' s' := by
  obtain ⟨isIdle, sim₁, s₁, hquery, hthen⟩ := throws_last (unbroken_query _) h
  obtain ⟨hidle, rfl⟩ := query_ok hquery
  split at hthen
  · rename_i hgo
    simp only [Bool.and_eq_true, Bool.not_eq_true'] at hgo
    obtain ⟨rfl, -⟩ := hgo
    have hiter := throws_first
      (fun next : ThreadId => unbroken_read fun sim => unbroken_pure _) hthen
    obtain ⟨_, _, _, ⟨⟩, hiter⟩ := throws_last (unbroken_modify _) hiter
    rcases interp_bind_error hiter with hget | ⟨_, _, _, ⟨⟩, hiter⟩
    · cases hget
    · split at hiter
      · rename_i hdue
        obtain ⟨_, sim₂, s₂, hmaintenance, hpicked⟩ := throws_last unbroken_maintenance hiter
        obtain ⟨⟨picked, hpick⟩, hhalts⟩ := runPicked_throws hpicked
        have hduty : upkeep (nextIter sim₁) = maintenance := if_pos hdue
        exact Breaks.picks hidle (hduty ▸ hmaintenance) hpick hhalts
      · rename_i hdue
        obtain ⟨⟨picked, hpick⟩, hhalts⟩ := runPicked_throws hiter
        have hduty : upkeep (nextIter sim₁) = pure () := if_neg hdue
        exact Breaks.picks hidle (hduty ▸ rfl) hpick hhalts
  · split at hthen
    · rename_i hstay hbudget
      have hidle' : isIdle = true := by
        simpa [hbudget] using hstay
      have hwaits := throws_first (fun again : Bool => unbroken_pure _) hthen
      exact Breaks.deadlock (hidle' ▸ hidle) (idle_throws hwaits)
    · cases hthen

theorem stepSys_throws {thread : ThreadId} {stat : HeapStat} {call : SysCall} {budget : Nat}
    (h : (stepSys thread stat call budget sim).interp S.answer s =
      .ok ((.error .sysAbortEx, sim'), s')) :
    (handleSystemCall thread stat call sim).interp S.answer s =
      .ok ((.error .sysAbortEx, sim'), s') := by
  refine throws_first (fun answer => ?_) h
  cases answer with
  | none => exact unbroken_pure _
  | some answer => exact unbroken_bind (unbroken_modify _) fun _ => unbroken_pure _

end Kernel

end TwistSim
