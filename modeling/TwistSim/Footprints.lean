/-
What the operations of the simulator leave alone.  Most of them only move threads
between the scheduler, the futexes and the timers; what user code sees of its threads and
of the atomics changes at a few named places.
-/
import TwistSim.Handlers

namespace TwistSim

open Effect
open Interaction (interp_bind)

/-- The same thread as far as user code can tell. -/
structure Thread.Alike (thread other : Thread) : Prop where
  parentId : other.parentId = thread.parentId
  main : other.main = thread.main
  attrs : other.attrs = thread.attrs
  action : other.action = thread.action
  load : other.load = thread.load

theorem Thread.Alike.refl (thread : Thread) : thread.Alike thread :=
  ⟨rfl, rfl, rfl, rfl, rfl⟩

theorem Thread.Alike.trans {x y z : Thread} (h : x.Alike y) (h' : y.Alike z) : x.Alike z where
  parentId := h'.parentId.trans h.parentId
  main := h'.main.trans h.main
  attrs := h'.attrs.trans h.attrs
  action := h'.action.trans h.action
  load := h'.load.trans h.load

namespace Sim

/-- Threads have only moved between the scheduler, the futexes and the timers. -/
structure Quiet (sim sim' : Sim) : Prop where
  threads : ∀ t, (sim.threads t).Alike (sim'.threads t)
  memory : sim'.memory = { sim.memory with sync := sim'.memory.sync }
  rest : sim' =
    { sim with
      threads := sim'.threads
      memory := sim'.memory
      futex := sim'.futex
      futexKeys := sim'.futexKeys
      timerQueue := sim'.timerQueue
      stderr := sim'.stderr }

/-- The atomics, and what user code has to do with them, are the same, and nobody is
born. -/
structure SameCells (sim sim' : Sim) : Prop where
  attrs : ∀ t, (sim'.threads t).attrs = (sim.threads t).attrs
  action : ∀ t, (sim'.threads t).action = (sim.threads t).action
  load : ∀ t, (sim'.threads t).load = (sim.threads t).load
  atomics : sim'.memory.atomics = sim.memory.atomics
  count : sim'.memory.threadCount = sim.memory.threadCount
  alive : ∀ t ∈ sim'.alive, t ∈ sim.alive

/-- Nobody has died either, the main thread is the same, and nothing is decided. -/
structure SameCrew (sim sim' : Sim) : Prop extends sim.SameCells sim' where
  crew : sim'.alive = sim.alive
  main : ∀ t, (sim'.threads t).main = (sim.threads t).main
  status : sim'.status = sim.status

variable {sim sim' sim'' : Sim}

theorem Quiet.refl (sim : Sim) : sim.Quiet sim :=
  ⟨fun _ => Thread.Alike.refl _, rfl, rfl⟩

theorem Quiet.eq {β : Type} (h : sim.Quiet sim') (f : Sim → β) :
    f sim' = f { sim with
      threads := sim'.threads
      memory := sim'.memory
      futex := sim'.futex
      futexKeys := sim'.futexKeys
      timerQueue := sim'.timerQueue
      stderr := sim'.stderr } :=
  congrArg f h.rest

theorem Quiet.trans (h : sim.Quiet sim') (h' : sim'.Quiet sim'') : sim.Quiet sim'' where
  threads t := (h.threads t).trans (h'.threads t)
  memory := by rw [h'.memory, h.memory]
  rest := by
    have hrest := h'.rest
    rw [h.rest] at hrest
    exact hrest

theorem Quiet.atomics (h : sim.Quiet sim') : sim'.memory.atomics = sim.memory.atomics := by
  rw [h.memory]

theorem Quiet.sameCells (h : sim.Quiet sim') : sim.SameCells sim' where
  attrs t := (h.threads t).attrs
  action t := (h.threads t).action
  load t := (h.threads t).load
  atomics := h.atomics
  count := by rw [h.memory]
  alive t ht := by rwa [h.eq Sim.alive] at ht

theorem sameCells_of_fields (hthreads : sim'.threads = sim.threads)
    (hatomics : sim'.memory.atomics = sim.memory.atomics)
    (hcount : sim'.memory.threadCount = sim.memory.threadCount)
    (halive : ∀ t ∈ sim'.alive, t ∈ sim.alive) : sim.SameCells sim' where
  attrs t := by rw [hthreads]
  action t := by rw [hthreads]
  load t := by rw [hthreads]
  atomics := hatomics
  count := hcount
  alive := halive

theorem SameCells.refl (sim : Sim) : sim.SameCells sim :=
  sameCells_of_fields rfl rfl rfl fun _ ht => ht

theorem SameCells.trans (h : sim.SameCells sim') (h' : sim'.SameCells sim'') :
    sim.SameCells sim'' where
  attrs t := (h'.attrs t).trans (h.attrs t)
  action t := (h'.action t).trans (h.action t)
  load t := (h'.load t).trans (h.load t)
  atomics := h'.atomics.trans h.atomics
  count := h'.count.trans h.count
  alive t ht := h.alive t (h'.alive t ht)

theorem Quiet.sameCrew (h : sim.Quiet sim') : sim.SameCrew sim' :=
  ⟨h.sameCells, h.eq Sim.alive, fun t => (h.threads t).main, h.eq Sim.status⟩

theorem sameCrew_of_fields (hthreads : sim'.threads = sim.threads)
    (hatomics : sim'.memory.atomics = sim.memory.atomics)
    (hcount : sim'.memory.threadCount = sim.memory.threadCount)
    (halive : sim'.alive = sim.alive) (hstatus : sim'.status = sim.status) :
    sim.SameCrew sim' :=
  ⟨sameCells_of_fields hthreads hatomics hcount fun _ ht => halive ▸ ht, halive,
    fun t => by rw [hthreads], hstatus⟩

theorem SameCrew.refl (sim : Sim) : sim.SameCrew sim :=
  sameCrew_of_fields rfl rfl rfl rfl rfl

theorem SameCrew.trans (h : sim.SameCrew sim') (h' : sim'.SameCrew sim'') :
    sim.SameCrew sim'' :=
  ⟨h.toSameCells.trans h'.toSameCells, h'.crew.trans h.crew,
    fun t => (h'.main t).trans (h.main t), h'.status.trans h.status⟩

theorem threads_setThread (sim : Sim) (t u : ThreadId) (thread : Thread) :
    (sim.setThread t thread).threads u = if u = t then thread else sim.threads u :=
  Function.update_apply _ _ _ _

theorem quiet_setThread {t : ThreadId} {thread : Thread}
    (h : (sim.threads t).Alike thread) : sim.Quiet (sim.setThread t thread) := by
  refine ⟨fun u => ?_, rfl, rfl⟩
  rw [threads_setThread]
  split
  · rename_i hu
    exact hu ▸ h
  · exact Thread.Alike.refl _

/-- The thread that is changed stays the same for user code. -/
theorem sameField_setThread {β : Type} {f : Thread → β} {t : ThreadId} {thread : Thread}
    (h : f thread = f (sim.threads t)) (u : ThreadId) :
    f ((sim.setThread t thread).threads u) = f (sim.threads u) := by
  rw [threads_setThread]
  split
  · rename_i hu
    rw [h, hu]
  · rfl

theorem sameCells_setThread {t : ThreadId} {thread : Thread}
    (hattrs : thread.attrs = (sim.threads t).attrs)
    (haction : thread.action = (sim.threads t).action)
    (hload : thread.load = (sim.threads t).load) : sim.SameCells (sim.setThread t thread) :=
  ⟨sameField_setThread hattrs, sameField_setThread haction, sameField_setThread hload,
    rfl, rfl, fun _ ht => ht⟩

theorem sameCrew_setThread {t : ThreadId} {thread : Thread}
    (hattrs : thread.attrs = (sim.threads t).attrs)
    (haction : thread.action = (sim.threads t).action)
    (hload : thread.load = (sim.threads t).load)
    (hmain : thread.main = (sim.threads t).main) : sim.SameCrew (sim.setThread t thread) :=
  ⟨sameCells_setThread hattrs haction hload, rfl, sameField_setThread hmain, rfl⟩

end Sim

open Sim (Quiet SameCells SameCrew)

/-- The scheduler is not asked to start, to pick a thread, or to do something to the
running one. -/
def Query.plain : Query → Bool
  | .start | .interrupt _ | .switchTo _ _ | .pickNext => false
  | _ => true

def Query.Plain (q : Query) : Prop := q.plain = true

namespace Kernel

variable {α β σ : Type} {S : IScheduler σ} {E : Sim → Sim → Prop}
  {A : Query → Prop} {R : Sim × σ → Sim × σ → Prop}

/-- If the operation returns, the simulator and the scheduler are related to what they
were before. -/
def Within (S : IScheduler σ) (R : Sim × σ → Sim × σ → Prop) (m : KernelM α) : Prop :=
  ∀ sim s x sim' s', (m sim).interp S.answer s = .ok ((.ok x, sim'), s') →
    R (sim, s) (sim', s')

/-- The relation allows certain edits of the simulator, and certain questions to the
scheduler. -/
structure Allows (S : IScheduler σ) (E : Sim → Sim → Prop) (A : Query → Prop)
    (R : Sim × σ → Sim × σ → Prop) : Prop where
  refl : ∀ p, R p p
  trans : ∀ {p p' p''}, R p p' → R p' p'' → R p p''
  edit : ∀ {sim sim'}, E sim sim' → ∀ s, R (sim, s) (sim', s)
  ask : ∀ {sim : Sim} {s : σ} {q : Query} {r : q.Reply} {s' : σ}, A q →
    S.answer (sim.view, q) s = .ok (r, s') → R (sim, s) (sim, s')

theorem Allows.mono {E' : Sim → Sim → Prop} (h : Allows S E A R)
    (himp : ∀ {sim sim'}, E' sim sim' → E sim sim') : Allows S E' A R :=
  ⟨h.refl, h.trans, fun hedit => h.edit (himp hedit), h.ask⟩

theorem Allows.crew (h : Allows S SameCells A R) : Allows S SameCrew A R :=
  h.mono SameCrew.toSameCells

theorem Allows.quiet (h : Allows S SameCrew A R) : Allows S Quiet A R :=
  h.mono Quiet.sameCrew

/-- What relates the simulators only does not depend on the scheduler. -/
theorem allows_of_sim (hrefl : ∀ sim, E sim sim)
    (htrans : ∀ {sim sim' sim''}, E sim sim' → E sim' sim'' → E sim sim'') :
    Allows S E A fun p p' => E p.1 p'.1 where
  refl _ := hrefl _
  trans := htrans
  edit hedit _ := hedit
  ask _ _ := hrefl _

theorem allows_quiet : Allows S Quiet A fun p p' => p.1.Quiet p'.1 :=
  allows_of_sim Quiet.refl Quiet.trans

theorem allows_sameCells : Allows S SameCells A fun p p' => p.1.SameCells p'.1 :=
  allows_of_sim SameCells.refl SameCells.trans

theorem allows_sameCrew : Allows S SameCrew A fun p p' => p.1.SameCrew p'.1 :=
  allows_of_sim SameCrew.refl SameCrew.trans

/-! ### Combinators -/

theorem within_raise (e : Thrown) : Within S R (raise e : KernelM α) := by
  rintro sim s x sim' s' ⟨⟩

theorem within_panic (p : Panic) : Within S R (panic p : KernelM α) := within_raise _

theorem within_sysAbort (status : Status) : Within S R (sysAbort status : KernelM α) := by
  intro sim s x sim' s' h
  obtain ⟨sim₀, sim₁, s₁, ⟨⟩, hthen⟩ := interp_bind_ok h
  split at hthen
  · obtain ⟨_, _, _, ⟨⟩, hraise⟩ := interp_bind_ok hthen
    cases hraise
  · cases hthen

theorem within_of_last {m : KernelM α} {f : α → KernelM β}
    (hf : ∀ x, Within S (fun _ _ => False) (f x)) : Within S R (m >>= f) := by
  intro sim s y sim' s' h
  obtain ⟨x, sim₁, s₁, -, hthen⟩ := interp_bind_ok h
  exact (hf x sim₁ s₁ y sim' s' hthen).elim

theorem within_abortIter (status : Status) (err : String) :
    Within S R (abortIter status err : KernelM α) :=
  within_of_last fun _ => within_sysAbort status

theorem within_modify {f : Sim → Sim} (hR : Allows S E A R) (hf : ∀ sim, E sim (f sim)) :
    Within S R (modify f) := by
  rintro sim s y sim' s' ⟨⟩
  exact hR.edit (hf sim) s

theorem within_modifyThread {t : ThreadId} {f : Thread → Thread} (hR : Allows S E A R)
    (hf : ∀ sim, E sim (sim.setThread t (f (sim.threads t)))) :
    Within S R (modifyThread t f) :=
  within_modify hR hf

theorem onMemory_ok {op : Memory → Except Stop (α × Memory)} {sim sim' : Sim} {s s' : σ}
    {x : α} (h : (onMemory op sim).interp S.answer s = .ok ((.ok x, sim'), s')) :
    ∃ memory, op sim.memory = .ok (x, memory) ∧ sim' = { sim with memory } ∧ s' = s := by
  obtain ⟨_, _, _, ⟨⟩, hthen⟩ := interp_bind_ok h
  cases hop : op sim.memory with
  | ok result =>
      obtain ⟨value, memory⟩ := result
      rw [hop] at hthen
      obtain ⟨_, _, _, ⟨⟩, ⟨⟩⟩ := interp_bind_ok hthen
      exact ⟨memory, rfl, rfl, rfl⟩
  | error stop =>
      rw [hop] at hthen
      cases stop with
      | abort status err =>
          exact (within_abortIter (S := S) (R := fun _ _ => False) status err _ _ _ _ _
            hthen).elim
      | panic p => cases hthen

theorem within_onMemory {op : Memory → Except Stop (α × Memory)} (hR : Allows S E A R)
    (hop : ∀ sim x memory, op sim.memory = .ok (x, memory) → E sim { sim with memory }) :
    Within S R (onMemory op) := by
  intro sim s x sim' s' h
  obtain ⟨memory, hresult, rfl, rfl⟩ := onMemory_ok h
  exact hR.edit (hop sim x memory hresult) s'

theorem query_ok {q : Query} {r : q.Reply} {sim sim' : Sim} {s s' : σ}
    (h : (query q sim).interp S.answer s = .ok ((.ok r, sim'), s')) :
    S.answer (sim.view, q) s = .ok (r, s') ∧ sim' = sim := by
  obtain ⟨_, _, _, ⟨⟩, h⟩ := interp_bind_ok h
  rw [ask, Interaction.interp_ask] at h
  cases hanswer : S.answer (sim.view, q) s with
  | error p =>
      rw [hanswer] at h
      cases h
  | ok result =>
      rw [hanswer] at h
      cases h
      exact ⟨rfl, rfl⟩

theorem within_query {q : Query} (hR : Allows S E A R) (hq : A q) : Within S R (query q) := by
  intro sim s r sim' s' h
  obtain ⟨hanswer, rfl⟩ := query_ok h
  exact hR.ask hq hanswer

section Combinators

variable (hR : Allows S E A R)

include hR

theorem within_pure (x : α) : Within S R (pure x) := by
  rintro sim s y sim' s' ⟨⟩
  exact hR.refl _

theorem within_get : Within S R get := by
  rintro sim s y sim' s' ⟨⟩
  exact hR.refl _

theorem within_bind {m : KernelM α} {f : α → KernelM β} (hm : Within S R m)
    (hf : ∀ x, Within S R (f x)) : Within S R (m >>= f) := by
  intro sim s y sim' s' h
  obtain ⟨x, sim₁, s₁, hfirst, hthen⟩ := interp_bind_ok h
  exact hR.trans (hm sim s x sim₁ s₁ hfirst) (hf x sim₁ s₁ y sim' s' hthen)

theorem within_read {f : Sim → KernelM β} (hf : ∀ sim, Within S R (f sim)) :
    Within S R (get >>= f) :=
  within_bind hR (within_get hR) hf

theorem within_verify (cond : Bool) (error : String) : Within S R (verify cond error) := by
  unfold verify
  split
  · exact within_pure hR ()
  · exact within_panic _

theorem within_checked (x : Except Panic α) : Within S R (checked x) := by
  cases x with
  | ok value => exact within_pure hR value
  | error p => exact within_panic p

end Combinators

/-! ### Wait queues and timers -/

section Quiet

variable (hR : Allows S Quiet Query.Plain R)
include hR

theorem quiet_modify {f : Sim → Sim}
    (hf : ∀ sim : Sim, ∃ futex futexKeys timerQueue stderr,
      f sim = { sim with futex, futexKeys, timerQueue, stderr }) : Within S R (modify f) := by
  refine within_modify hR fun sim => ?_
  obtain ⟨futex, futexKeys, timerQueue, stderr, heq⟩ := hf sim
  rw [heq]
  exact ⟨fun _ => Thread.Alike.refl _, rfl, rfl⟩

theorem quiet_writeStderr (text : String) : Within S R (writeStderr text) :=
  quiet_modify hR fun _ => ⟨_, _, _, _, rfl⟩

theorem quiet_modifyThread (t : ThreadId) {f : Thread → Thread}
    (hf : ∀ thread : Thread, thread.Alike (f thread)) : Within S R (modifyThread t f) :=
  within_modifyThread hR fun _ => Sim.quiet_setThread (hf _)

theorem quiet_getFutex (key : FutexKey) : Within S R (getFutex key) := by
  refine within_bind hR (quiet_modify hR fun sim => ?_) fun _ =>
    within_read hR fun _ => within_pure hR _
  split
  · exact ⟨_, _, _, _, rfl⟩
  · exact ⟨_, _, _, _, rfl⟩

theorem quiet_setFutex (key : FutexKey) (queue : WaitQueue) :
    Within S R (setFutex key queue) :=
  quiet_modify hR fun _ => ⟨_, _, _, _, rfl⟩

theorem quiet_waitQueuePush (key : FutexKey) (waiter : ThreadId) :
    Within S R (waitQueuePush key waiter) := by
  refine within_bind hR (quiet_getFutex hR key) fun queue => ?_
  split
  · exact within_query hR rfl
  · exact quiet_setFutex hR _ _
  · refine within_bind hR (within_query hR rfl) fun id => ?_
    refine within_bind hR (quiet_setFutex hR _ _) fun _ => ?_
    exact within_bind hR (within_query hR rfl) fun _ => within_query hR rfl

theorem quiet_waitQueuePop {key : FutexKey} {q : QueueId → KernelM (Option ThreadId)}
    (hq : ∀ id, Within S R (q id)) : Within S R (waitQueuePop key q) := by
  refine within_bind hR (quiet_getFutex hR key) fun queue => ?_
  split
  · exact hq _
  · exact within_bind hR (quiet_setFutex hR _ _) fun _ => within_pure hR _

theorem quiet_waitQueueRemove (key : FutexKey) (waiter : ThreadId) :
    Within S R (waitQueueRemove key waiter) := by
  refine within_read hR fun sim => ?_
  dsimp only
  split
  · exact within_bind hR (within_query hR rfl) fun _ => within_verify hR _ _
  · exact within_bind hR (quiet_setFutex hR _ _) fun _ =>
      within_bind hR (within_pure hR _) fun _ => within_verify hR _ _

theorem quiet_addTimer (t : ThreadId) (when : Int) (alarm : WakeType) :
    Within S R (addTimer t when alarm) :=
  within_read hR fun _ => within_bind hR (within_checked hR _) fun _ =>
    quiet_modify hR fun _ => ⟨_, _, _, _, rfl⟩

theorem quiet_removeTimer (t : ThreadId) : Within S R (removeTimer t) := by
  refine within_read hR fun _ => within_bind hR (within_checked hR _) fun _ => ?_
  refine within_bind hR (quiet_modify hR fun _ => ?_) fun _ => within_pure hR _
  exact ⟨_, _, _, _, rfl⟩

theorem quiet_cancelTimer (t : ThreadId) : Within S R (cancelTimer t) :=
  within_bind hR (quiet_removeTimer hR t) fun _ => within_verify hR _ _

/-! ### Waking threads -/

theorem quiet_scheduleWaiter (waiter : ThreadId) (status : CallStatus) :
    Within S R (scheduleWaiter waiter status) := by
  refine within_bind hR (quiet_modifyThread hR waiter fun _ => ?_) fun _ => within_query hR rfl
  exact ⟨rfl, rfl, rfl, rfl, rfl⟩

theorem quiet_memoryWake (waker waiter : ThreadId) :
    Within S R (onMemory' fun m => m.wake waker waiter) := by
  refine within_onMemory hR fun sim x memory hop => ⟨fun t => Thread.Alike.refl _, ?_, rfl⟩
  obtain ⟨m', hwake, heq⟩ := map_eq_ok hop
  cases heq
  obtain ⟨-, rfl⟩ := Memory.tick_ok hwake
  rfl

theorem quiet_wakeReason (waker : Option ThreadId) (waiter : ThreadId) (type : WakeType) :
    Within S R (wakeReason waker waiter type) := by
  have hcancel : ∀ status, Within S R (do
      let sim ← get
      if (sim.threads waiter).timer then cancelTimer waiter
      pure status : KernelM CallStatus) := by
    intro status
    refine within_read hR fun sim => ?_
    dsimp only
    split
    · exact within_bind hR (quiet_cancelTimer hR _) fun _ => within_pure hR _
    · exact within_pure hR _
  cases type with
  | sleepTimer => exact within_pure hR _
  | futexWake =>
      cases waker with
      | some waker => exact within_bind hR (quiet_memoryWake hR _ _) fun _ => hcancel _
      | none => exact within_bind hR (within_panic _) fun _ => hcancel _
  | futexTimer =>
      refine within_read hR fun sim => ?_
      dsimp only
      split
      · exact within_bind hR (quiet_waitQueueRemove hR _ _) fun _ => within_pure hR _
      · exact within_bind hR (within_panic _) fun _ => within_pure hR _
  | spurious =>
      refine within_read hR fun sim => ?_
      dsimp only
      split
      · exact within_bind hR (quiet_waitQueueRemove hR _ _) fun _ => hcancel _
      · exact hcancel _

theorem quiet_wake (waker : Option ThreadId) (waiter : ThreadId) (type : WakeType) :
    Within S R (wake waker waiter type) := by
  refine within_read hR fun sim => ?_
  dsimp only
  split
  · exact within_panic _
  · refine within_bind hR (quiet_wakeReason hR _ _ _) fun status => ?_
    refine within_bind hR (quiet_modifyThread hR waiter fun _ => ?_) fun _ =>
      quiet_scheduleWaiter hR _ _
    exact ⟨rfl, rfl, rfl, rfl, rfl⟩

theorem quiet_pollTimersLoop (fuel : Nat) : Within S R (pollTimersLoop fuel) := by
  induction fuel with
  | zero => exact within_pure hR _
  | succ fuel ih =>
      refine within_read hR fun sim => ?_
      split
      · exact within_pure hR _
      · refine within_bind hR (quiet_modify hR fun _ => ⟨_, _, _, _, rfl⟩) fun _ => ?_
        exact within_bind hR (quiet_wake hR _ _ _) fun _ =>
          within_bind hR ih fun _ => within_pure hR _

theorem quiet_pollTimers : Within S R pollTimers :=
  within_read hR fun _ => quiet_pollTimersLoop hR _

/-! ### The loop, before a thread is picked -/

theorem quiet_isDeadlock : Within S R isDeadlock :=
  within_bind hR (within_query hR rfl) fun _ => within_read hR fun _ => within_pure hR _

/-- A deadlock ends the simulation. -/
theorem quiet_checkDeadlock : Within S R checkDeadlock := by
  refine within_bind hR (quiet_isDeadlock hR) fun deadlock => ?_
  split
  · exact within_of_last fun _ => within_of_last fun _ => within_of_last fun _ =>
      within_sysAbort _
  · exact within_pure hR ()

theorem quiet_maintenance : Within S R maintenance := by
  have hquiet : Within S R (do
      let _ ← isDeadlock
      pure () : KernelM Unit) :=
    within_bind hR (quiet_isDeadlock hR) fun _ => within_pure hR ()
  refine within_read hR fun sim => ?_
  dsimp only
  split
  · exact within_bind hR (quiet_pollTimers hR) fun _ => hquiet
  · exact hquiet

/-! ### System calls that only move threads -/

theorem quiet_sysSleep (sleeper : ThreadId) (deadline : Int) :
    Within S R (sysSleep sleeper deadline) := by
  refine within_bind hR (quiet_addTimer hR _ _ _) fun _ => quiet_modifyThread hR sleeper fun _ => ?_
  exact ⟨rfl, rfl, rfl, rfl, rfl⟩

theorem quiet_park (waiter : ThreadId) (key : FutexKey) (deadline : Option Int)
    (ctx : WaiterContext) : Within S R (park waiter key deadline ctx) := by
  refine within_bind hR (quiet_waitQueuePush hR _ _) fun _ => ?_
  have hpark : Within S R (modifyThread waiter fun thread =>
      { thread with
        state := .parked
        futex := some key
        timer := deadline.isSome
        waiter := some ctx }) :=
    quiet_modifyThread hR waiter fun _ => ⟨rfl, rfl, rfl, rfl, rfl⟩
  cases deadline with
  | some when => exact within_bind hR (quiet_addTimer hR _ _ _) fun _ => hpark
  | none => exact hpark

theorem quiet_futexValue (loc : FutexLoc) : Within S R (futexValue loc) := by
  intro sim s x sim' s' h
  obtain ⟨_, _, _, ⟨⟩, h⟩ := interp_bind_ok h
  obtain ⟨atomic, sim₁, s₁, hmemory, hchecked⟩ := interp_bind_ok h
  -- The memory that is put back is the one that was read.
  obtain ⟨memory, hop, rfl, rfl⟩ := onMemory_ok hmemory
  obtain ⟨_, -, heq⟩ := map_eq_ok hop
  cases heq
  exact within_checked hR _ sim s₁ x sim' s' hchecked

theorem quiet_sysFutexWait (waiter : ThreadId) (loc : FutexLoc) (old : Nat)
    (deadline : Option Int) (ctx : WaiterContext) :
    Within S R (sysFutexWait waiter loc old deadline ctx) := by
  have hspurious : Within S R (spuriousWakeup ctx) := by
    unfold spuriousWakeup
    split
    · exact within_query hR rfl
    · exact within_pure hR _
  refine within_bind hR hspurious fun spurious => ?_
  split
  · exact quiet_scheduleWaiter hR _ _
  · refine within_bind hR (quiet_futexValue hR loc) fun value => ?_
    split
    · exact quiet_scheduleWaiter hR _ _
    · exact quiet_park hR _ _ _ _

theorem quiet_wakeAll (waker : ThreadId) (key : FutexKey) (fuel : Nat) :
    Within S R (wakeAll waker key fuel) := by
  induction fuel with
  | zero => exact within_panic _
  | succ fuel ih =>
      refine within_bind hR (quiet_waitQueuePop hR fun id => within_query hR rfl) fun waiter => ?_
      split
      · exact within_bind hR (quiet_wake hR _ _ _) fun _ => ih
      · exact within_pure hR ()

theorem quiet_sysFutexWake (waker : ThreadId) (loc : FutexLoc) (count : Nat) :
    Within S R (sysFutexWake waker loc count) := by
  unfold sysFutexWake
  split
  · refine within_bind hR (quiet_waitQueuePop hR fun id => within_query hR rfl) fun waiter => ?_
    split
    · exact quiet_wake hR _ _ _
    · exact within_pure hR ()
  · split
    · exact quiet_wakeAll hR _ _ _
    · exact within_panic _

theorem quiet_resume (caller : ThreadId) (v : Int) : Within S R (resume caller v) := by
  refine within_bind hR (quiet_modifyThread hR caller fun _ => ?_) fun _ => within_pure hR _
  exact ⟨rfl, rfl, rfl, rfl, rfl⟩

end Quiet

/-! ### Calls that leave the atomics alone -/

theorem accessNonAtomicVar_atomics {m m' : Memory} {t : ThreadId} {access : Access}
    {race : Option OldAccess} (h : m.accessNonAtomicVar t access = .ok (race, m')) :
    m'.atomics = m.atomics := by
  obtain ⟨m₁, htick, _, hatomics, _⟩ := accessNonAtomicVar_frame h
  obtain ⟨-, rfl⟩ := Memory.tick_ok htick
  exact hatomics

section Crew

variable (hR : Allows S SameCrew Query.Plain R)
include hR

theorem crew_sysAccessNonAtomicVar (thread : ThreadId) (access : Access) :
    Within S R (sysAccessNonAtomicVar thread access) := by
  refine within_bind hR (within_onMemory hR fun sim race memory hop => ?_) fun race => ?_
  · exact Sim.sameCrew_of_fields rfl (accessNonAtomicVar_atomics hop)
      (Memory.accessNonAtomicVar_threadCount hop) rfl rfl
  · split
    · exact within_of_last fun _ => within_sysAbort _
    · exact within_pure hR ()

theorem crew_sysMalloc (thread : ThreadId) (addr : Addr) (size : Nat)
    (scope : Option SourceLocation) : Within S R (sysMalloc thread addr size scope) := by
  refine within_modify hR fun sim => ?_
  split
  · exact Sim.sameCrew_of_fields rfl rfl rfl rfl rfl
  · exact SameCrew.refl sim

theorem crew_sysFree (thread : ThreadId) (addr : Addr) : Within S R (sysFree thread addr) := by
  refine within_modify hR fun sim => ?_
  split
  · exact Sim.sameCrew_of_fields rfl rfl rfl rfl rfl
  · exact SameCrew.refl sim

theorem crew_sysDetach (id : ThreadId) : Within S R (sysDetach id) := by
  refine within_read hR fun sim => ?_
  split
  · exact within_modifyThread hR fun sim => Sim.sameCrew_setThread rfl rfl rfl rfl
  · exact within_pure hR ()

theorem crew_sysWrite (fd : Int) (buf : String) : Within S R (sysWrite fd buf) := by
  unfold sysWrite
  split
  · exact within_modify hR fun _ => Sim.sameCrew_of_fields rfl rfl rfl rfl rfl
  · split
    · exact quiet_writeStderr hR.quiet _
    · exact within_panic _

end Crew

section Cells

variable (hR : Allows S SameCells Query.Plain R)
include hR

theorem cells_destroyThread (t : ThreadId) : Within S R (destroyThread t) :=
  within_modify hR fun _ => Sim.sameCells_of_fields rfl rfl rfl fun _ => List.mem_of_mem_erase

theorem cells_burnThread (t : ThreadId) : Within S R (burnThread t) := by
  have hend : Within S R (do
      modify fun sim => { sim with burntThreads := sim.burntThreads + 1 }
      destroyThread t : KernelM Unit) := by
    refine within_bind hR (within_modify hR fun _ => ?_) fun _ => cells_destroyThread hR t
    exact Sim.sameCells_of_fields rfl rfl rfl fun _ ht => ht
  refine within_bind hR (within_query hR rfl) fun _ => within_read hR fun sim => ?_
  dsimp only
  split
  · refine within_bind hR (quiet_removeTimer hR.crew.quiet t) fun _ => ?_
    split
    · exact within_bind hR (quiet_waitQueueRemove hR.crew.quiet _ _) fun _ => hend
    · exact hend
  · split
    · exact within_bind hR (quiet_waitQueueRemove hR.crew.quiet _ _) fun _ => hend
    · exact hend

theorem cells_burnThreads (threads : List ThreadId) : Within S R (burnThreads threads) := by
  induction threads with
  | nil => exact within_pure hR ()
  | cons t rest ih => exact within_bind hR (cells_burnThread hR t) fun _ => ih

theorem cells_mainCompleted (stat : HeapStat) : Within S R (mainCompleted stat) := by
  have hcheck : Within S R (checkMemory stat) := by
    refine within_read hR fun sim => ?_
    split
    · exact within_of_last fun _ => within_of_last fun _ => within_sysAbort _
    · exact within_pure hR ()
  have hend : Within S R (do
      let sim ← get
      verify sim.alive.isEmpty "There are alive threads after main completion"
      checkMemory stat
      modify fun sim => { sim with status := some .ok } : KernelM Unit) :=
    within_read hR fun _ => within_bind hR (within_verify hR _ _) fun _ =>
      within_bind hR hcheck fun _ => within_modify hR fun _ =>
        Sim.sameCells_of_fields rfl rfl rfl fun _ ht => ht
  refine within_read hR fun sim => ?_
  dsimp only
  split
  · exact within_bind hR (within_read hR fun _ => cells_burnThreads hR _) fun _ => hend
  · exact hend

theorem cells_sysThreadExit (thread : ThreadId) (stat : HeapStat) :
    Within S R (sysThreadExit thread stat) := by
  refine within_bind hR (within_query hR rfl) fun limit => ?_
  split
  · exact within_abortIter _ _
  · refine within_read hR fun sim => within_bind hR (cells_destroyThread hR _) fun _ => ?_
    split
    · exact cells_mainCompleted hR _
    · exact within_pure hR ()

end Cells

/-! ### What a call does -/

/-- The calls that change what user code has to do with the atomics, or ask the
scheduler to do something to the caller. -/
def special : SysCall → Bool
  | .spawn | .sync _ | .switchTo _ | .setThreadAttrPreemptive _ | .setThreadAttrLockFree _ => true
  | _ => false

theorem crew_handleSystemCall (hR : Allows S SameCrew Query.Plain R) {me : ThreadId}
    {stat : HeapStat} {call : SysCall} (hcall : special call = false)
    (hstays : call ≠ .threadExit) : Within S R (handleSystemCall me stat call) := by
  have hresume : ∀ v, Within S R (resume me v) := quiet_resume hR.quiet me
  have hsuspend : Within S R suspend := within_pure hR _
  cases call with
  | noop => exact hresume 0
  | spawn => cases hcall
  | getId => exact within_pure hR _
  | detach id => exact within_bind hR (crew_sysDetach hR id) fun _ => hresume 0
  | yield => exact within_bind hR (within_query hR rfl) fun _ => hsuspend
  | switchTo target => cases hcall
  | sleepFor delay =>
      exact within_read hR fun _ => within_bind hR (within_checked hR _) fun _ =>
        within_bind hR (quiet_sysSleep hR.quiet me _) fun _ => hsuspend
  | sleepUntil deadline =>
      exact within_bind hR (quiet_sysSleep hR.quiet me _) fun _ => hsuspend
  | sync action => cases hcall
  | accessNonAtomicVar access =>
      exact within_bind hR (crew_sysAccessNonAtomicVar hR me access) fun _ => hresume 0
  | futexWait loc old ctx =>
      exact within_bind hR (quiet_sysFutexWait hR.quiet me loc old none ctx) fun _ => hsuspend
  | futexWaitTimed loc old deadline ctx =>
      exact within_bind hR (quiet_sysFutexWait hR.quiet me loc old _ ctx) fun _ => hsuspend
  | futexWake loc count =>
      exact within_bind hR (quiet_sysFutexWake hR.quiet me loc count) fun _ => hresume 0
  | malloc addr size scope =>
      exact within_bind hR (crew_sysMalloc hR me addr size scope) fun _ => hresume 0
  | free addr => exact within_bind hR (crew_sysFree hR me addr) fun _ => hresume 0
  | now => exact within_read hR fun _ => within_pure hR _
  | randomNumber => exact within_bind hR (within_query hR rfl) fun number => hresume _
  | randomChoice alts =>
      dsimp only [handleSystemCall]
      split
      · exact within_panic _
      · split
        · exact within_pure hR _
        · exact within_bind hR (within_query hR rfl) fun index => hresume _
  | spuriousTryFailure => exact within_bind hR (within_query hR rfl) fun fail => hresume _
  | write fd buf => exact within_bind hR (crew_sysWrite hR fd buf) fun _ => hresume 0
  | abort status => exact within_sysAbort status
  | setThreadAttrPreemptive on => cases hcall
  | setThreadAttrLockFree on => cases hcall
  | schedHintProgress => exact within_bind hR (within_query hR rfl) fun _ => hresume 0
  | schedHintNewIter =>
      refine within_bind hR (within_modify hR fun _ => ?_) fun _ =>
        within_bind hR (within_query hR rfl) fun _ => hresume 0
      exact Sim.sameCrew_of_fields rfl rfl rfl rfl rfl
  | isModelChecker => exact within_bind hR (within_query hR rfl) fun _ => within_pure hR _
  | threadExit => exact absurd rfl hstays

theorem cells_handleSystemCall (hR : Allows S SameCells Query.Plain R) {me : ThreadId}
    {stat : HeapStat} {call : SysCall} (hcall : special call = false) :
    Within S R (handleSystemCall me stat call) := by
  by_cases hexit : call = .threadExit
  · subst hexit
    exact within_bind hR (cells_sysThreadExit hR me stat) fun _ => within_pure hR _
  · exact crew_handleSystemCall hR.crew hcall hexit

/-- `CreateThread` hands out the next id. -/
theorem createThread_ok {sim sim' : Sim} {s s' : σ} {id : ThreadId}
    (h : (createThread sim).interp S.answer s = .ok ((.ok id, sim'), s')) :
    id = sim.memory.threadCount + 1 ∧ s' = s ∧ ∃ memory,
      sim.memory.createThread = .ok (id, memory) ∧
      sim' = { sim.setThread id Thread.reset with memory, alive := sim.alive ++ [id] } := by
  obtain ⟨_, _, _, ⟨⟩, h⟩ := interp_bind_ok h
  obtain ⟨⟨id', memory⟩, sim₁, s₁, hchecked, h⟩ := interp_bind_ok h
  cases hcreate : sim.memory.createThread with
  | error p =>
      rw [hcreate] at hchecked
      cases hchecked
  | ok result =>
      rw [hcreate] at hchecked
      cases hchecked
      obtain ⟨_, _, _, ⟨⟩, ⟨⟩⟩ := interp_bind_ok h
      refine ⟨?_, rfl, memory, rfl, rfl⟩
      unfold Memory.createThread at hcreate
      split at hcreate
      · cases hcreate
        rfl
      · cases hcreate

theorem createThread_frame {m m' : Memory} {id : ThreadId}
    (h : m.createThread = .ok (id, m')) :
    m'.atomics = m.atomics ∧ m'.threadCount = m.threadCount + 1 := by
  unfold Memory.createThread at h
  split at h
  · cases h
    exact ⟨rfl, rfl⟩
  · cases h

/-- `_SysSpawn` after `CreateThread`. -/
theorem crew_spawned (hR : Allows S SameCrew Query.Plain R) (parent child : ThreadId) :
    Within S R (do
      modifyThread child fun thread => { thread with parentId := some parent }
      onMemory' fun m => m.spawn parent child
      query (.spawn child)
      pure child : KernelM ThreadId) := by
  refine within_bind hR (within_modifyThread hR fun sim => ?_) fun _ => ?_
  · exact Sim.sameCrew_setThread rfl rfl rfl rfl
  · refine within_bind hR (within_onMemory hR fun sim x memory hop => ?_) fun _ =>
      within_bind hR (within_query hR rfl) fun _ => within_pure hR _
    obtain ⟨m', hspawn, heq⟩ := map_eq_ok hop
    cases heq
    obtain ⟨-, rfl⟩ := Memory.tick_ok hspawn
    exact Sim.sameCrew_of_fields rfl rfl rfl rfl rfl

/-- The simulator when the next thread has been created. -/
def bornNext (sim : Sim) : Sim :=
  { sim.setThread (sim.memory.threadCount + 1) Thread.reset with
    memory := { sim.memory with threadCount := sim.memory.threadCount + 1 }
    alive := sim.alive ++ [sim.memory.threadCount + 1] }

/-- What a call of thread `me` does to the atomics, and to what user code has to do with
them. -/
def CellsAfter (me : ThreadId) : SysCall → Sim → Sim → Prop
  | .sync action, sim, sim' =>
      (sim.setThread me { sim.threads me with action := some action }).SameCells sim'
  | .spawn, sim, sim' => (bornNext sim).SameCells sim'
  | .setThreadAttrPreemptive on, sim, sim' =>
      (sim.setThread me
        { sim.threads me with
          attrs := { (sim.threads me).attrs with preemptive := on } }).SameCells sim'
  | .setThreadAttrLockFree on, sim, sim' =>
      (sim.setThread me
        { sim.threads me with
          attrs := { (sim.threads me).attrs with lockFree := on } }).SameCells sim'
  | _, sim, sim' => sim.SameCells sim'

theorem cells_sysSync {me : ThreadId} {action : Action} {sim sim' : Sim} {s s' : σ} {u : Unit}
    (h : (sysSync me action sim).interp S.answer s = .ok ((.ok u, sim'), s')) :
    sim' = sim.setThread me { sim.threads me with action := some action } ∧
      S.answer (sim'.view, .interrupt me) s = .ok ((), s') := by
  obtain ⟨_, _, _, ⟨⟩, hquery⟩ := interp_bind_ok h
  obtain ⟨hanswer, rfl⟩ := query_ok hquery
  exact ⟨rfl, hanswer⟩

theorem cellsAfter {me : ThreadId} {stat : HeapStat} {call : SysCall} {sim sim' : Sim}
    {s s' : σ} {r : Option Answer}
    (h : (handleSystemCall me stat call sim).interp S.answer s = .ok ((.ok r, sim'), s')) :
    CellsAfter me call sim sim' := by
  have hR := @allows_sameCells σ S Query.Plain
  have hplain : special call = false → sim.SameCells sim' := fun hcall =>
    cells_handleSystemCall hR hcall sim s r sim' s' h
  cases call with
  | sync action =>
      obtain ⟨_, sim₁, s₁, hsync, ⟨⟩⟩ := interp_bind_ok h
      obtain ⟨rfl, -⟩ := cells_sysSync hsync
      exact SameCells.refl _
  | spawn =>
      obtain ⟨id, sim₁, s₁, hspawn, hresume⟩ := interp_bind_ok h
      obtain ⟨child, sim₂, s₂, hcreate, hrest⟩ := interp_bind_ok hspawn
      obtain ⟨rfl, rfl, memory, hmemory, rfl⟩ := createThread_ok hcreate
      refine SameCells.trans ?_ ((crew_spawned hR.crew _ _ _ _ _ _ _ hrest).trans
        (quiet_resume hR.crew.quiet me _ _ _ _ _ _ hresume))
      exact Sim.sameCells_of_fields rfl (createThread_frame hmemory).1
        (createThread_frame hmemory).2 fun _ ht => ht
  | switchTo target =>
      obtain ⟨_, _, _, hswitch, ⟨⟩⟩ := interp_bind_ok h
      obtain ⟨_, _, _, ⟨⟩, hswitch⟩ := interp_bind_ok hswitch
      obtain ⟨_, sim₁, s₁, hverify, hquery⟩ := interp_bind_ok hswitch
      obtain ⟨-, rfl⟩ := query_ok hquery
      exact within_verify hR _ _ _ _ _ _ _ hverify
  | setThreadAttrPreemptive on =>
      obtain ⟨_, _, _, ⟨⟩, h⟩ := interp_bind_ok h
      obtain ⟨_, _, _, ⟨⟩, ⟨⟩⟩ := interp_bind_ok h
      exact SameCells.refl _
  | setThreadAttrLockFree on =>
      obtain ⟨_, _, _, ⟨⟩, h⟩ := interp_bind_ok h
      obtain ⟨_, _, _, ⟨⟩, h⟩ := interp_bind_ok h
      obtain ⟨_, _, _, hquery, hresume⟩ := interp_bind_ok h
      obtain ⟨-, rfl⟩ := query_ok hquery
      exact quiet_resume hR.crew.quiet me _ _ _ _ _ _ hresume
  | _ => exact hplain rfl

/-! ### The loop -/

section Loop

variable (hR : Allows S SameCrew Query.Plain R)
include hR

theorem crew_advanceToNextDeadLine : Within S R advanceToNextDeadLine := by
  refine within_read hR fun sim => ?_
  split
  · exact within_bind hR (within_checked hR _) fun _ =>
      within_modify hR fun _ => Sim.sameCrew_of_fields rfl rfl rfl rfl rfl
  · exact within_panic _

theorem crew_idle : Within S R idle := by
  refine within_bind hR (quiet_checkDeadlock hR.quiet) fun _ => within_read hR fun sim => ?_
  split
  · exact within_pure hR _
  · refine within_bind hR (quiet_pollTimers hR.quiet) fun progress => ?_
    split
    · exact within_pure hR _
    · exact within_bind hR (crew_advanceToNextDeadLine hR) fun _ =>
        within_bind hR (quiet_pollTimers hR.quiet) fun _ => within_pure hR _

end Loop

/-- The simulator after it has switched to the thread that was picked. -/
def taken (sim : Sim) (next : ThreadId) : Sim :=
  { sim.setThread next
      { sim.threads next with
        state := .running
        runs := (sim.threads next).runs + 1 } with
    digest := hashCombine sim.digest (UInt64.ofNat next) }

/-- The same for a thread whose action has been performed. -/
def performed (sim : Sim) (next : ThreadId) (action : Action) (load : Nat)
    (memory : Memory) : Sim :=
  { sim.setThread next
      { sim.threads next with
        action := none
        load
        state := .running
        runs := (sim.threads next).runs + 1 } with
    memory
    digest :=
      let digest := hashCombine sim.digest (UInt64.ofNat next)
      if isDigestableLoad action.type && sim.digestAtomicLoads then
        hashCombine digest (UInt64.ofNat load)
      else digest }

theorem taken_threads (sim : Sim) (next t : ThreadId) :
    (taken sim next).threads t =
      if t = next then
        { sim.threads next with
          state := .running
          runs := (sim.threads next).runs + 1 }
      else sim.threads t :=
  Sim.threads_setThread sim next t _

theorem performed_threads (sim : Sim) (next t : ThreadId) (action : Action) (load : Nat)
    (memory : Memory) :
    (performed sim next action load memory).threads t =
      if t = next then
        { sim.threads next with
          action := none
          load
          state := .running
          runs := (sim.threads next).runs + 1 }
      else sim.threads t :=
  Sim.threads_setThread sim next t _

/-- What becomes of the simulator when a thread is picked. -/
inductive Takes (sim : Sim) (next : ThreadId) : Sim → Prop where
  | plain (haction : (sim.threads next).action = none) : Takes sim next (taken sim next)
  | action {action : Action} {load : Nat} {memory : Memory}
      (haction : (sim.threads next).action = some action)
      (hload : sim.memory.syncCall next action = .ok (load, memory)) :
      Takes sim next (performed sim next action load memory)

theorem runPicked_ok {sim sim' : Sim} {s s' : σ} {next : ThreadId}
    (h : (runPicked sim).interp S.answer s = .ok ((.ok next, sim'), s')) :
    S.answer (sim.view, .pickNext) s = .ok (.ok next, s') ∧ Takes sim next sim' := by
  obtain ⟨picked, sim₁, s₁, hpick, h⟩ := interp_bind_ok h
  obtain ⟨hanswer, rfl⟩ := query_ok hpick
  cases picked with
  | error why => exact (within_abortIter (S := S) (R := fun _ _ => False) _ _ _ _ _ _ _ h).elim
  | ok t =>
      obtain ⟨_, _, _, ⟨⟩, h⟩ := interp_bind_ok h
      obtain ⟨_, sim₂, s₂, hsync, h⟩ := interp_bind_ok h
      obtain ⟨_, _, _, ⟨⟩, ⟨⟩⟩ := interp_bind_ok h
      obtain ⟨_, _, _, ⟨⟩, hsync⟩ := interp_bind_ok hsync
      cases haction : (sim₁.threads next).action with
      | none =>
          simp only [haction] at hsync
          cases hsync
          exact ⟨hanswer, Takes.plain haction⟩
      | some action =>
          simp only [haction] at hsync
          obtain ⟨_, _, _, ⟨⟩, hmemory⟩ := interp_bind_ok hsync
          obtain ⟨load, sim₃, s₃, honMemory, hload⟩ := interp_bind_ok hmemory
          obtain ⟨memory, hcall, rfl, rfl⟩ := onMemory_ok honMemory
          have hperformed := Takes.action haction hcall
          simp only [performed] at hperformed
          dsimp only at hload
          split at hload
          · rename_i hdigest
            obtain ⟨_, _, _, ⟨⟩, ⟨⟩⟩ := interp_bind_ok hload
            refine ⟨hanswer, ?_⟩
            rw [if_pos hdigest] at hperformed
            simpa only [Sim.setThread, Function.update_self, Function.update_idem] using hperformed
          · rename_i hdigest
            cases hload
            refine ⟨hanswer, ?_⟩
            rw [if_neg hdigest] at hperformed
            simpa only [Sim.setThread, Function.update_self, Function.update_idem] using hperformed

end Kernel

end TwistSim
