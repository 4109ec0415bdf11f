/-
Where the threads of a simulation are: with the scheduler, in the wait queue of a
futex, asleep, or running.
-/
import TwistSim.Keepers

namespace TwistSim

open Effect
open Interaction (Spec Implements)

/-! ### The wait queues leave everything else alone -/

/-- Only the wait queues have changed. -/
def Sim.OnlyQueues (sim sim' : Sim) : Prop :=
  sim' = { sim with futex := sim'.futex, futexKeys := sim'.futexKeys }

theorem Sim.OnlyQueues.eq {β : Type} {sim sim' : Sim} (h : sim.OnlyQueues sim')
    (f : Sim → β) : f sim' = f { sim with futex := sim'.futex, futexKeys := sim'.futexKeys } :=
  congrArg f h

theorem slot_of_queue {a a' : Holdings} {call : Call} {r : call.Reply}
    (hqueue : call.2.onQueue = true) (h : a.post call r a') : a'.slot = a.slot := by
  have hpops : ∀ {q : QueueId} {r : Option ThreadId}, a.Pops q r a' → a'.slot = a.slot := by
    intro q r hpops
    cases r with
    | none => exact congrArg Holdings.slot hpops
    | some t =>
        obtain ⟨_, _, hupdate⟩ := hpops
        exact hupdate.slot
  obtain ⟨view, q⟩ := call
  cases q with
  | newWaitQueue => rw [h.2.2]
  | queueIsEmpty q => rw [h.2]
  | queuePush q t => exact h.slot
  | queuePop q => exact hpops h
  | queuePopAll q => exact hpops h
  | queueRemove q t => exact h.2.slot
  | _ => cases hqueue

namespace Kernel

variable {α : Type} {sim : Sim} {a : Holdings} {key : FutexKey} {t : ThreadId}

/-- A frame of the wait queues. -/
def KeepsRest (m : KernelM α) (sim : Sim) (a : Holdings) : Prop :=
  m.wp queueSpec.lenient True (fun _ sim' a' => sim.OnlyQueues sim' ∧ a'.slot = a.slot)
    (fun _ _ _ => True) sim a

theorem KeepsRest.bind {β : Type} {m : KernelM β} {f : β → KernelM α}
    (h : KeepsRest m sim a)
    (hf : ∀ x sim' a', sim.OnlyQueues sim' → KeepsRest (f x) sim' a') :
    KeepsRest (m >>= f) sim a := by
  refine wp_bind.mpr (wp_mono h (fun x sim₁ a₁ ⟨hsim, hslot⟩ => ?_) fun _ _ _ _ => trivial)
  refine wp_mono (hf x sim₁ a₁ hsim) (fun _ sim₂ a₂ ⟨hsim', hslot'⟩ => ?_)
    fun _ _ _ _ => trivial
  refine ⟨?_, hslot'.trans hslot⟩
  rw [Sim.OnlyQueues] at hsim hsim' ⊢
  rw [hsim', hsim]

theorem keepsRest_pure (x : α) : KeepsRest (pure x) sim a := ⟨rfl, rfl⟩

theorem keepsRest_query {q : Query} (hqueue : q.onQueue = true) :
    KeepsRest (query q) sim a := by
  simp only [KeepsRest, query, wp_bind, wp_get, wp_ask]
  refine fun _ => ⟨trivial, fun _ => trivial, fun r a' hpost => ⟨rfl, ?_⟩⟩
  exact @slot_of_queue a a' (sim.view, q) r hqueue hpost.1

theorem keepsRest_get {f : Sim → KernelM α} (h : KeepsRest (f sim) sim a) :
    KeepsRest (get >>= f) sim a := h

theorem keepsRest_setFutex {queue : WaitQueue} : KeepsRest (setFutex key queue) sim a :=
  ⟨rfl, rfl⟩

theorem keepsRest_verify {cond : Bool} {error : String} :
    KeepsRest (verify cond error) sim a := by
  cases cond with
  | true => exact keepsRest_pure ()
  | false => trivial

theorem keepsRest_getFutex : KeepsRest (getFutex key) sim a := by
  unfold getFutex
  refine KeepsRest.bind ?_ fun _ _ _ _ => keepsRest_get (keepsRest_pure _)
  simp only [KeepsRest, wp_modify]
  split
  · exact ⟨rfl, trivial⟩
  · exact ⟨rfl, trivial⟩

theorem keepsRest_waitQueuePush : KeepsRest (waitQueuePush key t) sim a := by
  unfold waitQueuePush
  refine keepsRest_getFutex.bind fun queue _ _ _ => ?_
  split
  · exact keepsRest_query rfl
  · exact keepsRest_setFutex
  · refine (keepsRest_query rfl).bind fun _ _ _ _ => ?_
    refine keepsRest_setFutex.bind fun _ _ _ _ => ?_
    exact (keepsRest_query rfl).bind fun _ _ _ _ => keepsRest_query rfl

theorem keepsRest_waitQueuePop {pop : QueueId → KernelM (Option ThreadId)}
    (hpop : ∀ q, pop q = query (.queuePop q) ∨ pop q = query (.queuePopAll q)) :
    KeepsRest (waitQueuePop key pop) sim a := by
  unfold waitQueuePop
  refine keepsRest_getFutex.bind fun queue _ _ _ => ?_
  split
  · rename_i q _
    rcases hpop q with h | h
    · rw [h]
      exact keepsRest_query rfl
    · rw [h]
      exact keepsRest_query rfl
  · exact keepsRest_setFutex.bind fun _ _ _ _ => keepsRest_pure _

theorem keepsRest_waitQueueRemove : KeepsRest (waitQueueRemove key t) sim a := by
  unfold waitQueueRemove
  refine keepsRest_get ?_
  dsimp only
  split
  · exact (keepsRest_query rfl).bind fun _ _ _ _ => keepsRest_verify
  · exact keepsRest_setFutex.bind fun _ _ _ _ => keepsRest_verify

end Kernel

/-! ### Places -/

/-- The states of the threads that may run when the scheduler says so. -/
def ThreadState.Ready (state : ThreadState) : Prop :=
  state = .starting ∨ state = .runnable ∨ state = .running

namespace Sim

/-- The threads that wait on a futex. -/
def waiters (sim : Sim) (a : Holdings) (key : FutexKey) : Multiset ThreadId :=
  contents sim.futex a key

/-- The timer of the thread is in the timer queue. -/
def Armed (sim : Sim) (t : ThreadId) : Prop := sim.timerQueue.heap.Stores t

/-- The pointers of all threads agree with the queues, except for a thread that the
simulator has in hand. -/
structure Linked (inHand : Option ThreadId) (sim : Sim) (a : Holdings) : Prop where
  filed : Filed sim.futex a (sim.waiters a)
  indexed : sim.timerQueue.heap.Indexed
  nodup : sim.alive.Nodup
  known : ∀ t ∈ sim.alive, 0 < t ∧ t ≤ sim.memory.threadCount
  count : sim.memory.threadCount ≤ maxThreads
  born : ∀ t ∈ a.owned, t ≤ sim.memory.threadCount
  futex : ∀ t ∈ sim.alive, inHand ≠ some t → ∀ key,
    t ∈ sim.waiters a key ↔ (sim.threads t).futex = some key
  timer : ∀ t ∈ sim.alive, inHand ≠ some t →
    (sim.Armed t ↔ (sim.threads t).timer = true)
  gone : ∀ t, t ∉ sim.alive → (∀ key, t ∉ sim.waiters a key) ∧ ¬ sim.Armed t

/-- Where a thread is that does not run. -/
inductive Place (sim : Sim) (a : Holdings) (t : ThreadId) : Prop where
  | held (howned : t ∈ a.owned)
      (hstate : (sim.threads t).state.Ready)
      (hfutex : (sim.threads t).futex = none) (htimer : (sim.threads t).timer = false)
  | parked {key : FutexKey} (howned : t ∉ a.owned)
      (hstate : (sim.threads t).state = .parked)
      (hfutex : (sim.threads t).futex = some key)
      (halarm : sim.Armed t → (sim.timerQueue.heap.timers t).alarm = .futexTimer)
  | sleeping (howned : t ∉ a.owned) (hstate : (sim.threads t).state = .sleeping)
      (hfutex : (sim.threads t).futex = none) (htimer : (sim.threads t).timer = true)
      (halarm : (sim.timerQueue.heap.timers t).alarm = .sleepTimer)

/-- Where the running thread is: nowhere. -/
structure Runs (sim : Sim) (a : Holdings) (t : ThreadId) : Prop where
  alive : t ∈ sim.alive
  owned : t ∉ a.owned
  state : (sim.threads t).state = .running
  futex : (sim.threads t).futex = none
  timer : (sim.threads t).timer = false
  slot : a.slot = false

/-- Every thread is in its place, apart from the running one and one in hand. -/
structure Placed (running inHand : Option ThreadId) (sim : Sim) (a : Holdings) : Prop
    extends sim.Linked inHand a where
  place : ∀ t ∈ sim.alive, running ≠ some t → inHand ≠ some t → sim.Place a t
  runs : ∀ t, running = some t → sim.Runs a t

/-- Nothing about the thread has changed. -/
structure Untouched (sim : Sim) (a : Holdings) (sim' : Sim) (a' : Holdings)
    (t : ThreadId) : Prop where
  alive : t ∈ sim'.alive ↔ t ∈ sim.alive
  thread : sim'.threads t = sim.threads t
  owned : t ∈ a'.owned ↔ t ∈ a.owned
  waiting : ∀ key, t ∈ sim'.waiters a' key ↔ t ∈ sim.waiters a key
  armed : sim'.Armed t ↔ sim.Armed t
  timer : { sim'.timerQueue.heap.timers t with loc := 0 } =
    { sim.timerQueue.heap.timers t with loc := 0 }

variable {sim sim' sim'' : Sim} {a a' a'' : Holdings} {t u : ThreadId}
  {running inHand : Option ThreadId}

theorem Untouched.refl (sim : Sim) (a : Holdings) (t : ThreadId) :
    sim.Untouched a sim a t :=
  ⟨Iff.rfl, rfl, Iff.rfl, fun _ => Iff.rfl, Iff.rfl, rfl⟩

theorem Untouched.trans (h : sim.Untouched a sim' a' t)
    (h' : sim'.Untouched a' sim'' a'' t) : sim.Untouched a sim'' a'' t where
  alive := h'.alive.trans h.alive
  thread := h'.thread.trans h.thread
  owned := h'.owned.trans h.owned
  waiting key := (h'.waiting key).trans (h.waiting key)
  armed := h'.armed.trans h.armed
  timer := h'.timer.trans h.timer

theorem Untouched.alarm (h : sim.Untouched a sim' a' t) :
    (sim'.timerQueue.heap.timers t).alarm = (sim.timerQueue.heap.timers t).alarm :=
  (Timer.mk.inj h.timer).2.2.2

theorem Untouched.when (h : sim.Untouched a sim' a' t) :
    (sim'.timerQueue.heap.timers t).when = (sim.timerQueue.heap.timers t).when :=
  (Timer.mk.inj h.timer).1

theorem Untouched.place (h : sim.Untouched a sim' a' t) (hplace : sim.Place a t) :
    sim'.Place a' t := by
  cases hplace with
  | held howned hstate hfutex htimer =>
      rw [← h.thread] at hstate hfutex htimer
      exact Place.held (h.owned.mpr howned) hstate hfutex htimer
  | parked howned hstate hfutex halarm =>
      rw [← h.thread] at hstate hfutex
      refine Place.parked (fun hmem => howned (h.owned.mp hmem)) hstate hfutex fun harmed => ?_
      rw [h.alarm]
      exact halarm (h.armed.mp harmed)
  | sleeping howned hstate hfutex htimer halarm =>
      rw [← h.thread] at hstate hfutex htimer
      exact Place.sleeping (fun hmem => howned (h.owned.mp hmem)) hstate hfutex htimer
        (h.alarm.trans halarm)

/-- One thread changes; it may come into hand, or be linked properly. -/
theorem Linked.change (h : sim.Linked inHand a) (ht : t ∈ sim.alive)
    {inHand' : Option ThreadId} (hhand : inHand = none ∨ inHand = some t)
    (hfiled : Filed sim'.futex a' (sim'.waiters a'))
    (hindexed : sim'.timerQueue.heap.Indexed) (halive : sim'.alive = sim.alive)
    (hcount : sim'.memory.threadCount = sim.memory.threadCount)
    (howned : ∀ u ∈ a'.owned, u = t ∨ u ∈ a.owned)
    (hothers : ∀ u, u ≠ t → sim.Untouched a sim' a' u)
    (hhand' : inHand' = some t ∨ inHand' = none ∧
      (∀ key, t ∈ sim'.waiters a' key ↔ (sim'.threads t).futex = some key) ∧
      (sim'.Armed t ↔ (sim'.threads t).timer = true)) : sim'.Linked inHand' a' where
  filed := hfiled
  indexed := hindexed
  nodup := halive ▸ h.nodup
  known u hu := by
    rw [hcount]
    exact h.known u (halive ▸ hu)
  count := hcount ▸ h.count
  born u hu := by
    rw [hcount]
    rcases howned u hu with rfl | hu
    · exact (h.known u ht).2
    · exact h.born u hu
  futex u hu hne key := by
    by_cases hut : u = t
    · subst hut
      obtain hhand' | ⟨-, hfutex, -⟩ := hhand'
      · exact absurd hhand' hne
      · exact hfutex key
    · have hnot : inHand ≠ some u := by
        rcases hhand with rfl | rfl
        · nofun
        · exact fun heq => hut (Option.some.inj heq).symm
      have hsame := hothers u hut
      rw [hsame.waiting, hsame.thread]
      exact h.futex u (halive ▸ hu) hnot key
  timer u hu hne := by
    by_cases hut : u = t
    · subst hut
      obtain hhand' | ⟨-, -, htimer⟩ := hhand'
      · exact absurd hhand' hne
      · exact htimer
    · have hnot : inHand ≠ some u := by
        rcases hhand with rfl | rfl
        · nofun
        · exact fun heq => hut (Option.some.inj heq).symm
      have hsame := hothers u hut
      rw [hsame.armed, hsame.thread]
      exact h.timer u (halive ▸ hu) hnot
  gone u hu := by
    rw [halive] at hu
    have hsame := hothers u fun heq => hu (heq ▸ ht)
    refine ⟨fun key hmem => (h.gone u hu).1 key ((hsame.waiting key).mp hmem), ?_⟩
    exact fun harmed => (h.gone u hu).2 (hsame.armed.mp harmed)

end Sim

/-! ### What the operations ensure -/

namespace Kernel

variable {α : Type} {links : Links} {stuck : Prop} {sim : Sim} {a : Holdings} {key : FutexKey}
  {t : ThreadId}

/-- The panics that mean that a thread is not where it should be. -/
def impossible : List Panic :=
  [.verify "Internal error", .verify "Waiter not found in WaitQueue",
    .verify "Timer not found", .verify "Invalid timer index", .undefined "null timer",
    .undefined "null futex", .assertion "Unexpected thread state"]

/-- What is left where the simulator stops: after an abort, threads that can be
burnt, and if it is a deadlock, the simulation was `stuck`. -/
def Fails (links : Links) (stuck : Prop) : Thrown → Sim → Holdings → Prop
  | .sysAbortEx, sim, a => sim.Linked none a ∧ (sim.status = some .deadlock → stuck)
  | .panic p, _, _ => p ∈ impossible → links = .shared

def Ensures (links : Links) (stuck : Prop) (m : KernelM α) (post : α → Sim → Holdings → Prop)
    (sim : Sim) (a : Holdings) : Prop :=
  m.wp (keeperSpec links) True post (Fails links stuck) sim a

theorem Ensures.mono {m : KernelM α} {post post' : α → Sim → Holdings → Prop}
    (h : Ensures links stuck m post sim a)
    (hpost : ∀ x sim' a', post x sim' a' → post' x sim' a') :
    Ensures links stuck m post' sim a :=
  wp_mono h hpost fun _ _ _ hexc => hexc

theorem Ensures.bind {β : Type} {m : KernelM β} {f : β → KernelM α}
    {P : β → Sim → Holdings → Prop} {post : α → Sim → Holdings → Prop}
    (h : Ensures links stuck m P sim a)
    (hf : ∀ x sim' a', P x sim' a' → Ensures links stuck (f x) post sim' a') :
    Ensures links stuck (m >>= f) post sim a :=
  wp_bind.mpr (wp_mono h hf fun _ _ _ hexc => hexc)

theorem ensures_get {f : Sim → KernelM α} {post : α → Sim → Holdings → Prop}
    (h : Ensures links stuck (f sim) post sim a) : Ensures links stuck (get >>= f) post sim a := h

theorem ensures_query {q : Query} {post : q.Reply → Sim → Holdings → Prop}
    (hsound : a.Sound) (hpre : a.pre (sim.view, q)) (hqueue : q.onQueue = false)
    (hallowed : a.allowed true (sim.view, q))
    (h : ∀ r a', a.Grants (sim.view, q) r a' → post r sim a') :
    Ensures links stuck (query q) post sim a := by
  have hspares : ¬ a.Snatches links (sim.view, q) := fun h => h.2 hallowed
  have hfinds : ¬ a.Misses links (sim.view, q) := by
    cases q with
    | queueRemove q t => cases hqueue
    | _ => exact id
  simp only [Ensures, query, wp_bind, wp_get, wp_ask]
  refine fun _ => ⟨⟨hsound, fun _ => ⟨hpre, fun hq => ?_⟩⟩, fun _ => trivial,
    fun r a' hpost => h r a' (hpost.1 hspares hfinds)⟩
  rw [hqueue] at hq
  cases hq

theorem ensures_checked {x : Except Panic α} {post : α → Sim → Holdings → Prop}
    (h : ∀ value, x = .ok value → post value sim a)
    (herror : ∀ p, x = .error p → p ∉ impossible) :
    Ensures links stuck (checked x) post sim a := by
  cases x with
  | ok value => exact h value rfl
  | error p => exact fun hp => absurd hp (herror p rfl)

/-- One wait queue has changed. -/
structure QueueChange (sim : Sim) (a : Holdings) (sim' : Sim) (a' : Holdings)
    (key : FutexKey) (waiters : Multiset ThreadId) : Prop where
  rest : sim.OnlyQueues sim'
  runs : a.SameRuns a'
  slot : a'.slot = a.slot
  filed : Filed sim'.futex a' (sim'.waiters a')
  waiters : sim'.waiters a' = Function.update (sim.waiters a) key waiters

theorem waiters_eq {ledger : Ledger} (h : Filed sim.futex a ledger) :
    sim.waiters a = ledger :=
  funext h.contents

theorem QueueChange.of_filed {sim' : Sim} {a' : Holdings} {waiters : Multiset ThreadId}
    (hrest : sim.OnlyQueues sim') (hruns : a.SameRuns a') (hslot : a'.slot = a.slot)
    (hfiled : Filed sim'.futex a' (Function.update (sim.waiters a) key waiters)) :
    QueueChange sim a sim' a' key waiters := by
  have hwaiters := waiters_eq hfiled
  exact ⟨hrest, hruns, hslot, hwaiters.symm ▸ hfiled, hwaiters⟩

theorem ensures_waitQueuePush (h : Filed sim.futex a (sim.waiters a))
    (ht : Ledger.Loose (sim.waiters a) a.owned t) :
    Ensures links stuck (waitQueuePush key t)
      (fun _ sim' a' => QueueChange sim a sim' a' key (t ::ₘ sim.waiters a key)) sim a := by
  refine Ensures.mono (wp_refines (keeper_refines links)
    (wp_frame (wp_waitQueuePush h ht) keepsRest_waitQueuePush)) ?_
  rintro _ sim' a' ⟨⟨hruns, hfiled⟩, hrest, hslot⟩
  exact QueueChange.of_filed hrest hruns hslot hfiled

theorem ensures_waitQueuePop {pop : QueueId → KernelM (Option ThreadId)}
    (h : Filed sim.futex a (sim.waiters a))
    (hpop : ∀ q, pop q = query (.queuePop q) ∨ pop q = query (.queuePopAll q)) :
    Ensures links stuck (waitQueuePop key pop)
      (fun r sim' a' =>
        match r with
        | none => sim.waiters a key = 0 ∧ QueueChange sim a sim' a' key 0
        | some t => t ∈ sim.waiters a key ∧
            QueueChange sim a sim' a' key ((sim.waiters a key).erase t)) sim a := by
  refine Ensures.mono (wp_refines (keeper_refines links)
    (wp_frame (wp_waitQueuePop h hpop) (keepsRest_waitQueuePop hpop))) ?_
  rintro r sim' a' ⟨⟨hruns, hgives, hfiled⟩, hrest, hslot⟩
  cases r with
  | none =>
      have hempty := hgives.none.mp rfl
      refine ⟨hempty, QueueChange.of_filed hrest hruns hslot ?_⟩
      rw [← hempty, Function.update_eq_self]
      exact hfiled
  | some t => exact ⟨hgives.some t rfl, QueueChange.of_filed hrest hruns hslot hfiled⟩

theorem ensures_waitQueueRemove (h : Filed sim.futex a (sim.waiters a))
    (ht : t ∈ sim.waiters a key) :
    Ensures links stuck (waitQueueRemove key t)
      (fun _ sim' a' => QueueChange sim a sim' a' key ((sim.waiters a key).erase t))
      sim a := by
  refine Ensures.mono (wp_refines (keeper_refines links)
    (wp_frame (wp_waitQueueRemove h ht) keepsRest_waitQueueRemove)) ?_
  rintro _ sim' a' ⟨⟨hruns, hfiled⟩, hrest, hslot⟩
  exact QueueChange.of_filed hrest hruns hslot hfiled

namespace QueueChange

variable {sim' : Sim} {a' : Holdings} {waiters : Multiset ThreadId} {u : ThreadId}

theorem threads (h : QueueChange sim a sim' a' key waiters) :
    sim'.threads = sim.threads := h.rest.eq Sim.threads

theorem alive (h : QueueChange sim a sim' a' key waiters) : sim'.alive = sim.alive :=
  h.rest.eq Sim.alive

theorem timerQueue (h : QueueChange sim a sim' a' key waiters) :
    sim'.timerQueue = sim.timerQueue := h.rest.eq Sim.timerQueue

theorem memory (h : QueueChange sim a sim' a' key waiters) :
    sim'.memory = sim.memory := h.rest.eq Sim.memory

theorem untouched (h : QueueChange sim a sim' a' key waiters)
    (hu : u ∈ waiters ↔ u ∈ sim.waiters a key) : sim.Untouched a sim' a' u where
  alive := by rw [h.alive]
  thread := by rw [h.threads]
  owned := by rw [h.runs.owned]
  waiting k := by
    rw [h.waiters]
    by_cases hk : k = key
    · subst hk
      rw [Function.update_self]
      exact hu
    · rw [Function.update_of_ne hk]
  armed := by rw [Sim.Armed, Sim.Armed, h.timerQueue]
  timer := by rw [h.timerQueue]

end QueueChange

/-! ### Timers -/

/-- Only the timer queue has changed; the other timers are what they were. -/
structure TimerChange (sim sim' : Sim) (t : ThreadId) (armed : Prop) : Prop where
  rest : sim' = { sim with timerQueue := sim'.timerQueue }
  indexed : sim'.timerQueue.heap.Indexed
  self : sim'.Armed t ↔ armed
  others : ∀ u, u ≠ t → (sim'.Armed u ↔ sim.Armed u) ∧
    { sim'.timerQueue.heap.timers u with loc := 0 } =
      { sim.timerQueue.heap.timers u with loc := 0 }

namespace TimerChange

variable {sim' : Sim} {armed : Prop} {u : ThreadId}

theorem eq {β : Type} (h : TimerChange sim sim' t armed) (f : Sim → β) :
    f sim' = f { sim with timerQueue := sim'.timerQueue } := congrArg f h.rest

theorem waiters (h : TimerChange sim sim' t armed) : sim'.waiters a = sim.waiters a :=
  funext fun key => congrArg (fun futex => contents futex a key) (h.eq Sim.futex)

theorem untouched (h : TimerChange sim sim' t armed) (hu : u ≠ t) :
    sim.Untouched a sim' a u where
  alive := by rw [h.eq Sim.alive]
  thread := by rw [h.eq Sim.threads]
  owned := Iff.rfl
  waiting key := by rw [h.waiters]
  armed := (h.others u hu).1
  timer := (h.others u hu).2

end TimerChange

theorem insert_error {heap : TimerHeap ThreadId} {p : Panic}
    (h : heap.insert t = .error p) : p ∉ impossible := by
  unfold TimerHeap.insert at h
  split at h
  · cases h
  · cases h
    decide

/-- A timer object that is not stored may be filled in and inserted. -/
theorem insert_fresh {heap heap' : TimerHeap ThreadId} {timers : ThreadId → Timer}
    (hidx : heap.Indexed) (hnew : ¬ heap.Stores t)
    (hsame : ∀ u, u ≠ t → timers u = heap.timers u)
    (h : TimerHeap.insert { heap with timers } t = .ok heap') :
    TimerHeap.Becomes { heap with timers } heap' fun u => u = t ∨ heap.Stores u := by
  have hidx' : TimerHeap.Indexed { heap with timers } := by
    refine ⟨hidx.full, fun i u hi hslot => ?_⟩
    have hu : u ≠ t := fun heq => hnew ⟨i, hi, heq ▸ hslot⟩
    exact (congrArg Timer.loc (hsame u hu)).trans (hidx.loc i u hi hslot)
  have hroom : heap.size + 1 < timerLimit := by
    by_contra hfull
    rw [TimerHeap.insert, if_neg hfull] at h
    cases h
  obtain ⟨heap₁, hinsert, -, hbecomes⟩ := TimerHeap.insert_spec hidx' hnew hroom
  rw [h] at hinsert
  cases hinsert
  exact hbecomes

theorem add_fresh {queue queue' : TimerQueue ThreadId} (hidx : queue.heap.Indexed)
    (hnew : ¬ queue.heap.Stores t) {when : Int} {alarm : WakeType}
    (h : (queue.create t when alarm).add t = .ok queue') :
    queue'.heap.Indexed ∧ (∀ u, queue'.heap.Stores u ↔ u = t ∨ queue.heap.Stores u) ∧
      { queue'.heap.timers t with loc := 0 } = ⟨when, 0, queue.nextId + 1, alarm⟩ ∧
      ∀ u, u ≠ t → { queue'.heap.timers u with loc := 0 } =
        { queue.heap.timers u with loc := 0 } := by
  obtain ⟨heap, hinsert, rfl⟩ := map_eq_ok h
  have hsame : ∀ u, u ≠ t → Function.update (queue.create t when alarm).heap.timers t
      { (queue.create t when alarm).heap.timers t with id := queue.nextId + 1 } u =
        queue.heap.timers u := by
    intro u hu
    simp [TimerQueue.create, Function.update_of_ne hu]
  obtain ⟨hindexed, hstores, htimers⟩ := insert_fresh hidx hnew hsame hinsert
  refine ⟨hindexed, hstores, (htimers t).trans ?_, fun u hu => (htimers u).trans ?_⟩
  · simp [TimerQueue.create]
  · simp only [hsame u hu]

theorem ensures_addTimer (hidx : sim.timerQueue.heap.Indexed) (hnew : ¬ sim.Armed t)
    {when : Int} {alarm : WakeType} :
    Ensures links stuck (addTimer t when alarm)
      (fun _ sim' a' => a' = a ∧ TimerChange sim sim' t True ∧
        (sim'.timerQueue.heap.timers t).when = when ∧
        (sim'.timerQueue.heap.timers t).alarm = alarm) sim a := by
  unfold addTimer
  refine ensures_get (Ensures.bind
    (P := fun queue sim' a' => sim' = sim ∧ a' = a ∧
      (sim.timerQueue.create t when alarm).add t = .ok queue) ?_ ?_)
  · refine ensures_checked (fun queue hqueue => ⟨rfl, rfl, hqueue⟩) fun p hp => ?_
    rw [TimerQueue.add] at hp
    cases hinsert : TimerHeap.insert _ t with
    | error q =>
        rw [hinsert] at hp
        cases hp
        exact insert_error hinsert
    | ok heap =>
        rw [hinsert] at hp
        cases hp
  · rintro queue _ _ ⟨rfl, rfl, hadd⟩
    obtain ⟨hindexed, hstores, hself, hothers⟩ := add_fresh hidx hnew hadd
    refine ⟨rfl, ⟨rfl, hindexed, iff_of_true ((hstores t).mpr (Or.inl rfl)) trivial, ?_⟩,
      (Timer.mk.inj hself).1, (Timer.mk.inj hself).2.2.2⟩
    exact fun u hu => ⟨(hstores u).trans (or_iff_right hu), hothers u hu⟩

/-- `timer_queue_.Remove` of a timer that is in the queue. -/
theorem ensures_removeTimer (hidx : sim.timerQueue.heap.Indexed) (ht : sim.Armed t) :
    Ensures links stuck (removeTimer t)
      (fun r sim' a' => r = true ∧ a' = a ∧ TimerChange sim sim' t False) sim a := by
  obtain ⟨heap, hremove, -, hindexed, hstores, htimers⟩ := TimerHeap.remove_spec hidx ht
  have hqueue : sim.timerQueue.remove t = .ok (true, { sim.timerQueue with heap }) := by
    rw [TimerQueue.remove, if_pos (hidx.isActive ht), hremove]
    rfl
  unfold removeTimer
  refine ensures_get ?_
  rw [hqueue]
  refine ⟨rfl, rfl, rfl, hindexed, iff_of_false ?_ id, fun u hu => ?_⟩
  · exact fun harmed => ((hstores t).mp harmed).1 rfl
  · exact ⟨(hstores u).trans (and_iff_right hu), htimers u⟩

theorem ensures_cancelTimer (hidx : sim.timerQueue.heap.Indexed) (ht : sim.Armed t) :
    Ensures links stuck (cancelTimer t)
      (fun _ sim' a' => a' = a ∧ TimerChange sim sim' t False) sim a := by
  unfold cancelTimer
  refine (ensures_removeTimer hidx ht).bind ?_
  rintro _ sim' a' ⟨rfl, hsame, hchange⟩
  exact ⟨hsame, hchange⟩

end Kernel

end TwistSim
