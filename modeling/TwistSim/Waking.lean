/-
Waking a thread: whoever does it, the thread leaves its futex and its timer behind
and goes to the scheduler, and nobody else notices.
-/
import TwistSim.Placement

namespace TwistSim

open Effect
open Sim (Linked Placed Untouched Place Runs)

/-! ### One thread moves -/

/-- Only thread `t` may have changed its place. -/
structure Sim.Moves (sim : Sim) (a : Holdings) (sim' : Sim) (a' : Holdings)
    (t : ThreadId) : Prop where
  others : ∀ u, u ≠ t → sim.Untouched a sim' a' u
  alive : sim'.alive = sim.alive
  count : sim'.memory.threadCount = sim.memory.threadCount
  ticks : sim'.ticks = sim.ticks
  params : sim'.params = sim.params

/-- The thread is with nobody. -/
structure Sim.Detached (sim : Sim) (a : Holdings) (t : ThreadId) : Prop where
  alive : t ∈ sim.alive
  owned : t ∉ a.owned
  waiting : ∀ key, t ∉ sim.waiters a key
  armed : ¬ sim.Armed t

/-- The record of a thread that the scheduler may have. -/
structure Thread.Free (thread : Thread) : Prop where
  state : thread.state.Ready
  futex : thread.futex = none
  timer : thread.timer = false

namespace Sim

variable {sim sim' sim'' : Sim} {a a' a'' : Holdings} {t u : ThreadId} {key : FutexKey}
  {running inHand : Option ThreadId}

theorem Moves.refl (sim : Sim) (a : Holdings) (t : ThreadId) : sim.Moves a sim a t :=
  ⟨fun u _ => Untouched.refl sim a u, rfl, rfl, rfl, rfl⟩

theorem Moves.trans (h : sim.Moves a sim' a' t) (h' : sim'.Moves a' sim'' a'' t) :
    sim.Moves a sim'' a'' t where
  others u hu := (h.others u hu).trans (h'.others u hu)
  alive := h'.alive.trans h.alive
  count := h'.count.trans h.count
  ticks := h'.ticks.trans h.ticks
  params := h'.params.trans h.params

theorem Moves.now (h : sim.Moves a sim' a' t) : sim'.now = sim.now := by
  rw [Sim.now, Sim.now, h.ticks, h.params]

theorem moves_setThread (sim : Sim) (a : Holdings) (t : ThreadId) (thread : Thread) :
    sim.Moves a (sim.setThread t thread) a t where
  others _ hu :=
    ⟨Iff.rfl, Function.update_of_ne hu _ _, Iff.rfl, fun _ => Iff.rfl, Iff.rfl, rfl⟩
  alive := rfl
  count := rfl
  ticks := rfl
  params := rfl

theorem setThread_self (sim : Sim) (t : ThreadId) (thread : Thread) :
    (sim.setThread t thread).threads t = thread := Function.update_self _ _ _

theorem moves_of_queueChange {waiters : Multiset ThreadId}
    (h : Kernel.QueueChange sim a sim' a' key waiters)
    (hwaiters : ∀ u, u ≠ t → (u ∈ waiters ↔ u ∈ sim.waiters a key)) :
    sim.Moves a sim' a' t where
  others u hu := h.untouched (hwaiters u hu)
  alive := h.alive
  count := by rw [h.memory]
  ticks := h.rest.eq Sim.ticks
  params := h.rest.eq Sim.params

theorem moves_of_timerChange {armed : Prop} (h : Kernel.TimerChange sim sim' t armed) :
    sim.Moves a sim' a t where
  others u hu := h.untouched hu
  alive := h.eq Sim.alive
  count := by rw [h.eq Sim.memory]
  ticks := h.eq Sim.ticks
  params := h.eq Sim.params

/-- The places of the others after a move. -/
theorem Moves.place (h : sim.Moves a sim' a' t) (hplaced : sim.Placed running inHand a)
    (hhand : inHand = none ∨ inHand = some t) (ht : running ≠ some t)
    (hslot : running ≠ none → a'.slot = a.slot) :
    (∀ u ∈ sim'.alive, running ≠ some u → u ≠ t → sim'.Place a' u) ∧
      ∀ u, running = some u → sim'.Runs a' u := by
  constructor
  · intro u hu hrun hne
    refine (h.others u hne).place (hplaced.place u (h.alive ▸ hu) hrun ?_)
    rcases hhand with rfl | rfl
    · nofun
    · exact fun heq => hne (Option.some.inj heq).symm
  · intro u hrun
    have hruns := hplaced.runs u hrun
    have hsame := h.others u fun heq => ht (heq ▸ hrun)
    refine ⟨hsame.alive.mpr hruns.alive, fun hmem => hruns.owned (hsame.owned.mp hmem),
      ?_, ?_, ?_, (hslot (hrun ▸ nofun)).trans hruns.slot⟩
    · rw [hsame.thread, hruns.state]
    · rw [hsame.thread, hruns.futex]
    · rw [hsame.thread, hruns.timer]

/-- The thread in hand moves. -/
theorem Placed.moves (h : sim.Placed running inHand a)
    (hhand : inHand = none ∨ inHand = some t) (ht : t ∈ sim.alive)
    (hrun : running ≠ some t) (hmoves : sim.Moves a sim' a' t)
    (hfiled : Filed sim'.futex a' (sim'.waiters a'))
    (hindexed : sim'.timerQueue.heap.Indexed)
    (howned : ∀ u ∈ a'.owned, u = t ∨ u ∈ a.owned) (hslot : a'.slot = a.slot) :
    sim'.Placed running (some t) a' := by
  obtain ⟨hplace, hruns⟩ := hmoves.place h hhand hrun fun _ => hslot
  refine ⟨?_, fun u hu hne hnot => hplace u hu hne ?_, hruns⟩
  · exact h.toLinked.change ht hhand hfiled hindexed hmoves.alive hmoves.count howned
      hmoves.others (Or.inl rfl)
  · exact fun heq => hnot (heq ▸ rfl)

/-- The thread in hand has found a place. -/
theorem Placed.settle (h : sim.Placed running (some t) a) (ht : t ∈ sim.alive)
    (hplace : sim.Place a t) (hfutex : ∀ key,
      t ∈ sim.waiters a key ↔ (sim.threads t).futex = some key)
    (htimer : sim.Armed t ↔ (sim.threads t).timer = true) : sim.Placed running none a := by
  refine ⟨?_, fun u hu hne _ => ?_, h.runs⟩
  · exact h.toLinked.change ht (Or.inr rfl) h.filed h.indexed rfl rfl
      (fun _ hu => Or.inr hu) (fun u _ => Untouched.refl sim a u)
      (Or.inr ⟨rfl, hfutex, htimer⟩)
  · by_cases hut : u = t
    · exact hut ▸ hplace
    · exact h.place u hu hne fun heq => hut (Option.some.inj heq).symm

/-- The thread was woken with a status. -/
structure Awakened (sim : Sim) (a : Holdings) (sim' : Sim) (a' : Holdings) (t : ThreadId)
    (status : CallStatus) : Prop where
  moves : sim.Moves a sim' a' t
  thread : sim'.threads t =
    { sim.threads t with
      state := .runnable, futex := none, timer := false, waiter := none, status := status }
  owned : t ∈ a'.owned

/-- A detached thread may be handed to the scheduler. -/
theorem Linked.loose (h : sim.Linked inHand a) (ht : sim.Detached a t) :
    Ledger.Loose (sim.waiters a) a.owned t where
  valid := ⟨(h.known t ht.alive).1, Nat.le_trans (h.known t ht.alive).2 h.count⟩
  running := ht.owned
  waiting := ht.waiting

/-- The running thread stops. -/
theorem Placed.stop (h : sim.Placed (some t) none a) :
    sim.Placed none (some t) a ∧ sim.Detached a t := by
  have hruns := h.runs t rfl
  refine ⟨⟨?_, fun u hu _ hne => h.place u hu hne nofun, nofun⟩, hruns.alive, hruns.owned,
    fun key hmem => ?_, fun harmed => ?_⟩
  · exact { h.toLinked with
      futex := fun u hu _ => h.futex u hu nofun
      timer := fun u hu _ => h.timer u hu nofun }
  · have hkey := (h.futex t hruns.alive nofun key).mp hmem
    rw [hruns.futex] at hkey
    cases hkey
  · have htimer := (h.timer t hruns.alive nofun).mp harmed
    rw [hruns.timer] at htimer
    cases htimer

/-- The thread in hand runs. -/
theorem Placed.run (h : sim.Placed none (some t) a) (ht : sim.Detached a t)
    (hfree : (sim.threads t).Free) (hstate : (sim.threads t).state = .running)
    (hslot : a.slot = false) : sim.Placed (some t) none a := by
  refine ⟨?_, fun u hu hne _ => h.place u hu nofun hne, ?_⟩
  · refine h.toLinked.change ht.alive (Or.inr rfl) h.filed h.indexed rfl rfl
      (fun _ hu => Or.inr hu) (fun u _ => Untouched.refl sim a u) (Or.inr ⟨rfl, ?_, ?_⟩)
    · refine fun key => iff_of_false (ht.waiting key) ?_
      rw [hfree.futex]
      nofun
    · refine iff_of_false ht.armed ?_
      rw [hfree.timer]
      nofun
  · intro u hu
    cases hu
    exact ⟨ht.alive, ht.owned, hstate, hfree.futex, hfree.timer, hslot⟩

/-- The thread in hand goes to the scheduler. -/
theorem Placed.hand (h : sim.Placed running (some t) a) (ht : sim.Detached a t)
    (hrun : running ≠ some t) (hfree : (sim.threads t).Free) (htakes : a.Takes a' t)
    (hslot : running ≠ none → a'.slot = a.slot) :
    sim.Placed running none a' ∧ sim.Moves a sim a' t ∧ t ∈ a'.owned := by
  have hloose := h.loose ht
  have hfiled : Filed sim.futex a' (sim.waiters a) := h.filed.takes htakes hloose
  have hwaiters : sim.waiters a' = sim.waiters a := Kernel.waiters_eq hfiled
  have hmem : ∀ u, u ∈ a'.owned ↔ u = t ∨ u ∈ a.owned := fun u => by
    rw [htakes.owned, Multiset.mem_cons]
  have howned : t ∈ a'.owned := (hmem t).mpr (Or.inl rfl)
  have hmoves : sim.Moves a sim a' t := by
    refine ⟨fun u hu => ?_, rfl, rfl, rfl, rfl⟩
    refine ⟨Iff.rfl, rfl, (hmem u).trans (or_iff_right hu), fun key => ?_, Iff.rfl, rfl⟩
    rw [hwaiters]
  obtain ⟨hplace, hruns⟩ := hmoves.place h (Or.inr rfl) hrun hslot
  refine ⟨⟨?_, fun u hu hne _ => ?_, hruns⟩, hmoves, howned⟩
  · refine h.toLinked.change ht.alive (Or.inr rfl) (hwaiters.symm ▸ hfiled) h.indexed rfl rfl
      (fun u hu => (hmem u).mp hu) hmoves.others (Or.inr ⟨rfl, fun key => ?_, ?_⟩)
    · rw [hwaiters, hfree.futex]
      exact iff_of_false (ht.waiting key) nofun
    · rw [hfree.timer]
      exact iff_of_false ht.armed nofun
  · by_cases hut : u = t
    · subst hut
      exact Place.held howned hfree.state hfree.futex hfree.timer
    · exact hplace u hu hne hut

end Sim

namespace Kernel

variable {links : Links} {stuck : Prop} {sim : Sim} {a : Holdings} {t : ThreadId}
  {running inHand : Option ThreadId}

/-- The thread in hand is handed to the scheduler. -/
theorem ensures_hand {q : Query} {post : q.Reply → Sim → Holdings → Prop}
    (h : sim.Placed running (some t) a) (ht : sim.Detached a t) (hrun : running ≠ some t)
    (hfree : (sim.threads t).Free) (hqueue : q.onQueue = false)
    (hpre : a.Lacks t → a.pre (sim.view, q)) (hallowed : a.allowed true (sim.view, q))
    (htakes : ∀ r a', a.post (sim.view, q) r a' →
      a.Takes a' t ∧ (running ≠ none → a'.slot = a.slot))
    (hpost : ∀ r a', sim.Placed running none a' → sim.Moves a sim a' t → t ∈ a'.owned →
      post r sim a') :
    Ensures links stuck (query q) post sim a := by
  have hlacks := h.filed.unknown (h.loose ht)
  refine ensures_query h.filed.sound (hpre hlacks.1) hqueue hallowed fun r a' hgrants => ?_
  obtain ⟨htakes, hslot⟩ := htakes r a' hgrants.post
  obtain ⟨hplaced, hmoves, howned⟩ := h.hand ht hrun hfree htakes hslot
  exact hpost r a' hplaced hmoves howned

theorem ensures_scheduleWaiter (h : sim.Placed running (some t) a)
    (ht : sim.Detached a t) (hrun : running ≠ some t) (hfree : (sim.threads t).Free)
    (status : CallStatus) :
    Ensures links stuck (scheduleWaiter t status)
      (fun _ sim' a' => sim'.Placed running none a' ∧ sim.Moves a sim' a' t ∧
        sim'.threads t = { sim.threads t with status } ∧ t ∈ a'.owned) sim a := by
  let thread : Thread := { sim.threads t with status }
  unfold scheduleWaiter
  refine Ensures.bind (P := fun _ sim' a' => sim' = sim.setThread t thread ∧ a' = a)
    ⟨rfl, rfl⟩ ?_
  rintro _ _ a ⟨rfl, rfl⟩
  have hself := Sim.setThread_self sim t thread
  have hmoves := Sim.moves_setThread sim a t thread
  have hplaced : (sim.setThread t thread).Placed running (some t) a :=
    h.moves (Or.inr rfl) ht.alive hrun hmoves h.filed h.indexed (fun _ hu => Or.inr hu) rfl
  have hfree' : ((sim.setThread t thread).threads t).Free := by
    rw [hself]
    exact ⟨hfree.state, hfree.futex, hfree.timer⟩
  have hdetached : (sim.setThread t thread).Detached a t :=
    ⟨ht.alive, ht.owned, ht.waiting, ht.armed⟩
  refine ensures_hand hplaced hdetached hrun hfree' rfl id trivial
    (fun _ _ hpost => ⟨hpost.1, fun _ => hpost.2⟩) fun _ a' hplaced' hmoves' howned => ?_
  exact ⟨hplaced', hmoves.trans hmoves', hself, howned⟩

/-- The end of `Wake`: the thread is runnable and goes to the scheduler. -/
theorem ensures_release (h : sim.Placed running (some t) a) (ht : sim.Detached a t)
    (hrun : running ≠ some t) (status : CallStatus) :
    Ensures links stuck
      (do
        modifyThread t fun thread =>
          { thread with state := .runnable, futex := none, timer := false, waiter := none }
        scheduleWaiter t status)
      (fun _ sim' a' => sim'.Placed running none a' ∧ sim.Awakened a sim' a' t status)
      sim a := by
  let thread : Thread :=
    { sim.threads t with state := .runnable, futex := none, timer := false, waiter := none }
  refine Ensures.bind (P := fun _ sim' a' => sim' = sim.setThread t thread ∧ a' = a)
    ⟨rfl, rfl⟩ ?_
  rintro _ _ a ⟨rfl, rfl⟩
  have hself := Sim.setThread_self sim t thread
  have hmoves := Sim.moves_setThread sim a t thread
  have hplaced : (sim.setThread t thread).Placed running (some t) a :=
    h.moves (Or.inr rfl) ht.alive hrun hmoves h.filed h.indexed (fun _ hu => Or.inr hu) rfl
  have hfree : ((sim.setThread t thread).threads t).Free := by
    rw [hself]
    exact ⟨Or.inr (Or.inl rfl), rfl, rfl⟩
  have hdetached : (sim.setThread t thread).Detached a t :=
    ⟨ht.alive, ht.owned, ht.waiting, ht.armed⟩
  refine (ensures_scheduleWaiter hplaced hdetached hrun hfree status).mono ?_
  rintro _ sim' a' ⟨hplaced', hmoves', hthread, howned⟩
  exact ⟨hplaced', hmoves.trans hmoves', hthread.trans (by rw [hself]), howned⟩

/-- `Wake` of the memory model does not fail. -/
theorem ensures_memoryWake (waker : ThreadId) (ht : t ≤ sim.memory.threadCount) :
    Ensures links stuck (onMemory' fun m => m.wake waker t)
      (fun _ sim' a' => a' = a ∧ sim' = { sim with memory := sim'.memory } ∧
        sim'.memory.threadCount = sim.memory.threadCount) sim a := by
  unfold onMemory' onMemory
  refine ensures_get ?_
  have hwake : ∃ m, sim.memory.wake waker t = .ok m ∧
      m.threadCount = sim.memory.threadCount := by
    unfold Memory.wake
    rw [Memory.tick_eq (by exact ht)]
    exact ⟨_, rfl, rfl⟩
  obtain ⟨m, hm, hcount⟩ := hwake
  dsimp only
  rw [hm]
  exact ⟨rfl, rfl, hcount⟩

/-- The reason is dealt with: the thread is detached, and its record is unchanged. -/
structure Ready (running : Option ThreadId) (sim : Sim) (a : Holdings) (sim' : Sim)
    (a' : Holdings) (t : ThreadId) : Prop where
  placed : sim'.Placed running (some t) a'
  detached : sim'.Detached a' t
  moves : sim.Moves a sim' a' t
  thread : sim'.threads t = sim.threads t

/-- `Wake` from a reason that has been dealt with. -/
theorem Ready.awakened {sim₁ sim₂ : Sim} {a₁ a₂ : Holdings} {status : CallStatus}
    (h : Ready running sim a sim₁ a₁ t) (h' : sim₁.Awakened a₁ sim₂ a₂ t status) :
    sim.Awakened a sim₂ a₂ t status := by
  refine ⟨h.moves.trans h'.moves, ?_, h'.owned⟩
  rw [h'.thread, h.thread]

/-- A waiter that has been taken out of its queue. -/
theorem ensures_reasonWake (waker : ThreadId) (h : sim.Placed running (some t) a)
    (hrun : running ≠ some t) (halive : t ∈ sim.alive) (howned : t ∉ a.owned)
    (hwaiting : ∀ key, t ∉ sim.waiters a key)
    (harmed : sim.Armed t ↔ (sim.threads t).timer = true) :
    Ensures links stuck (wakeReason (some waker) t .futexWake)
      (fun status sim' a' => status = .ok ∧ Ready running sim a sim' a' t) sim a := by
  unfold wakeReason
  refine (ensures_memoryWake waker (h.known t halive).2).bind ?_
  rintro _ sim₁ a ⟨rfl, hsim₁, hcount⟩
  have hmoves : sim.Moves a sim₁ a t := by
    rw [hsim₁]
    exact ⟨fun u _ => ⟨Iff.rfl, rfl, Iff.rfl, fun _ => Iff.rfl, Iff.rfl, rfl⟩, rfl,
      hcount, rfl, rfl⟩
  have hplaced : sim₁.Placed running (some t) a := by
    refine h.moves (Or.inr rfl) halive hrun hmoves ?_ ?_ (fun u hu => Or.inr hu) rfl
    · rw [hsim₁]
      exact h.filed
    · rw [hsim₁]
      exact h.indexed
  refine ensures_get ?_
  have hthread : sim₁.threads t = sim.threads t := by rw [hsim₁]
  have halive₁ : t ∈ sim₁.alive := by rw [hsim₁]; exact halive
  have hwaiting₁ : ∀ key, t ∉ sim₁.waiters a key := by rw [hsim₁]; exact hwaiting
  have harmed₁ : sim₁.Armed t ↔ (sim₁.threads t).timer = true := by
    rw [hsim₁]
    exact harmed
  split
  · rename_i htimer
    refine (ensures_cancelTimer hplaced.indexed (harmed₁.mpr htimer)).bind ?_
    rintro _ sim₂ a ⟨rfl, hchange⟩
    have hmoves₂ : sim₁.Moves a sim₂ a t := Sim.moves_of_timerChange hchange
    refine ⟨rfl, ?_, ?_, hmoves.trans hmoves₂, ?_⟩
    · refine hplaced.moves (Or.inr rfl) halive₁ hrun hmoves₂ ?_ hchange.indexed
        (fun u hu => Or.inr hu) rfl
      rw [hchange.waiters, hchange.eq Sim.futex]
      exact hplaced.filed
    · refine ⟨hmoves₂.alive ▸ halive₁, howned, fun key => ?_, hchange.self.mp⟩
      rw [hchange.waiters]
      exact hwaiting₁ key
    · rw [hchange.eq Sim.threads, ← hthread]
  · rename_i htimer
    refine ⟨rfl, hplaced, ⟨halive₁, howned, hwaiting₁, ?_⟩, hmoves, hthread⟩
    exact fun hstored => htimer (harmed₁.mp hstored)

/-- A waiter whose timer has fired. -/
theorem ensures_reasonTimer {key : FutexKey} (h : sim.Placed running (some t) a)
    (hrun : running ≠ some t) (halive : t ∈ sim.alive)
    (hfutex : (sim.threads t).futex = some key) (hwaits : t ∈ sim.waiters a key)
    (harmed : ¬ sim.Armed t) :
    Ensures links stuck (wakeReason none t .futexTimer)
      (fun status sim' a' => status = .timeout ∧ Ready running sim a sim' a' t) sim a := by
  unfold wakeReason
  refine ensures_get ?_
  simp only [hfutex]
  refine (ensures_waitQueueRemove h.filed hwaits).bind ?_
  intro _ sim₁ a₁ hchange
  have hmoves : sim.Moves a sim₁ a₁ t := Sim.moves_of_queueChange hchange fun u hu =>
    Multiset.mem_erase_of_ne hu
  refine ⟨rfl, ?_, ⟨hmoves.alive ▸ halive, ?_, fun k => ?_, ?_⟩, hmoves,
    congrFun hchange.threads t⟩
  · refine h.moves (Or.inr rfl) halive hrun hmoves hchange.filed ?_ (fun u hu => Or.inr ?_)
      hchange.slot
    · rw [hchange.timerQueue]
      exact h.indexed
    · rwa [hchange.runs.owned] at hu
  · rw [hchange.runs.owned]
    exact (h.filed.apart key).running t hwaits
  · rw [hchange.waiters]
    exact (h.filed.apart.loose hwaits).waiting k
  · rw [Sim.Armed, hchange.timerQueue]
    exact harmed

/-- A sleeper whose timer has fired. -/
theorem ensures_reasonSleep (h : sim.Placed running (some t) a)
    (hdetached : sim.Detached a t) :
    Ensures links stuck (wakeReason none t .sleepTimer)
      (fun status sim' a' => status = .ok ∧ Ready running sim a sim' a' t) sim a :=
  ⟨rfl, h, hdetached, Sim.Moves.refl sim a t, rfl⟩

/-- `Wake`, when the reason can be dealt with. -/
theorem ensures_wake {waker : Option ThreadId} {type : WakeType} {status : CallStatus}
    (hstate : (sim.threads t).state = .parked ∨ (sim.threads t).state = .sleeping)
    (hrun : running ≠ some t)
    (hreason : Ensures links stuck (wakeReason waker t type)
      (fun status' sim' a' => status' = status ∧ Ready running sim a sim' a' t) sim a) :
    Ensures links stuck (wake waker t type)
      (fun _ sim' a' => sim'.Placed running none a' ∧ sim.Awakened a sim' a' t status)
      sim a := by
  unfold wake
  refine ensures_get ?_
  dsimp only
  rw [if_neg]
  · refine hreason.bind ?_
    rintro _ sim₁ a₁ ⟨rfl, hready⟩
    refine (ensures_release hready.placed hready.detached hrun _).mono ?_
    exact fun _ sim₂ a₂ ⟨hplaced, hawakened⟩ => ⟨hplaced, hready.awakened hawakened⟩
  · rintro ⟨hparked, hsleeping⟩
    rcases hstate with hstate | hstate
    · exact hparked hstate
    · exact hsleeping hstate

end Kernel

/-! ### Alarms -/

namespace Sim

variable {sim sim' sim'' : Sim} {a a' a'' : Holdings} {t u : ThreadId}
  {running inHand : Option ThreadId}

/-- What a thread finds out when its timer wakes it. -/
def alarmStatus (thread : Thread) : CallStatus :=
  if thread.state = .parked then .timeout else .ok

/-- The timer of the thread was due and has woken it. -/
structure Alarmed (sim : Sim) (sim' : Sim) (a' : Holdings) (t : ThreadId) : Prop where
  armed : sim.Armed t
  due : (sim.timerQueue.heap.timers t).when ≤ sim.now
  thread : sim'.threads t =
    { sim.threads t with
      state := .runnable, futex := none, timer := false, waiter := none,
      status := alarmStatus (sim.threads t) }
  owned : t ∈ a'.owned

/-- Some timers that were due have woken their threads. -/
structure Alarms (sim : Sim) (a : Holdings) (sim' : Sim) (a' : Holdings) : Prop where
  fate : ∀ u, sim.Untouched a sim' a' u ∨ sim.Alarmed sim' a' u
  alive : sim'.alive = sim.alive
  count : sim'.memory.threadCount = sim.memory.threadCount
  ticks : sim'.ticks = sim.ticks
  params : sim'.params = sim.params

theorem Alarms.refl (sim : Sim) (a : Holdings) : sim.Alarms a sim a :=
  ⟨fun u => Or.inl (Untouched.refl sim a u), rfl, rfl, rfl, rfl⟩

theorem Alarms.now (h : sim.Alarms a sim' a') : sim'.now = sim.now := by
  rw [Sim.now, Sim.now, h.ticks, h.params]

/-- A thread that is untouched first and alarmed then. -/
theorem Alarmed.after (h : sim.Untouched a sim' a' u) (hnow : sim'.now = sim.now)
    (h' : sim'.Alarmed sim'' a'' u) : sim.Alarmed sim'' a'' u := by
  refine ⟨h.armed.mp h'.armed, ?_, ?_, h'.owned⟩
  · rw [← h.when, ← hnow]
    exact h'.due
  · rw [h'.thread, h.thread]

/-- One alarm, and the alarms after it. -/
theorem Alarms.cons (hmoves : sim.Moves a sim' a' t) (halarmed : sim.Alarmed sim' a' t)
    (harmed : ¬ sim'.Armed t) (h : sim'.Alarms a' sim'' a'') :
    sim.Alarms a sim'' a'' where
  fate u := by
    by_cases hut : u = t
    · subst hut
      refine Or.inr ?_
      obtain huntouched | halarmed' := h.fate u
      · exact ⟨halarmed.armed, halarmed.due, huntouched.thread.trans halarmed.thread,
          huntouched.owned.mpr halarmed.owned⟩
      · exact absurd halarmed'.armed harmed
    · have hsame := hmoves.others u hut
      rcases h.fate u with huntouched | halarmed'
      · exact Or.inl (hsame.trans huntouched)
      · exact Or.inr (Alarmed.after hsame hmoves.now halarmed')
  alive := h.alive.trans hmoves.alive
  count := h.count.trans hmoves.count
  ticks := h.ticks.trans hmoves.ticks
  params := h.params.trans hmoves.params

/-- A thread with an active timer sleeps or waits. -/
theorem Placed.of_armed (h : sim.Placed running none a) (ht : sim.Armed t) :
    t ∈ sim.alive ∧ running ≠ some t ∧ sim.Place a t := by
  have halive : t ∈ sim.alive := by
    by_contra hgone
    exact (h.gone t hgone).2 ht
  have htimer := (h.timer t halive nofun).mp ht
  have hrun : running ≠ some t := by
    intro hrun
    rw [(h.runs t hrun).timer] at htimer
    cases htimer
  exact ⟨halive, hrun, h.place t halive hrun nofun⟩

/-- What the scheduler has may run. -/
theorem Placed.ready (h : sim.Placed running none a) (ht : t ∈ sim.alive)
    (hrun : running ≠ some t) (howned : t ∈ a.owned) : (sim.threads t).state.Ready := by
  cases h.place t ht hrun nofun with
  | held _ hstate _ _ => exact hstate
  | parked hnone _ _ _ => exact absurd howned hnone
  | sleeping hnone _ _ _ _ => exact absurd howned hnone

theorem Placed.waits (h : sim.Placed running none a) (ht : t ∈ sim.alive) {key : FutexKey}
    (hfutex : (sim.threads t).futex = some key) : t ∈ sim.waiters a key :=
  (h.futex t ht nofun key).mpr hfutex

theorem Placed.not_waits (h : sim.Placed running none a) (ht : t ∈ sim.alive)
    (hfutex : (sim.threads t).futex = none) (key : FutexKey) : t ∉ sim.waiters a key := by
  intro hmem
  have hkey := (h.futex t ht nofun key).mp hmem
  rw [hfutex] at hkey
  cases hkey

end Sim

namespace Kernel

variable {links : Links} {stuck : Prop} {sim : Sim} {a : Holdings} {running : Option ThreadId}

/-- The first timer leaves the queue. -/
theorem timerChange_poll {t : ThreadId} {queue : TimerQueue ThreadId}
    (hidx : sim.timerQueue.heap.Indexed)
    (hpoll : sim.timerQueue.poll sim.now = (some t, queue)) :
    TimerChange sim { sim with timerQueue := queue } t False ∧ sim.Armed t ∧
      (sim.timerQueue.heap.timers t).when ≤ sim.now ∧
      (queue.heap.timers t).alarm = (sim.timerQueue.heap.timers t).alarm := by
  obtain ⟨hpos, htree, hdue, rfl⟩ := TimerQueue.poll_some hpoll
  obtain ⟨u, hroot, hstores, -, -, hindexed, hstores', htimers⟩ :=
    TimerHeap.extractMin_spec hidx hpos
  obtain rfl : t = u := Option.some.inj (htree.symm.trans hroot)
  refine ⟨⟨rfl, hindexed, ?_, fun u hu => ⟨?_, htimers u⟩⟩, hstores, hdue,
    (Timer.mk.inj (htimers t)).2.2.2⟩
  · exact iff_of_false (fun harmed => ((hstores' t).mp harmed).1 rfl) id
  · exact (hstores' u).trans (and_iff_right hu)

/-- `Alarm` of the timer of `t`. -/
theorem ensures_alarm {t : ThreadId} {queue : TimerQueue ThreadId}
    (h : sim.Placed running none a)
    (hpoll : sim.timerQueue.poll sim.now = (some t, queue)) :
    Ensures links stuck (wake none t (queue.heap.timers t).alarm)
      (fun _ sim' a' => sim'.Placed running none a' ∧ sim.Moves a sim' a' t ∧
        sim.Alarmed sim' a' t) { sim with timerQueue := queue } a := by
  obtain ⟨hchange, harmed, hdue, halarm⟩ := timerChange_poll h.indexed hpoll
  obtain ⟨halive, hrun, hplace⟩ := h.of_armed harmed
  have hmoves : sim.Moves a { sim with timerQueue := queue } a t :=
    Sim.moves_of_timerChange hchange
  have hplaced : Sim.Placed running (some t) { sim with timerQueue := queue } a :=
    h.moves (Or.inl rfl) halive hrun hmoves h.filed hchange.indexed (fun _ hu => Or.inr hu) rfl
  have hgone : ¬ Sim.Armed { sim with timerQueue := queue } t := hchange.self.mp
  rw [halarm]
  have hfinish : ∀ {status : CallStatus} {type : WakeType},
      (sim.threads t).state = .parked ∨ (sim.threads t).state = .sleeping →
      Sim.alarmStatus (sim.threads t) = status →
      Ensures links stuck (wakeReason none t type)
        (fun status' sim' a' => status' = status ∧
          Ready running { sim with timerQueue := queue } a sim' a' t)
        { sim with timerQueue := queue } a →
      Ensures links stuck (wake none t type)
        (fun _ sim' a' => sim'.Placed running none a' ∧ sim.Moves a sim' a' t ∧
          sim.Alarmed sim' a' t) { sim with timerQueue := queue } a := by
    intro status type hstate hstatus hreason
    have hwake := @ensures_wake links stuck { sim with timerQueue := queue } a t running none type
      status hstate hrun hreason
    refine hwake.mono fun _ sim' a' ⟨hplaced', hawakened⟩ => ?_
    refine ⟨hplaced', hmoves.trans hawakened.moves, harmed, hdue, ?_, hawakened.owned⟩
    rw [hawakened.thread, hstatus]
  cases hplace with
  | held howned hstate hfutex htimer =>
      rw [(h.timer t halive nofun).mp harmed] at htimer
      cases htimer
  | parked howned hstate hfutex hkind =>
      rw [hkind harmed]
      refine hfinish (Or.inl hstate) (if_pos hstate) ?_
      exact ensures_reasonTimer hplaced hrun halive hfutex (h.waits halive hfutex) hgone
  | sleeping howned hstate hfutex htimer hkind =>
      rw [hkind]
      refine hfinish (Or.inr hstate) (if_neg fun heq => ?_) ?_
      · rw [hstate] at heq
        cases heq
      · exact ensures_reasonSleep hplaced ⟨halive, howned, h.not_waits halive hfutex, hgone⟩

/-- By induction on the number of timers that may fire. -/
theorem ensures_pollTimersLoop (fuel : Nat) (h : sim.Placed running none a) :
    Ensures links stuck (pollTimersLoop fuel)
      (fun r sim' a' => sim'.Placed running none a' ∧ sim.Alarms a sim' a' ∧
        (r = false → sim' = sim ∧ a' = a)) sim a := by
  induction fuel generalizing sim a with
  | zero => exact ⟨h, Sim.Alarms.refl sim a, fun _ => ⟨rfl, rfl⟩⟩
  | succ fuel ih =>
      unfold pollTimersLoop
      refine ensures_get ?_
      split
      · exact ⟨h, Sim.Alarms.refl sim a, fun _ => ⟨rfl, rfl⟩⟩
      · rename_i t queue hpoll
        refine Ensures.bind (P := fun _ sim' a' => sim' = { sim with timerQueue := queue } ∧
          a' = a) ⟨rfl, rfl⟩ ?_
        rintro _ _ a ⟨rfl, rfl⟩
        refine (ensures_alarm h hpoll).bind fun _ sim₁ a₁ ⟨hplaced, hmoves, halarmed⟩ => ?_
        refine (ih hplaced).bind fun _ sim₂ a₂ ⟨hplaced₂, halarms, _⟩ => ?_
        refine ⟨hplaced₂, ?_, nofun⟩
        refine Sim.Alarms.cons hmoves halarmed (fun harmed => ?_) halarms
        have htimer := (hplaced.timer t (hplaced.of_armed harmed).1 nofun).mp harmed
        rw [halarmed.thread] at htimer
        cases htimer

theorem ensures_pollTimers (h : sim.Placed running none a) :
    Ensures links stuck pollTimers
      (fun r sim' a' => sim'.Placed running none a' ∧ sim.Alarms a sim' a' ∧
        (r = false → sim' = sim ∧ a' = a)) sim a := by
  unfold pollTimers
  exact ensures_get (ensures_pollTimersLoop _ h)

end Kernel

end TwistSim
