/-
One turn of the loop, as far as the places of the threads are concerned: the call of
the running thread, or the next iteration.
-/
import TwistSim.Burning
import TwistSim.RunLoop

namespace TwistSim

open Effect
open Sim (Linked Placed Untouched Place Runs Detached Moves)

namespace Kernel

variable {α : Type} {links : Links} {stuck : Prop} {sim : Sim} {a : Holdings}
  {t me : ThreadId} {running : Option ThreadId}

/-! ### Calls -/

/-- What a call does, by its kind. -/
def Called (sim : Sim) (a : Holdings) (me : ThreadId) (r : Option Answer) (sim' : Sim)
    (a' : Holdings) : SysCall → Prop
  | .yield | .switchTo _ | .sync _ => Handed sim a me r sim' a'
  | .sleepFor delay => ∃ deadline,
      Time.after sim.params.tick delay sim.ticks = .ok deadline ∧
        Sleeps sim a me deadline r sim' a'
  | .sleepUntil deadline => Sleeps sim a me deadline r sim' a'
  | .futexWait loc old _ => Waits sim a me loc old none r sim' a'
  | .futexWaitTimed loc old deadline _ => Waits sim a me loc old (some deadline) r sim' a'
  | .futexWake loc count => Notifies sim a me loc count r sim' a'
  | .threadExit => Exits sim a me r sim' a'
  | _ => Answered sim a me r sim' a'

/-- The caller is resumed after a call that has woken nobody. -/
theorem ensures_resumed {m : KernelM α} {v : α → Int}
    (h : Ensures links stuck m (fun _ sim' a' => sim'.Placed (some me) none a' ∧
      sim.Wakes a sim' a' me 0) sim a) :
    Ensures links stuck (m >>= fun x => resume me (v x)) (Answered sim a me) sim a := by
  refine h.bind fun x sim₁ a₁ ⟨hplaced, hwakes⟩ => ?_
  refine (ensures_resume (v x)).mono ?_
  rintro _ sim₂ a₂ ⟨rfl, hsame⟩
  exact ⟨hplaced.samePlaces hsame.toSamePlaces, nofun, hwakes.resumed (Multiset.notMem_zero me) hsame⟩

theorem ensures_sysDetach {id : ThreadId} (h : sim.Placed (some me) none a) :
    Ensures links stuck (sysDetach id)
      (fun _ sim' a' => sim'.Placed (some me) none a' ∧ sim.Wakes a sim' a' me 0) sim a := by
  unfold sysDetach
  refine ensures_get ?_
  split
  · let thread : Thread := { sim.threads id with parentId := none }
    have hsame : sim.Unmoved a (sim.setThread id thread) a id :=
      Sim.unmoved_setThread ⟨rfl, rfl, rfl⟩
    refine ⟨h.samePlaces hsame.toSamePlaces, fun u hu hnot => absurd hu hnot,
      fun u _ _ _ _ => ?_, fun u hu => absurd hu (Multiset.notMem_zero u), rfl, rfl⟩
    refine ⟨hsame.role u, ?_, Iff.rfl, fun _ => Iff.rfl, Iff.rfl, rfl⟩
    by_cases hu : u = id
    · subst hu
      rw [Sim.setThread_self]
    · rw [hsame.others u hu]
  · exact ⟨h, Sim.wakes_of_moves (Moves.refl sim a me)⟩

/-- The caller gets its answer without leaving user space. -/
theorem ensures_inline {sim₀ : Sim} {a₀ : Holdings} (h : sim₀.Placed (some me) none a₀)
    (hsame : sim₀.Unmoved a₀ sim a me) (v : Int) :
    Ensures links stuck (inline v) (Answered sim₀ a₀ me) sim a :=
  answered_of_unmoved h hsame v

theorem ensures_handleSystemCall {stat : HeapStat} {call : SysCall}
    (h : sim.Placed (some me) none a) (hstuck : call = .abort .deadlock → stuck) :
    Ensures links stuck (handleSystemCall me stat call)
      (fun r sim' a' => Called sim a me r sim' a' call) sim a := by
  have hask : ∀ q : Query, q.onQueue = false → a.pre (sim.view, q) →
      a.allowed true (sim.view, q) → (∀ r a', a.post (sim.view, q) r a' → a.Keeps a') →
      Ensures links stuck (query q) (fun _ sim' a' => sim.Unmoved a sim' a' me) sim a :=
    fun _ hqueue hpre hallowed hkeeps => ensures_ask h hpre hqueue hallowed hkeeps
  have hsame := Sim.Unmoved.refl sim a me
  cases call with
  | noop => exact ensures_answered h (m := pure ()) hsame fun _ => 0
  | spawn => exact ensures_resumed (v := fun id : ThreadId => (id : Int)) (ensures_sysSpawn h)
  | getId => exact ensures_inline h hsame _
  | detach id => exact ensures_resumed (ensures_sysDetach h)
  | yield =>
      exact ensures_leave h hsame rfl (fun hlacks _ => hlacks) trivial
        fun _ _ hpost => hpost.1
  | switchTo target => exact ensures_sysSwitchTo h
  | sleepFor delay =>
      refine ensures_get ?_
      refine (ensures_checked (fun deadline hafter => ⟨rfl, rfl, hafter⟩) fun p hp => ?_ :
        Ensures links stuck _ (fun deadline sim' a' => sim' = sim ∧ a' = a ∧
          Time.after sim.params.tick delay sim.ticks = .ok deadline) sim a).bind ?_
      · unfold Time.after at hp
        dsimp only at hp
        split at hp
        · cases hp
        · cases hp
          decide
      · rintro deadline sim a ⟨rfl, rfl, hafter⟩
        exact (ensures_sysSleep h).mono fun _ _ _ hsleeps => ⟨deadline, hafter, hsleeps⟩
  | sleepUntil deadline => exact ensures_sysSleep h
  | sync action => exact ensures_sysSync h
  | accessNonAtomicVar access => exact ensures_answered h (ensures_sysAccessNonAtomicVar h) _
  | futexWait loc old ctx => exact ensures_sysFutexWait h
  | futexWaitTimed loc old deadline ctx => exact ensures_sysFutexWait h
  | futexWake loc count => exact ensures_sysFutexWake h
  | malloc addr size scope => exact ensures_answered h ensures_sysMalloc _
  | free addr => exact ensures_answered h ensures_sysFree _
  | now => exact ensures_get (ensures_inline h hsame _)
  | randomNumber =>
      exact ensures_answered h (hask .randomNumber rfl trivial trivial fun _ _ => keeps_of_eq) _
  | randomChoice alts =>
      simp only [handleSystemCall]
      split
      · exact ensures_panic (by decide)
      · split
        · exact ensures_inline h hsame _
        · exact ensures_answered h (hask (.randomChoice alts) rfl trivial trivial fun _ _ => keeps_of_eq) _
  | spuriousTryFailure =>
      exact ensures_answered h (hask .spuriousTryFailure rfl trivial trivial fun _ _ => keeps_of_eq) _
  | write fd buf => exact ensures_answered h ensures_sysWrite _
  | abort status => exact ensures_sysAbort h.toLinked fun heq => hstuck (heq ▸ rfl)
  | setThreadAttrPreemptive on =>
      refine ensures_get ?_
      exact Ensures.bind (P := fun _ sim' a' => sim.Unmoved a sim' a' me)
        (Sim.unmoved_setThread ⟨rfl, rfl, rfl⟩) fun _ _ _ hsame => ensures_inline h hsame _
  | setThreadAttrLockFree on =>
      refine ensures_get ?_
      refine Ensures.bind (P := fun _ sim' a' => sim.Unmoved a sim' a' me)
        (Sim.unmoved_setThread ⟨rfl, rfl, rfl⟩) fun _ sim₁ a₁ hsame => ?_
      refine (ensures_query (h.samePlaces hsame.toSamePlaces).filed.sound trivial rfl trivial
        (fun _ a' hgrants => hsame.trans
          { Sim.Unmoved.refl sim₁ a₁ me with keeps := hgrants.post }) :
        Ensures links stuck (query (.lockFree me on))
          (fun _ sim' a' => sim.Unmoved a sim' a' me) sim₁ a₁).bind ?_
      intro _ sim₂ a₂ hsame
      refine (ensures_resume _).mono ?_
      rintro _ sim₃ a₃ ⟨rfl, hsame'⟩
      exact answered_of_unmoved h (hsame.trans hsame') _
  | schedHintProgress =>
      exact ensures_answered h (hask (.progress me) rfl trivial trivial fun _ _ hpost => hpost) _
  | schedHintNewIter =>
      refine Ensures.bind (P := fun _ sim' a' => sim.Unmoved a sim' a' me)
        (Sim.unmoved_of_fields rfl rfl rfl rfl rfl rfl rfl) fun _ sim₁ a₁ hsame => ?_
      refine (ensures_query (h.samePlaces hsame.toSamePlaces).filed.sound trivial rfl trivial
        (fun _ a' hgrants => hsame.trans
          { Sim.Unmoved.refl sim₁ a₁ me with keeps := keeps_of_eq hgrants.post }) :
        Ensures links stuck (query .newIter)
          (fun _ sim' a' => sim.Unmoved a sim' a' me) sim₁ a₁).bind ?_
      intro _ sim₂ a₂ hsame
      refine (ensures_resume _).mono ?_
      rintro _ sim₃ a₃ ⟨rfl, hsame'⟩
      exact answered_of_unmoved h (hsame.trans hsame') _
  | isModelChecker =>
      exact (hask .isModelChecker rfl trivial trivial fun _ _ => keeps_of_eq).bind fun _ _ _ hsame =>
        ensures_inline h hsame _
  | threadExit => exact ensures_sysThreadExit h

theorem Called.placed {sim' : Sim} {a' : Holdings} {r : Option Answer} {call : SysCall}
    (h : Called sim a me r sim' a' call) : sim'.Placed (r.map fun _ => me) none a' := by
  cases call with
  | sleepFor delay =>
      obtain ⟨_, _, hsleeps⟩ := h
      exact hsleeps.placed
  | yield => exact Handed.placed h
  | switchTo target => exact Handed.placed h
  | sync action => exact Handed.placed h
  | sleepUntil deadline => exact Sleeps.placed h
  | futexWait loc old ctx => exact Waits.placed h
  | futexWaitTimed loc old deadline ctx => exact Waits.placed h
  | futexWake loc count => exact Notifies.placed h
  | threadExit => exact Exits.placed h
  | _ => exact Answered.placed h

/-- The caller that was answered is switched to. -/
theorem Called.switched {sim₁ sim' : Sim} {a₁ a' : Holdings} {x : Answer} {call : SysCall}
    (h : Called sim a me (some x) sim₁ a₁ call) (hsame : sim₁.Unmoved a₁ sim' a' me) :
    Called sim a me (some x) sim' a' call := by
  have hanswered : Answered sim a me (some x) sim₁ a₁ → Answered sim a me (some x) sim' a' :=
    fun h => ⟨h.placed.samePlaces hsame.toSamePlaces, h.returns,
      h.wakes.resumed (Multiset.notMem_zero me) hsame⟩
  cases call with
  | sleepFor delay =>
      obtain ⟨_, _, hsleeps⟩ := h
      exact nomatch hsleeps.leaves
  | yield => exact nomatch Handed.leaves h
  | switchTo target => exact nomatch Handed.leaves h
  | sync action => exact nomatch Handed.leaves h
  | sleepUntil deadline => exact nomatch Sleeps.leaves h
  | futexWait loc old ctx => exact nomatch Waits.leaves h
  | futexWaitTimed loc old deadline ctx => exact nomatch Waits.leaves h
  | futexWake loc count =>
      obtain ⟨hplaced, hreturns, halive, woken, hwakes, hle, hcount⟩ := h
      refine ⟨hplaced.samePlaces hsame.toSamePlaces, hreturns, hsame.alive.trans halive, woken,
        ?_, hle, hcount⟩
      refine hwakes.resumed (fun hmem => ?_) hsame
      have hfutex := (hwakes.woken me hmem).owned
      exact (hplaced.runs me rfl).owned hfutex
  | threadExit => exact nomatch Exits.leaves h
  | _ => exact hanswered h

/-- A call of the running thread, and where the loop goes on. -/
def CallTurn (sim : Sim) (a : Holdings) (me : ThreadId) (call : SysCall) (budget : Nat)
    (control : Control) (sim' : Sim) (a' : Holdings) : Prop :=
  ∃ r, Called sim a me r sim' a' call ∧
    control = match r with
      | some x => .run me (.answer x) budget
      | none => .head (budget - 1)

theorem ensures_stepSys {stat : HeapStat} {call : SysCall} {budget : Nat}
    (h : sim.Placed (some me) none a) (hstuck : call = .abort .deadlock → stuck) :
    Ensures links stuck (stepSys me stat call budget)
      (CallTurn sim a me call budget) sim a := by
  unfold stepSys
  refine (ensures_handleSystemCall h hstuck).bind fun r sim₁ a₁ hcalled => ?_
  cases r with
  | none => exact ⟨none, hcalled, rfl⟩
  | some x =>
      refine ⟨some x, hcalled.switched (Sim.unmoved_setThread ⟨?_, rfl, rfl⟩), rfl⟩
      exact (hcalled.placed.runs me rfl).state.symm

/-! ### Time passes -/

end Kernel

namespace Sim

variable {sim sim' sim'' : Sim} {a a' a'' : Holdings} {t u : ThreadId}

/-- The timer of the thread was due and has woken it. -/
structure Rings (sim sim' : Sim) (a' : Holdings) (u : ThreadId) : Prop where
  armed : sim.Armed u
  due : (sim.timerQueue.heap.timers u).when ≤ sim'.now
  roused : sim'.Roused a' u (alarmStatus (sim.threads u))

/-- Time has passed, and some timers have fired. -/
structure Passes (sim : Sim) (a : Holdings) (sim' : Sim) (a' : Holdings) : Prop where
  fate : ∀ u, sim.Stays a sim' a' u ∨ sim.Rings sim' a' u
  alive : sim'.alive = sim.alive
  params : sim'.params = sim.params

/-- Only the clock has moved. -/
theorem SamePlaces.stays (h : sim.SamePlaces a sim' a')
    (hthreads : sim'.threads = sim.threads) (u : ThreadId) : sim.Stays a sim' a' u where
  role := h.role u
  status := by rw [hthreads]
  owned := by rw [h.keeps.owned]
  waiting key := by rw [h.waiters]
  armed := by rw [Sim.Armed, Sim.Armed, h.timerQueue]
  timer := by rw [h.timerQueue]

theorem passes_of_clock (h : sim.SamePlaces a sim' a')
    (hthreads : sim'.threads = sim.threads) (hparams : sim'.params = sim.params) :
    sim.Passes a sim' a' :=
  ⟨fun u => Or.inl (h.stays hthreads u), h.alive, hparams⟩

theorem Passes.refl (sim : Sim) (a : Holdings) : sim.Passes a sim a :=
  ⟨fun u => Or.inl (Untouched.refl sim a u).stays, rfl, rfl⟩

theorem Alarmed.roused (h : sim.Alarmed sim' a' u) :
    sim'.Roused a' u (alarmStatus (sim.threads u)) := by
  refine ⟨?_, ?_, ?_, ?_, h.owned⟩
  · rw [h.thread]
  · rw [h.thread]
  · rw [h.thread]
  · rw [h.thread]

/-- The timers fire after the clock has moved. -/
theorem passes_of_alarms (h : sim.SamePlaces a sim' a')
    (hthreads : sim'.threads = sim.threads) (hparams : sim'.params = sim.params)
    (h' : sim'.Alarms a' sim'' a'') : sim.Passes a sim'' a'' where
  fate u := by
    rcases h'.fate u with huntouched | halarmed
    · exact Or.inl ((h.stays hthreads u).trans huntouched.stays)
    · refine Or.inr ⟨?_, ?_, ?_⟩
      · have harmed := halarmed.armed
        rwa [Sim.Armed, h.timerQueue] at harmed
      · rw [← h.timerQueue, h'.now]
        exact halarmed.due
      · rw [← hthreads]
        exact halarmed.roused
  alive := h'.alive.trans h.alive
  params := h'.params.trans hparams

end Sim

namespace Kernel

variable {α : Type} {links : Links} {stuck : Prop} {sim : Sim} {a : Holdings}
  {t me : ThreadId}

/-- The state in which no thread can run again: the scheduler holds none, no timer is
pending, and every thread is parked without a deadline or suspended. -/
structure Stuck (sim : Sim) (a : Holdings) : Prop where
  idle : a.held = 0
  timers : ∀ u, ¬ sim.Armed u
  threads : ∀ u ∈ sim.alive, u ∈ a.suspended ∨
    (sim.threads u).state = .parked ∧ (sim.threads u).timer = false

theorem stuck_of_idle (h : sim.Placed none none a) (hidle : a.held = 0)
    (hempty : sim.timerQueue.isEmpty = true) : Stuck sim a := by
  have htimers : ∀ u, ¬ sim.Armed u := by
    rintro u ⟨i, hi, -⟩
    have hsize : sim.timerQueue.heap.size = 0 := of_decide_eq_true hempty
    have hrange : 1 ≤ i ∧ i ≤ sim.timerQueue.heap.size := hi
    omega
  refine ⟨hidle, htimers, fun u hu => ?_⟩
  have htimer : (sim.threads u).timer ≠ true := fun heq =>
    htimers u ((h.timer u hu nofun).mpr heq)
  cases h.place u hu nofun nofun with
  | held howned _ _ _ =>
      rw [Holdings.owned, hidle, zero_add] at howned
      exact Or.inl howned
  | parked _ hstate _ _ => exact Or.inr ⟨hstate, Bool.eq_false_of_not_eq_true htimer⟩
  | sleeping _ _ _ hset _ => exact absurd hset htimer

/-! ### Deadlock -/

theorem ensures_isDeadlock (h : sim.Placed none none a) :
    Ensures links stuck isDeadlock
      (fun r sim' a' => sim' = sim ∧ a' = a ∧ (r = true → Stuck sim a)) sim a := by
  unfold isDeadlock
  refine (ensures_query h.filed.sound trivial rfl trivial
    (fun r a' hgrants => ⟨rfl, hgrants.post.2, hgrants.post.1⟩) :
    Ensures links stuck (query .isIdle)
      (fun r sim' a' => sim' = sim ∧ a' = a ∧ (r = true ↔ a.held = 0)) sim a).bind ?_
  rintro idle sim a ⟨rfl, rfl, hidle⟩
  refine ensures_get ⟨rfl, rfl, fun hdeadlock => ?_⟩
  simp only [Bool.and_eq_true] at hdeadlock
  exact stuck_of_idle h (hidle.mp hdeadlock.1.1) hdeadlock.1.2

theorem ensures_validateDeadlock {threads : List ThreadId} (h : sim.Placed none none a)
    (hstuck : Stuck sim a) (hthreads : ∀ t ∈ threads, t ∈ sim.alive) :
    Ensures links stuck (validateDeadlock threads)
      (fun _ sim' a' => sim' = sim ∧ a' = a) sim a := by
  induction threads with
  | nil => exact ⟨rfl, rfl⟩
  | cons t rest ih =>
      have hrest := ih fun u hu => hthreads u (List.mem_cons_of_mem t hu)
      unfold validateDeadlock
      refine Ensures.bind (P := fun r sim' a' => sim' = sim ∧ a' = a ∧ r = true) ?_ ?_
      · unfold isParkedOrSuspended
        refine ensures_get ?_
        split
        · exact ⟨rfl, rfl, rfl⟩
        · rename_i hnot
          refine ensures_query h.filed.sound hstuck.idle rfl trivial fun r a' hgrants => ?_
          refine ⟨rfl, hgrants.post.2, hgrants.post.1.mpr ?_⟩
          exact (hstuck.threads t (hthreads t List.mem_cons_self)).resolve_right
            fun hparked => hnot hparked.1
      · rintro _ sim a ⟨rfl, rfl, rfl⟩
        refine Ensures.bind (P := fun _ sim' a' => sim' = sim ∧ a' = a) ⟨rfl, rfl⟩ ?_
        rintro _ sim a ⟨rfl, rfl⟩
        exact hrest

/-- What the report leaves of the simulation can still be burnt. -/
theorem ensures_reportThreads {threads : List ThreadId} (h : sim.Linked none a) :
    Ensures links stuck (reportThreads threads) (fun _ sim' a' => sim'.Linked none a')
      sim a := by
  induction threads generalizing sim a with
  | nil => exact h
  | cons t rest ih =>
      have hreport : ∀ {sim : Sim} {a : Holdings} {text : String}, sim.Linked none a →
          Ensures links stuck (writeStderr text) (fun _ sim' a' => sim'.Linked none a')
            sim a := fun h => h.samePlaces (unmoved_stderr (t := 0)).toSamePlaces
      unfold reportThreads
      refine ensures_get ?_
      split
      · refine Ensures.bind (P := fun _ sim' a' => sim'.Linked none a') ?_ ?_
        · have hfutex : ∀ u, (Function.update sim.threads t { sim.threads t with
              state := .deadlocked } u).futex = (sim.threads u).futex :=
            update_cases (P := fun u (thread : Thread) =>
              thread.futex = (sim.threads u).futex) rfl fun _ _ => rfl
          have htimer : ∀ u, (Function.update sim.threads t { sim.threads t with
              state := .deadlocked } u).timer = (sim.threads u).timer :=
            update_cases (P := fun u (thread : Thread) =>
              thread.timer = (sim.threads u).timer) rfl fun _ _ => rfl
          refine ⟨h.filed, h.indexed, h.nodup, h.known, h.count, h.born,
            fun u hu hne key => ?_, fun u hu hne => ?_, h.gone⟩
          · change _ ↔ (Function.update sim.threads t _ u).futex = _
            rw [hfutex]
            exact h.futex u hu hne key
          · change _ ↔ (Function.update sim.threads t _ u).timer = _
            rw [htimer]
            exact h.timer u hu hne
        · intro _ sim₁ a₁ h₁
          dsimp only
          split
          · exact (hreport h₁).bind fun _ _ _ h₂ => ih h₂
          · exact Ensures.bind (P := fun _ _ _ => False) (ensures_panic (by decide))
              fun _ _ _ hfalse => absurd hfalse id
      · split
        · exact (hreport h).bind fun _ _ _ h₂ => ih h₂
        · exact Ensures.bind (P := fun _ _ _ => False) (ensures_panic (by decide))
            fun _ _ _ hfalse => absurd hfalse id

theorem ensures_checkDeadlock (h : sim.Placed none none a) (hstuck : Stuck sim a → stuck) :
    Ensures links stuck checkDeadlock (fun _ sim' a' => sim' = sim ∧ a' = a) sim a := by
  unfold checkDeadlock
  refine (ensures_isDeadlock h).bind ?_
  rintro deadlock sim a ⟨rfl, rfl, hdeadlock⟩
  split
  · rename_i hset
    have hnow := hdeadlock hset
    refine ensures_get ?_
    refine (ensures_validateDeadlock h hnow fun _ hu => hu).bind ?_
    rintro _ sim a ⟨rfl, rfl⟩
    refine Ensures.bind (P := fun _ sim' a' => sim'.Linked none a') ?_
      fun _ _ _ hlinked => ensures_sysAbort hlinked fun _ => hstuck hnow
    have hwrite : ∀ {sim : Sim} {a : Holdings} {text : String}, sim.Linked none a →
        Ensures links stuck (writeStderr text) (fun _ sim' a' => sim'.Linked none a')
          sim a := fun h => h.samePlaces (unmoved_stderr (t := 0)).toSamePlaces
    unfold reportDeadlock
    refine ensures_get ?_
    refine (hwrite h.toLinked).bind fun _ _ _ h₁ => ?_
    refine (hwrite h₁).bind fun _ _ _ h₂ => ?_
    dsimp only
    split
    · refine (hwrite h₂).bind fun _ _ _ h₃ => ?_
      exact (hwrite h₃).bind fun _ _ _ h₄ => ensures_reportThreads h₄
    · exact (hwrite h₂).bind fun _ _ _ h₃ => ensures_reportThreads h₃
  · exact ⟨rfl, rfl⟩

/-! ### One iteration -/

/-- The threads are in their places after some time. -/
structure Later (sim : Sim) (a : Holdings) (sim' : Sim) (a' : Holdings) : Prop where
  placed : sim'.Placed none none a'
  passes : sim.Passes a sim' a'

theorem ensures_maintenance {sim₀ : Sim} {a₀ : Holdings} (h : sim.Placed none none a)
    (hsame : sim₀.SamePlaces a₀ sim a) (hthreads : sim.threads = sim₀.threads)
    (hparams : sim.params = sim₀.params) :
    Ensures links stuck maintenance
      (fun _ sim' a' => Later sim₀ a₀ sim' a' ∧ sim'.ticks = sim.ticks) sim a := by
  unfold maintenance
  refine ensures_get ?_
  dsimp only
  have hquiet : Ensures links stuck (isDeadlock >>= fun _ => pure ())
      (fun _ sim' a' => Later sim₀ a₀ sim' a' ∧ sim'.ticks = sim.ticks) sim a := by
    refine (ensures_isDeadlock h).bind ?_
    rintro _ _ _ ⟨rfl, rfl, -⟩
    exact ⟨⟨h, Sim.passes_of_clock hsame hthreads hparams⟩, rfl⟩
  split
  · refine (ensures_pollTimers h).bind ?_
    rintro _ sim₁ a₁ ⟨hplaced, halarms, -⟩
    refine (ensures_isDeadlock hplaced).bind ?_
    rintro _ _ _ ⟨rfl, rfl, -⟩
    exact ⟨⟨hplaced, Sim.passes_of_alarms hsame hthreads hparams halarms⟩, halarms.ticks⟩
  · exact hquiet

/-- The thread that was picked is in hand. -/
structure Picked (sim : Sim) (a : Holdings) (next : ThreadId) (sim' : Sim) (a' : Holdings) :
    Prop where
  placed : sim'.Placed none (some next) a'
  detached : sim'.Detached a' next
  free : (sim'.threads next).Free
  slot : a'.slot = false
  moves : sim.Moves a sim' a' next
  owned : next ∈ a.owned
  status : (sim'.threads next).status = (sim.threads next).status

theorem Picked.unmoved {next : ThreadId} {sim₁ sim' : Sim} {a₁ a' : Holdings}
    (h : Picked sim a next sim₁ a₁) (hsame : sim₁.Unmoved a₁ sim' a' next)
    (hstatus : (sim'.threads next).status = (sim₁.threads next).status) :
    Picked sim a next sim' a' where
  placed := h.placed.samePlaces hsame.toSamePlaces
  detached := by
    refine ⟨hsame.alive.symm ▸ h.detached.alive, hsame.keeps.owned.symm ▸ h.detached.owned,
      ?_, ?_⟩
    · rw [hsame.waiters]
      exact h.detached.waiting
    · rw [Sim.Armed, hsame.timerQueue]
      exact h.detached.armed
  free := by
    have hrole := hsame.role next
    refine ⟨?_, hrole.futex.trans h.free.futex, hrole.timer.trans h.free.timer⟩
    rw [hrole.state]
    exact h.free.state
  slot := hsame.keeps.slot.trans h.slot
  moves := h.moves.trans hsame.moves
  owned := h.owned
  status := hstatus.trans h.status

/-- A thread in hand that nobody links to can be burnt. -/
theorem Picked.linked {next : ThreadId} {sim' : Sim} {a' : Holdings}
    (h : Picked sim a next sim' a') : sim'.Linked none a' := by
  refine h.placed.toLinked.change h.detached.alive (Or.inr rfl) h.placed.filed
    h.placed.indexed rfl rfl (fun _ hu => Or.inr hu) (fun u _ => Untouched.refl sim' a' u)
    (Or.inr ⟨rfl, fun key => ?_, ?_⟩)
  · rw [h.free.futex]
    exact iff_of_false (h.detached.waiting key) nofun
  · rw [h.free.timer]
    exact iff_of_false h.detached.armed nofun

theorem picked_of_post {next : ThreadId} {a' : Holdings} (h : sim.Placed none none a)
    (hheld : a.held = next ::ₘ a'.held) (hsuspended : a'.suspended = a.suspended)
    (hsame : a.SameQueues a') (hslot : a'.slot = false) (halive : next ∈ sim.alive) :
    Picked sim a next sim a' := by
  have howned : a.owned = next ::ₘ a'.owned := by
    rw [Holdings.owned, Holdings.owned, hheld, hsuspended, Multiset.cons_add]
  have hle : a'.owned ≤ a.owned := howned ▸ Multiset.le_cons_self _ next
  have hmem : next ∈ a.owned := howned ▸ Multiset.mem_cons_self next _
  have hnodup := h.filed.sound.owned
  rw [howned] at hnodup
  have hnot : next ∉ a'.owned := (Multiset.nodup_cons.mp hnodup).1
  have hfiled := h.filed.shrink hsame hle
  have hwaiters : sim.waiters a' = sim.waiters a := waiters_eq hfiled
  have hmoves : sim.Moves a sim a' next := by
    refine ⟨fun u hu => ⟨Iff.rfl, rfl, ?_, fun key => ?_, Iff.rfl, rfl⟩, rfl, rfl, rfl, rfl⟩
    · rw [howned, Multiset.mem_cons, or_iff_right hu]
    · rw [hwaiters]
  have hfree : (sim.threads next).Free := by
    cases h.place next halive (by simp) (by simp) with
    | held _ hstate hfutex htimer => exact ⟨hstate, hfutex, htimer⟩
    | parked hnone _ _ _ => exact absurd hmem hnone
    | sleeping hnone _ _ _ _ => exact absurd hmem hnone
  have hplaced : sim.Placed none (some next) a' := by
    refine ⟨?_, fun u hu hne hnext => (hmoves.place h (Or.inl rfl) (by simp)
      fun hrun => absurd rfl hrun).1 u hu hne fun heq => hnext (heq ▸ rfl), by simp⟩
    exact h.toLinked.change halive (Or.inl rfl) (hwaiters.symm ▸ hfiled) h.indexed rfl rfl
      (fun u hu => Or.inr (Multiset.mem_of_le hle hu)) hmoves.others (Or.inl rfl)
  refine ⟨hplaced, ⟨halive, hnot, fun key => ?_, fun harmed => ?_⟩, hfree, hslot, hmoves, hmem,
    rfl⟩
  · rw [hwaiters]
    exact h.not_waits halive hfree.futex key
  · have htimer := (h.timer next halive (by simp)).mp harmed
    rw [hfree.timer] at htimer
    cases htimer

theorem ensures_pickNext (h : sim.Placed none none a) :
    Ensures links stuck (query .pickNext)
      (fun r sim' a' => sim' = sim ∧
        match r with
        | .ok next => Picked sim a next sim a'
        | .error _ => sim.Linked none a') sim a := by
  have hpre : a.pre (sim.view, .pickNext) := fun t _ =>
    Multiset.nodup_iff_count_le_one.mp h.filed.sound.owned t
  refine ensures_query h.filed.sound hpre rfl trivial fun r a' hgrants => ⟨rfl, ?_⟩
  cases r with
  | ok next =>
      obtain ⟨hheld, hsuspended, hsame, hslot, halive⟩ := hgrants.post
      exact picked_of_post h hheld hsuspended hsame hslot (List.elem_iff.mp halive)
  | error why =>
      have hsame : a.SameQueues a' := hgrants.post
      have hle : a'.owned ≤ a.owned := hgrants.pruned
      have hfiled := h.filed.shrink hsame hle
      have hwaiters : sim.waiters a' = sim.waiters a := waiters_eq hfiled
      refine ⟨hwaiters.symm ▸ hfiled, h.indexed, h.nodup, h.known, h.count,
        fun u hu => h.born u (Multiset.mem_of_le hle hu), ?_, h.timer, ?_⟩
      · rw [hwaiters]
        exact h.futex
      · rw [hwaiters]
        exact h.gone

theorem ensures_completeSync {next : ThreadId} {sim₀ : Sim} {a₀ : Holdings}
    (h : Picked sim₀ a₀ next sim a) :
    Ensures links stuck (completeSync next)
      (fun _ sim' a' => Picked sim₀ a₀ next sim' a') sim a := by
  unfold completeSync
  refine ensures_get ?_
  split
  · rename_i action _
    refine Ensures.bind (P := fun _ sim' a' => Picked sim₀ a₀ next sim' a') ?_ ?_
    · exact h.unmoved (Sim.unmoved_setThread ⟨rfl, rfl, rfl⟩) (by simp [Sim.setThread])
    intro _ sim₁ a₁ h₁
    refine (ensures_onMemory h₁.linked (fun _ => Memory.benign_syncCall)
      (fun load memory hop => ?_) : Ensures links stuck _
        (fun _ sim' a' => Picked sim₀ a₀ next sim' a') sim₁ a₁).bind ?_
    · exact h₁.unmoved (unmoved_memory (Memory.syncCall_threadCount hop)) rfl
    intro load sim₂ a₂ h₂
    have hload : ∀ {sim₃ : Sim} {a₃ : Holdings}, Picked sim₀ a₀ next sim₃ a₃ →
        Ensures links stuck (modifyThread next fun thread => { thread with load })
          (fun _ sim' a' => Picked sim₀ a₀ next sim' a') sim₃ a₃ := fun h₃ =>
      h₃.unmoved (Sim.unmoved_setThread ⟨rfl, rfl, rfl⟩) (by simp [Sim.setThread])
    dsimp only
    split
    · refine Ensures.bind (P := fun _ sim' a' => Picked sim₀ a₀ next sim' a') ?_
        fun _ _ _ h₃ => hload h₃
      exact h₂.unmoved (Sim.unmoved_of_fields rfl rfl rfl rfl rfl rfl rfl) rfl
    · exact hload h₂
  · exact h

/-- The picked thread runs, some time later. -/
structure Resumes (sim : Sim) (a : Holdings) (next : ThreadId) (sim' : Sim)
    (a' : Holdings) : Prop where
  placed : sim'.Placed (some next) none a'
  before : ∃ sim₁ a₁, Later sim a sim₁ a₁ ∧ next ∈ a₁.owned ∧ sim₁.Moves a₁ sim' a' next ∧
    (sim'.threads next).status = (sim₁.threads next).status

/-- The picked thread is switched to. -/
theorem Picked.switchTo {next : ThreadId} {sim₁ : Sim} {a₁ : Holdings}
    (h : Picked sim a next sim₁ a₁) :
    Ensures links stuck (switchTo next)
      (fun _ sim' a' => sim'.Placed (some next) none a' ∧ sim.Moves a sim' a' next ∧
        (sim'.threads next).status = (sim.threads next).status) sim₁ a₁ := by
  let thread : Thread :=
    { sim₁.threads next with state := .running, runs := (sim₁.threads next).runs + 1 }
  have hself := Sim.setThread_self sim₁ next thread
  have hmoves := Sim.moves_setThread sim₁ a₁ next thread
  have hplaced : (sim₁.setThread next thread).Placed none (some next) a₁ :=
    h.placed.moves (Or.inr rfl) h.detached.alive nofun hmoves h.placed.filed
      h.placed.indexed (fun _ hu => Or.inr hu) rfl
  have hdetached : (sim₁.setThread next thread).Detached a₁ next :=
    ⟨h.detached.alive, h.detached.owned, h.detached.waiting, h.detached.armed⟩
  refine ⟨hplaced.run hdetached ?_ ?_ h.slot, h.moves.trans hmoves, ?_⟩
  · rw [hself]
    exact ⟨Or.inr (Or.inr rfl), h.free.futex, h.free.timer⟩
  · rw [hself]
  · exact (congrArg Thread.status hself).trans h.status

theorem ensures_beginIter (h : sim.Placed none none a) :
    Ensures links stuck beginIter
      (fun next sim' a' => Resumes sim a next sim' a' ∧
        sim'.ticks = (sim.ticks + 1) % ticksSize) sim a := by
  unfold beginIter
  refine Ensures.bind (P := fun _ sim' a' => sim.SamePlaces a sim' a' ∧
    sim'.threads = sim.threads ∧ sim'.params = sim.params ∧
    sim'.ticks = (sim.ticks + 1) % ticksSize)
    ⟨Sim.samePlaces_of_fields rfl rfl rfl rfl rfl (Holdings.Keeps.refl a), rfl, rfl, rfl⟩ ?_
  rintro _ sim₁ a₁ ⟨hsame, hthreads, hparams, hticks⟩
  have hplaced := h.samePlaces hsame
  refine ensures_get ?_
  dsimp only
  have hpick : ∀ {sim₂ : Sim} {a₂ : Holdings}, Later sim a sim₂ a₂ →
      sim₂.ticks = sim₁.ticks →
      Ensures links stuck runPicked
        (fun next sim' a' => Resumes sim a next sim' a' ∧
          sim'.ticks = (sim.ticks + 1) % ticksSize) sim₂ a₂ := by
    intro sim₂ a₂ hlater hclock
    refine (ensures_pickNext hlater.placed).bind ?_
    rintro r sim₂ a₃ ⟨rfl, hr⟩
    cases r with
    | error why => exact ensures_abortIter hr (by simp)
    | ok next =>
        refine Ensures.bind (P := fun _ sim' a' => Picked sim₂ a₂ next sim' a')
          (hr.unmoved (Sim.unmoved_of_fields rfl rfl rfl rfl rfl rfl rfl) rfl) ?_
        intro _ sim₃ a₃ h₃
        refine (ensures_completeSync h₃).bind fun _ sim₄ a₄ h₄ => ?_
        refine h₄.switchTo.bind ?_
        rintro _ sim' a' ⟨hplaced', hmoves, hstatus⟩
        refine ⟨⟨hplaced', sim₂, a₂, hlater, hr.owned, hmoves, hstatus⟩, ?_⟩
        rw [hmoves.ticks, hclock, hticks]
  split
  · refine (ensures_maintenance hplaced hsame hthreads hparams).bind ?_
    rintro _ sim₂ a₂ ⟨hlater, hclock⟩
    exact hpick hlater hclock
  · exact hpick ⟨hplaced, Sim.passes_of_clock hsame hthreads hparams⟩ rfl

/-- The clock stands still, or jumps forward to a deadline. -/
def Jumps (sim sim' : Sim) : Prop :=
  sim'.ticks = sim.ticks ∨ ∃ u, sim.Armed u ∧
    sim.now ≤ (sim.timerQueue.heap.timers u).when ∧ sim.ticks ≤ sim'.ticks ∧
    sim'.ticks = Time.toTicks sim.params.tick (sim.timerQueue.heap.timers u).when

theorem advanceTo_jumps {tick future : Int} {ticks ticks' : Nat}
    (h : Time.advanceTo tick future ticks = .ok ticks') :
    Time.now tick ticks ≤ future ∧ ticks ≤ ticks' ∧ ticks' = Time.toTicks tick future := by
  unfold Time.advanceTo at h
  split at h
  · cases h
  · rename_i hfuture
    split at h
    · cases h
    · split at h
      · cases h
      · rename_i hle
        cases h
        have hlt : Time.toTicks tick future < ticksSize := by
          unfold Time.toTicks ticksSize
          omega
        rw [Nat.add_sub_cancel' (Nat.not_lt.mp hle), Nat.mod_eq_of_lt hlt]
        exact ⟨not_lt.mp hfuture, Nat.not_lt.mp hle, rfl⟩

theorem advanceTo_error {tick future : Int} {ticks : Nat} {p : Panic}
    (h : Time.advanceTo tick future ticks = .error p) : p ∉ impossible := by
  unfold Time.advanceTo at h
  split at h
  · cases h
    decide
  · split at h
    · cases h
      decide
    · split at h
      · cases h
        decide
      · cases h

theorem ensures_idle (h : sim.Placed none none a) (hstuck : Stuck sim a → stuck) :
    Ensures links stuck idle
      (fun _ sim' a' => Later sim a sim' a' ∧ Jumps sim sim') sim a := by
  unfold idle
  refine (ensures_checkDeadlock h hstuck).bind ?_
  rintro _ sim a ⟨rfl, rfl⟩
  refine ensures_get ?_
  have hrefl : sim.SamePlaces a sim a := (Sim.Unmoved.refl sim a 0).toSamePlaces
  split
  · exact ⟨⟨h, Sim.Passes.refl sim a⟩, Or.inl rfl⟩
  · refine (ensures_pollTimers h).bind ?_
    rintro progress sim₁ a₁ ⟨hplaced, halarms, hfalse⟩
    cases progress with
    | true =>
        exact ⟨⟨hplaced, Sim.passes_of_alarms hrefl rfl rfl halarms⟩,
          Or.inl halarms.ticks⟩
    | false =>
        obtain ⟨rfl, rfl⟩ := hfalse rfl
        refine Ensures.bind (P := fun _ sim' a' => sim₁.SamePlaces a₁ sim' a' ∧
          sim'.threads = sim₁.threads ∧ sim'.params = sim₁.params ∧
          Jumps sim₁ sim') ?_ ?_
        · unfold advanceToNextDeadLine
          refine ensures_get ?_
          split
          · rename_i deadline hnext
            refine (ensures_checked (fun ticks hticks => ⟨rfl, rfl, advanceTo_jumps hticks⟩)
              (fun _ => advanceTo_error) : Ensures links stuck _ (fun ticks sim' a' =>
                sim' = sim₁ ∧ a' = a₁ ∧ sim₁.now ≤ deadline ∧ sim₁.ticks ≤ ticks ∧
                  ticks = Time.toTicks sim₁.params.tick deadline) sim₁ a₁).bind ?_
            rintro ticks _ _ ⟨rfl, rfl, hnow, hle, rfl⟩
            obtain ⟨hpos, u, htree, hwhen⟩ := TimerQueue.nextDeadLine_root hnext
            refine ⟨Sim.samePlaces_of_fields rfl rfl rfl rfl rfl (Holdings.Keeps.refl _), rfl,
              rfl, Or.inr ⟨u, ⟨1, ⟨le_refl 1, hpos⟩, htree⟩, ?_⟩⟩
            rw [hwhen]
            exact ⟨hnow, hle, rfl⟩
          · exact ensures_panic (by decide)
        · rintro _ sim₂ a₂ ⟨hsame, hthreads, hparams, hjumps⟩
          refine (ensures_pollTimers (h.samePlaces hsame)).bind ?_
          rintro _ sim₃ a₃ ⟨hplaced₃, halarms₃, -⟩
          refine ⟨⟨hplaced₃, Sim.passes_of_alarms hsame hthreads hparams halarms₃⟩, ?_⟩
          unfold Jumps
          rw [halarms₃.ticks]
          exact hjumps

/-- An iteration, or what the loop does when nobody is runnable. -/
def HeadTurn (sim : Sim) (a : Holdings) (budget : Nat) (control : Control) (sim' : Sim)
    (a' : Holdings) : Prop :=
  match control with
  | .run next r b => b = budget ∧ a.held ≠ 0 ∧ Resumes sim a next sim' a' ∧
      r = .answer (.resumed (sim'.threads next).status (sim'.threads next).load) ∧
      sim'.ticks = (sim.ticks + 1) % ticksSize
  | .head b => b = budget ∧ Later sim a sim' a' ∧ Jumps sim sim'
  | .finished => Later sim a sim' a' ∧ Jumps sim sim'

theorem ensures_stepHead {budget : Nat} (h : sim.Placed none none a)
    (hstuck : Stuck sim a → stuck) :
    Ensures links stuck (stepHead budget) (HeadTurn sim a budget) sim a := by
  unfold stepHead
  refine (ensures_query h.filed.sound trivial rfl trivial
    (fun r a' hgrants => ⟨rfl, hgrants.post.2, hgrants.post.1⟩) :
    Ensures links stuck (query .isIdle)
      (fun r sim' a' => sim' = sim ∧ a' = a ∧ (r = true ↔ a.held = 0)) sim a).bind ?_
  rintro isIdle sim a ⟨rfl, rfl, hidle⟩
  split
  · rename_i hgoes
    have hbusy : a.held ≠ 0 := fun hzero => by
      rw [hidle.mpr hzero] at hgoes
      exact Bool.false_ne_true hgoes
    refine (ensures_beginIter h).bind ?_
    rintro next sim₁ a₁ ⟨hresumes, hticks⟩
    exact ensures_get ⟨rfl, hbusy, hresumes, rfl, hticks⟩
  · split
    · refine (ensures_idle h hstuck).bind ?_
      rintro again sim₁ a₁ ⟨hlater, hle⟩
      cases again with
      | true => exact ⟨rfl, hlater, hle⟩
      | false => exact ⟨hlater, hle⟩
    · exact ⟨⟨h, Sim.Passes.refl sim a⟩, Or.inl rfl⟩

end Kernel

end TwistSim
