/-
Waiting on a futex over whole runs: who may park, what ends a wait, and what the waiter
finds when it runs again.
-/
import TwistSim.Fates
import TwistSim.Whereabouts

namespace TwistSim

namespace Machine

variable {U σ : Type}

section Waits

variable (holdings : σ → Holdings) (m : Machine U σ) (t : ThreadId)

/-- The thread waits on the futex; a timed wait has its timer. -/
structure Parked (key : FutexKey) (deadline : Option Int) : Prop where
  alive : t ∈ m.sim.alive
  state : (m.sim.threads t).state = .parked
  futex : (m.sim.threads t).futex = some key
  timer : (m.sim.threads t).timer = deadline.isSome
  when : ∀ when, deadline = some when →
    m.sim.Armed t ∧ (m.sim.timerQueue.heap.timers t).when = when

/-- The thread is in no queue and has no timer; it has been told the status, or it will be
when it runs. -/
structure Told (status : CallStatus) : Prop where
  alive : t ∈ m.sim.alive
  waiting : ∀ key, t ∉ m.sim.waiters (holdings m.scheduler) key
  armed : ¬ m.sim.Armed t
  tells : (m.sim.threads t).status = status
  place : t ∈ (holdings m.scheduler).owned ∧ m.control.running ≠ some t ∨
    ∃ load budget, m.control = .run t (.answer (.resumed status load)) budget

/-- How a turn may leave a thread that waits. -/
inductive Fate where
  | waits | woken | timedOut | burnt
  deriving DecidableEq, Repr

/-- The fate of a waiting thread in the turn that leads to `m'`. -/
def Meets (program : Program U) (m' : Machine U σ) (key : FutexKey)
    (deadline : Option Int) : Fate → Prop
  | .waits => m'.Parked t key deadline
  | .woken => m'.Told holdings t .ok ∧ ∃ me loc count,
      m.control.Calls program m.space me (.futexWake loc count) ∧ loc.futexKey = key
  | .timedOut => m'.Told holdings t .timeout ∧ ∃ when, deadline = some when ∧
      when ≤ m'.sim.now
  | .burnt => t ∉ m'.sim.alive

end Waits

variable {S : IScheduler σ} {WF : σ → Prop} {holdings : σ → Holdings} {links : Links}
  {program : Program U} {m m' : Machine U σ} {t : ThreadId} {key : FutexKey}
  {deadline : Option Int} {e : LoopEvent}

/-! ### What the record of a thread says -/

theorem Parked.waits (h : m.Parked t key deadline) (hm : m.Orderly WF holdings) :
    t ∈ m.sim.waiters (holdings m.scheduler) key :=
  hm.placed.waits h.alive h.futex

theorem Parked.idle (h : m.Parked t key deadline) (hm : m.Orderly WF holdings) :
    m.control.running ≠ some t := fun hrun => by
  have hstate := (hm.placed.runs t hrun).state
  rw [h.state] at hstate
  cases hstate

theorem Parked.unowned (h : m.Parked t key deadline) (hm : m.Orderly WF holdings) :
    t ∉ (holdings m.scheduler).owned :=
  (hm.placed.filed.apart key).running t (h.waits hm)

theorem Parked.deadline_of_armed (h : m.Parked t key deadline) (hm : m.Orderly WF holdings)
    (harmed : m.sim.Armed t) :
    deadline = some (m.sim.timerQueue.heap.timers t).when := by
  have hset := (hm.placed.timer t h.alive nofun).mp harmed
  rw [h.timer] at hset
  obtain ⟨when, rfl⟩ := Option.isSome_iff_exists.mp hset
  rw [(h.when when rfl).2]

/-- A thread that is runnable has been told. -/
theorem told_of_roused {status : CallStatus} (hm : m.Orderly WF holdings)
    (ht : t ∈ m.sim.alive) (hrun : m.control.running ≠ some t)
    (h : m.sim.Roused (holdings m.scheduler) t status) : m.Told holdings t status where
  alive := ht
  waiting := hm.placed.not_waits ht h.futex
  armed := fun harmed => by
    have hset := (hm.placed.timer t ht nofun).mp harmed
    rw [h.timer] at hset
    cases hset
  tells := h.status
  place := Or.inl ⟨h.owned, hrun⟩

theorem told_of_run {load budget : Nat} (hm : m.Orderly WF holdings)
    (hcontrol : m.control = .run t (.answer (.resumed (m.sim.threads t).status load)) budget) :
    m.Told holdings t (m.sim.threads t).status := by
  have hruns := hm.placed.runs t (hcontrol ▸ rfl)
  refine ⟨hruns.alive, hm.placed.not_waits hruns.alive hruns.futex, fun harmed => ?_, rfl,
    Or.inr ⟨load, budget, hcontrol⟩⟩
  have hset := (hm.placed.timer t hruns.alive nofun).mp harmed
  rw [hruns.timer] at hset
  cases hset

theorem Parked.stays (h : m.Parked t key deadline)
    (hstays : m.sim.Stays (holdings m.scheduler) m'.sim (holdings m'.scheduler) t)
    (ht : t ∈ m'.sim.alive) : m'.Parked t key deadline where
  alive := ht
  state := hstays.role.state.trans h.state
  futex := hstays.role.futex.trans h.futex
  timer := hstays.role.timer.trans h.timer
  when when hwhen := by
    obtain ⟨harmed, heq⟩ := h.when when hwhen
    exact ⟨hstays.armed.mpr harmed, (Timer.mk.inj hstays.timer).1.trans heq⟩

/-! ### One turn -/

/-- What a turn, or a call of `RunFor`, is for a thread that does not run. -/
theorem next_goes (hS : Keeps S WF holdings links) (hlinks : links ≠ .spared)
    (hm : m.Orderly WF holdings) (hnext : m.next S program e = some m')
    (ht : t ∈ m.sim.alive) (hrun : m.control.running ≠ some t) :
    Kernel.Goes program m.control m.space m.sim (holdings m.scheduler) t m'.control m'.sim
      (holdings m'.scheduler) := by
  cases e with
  | turn =>
      obtain ⟨-, hturned | ⟨haborted, -⟩⟩ :=
        turned hS hm (fun hspared => absurd hspared hlinks) hnext
      · exact hturned.goes ht hrun
      · exact Kernel.Goes.gone (haborted.empty.alive ▸ List.not_mem_nil)
  | runFor budget =>
      rw [next] at hnext
      split at hnext
      · cases hnext
        exact Kernel.Goes.stays (by simp [Control.running]) ht (Sim.Untouched.refl _ _ t).stays
      · cases hnext

/-- A wait goes on, or it ends in exactly one way. -/
theorem fate_of_goes (hm : m.Orderly WF holdings) (hm' : m'.Orderly WF holdings)
    (h : m.Parked t key deadline)
    (hgoes : Kernel.Goes program m.control m.space m.sim (holdings m.scheduler) t m'.control
      m'.sim (holdings m'.scheduler)) :
    ∃ fate, m.Meets holdings t program m' key deadline fate := by
  have halarm : Sim.alarmStatus (m.sim.threads t) = .timeout := if_pos h.state
  cases hgoes with
  | gone halive => exact ⟨.burnt, halive⟩
  | stays _ halive hstays => exact ⟨.waits, h.stays hstays halive⟩
  | @woken me loc count hrun halive hcall hwaits hroused =>
      refine ⟨.woken, told_of_roused hm' halive hrun hroused, me, loc, count, hcall, ?_⟩
      have hkey := (hm.placed.futex t h.alive nofun loc.futexKey).mp hwaits
      exact Option.some.inj (hkey.symm.trans h.futex)
  | rings hrun halive hrings =>
      refine ⟨.timedOut, ?_, _, h.deadline_of_armed hm hrings.armed, hrings.due⟩
      exact halarm ▸ told_of_roused hm' halive hrun hrings.roused
  | resumed hcontrol hready =>
      rcases hready with ⟨howned, -⟩ | ⟨harmed, hdue, hstatus⟩
      · exact absurd howned (h.unowned hm)
      · refine ⟨.timedOut, ?_, _, h.deadline_of_armed hm harmed, hdue⟩
        have htold := told_of_run hm' hcontrol
        rwa [hstatus, halarm] at htold

theorem fate_unique (hm' : m'.Orderly WF holdings) {fate fate' : Fate}
    (h : m.Meets holdings t program m' key deadline fate)
    (h' : m.Meets holdings t program m' key deadline fate') : fate = fate' := by
  have hwaits : ∀ {status}, m'.Parked t key deadline → m'.Told holdings t status → False :=
    fun hparked htold => htold.waiting key (hparked.waits hm')
  have hstatus : m'.Told holdings t .ok → m'.Told holdings t .timeout → False :=
    fun hok htimeout => nomatch hok.tells.symm.trans htimeout.tells
  cases fate <;> cases fate'
  case waits.woken => exact (hwaits h h'.1).elim
  case waits.timedOut => exact (hwaits h h'.1).elim
  case waits.burnt => exact absurd (Parked.alive h) h'
  case woken.waits => exact (hwaits h' h.1).elim
  case woken.timedOut => exact (hstatus h.1 h'.1).elim
  case woken.burnt => exact absurd h.1.alive h'
  case timedOut.waits => exact (hwaits h' h.1).elim
  case timedOut.woken => exact (hstatus h'.1 h.1).elim
  case timedOut.burnt => exact absurd h.1.alive h'
  case burnt.waits => exact absurd (Parked.alive h') h
  case burnt.woken => exact absurd h'.1.alive h
  case burnt.timedOut => exact absurd h'.1.alive h
  all_goals rfl

/-- Who has been told keeps the news until it runs. -/
theorem told_of_goes {status : CallStatus} (hm' : m'.Orderly WF holdings) (h : m.Told holdings t status)
    (howned : t ∈ (holdings m.scheduler).owned)
    (hgoes : Kernel.Goes program m.control m.space m.sim (holdings m.scheduler) t m'.control
      m'.sim (holdings m'.scheduler)) :
    m'.Told holdings t status ∨ t ∉ m'.sim.alive := by
  cases hgoes with
  | gone halive => exact Or.inr halive
  | stays hrun halive hstays =>
      refine Or.inl ⟨halive, fun key hmem => h.waiting key ((hstays.waiting key).mp hmem),
        fun harmed => h.armed (hstays.armed.mp harmed), hstays.status.trans h.tells,
        Or.inl ⟨hstays.owned.mpr howned, hrun⟩⟩
  | @woken me loc count hrun halive hcall hwaits hroused =>
      exact absurd hwaits (h.waiting loc.futexKey)
  | rings hrun halive hrings => exact absurd hrings.armed h.armed
  | resumed hcontrol hready =>
      rcases hready with ⟨-, hstatus⟩ | ⟨harmed, -, -⟩
      · have htold := told_of_run hm' hcontrol
        rw [hstatus, h.tells] at htold
        exact Or.inl htold
      · exact absurd harmed h.armed

/-- A thread parks only by waiting, on a futex that has the expected value. -/
theorem parks_of_next (hS : Keeps S WF holdings links) (hlinks : links ≠ .spared)
    (hm : m.Orderly WF holdings) (hm' : m'.Orderly WF holdings)
    (hnext : m.next S program e = some m') (h : m'.Parked t key deadline)
    (hnew : ¬ (t ∈ m.sim.alive ∧ (m.sim.threads t).state = .parked)) :
    ∃ call loc old, m.control.Calls program m.space t call ∧
      call.waitsOn = some (loc, old, deadline) ∧ loc.futexKey = key ∧
      Kernel.FutexHolds m.sim loc old := by
  have hready : ¬ (m'.sim.threads t).state.Ready := by
    rw [h.state]
    rintro (heq | heq | heq) <;> cases heq
  cases e with
  | turn =>
      obtain ⟨-, hturned | ⟨haborted, -⟩⟩ :=
        turned hS hm (fun hspared => absurd hspared hlinks) hnext
      · by_cases hrun : m.control.running = some t
        · obtain ⟨call, loc, old, deadline', hcall, hwaits, hparks⟩ :=
            hturned.parks hm.placed hrun h.alive h.state
          have hkey : loc.futexKey = key :=
            Option.some.inj (hparks.futex.symm.trans h.futex)
          have hdeadline : deadline' = deadline := by
            have hset := hparks.timer.symm.trans h.timer
            cases deadline' with
            | none => exact (Option.not_isSome_iff_eq_none.mp (by rw [← hset]; nofun)).symm
            | some when =>
                obtain ⟨when', rfl⟩ := Option.isSome_iff_exists.mp hset.symm
                rw [← hparks.when when rfl, (h.when when' rfl).2]
          subst hdeadline
          exact ⟨call, loc, old, hcall, hwaits, hkey, hparks.value⟩
        · by_cases ht : t ∈ m.sim.alive
          · cases hturned.goes ht hrun with
            | gone halive => exact absurd h.alive halive
            | stays _ _ hstays =>
                exact absurd ⟨ht, hstays.role.state.symm.trans h.state⟩ hnew
            | woken _ _ _ _ hroused =>
                exact absurd (Or.inr (Or.inl hroused.state)) hready
            | rings _ _ hrings =>
                exact absurd (Or.inr (Or.inl hrings.roused.state)) hready
            | resumed hcontrol _ =>
                have hrun' := congrArg Control.running hcontrol
                have hrunning := (hm'.placed.runs t hrun').state
                exact absurd (Or.inr (Or.inr hrunning)) hready
          · exact absurd (hturned.born h.alive ht) hready
      · exact absurd (haborted.empty.alive ▸ h.alive) List.not_mem_nil
  | runFor budget =>
      rw [next] at hnext
      split at hnext
      · cases hnext
        exact absurd ⟨h.alive, h.state⟩ hnew
      · cases hnext

/-- `FutexWake` that has returned: it has woken all waiters, or one if there was one. -/
theorem notifies_of_next (hS : Keeps S WF holdings links) (hlinks : links ≠ .spared)
    (hm : m.Orderly WF holdings) (hm' : m'.Orderly WF holdings)
    (hnext : m.next S program .turn = some m') {me : ThreadId} {loc : FutexLoc} {count : Nat}
    (hcall : m.control.Calls program m.space me (.futexWake loc count))
    (hreturns : m'.control ≠ .finished) :
    ∃ woken ≤ m.sim.waiters (holdings m.scheduler) loc.futexKey,
      (count = 0 ∧ woken = m.sim.waiters (holdings m.scheduler) loc.futexKey ∨
        count = 1 ∧
          woken.card = min 1 (m.sim.waiters (holdings m.scheduler) loc.futexKey).card) ∧
      (∀ t ∈ woken, m'.Told holdings t .ok) ∧
      ∀ t key deadline, m.Parked t key deadline → t ∉ woken → m'.Parked t key deadline := by
  obtain ⟨-, hturned | ⟨haborted, -⟩⟩ :=
    turned hS hm (fun hspared => absurd hspared hlinks) hnext
  · obtain ⟨r, budget, hcalled, hcontrol⟩ := hturned.called hcall
    obtain ⟨-, hanswer, halive, woken, hwakes, hle, hcount⟩ := hcalled
    obtain ⟨x, rfl⟩ := Option.ne_none_iff_exists'.mp hanswer
    have hrun : m'.control.running = some me := congrArg Control.running (hcontrol x rfl)
    have hcaller : m.control.running = some me := by
      obtain ⟨resumption, b, heq, -⟩ := hcall
      rw [heq]
      rfl
    refine ⟨woken, hle, hcount, fun t ht => ?_, fun t key deadline hparked hnot => ?_⟩
    · obtain ⟨hold, hme, -⟩ := hm.placed.waiter (Multiset.mem_of_le hle ht)
      refine told_of_roused hm' (halive ▸ hold) ?_ (hwakes.woken t ht)
      rw [hrun, ← hcaller]
      exact hme
    · have hne : t ≠ me := fun heq => hparked.idle hm (heq ▸ hcaller)
      have ht' : t ∈ m'.sim.alive := halive ▸ hparked.alive
      exact hparked.stays (hwakes.others t ht' hparked.alive hne hnot) ht'
  · exact absurd haborted.control hreturns

/-! ### Runs -/

/-- What every turn does to those who wait. -/
structure ResolvesWaits (holdings : σ → Holdings) (program : Program U)
    (m m' : Machine U σ) : Prop where
  parks : ∀ t key deadline, m'.Parked t key deadline →
    ¬ (t ∈ m.sim.alive ∧ (m.sim.threads t).state = .parked) →
    ∃ call loc old, m.control.Calls program m.space t call ∧
      call.waitsOn = some (loc, old, deadline) ∧ loc.futexKey = key ∧
      Kernel.FutexHolds m.sim loc old
  ends : ∀ t key deadline, m.Parked t key deadline →
    ∃! fate, m.Meets holdings t program m' key deadline fate
  notifies : ∀ me loc count, m.control.Calls program m.space me (.futexWake loc count) →
    m'.control.running = some me →
    ∃ woken ≤ m.sim.waiters (holdings m.scheduler) loc.futexKey,
      (count = 0 ∧ woken = m.sim.waiters (holdings m.scheduler) loc.futexKey ∨
        count = 1 ∧
          woken.card = min 1 (m.sim.waiters (holdings m.scheduler) loc.futexKey).card) ∧
      (∀ t ∈ woken, m'.Told holdings t .ok) ∧
      ∀ t key deadline, m.Parked t key deadline → t ∉ woken → m'.Parked t key deadline

/-- The thread runs, and `FutexWait` has returned the status. -/
def Returns (m : Machine U σ) (t : ThreadId) (status : CallStatus) : Prop :=
  ∃ load budget, m.control = .run t (.answer (.resumed status load)) budget

variable (S program holdings) in
/-- In the run from `m` to `m'` the wait has ended: by a call of `FutexWake`, by its timer,
or because the thread was burnt. -/
def Concluded (m m' : Machine U σ) (t : ThreadId) (key : FutexKey) (deadline : Option Int) :
    Prop :=
  ∃ m₁ e m₂ fate, Reach (next S program) (fun _ _ => True) m m₁ ∧
    m₁.Parked t key deadline ∧ m₁.next S program e = some m₂ ∧ fate ≠ .waits ∧
    m₁.Meets holdings t program m₂ key deadline fate ∧
    Reach (next S program) (fun _ _ => True) m₂ m'

variable (S program holdings) in
/-- In the run from `m` to `m'` the thread has learnt the status, or it was burnt. -/
def Learnt (m m' : Machine U σ) (t : ThreadId) (status : CallStatus) : Prop :=
  ∃ m₁, Reach (next S program) (fun _ _ => True) m m₁ ∧
    (m₁.Returns t status ∨ t ∉ m₁.sim.alive) ∧
    Reach (next S program) (fun _ _ => True) m₁ m'

theorem next_resolves (hS : Keeps S WF holdings links) (hlinks : links ≠ .spared)
    (hm : m.Orderly WF holdings) (hnext : m.next S program e = some m') :
    ResolvesWaits holdings program m m' := by
  have hm' := next_orderly hS hm (fun hspared => absurd hspared hlinks) hnext
  refine ⟨fun t key deadline h hnew => parks_of_next hS hlinks hm hm' hnext h hnew, ?_, ?_⟩
  · intro t key deadline h
    obtain ⟨fate, hfate⟩ := fate_of_goes hm hm' h
      (next_goes hS hlinks hm hnext h.alive (h.idle hm))
    exact ⟨fate, hfate, fun fate' hfate' => fate_unique hm' hfate' hfate⟩
  · intro me loc count hcall hrun
    cases e with
    | turn =>
        refine notifies_of_next hS hlinks hm hm' hnext hcall fun hfinished => ?_
        rw [hfinished] at hrun
        cases hrun
    | runFor budget =>
        obtain ⟨resumption, b, hcontrol, -⟩ := hcall
        rw [next, hcontrol, if_neg fun h => by cases h.1] at hnext
        cases hnext

/-- By induction on the run. -/
theorem parked_or_concluded (hS : Keeps S WF holdings links) (hlinks : links ≠ .spared)
    (hm : m.Orderly WF holdings) (h : m.Parked t key deadline)
    (hreach : Reach (next S program) (fun _ _ => True) m m') :
    m'.Orderly WF holdings ∧
      (m'.Parked t key deadline ∨ Concluded S holdings program m m' t key deadline) := by
  induction hreach with
  | start => exact ⟨hm, Or.inl h⟩
  | @step m₁ m₂ e hreach₁ _ hnext ih =>
      obtain ⟨hm₁, ih⟩ := ih
      refine ⟨next_orderly hS hm₁ (fun hspared => absurd hspared hlinks) hnext, ?_⟩
      rcases ih with hparked | ⟨m₃, e₃, m₄, fate, hbefore, hparked, hnext₃, hfate, hmeets, hafter⟩
      · obtain ⟨fate, hmeets, -⟩ := (next_resolves hS hlinks hm₁ hnext).ends t key deadline hparked
        by_cases hfate : fate = .waits
        · subst hfate
          exact Or.inl hmeets
        · exact Or.inr ⟨m₁, e, m₂, fate, hreach₁, hparked, hnext, hfate, hmeets, Reach.start⟩
      · exact Or.inr ⟨m₃, e₃, m₄, fate, hbefore, hparked, hnext₃, hfate, hmeets,
          hafter.step trivial hnext⟩

theorem told_or_learnt (hS : Keeps S WF holdings links) (hlinks : links ≠ .spared)
    {status : CallStatus} (hm : m.Orderly WF holdings) (h : m.Told holdings t status)
    (hreach : Reach (next S program) (fun _ _ => True) m m') :
    m'.Orderly WF holdings ∧
      (m'.Told holdings t status ∨ Learnt S program m m' t status) := by
  induction hreach with
  | start => exact ⟨hm, Or.inl h⟩
  | @step m₁ m₂ e hreach₁ _ hnext ih =>
      obtain ⟨hm₁, ih⟩ := ih
      have hm₂ := next_orderly hS hm₁ (fun hspared => absurd hspared hlinks) hnext
      refine ⟨hm₂, ?_⟩
      rcases ih with htold | ⟨m₃, hbefore, hlearnt, hafter⟩
      · rcases htold.place with ⟨howned, hrun⟩ | hreturns
        · rcases told_of_goes hm₂ htold howned
            (next_goes hS hlinks hm₁ hnext htold.alive hrun) with htold' | hgone
          · exact Or.inl htold'
          · exact Or.inr ⟨m₂, hreach₁.step trivial hnext, Or.inr hgone, Reach.start⟩
        · exact Or.inr ⟨m₁, hreach₁, Or.inl hreturns, Reach.start.step trivial hnext⟩
      · exact Or.inr ⟨m₃, hbefore, hlearnt, hafter.step trivial hnext⟩

/-- Waiting on a futex loses nothing: whoever parks has found the expected value, every wait
ends in exactly one way, and the waiter learns in which. -/
theorem futex_waits_resolved (hS : Keeps S WF holdings links) (hlinks : links ≠ .spared)
    (h : Reached S program (Fresh WF holdings) (fun _ _ => True) m) :
    (∀ e m', m.next S program e = some m' → ResolvesWaits holdings program m m') ∧
    (∀ t key deadline m', m.Parked t key deadline →
      Reach (next S program) (fun _ _ => True) m m' →
      m'.Parked t key deadline ∨ Concluded S holdings program m m' t key deadline) ∧
    ∀ t status m', m.Told holdings t status →
      Reach (next S program) (fun _ _ => True) m m' →
      m'.Told holdings t status ∨ Learnt S program m m' t status := by
  have hm := reached_orderly hS (fun _ _ _ hspared => absurd hspared hlinks) h
  exact ⟨fun e m' hnext => next_resolves hS hlinks hm hnext,
    fun t key deadline m' hparked hreach =>
      (parked_or_concluded hS hlinks hm hparked hreach).2,
    fun t status m' htold hreach => (told_or_learnt hS hlinks hm htold hreach).2⟩

/-- One of the two threads that are left parked for ever. -/
theorem futex_waits_resolved_deserted :
    ∃ m : Machine Nat Coop.State, m.Parked 2 ⟨8, .whole⟩ none ∧
      ∀ m', Reach (next Coop.scheduler deserted) (fun _ _ => True) m m' →
        m'.Parked 2 ⟨8, .whole⟩ none ∨
          Concluded Coop.scheduler Coop.State.holdings deserted m m' 2 ⟨8, .whole⟩ none := by
  obtain ⟨m, hreached, halive, hstate, hfutex, htimer⟩ :=
    @exists_reached _ _ Coop.scheduler deserted (Fresh Coop.State.WF Coop.State.holdings)
      (fun _ _ => True) _ {} noVariables (Coop.State.new ⟨0⟩)
      (.runFor 100 :: List.replicate 12 .turn)
      (fun m => m.sim.alive = [1, 2, 3] ∧ (m.sim.threads 2).state = .parked ∧
        (m.sim.threads 2).futex = some ⟨8, .whole⟩ ∧ (m.sim.threads 2).timer = false) _
      (Coop.fresh ⟨0⟩) (by decide +kernel)
  have hparked : m.Parked 2 ⟨8, .whole⟩ none :=
    ⟨by rw [halive]; decide, hstate, hfutex, htimer, nofun⟩
  have hresolved := futex_waits_resolved (@Coop.keeps .shared nofun) nofun hreached
  exact ⟨m, hparked, fun m' hreach => hresolved.2.1 2 ⟨8, .whole⟩ none m' hparked hreach⟩

end Machine

end TwistSim
