/-
Sleeping over whole runs: only its own timer wakes a sleeping thread, and it runs again
when its deadline is over.
-/
import TwistSim.FutexWaits

namespace TwistSim

namespace Machine

variable {U σ : Type}

/-- The thread sleeps until the deadline. -/
structure Asleep (m : Machine U σ) (t : ThreadId) (deadline : Int) : Prop where
  alive : t ∈ m.sim.alive
  state : (m.sim.threads t).state = .sleeping
  armed : m.sim.Armed t
  when : (m.sim.timerQueue.heap.timers t).when = deadline

/-- The clock stays below `2^63` nanoseconds: one tick from now, after a jump to a
deadline, and where a delay ends. -/
def Timely (program : Program U) (m : Machine U σ) : LoopEvent → Prop
  | .turn =>
      match m.control with
      | .head _ => 0 < m.sim.params.tick ∧
          (m.sim.ticks + 1) * m.sim.params.tick < 2 ^ 63 ∧
          ∀ u, m.sim.Armed u → m.sim.now ≤ (m.sim.timerQueue.heap.timers u).when →
            Time.rounded m.sim.params.tick (m.sim.timerQueue.heap.timers u).when < 2 ^ 63
      | .run t resumption _ => ∀ delay,
          (program.resume t resumption m.space.user).1 = .sys (.sleepFor delay) →
            m.sim.now + delay < 2 ^ 63
      | .finished => True
  | .runFor _ => True

/-- The thread has been woken when its deadline was over. -/
structure Rested (holdings : σ → Holdings) (m : Machine U σ) (t : ThreadId)
    (deadline : Int) : Prop where
  told : m.Told holdings t .ok
  late : deadline ≤ m.sim.now

variable {S : IScheduler σ} {WF : σ → Prop} {holdings : σ → Holdings} {links : Links}
  {program : Program U} {m m' : Machine U σ} {t : ThreadId} {deadline : Int} {e : LoopEvent}

/-! ### The clock -/

theorem toTicks_mul {tick when : Int} (htick : 0 < tick) (hpos : 0 ≤ when)
    (hfits : Time.rounded tick when < 2 ^ 63) :
    (Time.toTicks tick when : Int) * tick = Time.rounded tick when := by
  have hdiv : 0 ≤ when.tdiv tick := Int.tdiv_nonneg hpos htick.le
  have hlow : 0 ≤ when.tdiv tick + if when.tmod tick = 0 then 0 else 1 := by
    split <;> omega
  have hhigh : (when.tdiv tick + if when.tmod tick = 0 then 0 else 1) < 2 ^ 64 := by
    have hle : (when.tdiv tick + if when.tmod tick = 0 then 0 else 1) * 1 ≤
        Time.rounded tick when := Int.mul_le_mul_of_nonneg_left htick hlow
    omega
  rw [Time.toTicks, Int.emod_eq_of_lt hlow hhigh, Int.toNat_of_nonneg hlow, Time.rounded]

theorem now_eq {tick : Int} {ticks : Nat} (htick : 0 < tick) (hfits : ticks * tick < 2 ^ 63) :
    Time.now tick ticks = ticks * tick := by
  have hpos : 0 ≤ (ticks : Int) * tick := Int.mul_nonneg (Int.natCast_nonneg ticks) htick.le
  exact Time.toInt64_of_fits (by omega) hfits

theorem now_le_now {tick : Int} {ticks ticks' : Nat} (htick : 0 < tick)
    (hle : ticks ≤ ticks') (hfits : ticks' * tick < 2 ^ 63) :
    Time.now tick ticks ≤ Time.now tick ticks' := by
  have hmul : (ticks : Int) * tick ≤ ticks' * tick :=
    Int.mul_le_mul_of_nonneg_right (Int.ofNat_le.mpr hle) htick.le
  rw [now_eq htick hfits, now_eq htick (Int.lt_of_le_of_lt hmul hfits)]
  exact hmul

/-- Time does not go backwards. -/
theorem now_le_jump {sim sim' : Sim} (htick : 0 < sim.params.tick)
    (hroom : (sim.ticks + 1) * sim.params.tick < 2 ^ 63)
    (hrounds : ∀ u, sim.Armed u → sim.now ≤ (sim.timerQueue.heap.timers u).when →
      Time.rounded sim.params.tick (sim.timerQueue.heap.timers u).when < 2 ^ 63)
    (hparams : sim'.params = sim.params) (h : Kernel.Jumps sim sim') : sim.now ≤ sim'.now := by
  have hnow : sim'.now = Time.now sim.params.tick sim'.ticks := by rw [Sim.now, hparams]
  rw [hnow]
  rcases h with hsame | ⟨u, harmed, hdue, hle, hticks⟩
  · rw [hsame]
    exact le_refl _
  · refine now_le_now htick hle ?_
    have hfits : sim.ticks * sim.params.tick < 2 ^ 63 := by
      rw [Int.add_mul, Int.one_mul] at hroom
      omega
    have hpos : 0 ≤ sim.now := by
      rw [Sim.now, now_eq htick hfits]
      exact Int.mul_nonneg (Int.natCast_nonneg _) htick.le
    have hrounded := hrounds u harmed hdue
    rw [hticks, toTicks_mul htick (hpos.trans hdue) hrounded]
    exact hrounded

theorem now_le_iter {sim sim' : Sim} (htick : 0 < sim.params.tick)
    (hroom : (sim.ticks + 1) * sim.params.tick < 2 ^ 63)
    (hparams : sim'.params = sim.params) (hticks : sim'.ticks = (sim.ticks + 1) % ticksSize) :
    sim.now ≤ sim'.now := by
  have hlt : sim.ticks + 1 < ticksSize := by
    have hle : ((sim.ticks : Int) + 1) * 1 ≤ (sim.ticks + 1) * sim.params.tick :=
      Int.mul_le_mul_of_nonneg_left htick (by omega)
    unfold ticksSize
    omega
  have hnow : sim'.now = Time.now sim.params.tick (sim.ticks + 1) := by
    rw [Sim.now, hparams, hticks, Nat.mod_eq_of_lt hlt]
  rw [hnow]
  exact now_le_now htick (Nat.le_succ _) (by push_cast; exact hroom)

theorem Turned.now_le {control : Control} {space : UserSpace U} {sim sim' : Sim}
    {a a' : Holdings} {result : Control × UserSpace U}
    (h : Kernel.Turned program control space sim a result sim' a')
    (hhead : ∀ budget, control = .head budget → 0 < sim.params.tick ∧
      (sim.ticks + 1) * sim.params.tick < 2 ^ 63 ∧
      ∀ u, sim.Armed u → sim.now ≤ (sim.timerQueue.heap.timers u).when →
        Time.rounded sim.params.tick (sim.timerQueue.heap.timers u).when < 2 ^ 63) :
    sim.now ≤ sim'.now := by
  cases control with
  | head budget =>
      obtain ⟨htick, hroom, hrounds⟩ := hhead budget rfl
      have hturn : Kernel.HeadTurn sim a budget result.1 sim' a' := h.1
      generalize result.1 = control' at hturn
      cases control' with
      | head b => exact now_le_jump htick hroom hrounds hturn.2.1.passes.params hturn.2.2
      | finished => exact now_le_jump htick hroom hrounds hturn.1.passes.params hturn.2
      | run next r b =>
          obtain ⟨-, -, hresumes, -, hticks⟩ := hturn
          obtain ⟨sim₁, a₁, hlater, -, hmoves, -⟩ := hresumes.before
          exact now_le_iter htick hroom (hmoves.params.trans hlater.passes.params) hticks
  | run me resumption budget =>
      obtain ⟨⟨request, user⟩, hrequest⟩ : ∃ r, program.resume me resumption space.user = r :=
        ⟨_, rfl⟩
      rw [Kernel.Turned, hrequest] at h
      cases request with
      | sys call =>
          obtain ⟨⟨r, hcalled, -⟩, -⟩ := h
          obtain ⟨woken, hwakes, -⟩ := hcalled.wakes
          rw [Sim.now, Sim.now, hwakes.ticks, hwakes.params]
      | statics op =>
          obtain ⟨reply, statics, -, -, rfl, -⟩ := h
          exact le_refl _
  | finished =>
      obtain ⟨-, rfl, -⟩ := h
      exact le_refl _

/-! ### One turn -/

/-- A sleeping thread sleeps on, its timer wakes it when the deadline is over, or it is
burnt. -/
inductive Rest where
  | sleeps | rings | burnt
  deriving DecidableEq, Repr

/-- What becomes of a sleeping thread in the turn that leads to `m'`. -/
def Finds (holdings : σ → Holdings) (m m' : Machine U σ) (t : ThreadId) (deadline : Int) :
    Rest → Prop
  | .sleeps => m'.Asleep t deadline
  | .rings => m.sim.Armed t ∧ m'.Rested holdings t deadline
  | .burnt => t ∉ m'.sim.alive

theorem Asleep.idle (h : m.Asleep t deadline) (hm : m.Orderly WF holdings) :
    m.control.running ≠ some t := fun hrun => by
  have hstate := (hm.placed.runs t hrun).state
  rw [h.state] at hstate
  cases hstate

/-- The place of a sleeping thread. -/
theorem Asleep.place (h : m.Asleep t deadline) (hm : m.Orderly WF holdings) :
    t ∉ (holdings m.scheduler).owned ∧ (m.sim.threads t).futex = none := by
  have hstate := h.state
  cases hm.placed.place t h.alive (h.idle hm) nofun with
  | held _ hready _ _ => rcases hready with heq | heq | heq <;> exact nomatch hstate.symm.trans heq
  | parked _ hparked _ _ => exact nomatch hstate.symm.trans hparked
  | sleeping howned _ hfutex _ _ => exact ⟨howned, hfutex⟩

theorem rest_of_goes (hm : m.Orderly WF holdings) (hm' : m'.Orderly WF holdings)
    (h : m.Asleep t deadline)
    (hgoes : Kernel.Goes program m.control m.space m.sim (holdings m.scheduler) t m'.control
      m'.sim (holdings m'.scheduler)) :
    ∃ rest, m.Finds holdings m' t deadline rest := by
  obtain ⟨howned, hfutex⟩ := h.place hm
  have halarm : Sim.alarmStatus (m.sim.threads t) = .ok := by
    refine if_neg fun hparked => ?_
    exact nomatch h.state.symm.trans hparked
  cases hgoes with
  | gone halive => exact ⟨.burnt, halive⟩
  | stays _ halive hstays =>
      refine ⟨.sleeps, halive, hstays.role.state.trans h.state, hstays.armed.mpr h.armed, ?_⟩
      exact (Timer.mk.inj hstays.timer).1.trans h.when
  | @woken me loc count _ _ _ hwaits _ =>
      exact absurd hwaits (hm.placed.not_waits h.alive hfutex loc.futexKey)
  | rings hrun halive hrings =>
      refine ⟨.rings, hrings.armed, ?_, h.when ▸ hrings.due⟩
      exact halarm ▸ told_of_roused hm' halive hrun hrings.roused
  | resumed hcontrol hready =>
      rcases hready with ⟨hmem, -⟩ | ⟨harmed, hdue, hstatus⟩
      · exact absurd hmem howned
      · refine ⟨.rings, harmed, ?_, h.when ▸ hdue⟩
        have htold := told_of_run hm' hcontrol
        rwa [hstatus, halarm] at htold

theorem rest_unique {rest rest' : Rest} (h : m.Finds holdings m' t deadline rest)
    (h' : m.Finds holdings m' t deadline rest') : rest = rest' := by
  have hrings : m'.Asleep t deadline → m'.Rested holdings t deadline → False :=
    fun hasleep hrested => hrested.told.armed hasleep.armed
  cases rest <;> cases rest'
  case sleeps.rings => exact (hrings h h'.2).elim
  case sleeps.burnt => exact absurd (Asleep.alive h) h'
  case rings.sleeps => exact (hrings h' h.2).elim
  case rings.burnt => exact absurd h.2.told.alive h'
  case burnt.sleeps => exact absurd (Asleep.alive h') h
  case burnt.rings => exact absurd h'.2.told.alive h
  all_goals rfl

/-- The caller of `SysSleepUntil` sleeps. -/
theorem asleep_of_sleeps {sim : Sim} {a : Holdings} {r : Option Answer}
    (h : Kernel.Sleeps sim a t deadline r m'.sim (holdings m'.scheduler)) :
    m'.Asleep t deadline := by
  refine ⟨?_, h.state, h.armed, h.when⟩
  by_contra hnot
  exact (h.placed.gone t hnot).2 h.armed

/-- A delay that fits ends at the instant that it says. -/
theorem after_eq {tick delay : Int} {ticks : Nat} (hpos : 0 ≤ delay)
    (hfits : Time.now tick ticks + delay < 2 ^ 63) :
    Time.after tick delay ticks = .ok (Time.now tick ticks + delay) := by
  have hlow : -2 ^ 63 ≤ Time.now tick ticks := by
    have := @Int.le_bmod (ticks * tick) (2 ^ 64) (by decide)
    rw [Time.now, toInt64]
    omega
  unfold Time.after
  dsimp only
  rw [if_pos ⟨by omega, hfits⟩]

/-- What a turn does with sleeping threads. -/
structure LetsSleep (holdings : σ → Holdings) (program : Program U) (m m' : Machine U σ) :
    Prop where
  sleepsUntil : ∀ t deadline, m.control.Calls program m.space t (.sleepUntil deadline) →
    m'.control ≠ .finished → m'.Asleep t deadline
  sleepsFor : ∀ t delay, m.control.Calls program m.space t (.sleepFor delay) → 0 ≤ delay →
    m'.control ≠ .finished → m'.Asleep t (m.sim.now + delay)
  wakes : ∀ t deadline, m.Asleep t deadline → ∃! rest, m.Finds holdings m' t deadline rest

theorem next_letsSleep (hS : Keeps S WF holdings links) (hlinks : links ≠ .spared)
    (hm : m.Orderly WF holdings) (hnext : m.next S program e = some m') : LetsSleep holdings program m m' := by
  have hm' := next_orderly hS hm (fun hspared => absurd hspared hlinks) hnext
  have hcalled : ∀ {t call}, m.control.Calls program m.space t call →
      m'.control ≠ .finished → ∃ r, Kernel.Called m.sim (holdings m.scheduler) t r m'.sim
        (holdings m'.scheduler) call := by
    intro t call hcall hcontrol
    cases e with
    | turn =>
        obtain ⟨-, hturned | ⟨haborted, -⟩⟩ :=
          turned hS hm (fun hspared => absurd hspared hlinks) hnext
        · obtain ⟨r, _, hcalled, -⟩ := hturned.called hcall
          exact ⟨r, hcalled⟩
        · exact absurd haborted.control hcontrol
    | runFor budget =>
        obtain ⟨resumption, b, hrun, -⟩ := hcall
        rw [next, hrun, if_neg fun h => by cases h.1] at hnext
        cases hnext
  refine ⟨fun t deadline hcall hcontrol => ?_, fun t delay hcall hpos hcontrol => ?_,
    fun t deadline h => ?_⟩
  · obtain ⟨r, hsleeps⟩ := hcalled hcall hcontrol
    exact asleep_of_sleeps hsleeps
  · obtain ⟨r, deadline, hafter, hsleeps⟩ := hcalled hcall hcontrol
    have hok : deadline = m.sim.now + delay := by
      unfold Time.after at hafter
      dsimp only at hafter
      split at hafter
      · cases hafter
        rfl
      · cases hafter
    exact hok ▸ asleep_of_sleeps hsleeps
  · obtain ⟨rest, hrest⟩ := rest_of_goes hm hm' h
      (next_goes hS hlinks hm hnext h.alive (h.idle hm))
    exact ⟨rest, hrest, fun rest' hrest' => rest_unique hrest' hrest⟩

theorem now_le_next (hS : Keeps S WF holdings links) (hlinks : links ≠ .spared)
    (hm : m.Orderly WF holdings) (htimely : m.Timely program e)
    (hnext : m.next S program e = some m') (halive : m'.sim.alive ≠ []) :
    m.sim.now ≤ m'.sim.now := by
  cases e with
  | turn =>
      obtain ⟨-, hturned | ⟨haborted, -⟩⟩ :=
        turned hS hm (fun hspared => absurd hspared hlinks) hnext
      · refine Turned.now_le hturned fun budget hcontrol => ?_
        rw [Timely, hcontrol] at htimely
        exact htimely
      · exact absurd haborted.empty.alive halive
  | runFor budget =>
      rw [next] at hnext
      split at hnext
      · cases hnext
        exact le_refl _
      · cases hnext

/-! ### Runs -/

variable (S program) in
/-- In the run from `m` to `m'` the thread has run again when its deadline was over, or it
was burnt. -/
def Resumed (m m' : Machine U σ) (t : ThreadId) (deadline : Int) : Prop :=
  ∃ m₁, Reach (next S program) (Timely program) m m₁ ∧
    (m₁.Returns t .ok ∧ deadline ≤ m₁.sim.now ∨ t ∉ m₁.sim.alive) ∧
    Reach (next S program) (Timely program) m₁ m'

/-- By induction on the run. -/
theorem asleep_or_resumed (hS : Keeps S WF holdings links) (hlinks : links ≠ .spared)
    (hm : m.Orderly WF holdings) (h : m.Asleep t deadline)
    (hreach : Reach (next S program) (Timely program) m m') :
    m'.Orderly WF holdings ∧ (m'.Asleep t deadline ∨ m'.Rested holdings t deadline ∨
      Resumed S program m m' t deadline) := by
  induction hreach with
  | start => exact ⟨hm, Or.inl h⟩
  | @step m₁ m₂ e hreach₁ htimely hnext ih =>
      obtain ⟨hm₁, ih⟩ := ih
      have hm₂ := next_orderly hS hm₁ (fun hspared => absurd hspared hlinks) hnext
      refine ⟨hm₂, ?_⟩
      have hgone : t ∉ m₂.sim.alive → Resumed S program m m₂ t deadline := fun hgone =>
        ⟨m₂, hreach₁.step htimely hnext, Or.inr hgone, Reach.start⟩
      rcases ih with hasleep | hrested | ⟨m₃, hbefore, hresumed, hafter⟩
      · obtain ⟨rest, hrest, -⟩ := (next_letsSleep hS hlinks hm₁ hnext).wakes t deadline hasleep
        cases rest with
        | sleeps => exact Or.inl hrest
        | rings => exact Or.inr (Or.inl hrest.2)
        | burnt => exact Or.inr (Or.inr (hgone hrest))
      · rcases hrested.told.place with ⟨howned, hrun⟩ | hreturns
        · rcases told_of_goes hm₂ hrested.told howned
            (next_goes hS hlinks hm₁ hnext hrested.told.alive hrun) with htold | hburnt
          · refine Or.inr (Or.inl ⟨htold, hrested.late.trans ?_⟩)
            exact now_le_next hS hlinks hm₁ htimely hnext (List.ne_nil_of_mem htold.alive)
          · exact Or.inr (Or.inr (hgone hburnt))
        · exact Or.inr (Or.inr ⟨m₁, hreach₁, Or.inl ⟨hreturns, hrested.late⟩,
            Reach.start.step htimely hnext⟩)
      · exact Or.inr (Or.inr ⟨m₃, hbefore, hresumed, hafter.step htimely hnext⟩)

/-- Nobody wakes early: a sleeping thread is woken by its own timer only, and runs again
when the deadline is over. -/
theorem sleepers_late (hS : Keeps S WF holdings links) (hlinks : links ≠ .spared)
    (h : Reached S program (Fresh WF holdings) (Timely program) m) :
    (∀ e m', m.Timely program e → m.next S program e = some m' →
      LetsSleep holdings program m m') ∧
    (∀ t delay, m.Timely program .turn →
      m.control.Calls program m.space t (.sleepFor delay) → 0 ≤ delay →
      Time.after m.sim.params.tick delay m.sim.ticks = .ok (m.sim.now + delay)) ∧
    ∀ t deadline m', m.Asleep t deadline → Reach (next S program) (Timely program) m m' →
      m'.Asleep t deadline ∨ m'.Rested holdings t deadline ∨
        Resumed S program m m' t deadline := by
  have hm := reached_orderly hS (fun _ _ _ hspared => absurd hspared hlinks) h
  refine ⟨fun e m' _ hnext => next_letsSleep hS hlinks hm hnext, ?_,
    fun t deadline m' hasleep hreach => (asleep_or_resumed hS hlinks hm hasleep hreach).2⟩
  rintro t delay htimely ⟨resumption, budget, hcontrol, hrequest⟩ hpos
  rw [Timely, hcontrol] at htimely
  exact after_eq hpos (htimely delay hrequest)

/-! ### Near the end of time -/

/-- The main thread sleeps until `deadline`. -/
def asleepMain (deadline : Int) (m : Machine Nat Coop.State) : Bool :=
  m.sim.alive = [1] ∧ (m.sim.threads 1).state = .sleeping ∧ m.sim.timerQueue.heap.size = 1 ∧
    m.sim.timerQueue.heap.tree 1 = some 1 ∧ (m.sim.timerQueue.heap.timers 1).when = deadline

theorem asleep_of_main {m : Machine Nat Coop.State} (h : m.asleepMain deadline = true) :
    m.Asleep 1 deadline := by
  obtain ⟨halive, hstate, hsize, htree, hwhen⟩ := of_decide_eq_true h
  refine ⟨by rw [halive]; decide, hstate, ⟨1, ⟨le_refl 1, ?_⟩, htree⟩, hwhen⟩
  rw [hsize]

/-- `Timely`, where nobody but the main thread can have a timer. -/
def timelyMain (program : Program Nat) (m : Machine Nat Coop.State) : LoopEvent → Bool
  | .turn =>
      match m.control with
      | .head _ => 0 < m.sim.params.tick ∧
          (m.sim.ticks + 1) * m.sim.params.tick < 2 ^ 63 ∧
          m.sim.timerQueue.heap.size ≤ 1 ∧
          (m.sim.timerQueue.heap.size = 1 → m.sim.timerQueue.heap.tree 1 = some 1) ∧
          Time.rounded m.sim.params.tick (m.sim.timerQueue.heap.timers 1).when < 2 ^ 63
      | .run t resumption _ =>
          match (program.resume t resumption m.space.user).1 with
          | .sys (.sleepFor delay) => m.sim.now + delay < 2 ^ 63
          | _ => true
      | .finished => true
  | .runFor _ => true

theorem timely_of_main {program : Program Nat} {m : Machine Nat Coop.State}
    (h : m.timelyMain program e = true) : m.Timely program e := by
  cases e with
  | runFor budget => trivial
  | turn =>
      unfold timelyMain at h
      unfold Timely
      dsimp only at h ⊢
      split at h
      · obtain ⟨htick, hroom, hsize, htree, hrounds⟩ := of_decide_eq_true h
        refine ⟨htick, hroom, fun u harmed _ => ?_⟩
        obtain ⟨i, ⟨hlow, hhigh⟩, hslot⟩ := harmed
        obtain rfl : i = 1 := by omega
        rw [htree (by omega)] at hslot
        cases hslot
        exact hrounds
      · intro delay hrequest
        rw [hrequest] at h
        exact of_decide_eq_true h
      · trivial

theorem sleepers_late_sleeper :
    ∃ m : Machine Nat Coop.State, m.Asleep 1 25000 ∧
      ∀ m', Reach (next Coop.scheduler (sleeper 25000)) (Timely (sleeper 25000)) m m' →
        m'.Asleep 1 25000 ∨ m'.Rested Coop.State.holdings 1 25000 ∨
          Resumed Coop.scheduler (sleeper 25000) m m' 1 25000 := by
  obtain ⟨m, hreached, hasleep⟩ :=
    @exists_reached _ _ Coop.scheduler (sleeper 25000) (Fresh Coop.State.WF Coop.State.holdings)
      (fun m e => m.timelyMain (sleeper 25000) e = true) _ {} noVariables (Coop.State.new ⟨0⟩)
      [.runFor 5, .turn, .turn] (fun m => m.asleepMain 25000 = true) _ (Coop.fresh ⟨0⟩)
      (by decide +kernel)
  refine ⟨m, asleep_of_main hasleep, fun m' hreach => ?_⟩
  exact (sleepers_late (@Coop.keeps .shared nofun) nofun
    (hreached.mono fun _ _ => timely_of_main)).2.2 1 25000 m' (asleep_of_main hasleep) hreach

/-- Until the last multiple of the tick: the alarm is in time, but in the next iteration,
when the thread runs, the clock has wrapped around. -/
theorem sleeper_early :
    ¬ ∀ m m', Reached Coop.scheduler (sleeper 9223372036854770000)
        (Fresh Coop.State.WF Coop.State.holdings) (fun _ _ => True) m →
      m.Asleep 1 9223372036854770000 →
      Reach (next Coop.scheduler (sleeper 9223372036854770000)) (fun _ _ => True) m m' →
      m'.Returns 1 .ok → 9223372036854770000 ≤ m'.sim.now := by
  intro hclaim
  obtain ⟨m, hreached, hasleep, hlater⟩ :=
    @exists_reached _ _ Coop.scheduler (sleeper 9223372036854770000)
      (Fresh Coop.State.WF Coop.State.holdings) (fun _ _ => True) _ {} noVariables
      (Coop.State.new ⟨0⟩) [.runFor 5, .turn, .turn]
      (fun m => m.asleepMain 9223372036854770000 = true ∧
        (runEvents (next Coop.scheduler (sleeper 9223372036854770000)) (fun _ _ => True)
          [.turn, .turn] m).any (fun m' => decide
            (m'.control = .run 1 (.answer (.resumed .ok 0)) 4 ∧
              m'.sim.now < 9223372036854770000)) = true) _ (Coop.fresh ⟨0⟩)
      (by decide +kernel)
  obtain ⟨m', hreach, hcontrol, hearly⟩ := @exists_reach _ _
    (next Coop.scheduler (sleeper 9223372036854770000)) (fun _ _ => True) m _ [.turn, .turn]
    (fun m' => m'.control = .run 1 (.answer (.resumed .ok 0)) 4 ∧
      m'.sim.now < 9223372036854770000) _ hlater
  have hlate := hclaim m m' hreached (asleep_of_main hasleep) hreach ⟨0, 4, hcontrol⟩
  exact absurd hlate (not_le.mpr hearly)

end Machine

end TwistSim
