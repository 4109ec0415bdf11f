/-
Every thread that is alive and does not run is in exactly one place, so the checks of
the simulator on its queues cannot fail, and a deadlock is one.
-/
import TwistSim.Places
import TwistSim.Idling

namespace TwistSim

open Interaction (Along wp_sound)


/-- Where a thread can be that is alive and does not run. -/
inductive Whereabouts where
  | held | parked | sleeping | suspended
  deriving DecidableEq, Repr

namespace Sim

def At (sim : Sim) (a : Holdings) (t : ThreadId) : Whereabouts → Prop
  | .held => t ∈ a.held
  | .parked => ∃ key, t ∈ sim.waiters a key
  | .sleeping => (sim.threads t).state = .sleeping
  | .suspended => t ∈ a.suspended

/-- The thread is in one place only, once, and its record says so. -/
structure Settled (sim : Sim) (a : Holdings) (t : ThreadId) : Prop where
  place : ∃! place, sim.At a t place
  held : sim.At a t .held → a.held.count t = 1 ∧ ¬ sim.Armed t
  parked : sim.At a t .parked → (sim.threads t).state = .parked ∧
    ∃ key, (sim.threads t).futex = some key ∧ (sim.waiters a key).count t = 1 ∧
      (∀ other, other ≠ key → t ∉ sim.waiters a other) ∧
      (sim.Armed t ↔ (sim.threads t).timer = true)
  sleeping : sim.At a t .sleeping → (sim.threads t).timer = true ∧ sim.Armed t
  suspended : sim.At a t .suspended → a.suspended.count t = 1 ∧ ¬ sim.Armed t

variable {sim : Sim} {a : Holdings} {t : ThreadId} {running : Option ThreadId}

theorem settled_of_held (h : sim.Placed running none a) (ht : t ∈ sim.alive)
    (howned : t ∈ a.owned) (hstate : (sim.threads t).state.Ready)
    (hfutex : (sim.threads t).futex = none) (htimer : (sim.threads t).timer = false) :
    sim.Settled a t := by
  have hcount : a.held.count t + a.suspended.count t = 1 := by
    rw [← Multiset.count_add]
    exact Multiset.count_eq_one_of_mem h.filed.sound.owned howned
  have hwaits := h.not_waits ht hfutex
  have hidle : ¬ sim.Armed t := fun harmed => by
    have hset := (h.timer t ht nofun).mp harmed
    rw [htimer] at hset
    cases hset
  have hawake : (sim.threads t).state ≠ .sleeping := by
    rcases hstate with heq | heq | heq <;> rw [heq] <;> nofun
  have hparked : ¬ sim.At a t .parked := fun ⟨key, hkey⟩ => hwaits key hkey
  have hplace : ∃! place, sim.At a t place := by
    by_cases hheld : t ∈ a.held
    · refine ⟨.held, hheld, fun place hplace => ?_⟩
      have hpos := Multiset.count_pos.mpr hheld
      cases place with
      | held => rfl
      | parked => exact absurd hplace hparked
      | sleeping => exact absurd hplace hawake
      | suspended =>
          have := Multiset.count_pos.mpr hplace
          omega
    · have hsuspended : t ∈ a.suspended :=
        (Multiset.mem_add.mp howned).resolve_left hheld
      refine ⟨.suspended, hsuspended, fun place hplace => ?_⟩
      cases place with
      | held => exact absurd hplace hheld
      | parked => exact absurd hplace hparked
      | sleeping => exact absurd hplace hawake
      | suspended => rfl
  refine ⟨hplace, fun hheld => ⟨?_, hidle⟩, fun hat => absurd hat hparked,
    fun hat => absurd hat hawake, fun hsuspended => ⟨?_, hidle⟩⟩
  · have := Multiset.count_pos.mpr hheld
    omega
  · have := Multiset.count_pos.mpr hsuspended
    omega

theorem settled_of_parked {key : FutexKey} (h : sim.Placed running none a)
    (ht : t ∈ sim.alive) (howned : t ∉ a.owned) (hstate : (sim.threads t).state = .parked)
    (hfutex : (sim.threads t).futex = some key) : sim.Settled a t := by
  have hwaits := h.waits ht hfutex
  have hnot : t ∉ a.held ∧ t ∉ a.suspended := by
    rwa [Holdings.owned, Multiset.mem_add, not_or] at howned
  refine ⟨⟨.parked, ⟨key, hwaits⟩, fun place hplace => ?_⟩, fun hat => absurd hat hnot.1,
    fun _ => ⟨hstate, key, hfutex, ?_, fun other hne hother => hne ?_, h.timer t ht (by simp)⟩,
    fun hat => ?_, fun hat => absurd hat hnot.2⟩
  · cases place with
    | held => exact absurd hplace hnot.1
    | parked => rfl
    | sleeping => cases hstate.symm.trans hplace
    | suspended => exact absurd hplace hnot.2
  · exact Multiset.count_eq_one_of_mem (h.filed.apart key).nodup hwaits
  · have hkey := (h.futex t ht (by simp) other).mp hother
    exact Option.some.inj (hkey.symm.trans hfutex)
  · cases hstate.symm.trans hat

theorem settled_of_sleeping (h : sim.Placed running none a) (ht : t ∈ sim.alive)
    (howned : t ∉ a.owned) (hstate : (sim.threads t).state = .sleeping)
    (hfutex : (sim.threads t).futex = none) (htimer : (sim.threads t).timer = true) :
    sim.Settled a t := by
  have hnot : t ∉ a.held ∧ t ∉ a.suspended := by
    rwa [Holdings.owned, Multiset.mem_add, not_or] at howned
  have hwaits := h.not_waits ht hfutex
  have hparked : ¬ sim.At a t .parked := not_exists.mpr hwaits
  refine ⟨⟨.sleeping, hstate, fun place hplace => ?_⟩, fun hat => absurd hat hnot.1,
    fun hat => absurd hat hparked, fun _ => ⟨htimer, (h.timer t ht (by simp)).mpr htimer⟩,
    fun hat => absurd hat hnot.2⟩
  cases place with
  | held => exact absurd hplace hnot.1
  | parked => exact absurd hplace hparked
  | sleeping => rfl
  | suspended => exact absurd hplace hnot.2

theorem Placed.settled (h : sim.Placed running none a) (ht : t ∈ sim.alive)
    (hrun : running ≠ some t) : sim.Settled a t := by
  cases h.place t ht hrun nofun with
  | held howned hstate hfutex htimer =>
      exact settled_of_held h ht howned hstate hfutex htimer
  | parked howned hstate hfutex _ => exact settled_of_parked h ht howned hstate hfutex
  | sleeping howned hstate hfutex htimer _ =>
      exact settled_of_sleeping h ht howned hstate hfutex htimer

end Sim

namespace Machine

variable {U σ : Type}

/-- Are the checks of the next turn met?  None of those for lost threads fails, and a
deadlock is reported only where nobody can ever run again. -/
structure Sure (S : IScheduler σ) (holdings : σ → Holdings) (program : Program U)
    (m : Machine U σ) : Prop where
  checks : ∀ p sim' s',
    (Kernel.guardedStep program m.control m.space m.sim).interp S.answer m.scheduler =
      .ok ((.error (.panic p), sim'), s') → p ∉ Kernel.impossible
  deadlock : ∀ sim' s',
    (Kernel.step program m.control m.space m.sim).interp S.answer m.scheduler =
      .ok ((.error .sysAbortEx, sim'), s') → sim'.status = some .deadlock →
    Kernel.Deadlocks program m.space m.sim (holdings m.scheduler) m.control
  rests : ∀ budget m', Kernel.Stuck m.sim (holdings m.scheduler) → m.control = .head budget →
    m.next S program .turn = some m' → m'.control.running = none

variable {S : IScheduler σ} {WF : σ → Prop} {holdings : σ → Holdings} {links : Links}
  {program : Program U} {m : Machine U σ}

/-- The handler is asked after the turn, so the turn meets the condition as well. -/
theorem along_step {C : σ → Call → Prop}
    (h : (Kernel.guardedStep program m.control m.space m.sim).Along S.answer C m.scheduler) :
    (Kernel.step program m.control m.space m.sim).Along S.answer C m.scheduler :=
  Along.of_bind h

/-- From where a deadlock is reported, no turn lets a thread run. -/
theorem stuck_rests (hS : Keeps S WF holdings links) {budget : Nat} {m' : Machine U σ}
    (h : m.Orderly WF holdings) (hstuck : Kernel.Stuck m.sim (holdings m.scheduler))
    (hcontrol : m.control = .head budget)
    (hspares : links = .spared → m.Spares S holdings program .turn)
    (hnext : m.next S program .turn = some m') : m'.control.running = none := by
  obtain ⟨-, hturned | ⟨haborted, -⟩⟩ := turned hS h hspares hnext
  · rw [hcontrol] at hturned
    have hturn : Kernel.HeadTurn m.sim (holdings m.scheduler) budget m'.control m'.sim
      (holdings m'.scheduler) := hturned.1
    generalize m'.control = control at hturn
    cases control with
    | run next r b => exact absurd hstuck.idle hturn.2.1
    | head b => rfl
    | finished => rfl
  · exact congrArg Control.running haborted.control

theorem sure_of_orderly (hS : Keeps S WF holdings links) (hlinks : links ≠ .shared)
    (h : m.Orderly WF holdings)
    (hspares : links = .spared → m.Spares S holdings program .turn) :
    m.Sure S holdings program := by
  refine ⟨?_, ?_, fun budget m' hstuck hcontrol hnext =>
    stuck_rests hS h hstuck hcontrol hspares hnext⟩
  · intro p sim' s' hrun hp
    have hturn := turn_sound hS h hspares
    rw [hrun] at hturn
    exact hlinks (hturn.2 hp)
  · intro sim' s' hrun hdeadlock
    have hassume : (Kernel.step program m.control m.space m.sim).Along S.answer
        (fun s call => (keeperSpec links).assume (holdings s) call) m.scheduler := by
      by_cases hspared : links = .spared
      · exact (along_step (hspares hspared)).mono fun _ _ hallowed _ => hallowed
      · exact Along.of_forall fun _ _ heq => absurd heq hspared
    have hsound := wp_sound hS h.wf hassume (Kernel.ensures_step h.placed id)
    rw [hrun] at hsound
    exact hsound.2.2 hdeadlock

/-- Every thread is in exactly one place, in every state of a run in which no thread is
burnt that is in a wait queue on the links of the run queue. -/
theorem threads_settled (hS : Keeps S WF holdings links) (hlinks : links ≠ .shared)
    (h : Reached S program (Fresh WF holdings)
      (fun m e => links = .spared → m.Spares S holdings program e) m) :
    (∀ t ∈ m.sim.alive, m.control.running ≠ some t →
      m.sim.Settled (holdings m.scheduler) t) ∧
    ((links = .spared → m.Spares S holdings program .turn) → m.Sure S holdings program) := by
  have horderly := reached_orderly hS (fun _ _ hcond => hcond) h
  exact ⟨fun t ht hrun => horderly.placed.settled ht hrun, sure_of_orderly hS hlinks horderly⟩

end Machine

/-! ### Two parked threads -/

/-- The main thread leaves two detached threads parked on one futex. -/
def deserted : Program Nat where
  resume thread _ progress :=
    match thread, progress with
    | 1, 0 =>
        (.sys (.sync ⟨8, 4, .atomicInit, 0, .relaxed, "init", ⟨"", "", 0⟩⟩), 1)
    | 1, 1 => (.sys .spawn, 2)
    | 1, 2 => (.sys .spawn, 3)
    | 1, 3 => (.sys (.detach 2), 4)
    | 1, 4 => (.sys (.detach 3), 5)
    | 1, 5 => (.sys .yield, 6)
    | 1, _ => (.sys .threadExit, 7)
    | _, _ =>
        (.sys (.futexWait ⟨8, 4, .whole, .uint32⟩ 0 ⟨.futex, "wait", ⟨"", "", 0⟩, none⟩),
          progress)
  heapStat _ := ⟨0, 0, 0, 0⟩

theorem Coop.fresh (params : Coop.Params) :
    Machine.Fresh Coop.State.WF Coop.State.holdings (Coop.State.new params) := by
  refine ⟨⟨IntrusiveLists.empty_consistent, fun _ _ => rfl⟩, ?_, rfl⟩
  exact Agrees.start.sound

namespace Machine

/-- A turn that removes no thread. -/
def removesNone {U σ : Type} (S : IScheduler σ) (program : Program U) (m : Machine U σ) :
    LoopEvent → Bool
  | .turn =>
      (Kernel.guardedStep program m.control m.space m.sim).holdsAlong S.answer
        (fun _ call => match call.2 with | .remove _ => false | _ => true) m.scheduler
  | .runFor _ => true

theorem spares_of_removesNone {U σ : Type} {S : IScheduler σ} {holdings : σ → Holdings}
    {program : Program U} {m : Machine U σ} {e : LoopEvent}
    (h : m.removesNone S program e = true) : m.Spares S holdings program e := by
  cases e with
  | turn =>
      refine Along.of_holds (fun s call hcall => ?_) h
      obtain ⟨view, q⟩ := call
      cases q with
      | remove t => cases hcall
      | _ => trivial
  | runFor budget => trivial

theorem threads_settled_deserted :
    ∃ m : Machine Nat Coop.State, m.sim.Settled m.scheduler.holdings 2 ∧
      m.sim.Settled m.scheduler.holdings 3 ∧
      m.Sure Coop.scheduler Coop.State.holdings deserted := by
  obtain ⟨m, hreached, ⟨halive, hcontrol⟩, hnone⟩ :=
    @exists_reached _ _ Coop.scheduler deserted (Fresh Coop.State.WF Coop.State.holdings)
      (fun m e => m.removesNone Coop.scheduler deserted e = true) _ {} noVariables
      (Coop.State.new ⟨0⟩) (.runFor 100 :: List.replicate 12 .turn)
      (fun m => (m.sim.alive = [1, 2, 3] ∧ m.control = .head 96) ∧
        m.removesNone Coop.scheduler deserted .turn = true) _ (Coop.fresh ⟨0⟩)
      (by decide +kernel)
  obtain ⟨hsettled, hsure⟩ := threads_settled (@Coop.keeps .spared nofun) nofun
    (hreached.mono fun _ _ hnone _ => spares_of_removesNone hnone)
  have hrun : ∀ t, m.control.running ≠ some t := by
    rw [hcontrol]
    exact fun t => nofun
  exact ⟨m, hsettled 2 (by rw [halive]; decide) (hrun 2),
    hsettled 3 (by rw [halive]; decide) (hrun 3),
    hsure fun _ => spares_of_removesNone hnone⟩

/-- Which panic does the next turn end in? -/
def panic? {U : Type} (program : Program U) (m : Machine U Coop.State) : Option Panic :=
  match (Kernel.guardedStep program m.control m.space m.sim).interp Coop.scheduler.answer
    m.scheduler with
  | .ok ((.error (.panic p), _), _) => some p
  | _ => none

/-- The main thread exits: the first of its detached threads is unlinked from the wait
queue by `Remove`, and is missed there. -/
theorem burnt_waiter_missed :
    ¬ ∀ m : Machine Nat Coop.State,
      Reached Coop.scheduler deserted (Fresh Coop.State.WF Coop.State.holdings)
        (fun _ _ => True) m → m.Sure Coop.scheduler Coop.State.holdings deserted := by
  intro hclaim
  obtain ⟨m, hreached, hpanic⟩ :=
    @exists_reached _ _ Coop.scheduler deserted (Fresh Coop.State.WF Coop.State.holdings)
      (fun _ _ => True) _ {} noVariables (Coop.State.new ⟨0⟩)
      (.runFor 100 :: List.replicate 13 .turn)
      (fun m => m.panic? deserted = some (.verify "Waiter not found in WaitQueue")) _
      (Coop.fresh ⟨0⟩) (by decide +kernel)
  unfold panic? at hpanic
  split at hpanic
  · rename_i p sim' s' hrun
    cases hpanic
    exact (hclaim m hreached).checks _ _ _ hrun (by decide)
  · cases hpanic

end Machine

end TwistSim
