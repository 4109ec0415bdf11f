/-
Every thread stays in its place over whole runs, whatever the program does and under
every scheduler that keeps its contract.
-/
import TwistSim.Dispatch
import TwistSim.Turns

namespace TwistSim

open Effect
open Interaction (Along wp_sound)
open Sim (Linked Placed Untouched)

/-! ### Burning what an abort has left -/

/-- The thread that runs user code. -/
def Control.running : Control → Option ThreadId
  | .run t _ _ => some t
  | _ => none

namespace Kernel

variable {links : Links} {stuck : Prop} {sim : Sim} {a : Holdings} {U : Type}

theorem isEmpty_of_unarmed {sim : Sim} (h : sim.timerQueue.heap.Indexed)
    (hnone : ∀ u, ¬ sim.Armed u) : sim.timerQueue.isEmpty = true := by
  by_contra hnot
  have hsize : sim.timerQueue.heap.size ≠ 0 := fun heq => hnot (decide_eq_true heq)
  have hrange : sim.timerQueue.heap.inRange 1 := ⟨le_refl 1, Nat.pos_of_ne_zero hsize⟩
  obtain ⟨u, hu⟩ := h.full 1 hrange
  exact hnone u ⟨1, hrange, hu⟩

/-- Nobody is left, in the futexes and in the timer queue neither. -/
structure Empty (sim : Sim) (a : Holdings) : Prop where
  placed : sim.Placed none none a
  alive : sim.alive = []
  timers : ∀ u, ¬ sim.Armed u
  waiters : ∀ key, sim.waiters a key = 0
  done : sim.done = true
  current : sim.current = false

theorem ensures_burn {statics : Statics.Manager} (h : sim.Linked none a) :
    Ensures links stuck (burn statics)
      (fun statics' sim' a' => statics' = statics.burnVars ∧ Empty sim' a' ∧
        sim'.status = sim.status) sim a := by
  unfold burn
  refine ensures_get ?_
  split
  · refine (ensures_burnThreads h h.nodup fun _ hu => hu).bind ?_
    intro _ sim₁ a₁ hburns
    have halive : sim₁.alive = [] := List.eq_nil_iff_forall_not_mem.mpr fun u hu =>
      ((hburns.alive u).mp hu).2 ((hburns.alive u).mp hu).1
    have hgone : ∀ u, (∀ key, u ∉ sim₁.waiters a₁ key) ∧ ¬ sim₁.Armed u := fun u =>
      hburns.linked.gone u (halive ▸ List.not_mem_nil)
    have hempty := isEmpty_of_unarmed hburns.linked.indexed fun u => (hgone u).2
    refine ensures_get ?_
    refine (ensures_checked (fun queue hqueue => ⟨rfl, rfl, hqueue⟩) fun p hp => ?_ :
      Ensures links stuck _ (fun queue sim' a' => sim' = sim₁ ∧ a' = a₁ ∧
        sim₁.timerQueue.reset = .ok queue) sim₁ a₁).bind ?_
    · rw [TimerQueue.reset, if_pos hempty] at hp
      cases hp
    rintro queue sim₁ a₁ ⟨rfl, rfl, hqueue⟩
    rw [TimerQueue.reset, if_pos hempty] at hqueue
    cases hqueue
    refine ⟨rfl, ⟨⟨⟨hburns.linked.filed, hburns.linked.indexed, hburns.linked.nodup,
      hburns.linked.known, hburns.linked.count, hburns.linked.born, hburns.linked.futex,
      hburns.linked.timer, hburns.linked.gone⟩, fun u hu => ?_, nofun⟩, halive,
      fun u => (hgone u).2, fun key => ?_, rfl, rfl⟩, hburns.status⟩
    · exact absurd (halive ▸ hu) List.not_mem_nil
    · exact Multiset.eq_zero_of_forall_notMem fun u => (hgone u).1 key
  · exact ensures_panic (by decide)

/-! ### A turn -/

/-- What a turn does that ends in no abort. -/
def Turned (program : Program U) (control : Control) (space : UserSpace U) (sim : Sim)
    (a : Holdings) (result : Control × UserSpace U) (sim' : Sim) (a' : Holdings) : Prop :=
  match control with
  | .head budget => HeadTurn sim a budget result.1 sim' a' ∧ result.2 = space
  | .run t resumption budget =>
      match program.resume t resumption space.user with
      | (.sys call, user) => CallTurn sim a t call budget result.1 sim' a' ∧
          result.2 = { space with user }
      | (.statics op, user) => ∃ reply statics,
          Statics.exec space.statics op = .ok (reply, statics) ∧
            result = (.run t (.statics reply) budget, ⟨user, statics⟩) ∧ sim' = sim ∧ a' = a
  | .finished => result = (.finished, space) ∧ sim' = sim ∧ a' = a

/-- What an abort leaves. -/
structure Aborted (space : UserSpace U) (result : Control × UserSpace U) (sim' : Sim)
    (a' : Holdings) : Prop where
  control : result.1 = .finished
  user : result.2.user = space.user
  statics : result.2.statics = space.statics.burnVars
  empty : Empty sim' a'

/-- When a turn may report a deadlock: nobody can ever run again, or user code has asked
for the report. -/
def Deadlocks (program : Program U) (space : UserSpace U) (sim : Sim) (a : Holdings) :
    Control → Prop
  | .head _ => Stuck sim a
  | .run t resumption _ =>
      (program.resume t resumption space.user).1 = .sys (.abort .deadlock)
  | .finished => False

theorem exec_error {m : Statics.Manager} {op : Statics.Op} {p : Panic}
    (h : Statics.exec m op = .error p) : p ∉ impossible := by
  cases op with
  | visit var =>
      simp only [Statics.exec] at h
      split at h
      · cases h
      · split at h
        · cases h
          decide
        · cases h
  | construct var | destroy var =>
      simp only [Statics.exec] at h
      split at h
      · cases h <;> decide
      · cases h <;> decide
  | _ => cases h

variable {program : Program U} {control : Control} {space : UserSpace U}

theorem ensures_step (h : sim.Placed control.running none a)
    (hstuck : Deadlocks program space sim a control → stuck) :
    Ensures links stuck (step program control space) (Turned program control space sim a)
      sim a := by
  cases control with
  | head budget =>
      refine (ensures_stepHead h hstuck).bind fun control' sim' a' hturn => ?_
      exact ⟨hturn, rfl⟩
  | run t resumption budget =>
      obtain ⟨⟨request, user⟩, hrequest⟩ : ∃ result, program.resume t resumption space.user =
        result := ⟨_, rfl⟩
      simp only [step, hrequest]
      cases request with
      | sys call =>
          have hcall : call = .abort .deadlock → stuck := fun heq =>
            hstuck (by rw [Deadlocks, hrequest, heq])
          refine (ensures_stepSys h hcall).bind fun control' sim' a' hturn => ?_
          refine (wp_pure _).mpr ?_
          rw [Turned, hrequest]
          exact ⟨hturn, rfl⟩
      | statics op =>
          refine (ensures_checked (fun r hr => ⟨rfl, rfl, hr⟩) (fun _ => exec_error) :
            Ensures links stuck _ (fun r sim' a' => sim' = sim ∧ a' = a ∧
              Statics.exec space.statics op = .ok r) sim a).bind ?_
          rintro ⟨reply, statics⟩ sim a ⟨rfl, rfl, hexec⟩
          refine (wp_pure _).mpr ?_
          rw [Turned, hrequest]
          exact ⟨reply, statics, hexec, rfl, rfl, rfl⟩
  | finished => exact ⟨rfl, rfl, rfl⟩

theorem ensures_guardedStep (h : sim.Placed control.running none a) :
    Ensures links False (guardedStep program control space)
      (fun result sim' a' => Turned program control space sim a result sim' a' ∨
        Aborted space result sim' a' ∧ (sim'.status = some .deadlock →
          Deadlocks program space sim a control)) sim a := by
  refine wp_handle.mpr (wp_mono (ensures_step h id) (fun _ _ _ => Or.inl) ?_)
  intro e sim₁ a₁ hfails
  cases e with
  | sysAbortEx =>
      obtain ⟨hlinked, hdeadlock⟩ := hfails
      refine Ensures.bind (ensures_burn hlinked) ?_
      rintro statics sim₂ a₂ ⟨rfl, hempty, hstatus⟩
      exact Or.inr ⟨⟨rfl, rfl, rfl, hempty⟩, fun heq => hdeadlock (hstatus ▸ heq)⟩
  | panic p => exact hfails

theorem Turned.placed {result : Control × UserSpace U} {sim' : Sim} {a' : Holdings}
    (h : Turned program control space sim a result sim' a')
    (hplaced : sim.Placed control.running none a) :
    sim'.Placed result.1.running none a' := by
  cases control with
  | head budget =>
      have hturn : HeadTurn sim a budget result.1 sim' a' := h.1
      generalize result.1 = control' at hturn
      cases control' with
      | head b => exact hturn.2.1.placed
      | run next r b => exact hturn.2.2.1.placed
      | finished => exact hturn.1.placed
  | run t resumption budget =>
      obtain ⟨⟨request, user⟩, hrequest⟩ : ∃ r, program.resume t resumption space.user = r :=
        ⟨_, rfl⟩
      rw [Turned, hrequest] at h
      cases request with
      | sys call =>
          obtain ⟨⟨r, hcalled, hcontrol⟩, -⟩ := h
          have hafter := hcalled.placed
          rw [hcontrol]
          cases r with
          | none => exact hafter
          | some x => exact hafter
      | statics op =>
          obtain ⟨reply, statics, -, rfl, rfl, rfl⟩ := h
          exact hplaced
  | finished =>
      obtain ⟨rfl, rfl, rfl⟩ := h
      exact hplaced

/-- `Start`, with a scheduler that holds nothing. -/
theorem ensures_startLoop {params : Params} (hsound : a.Sound) (hvacant : a.Vacant) :
    Ensures links stuck startLoop (fun _ sim' a' => sim'.Placed none none a')
      (Sim.init params false) a := by
  unfold startLoop
  refine ensures_get ?_
  refine Ensures.bind (P := fun _ sim' a' => sim' = Sim.init params false ∧ a' = a)
    ⟨rfl, rfl⟩ ?_
  rintro _ _ a ⟨rfl, rfl⟩
  refine Ensures.bind (P := fun _ sim' a' => sim' = Sim.init params true ∧ a' = a)
    ⟨rfl, rfl⟩ ?_
  rintro _ _ a ⟨rfl, rfl⟩
  refine (ensures_query hsound hvacant rfl trivial fun r a' hgrants => ⟨rfl, hgrants.post⟩ :
    Ensures links stuck (query .start) (fun _ sim' a' => sim' = Sim.init params true ∧
      a' = Holdings.empty) (Sim.init params true) a).bind ?_
  rintro _ _ _ ⟨rfl, rfl⟩
  have hfiled : Filed (Sim.init params true).futex Holdings.empty Ledger.empty :=
    filed_start (fun _ => rfl) rfl
  have hwaiters := waiters_eq hfiled
  have hempty : ∀ i, ¬ (Sim.init params true).timerQueue.heap.inRange i := fun i hi =>
    Nat.not_succ_le_zero 0 (Nat.le_trans hi.1 hi.2)
  have hnone : ∀ t, ¬ (Sim.init params true).Armed t := fun t ⟨i, hi, _⟩ => hempty i hi
  have hplaced : (Sim.init params true).Placed none none Holdings.empty := by
    refine ⟨⟨hwaiters.symm ▸ hfiled, ⟨fun i hi => absurd hi (hempty i),
      fun i t hi _ => absurd hi (hempty i)⟩, List.nodup_nil, nofun, Nat.zero_le _,
      fun t ht => absurd ht (Multiset.notMem_zero t), nofun, nofun,
      fun t _ => ⟨fun key => ?_, hnone t⟩⟩, nofun, nofun⟩
    rw [hwaiters]
    exact Multiset.notMem_zero t
  unfold spawnMainThread
  refine (ensures_createThread hplaced).bind ?_
  rintro main sim₁ a₁ ⟨rfl, hborn⟩
  have hsame : sim₁.Unmoved Holdings.empty (sim₁.setThread main
      { sim₁.threads main with main := true }) Holdings.empty main :=
    Sim.unmoved_setThread ⟨rfl, rfl, rfl⟩
  refine Ensures.bind (P := fun _ sim' a' => a' = Holdings.empty ∧
    Sim.Born none (Sim.init params true) Holdings.empty main sim')
    ⟨rfl, Born.unmoved hborn hsame⟩ ?_
  rintro _ sim₂ a₂ ⟨rfl, hborn₂⟩
  exact ensures_hand hborn₂.placed hborn₂.detached nofun hborn₂.free rfl
    (fun hlacks => hlacks) trivial (fun r a' hpost => ⟨hpost.1, fun _ => hpost.2⟩)
    fun _ _ hplaced' _ _ => hplaced'

end Kernel

/-! ### Runs -/

namespace Machine

variable {U σ : Type}

section Conditions

variable (S : IScheduler σ) (WF : σ → Prop) (holdings : σ → Holdings) (program : Program U)

/-- A scheduler that holds no thread yet. -/
structure Fresh (s : σ) : Prop where
  wf : WF s
  sound : (holdings s).Sound
  vacant : (holdings s).Vacant

/-- Everything is in its place between two turns. -/
structure Orderly (m : Machine U σ) : Prop where
  wf : WF m.scheduler
  placed : m.sim.Placed m.control.running none (holdings m.scheduler)

/-- No thread is removed from the scheduler that is in one of its wait queues. -/
def Spares (m : Machine U σ) : LoopEvent → Prop
  | .turn =>
      (Kernel.guardedStep program m.control m.space m.sim).Along S.answer
        (fun s call => (holdings s).allowed true call) m.scheduler
  | .runFor _ => True

end Conditions

variable {S : IScheduler σ} {WF : σ → Prop} {holdings : σ → Holdings} {links : Links}
  {program : Program U} {m m' : Machine U σ} {C : Machine U σ → LoopEvent → Prop}

/-- What a turn leads to, whether it returns or not. -/
theorem turn_sound (hS : Keeps S WF holdings links) (h : m.Orderly WF holdings)
    (hspares : links = .spared → m.Spares S holdings program .turn) :
    match (Kernel.guardedStep program m.control m.space m.sim).interp S.answer
      m.scheduler with
    | .error _ => True
    | .ok ((.ok result, sim'), s') => WF s' ∧
        (Kernel.Turned program m.control m.space m.sim (holdings m.scheduler) result sim'
            (holdings s') ∨
          Kernel.Aborted m.space result sim' (holdings s') ∧
            (sim'.status = some .deadlock →
              Kernel.Deadlocks program m.space m.sim (holdings m.scheduler) m.control))
    | .ok ((.error e, sim'), s') => WF s' ∧ Kernel.Fails links False e sim' (holdings s') := by
  have hassume : (Kernel.guardedStep program m.control m.space m.sim).Along S.answer
      (fun s call => (keeperSpec links).assume (holdings s) call) m.scheduler := by
    by_cases hlinks : links = .spared
    · exact (hspares hlinks).mono fun _ _ hallowed _ => hallowed
    · exact Along.of_forall fun _ _ hspared => absurd hspared hlinks
  have hsound := wp_sound hS h.wf hassume (Kernel.ensures_guardedStep h.placed)
  cases hrun : (Kernel.guardedStep program m.control m.space m.sim).interp S.answer
    m.scheduler with
  | error p => trivial
  | ok result =>
      obtain ⟨⟨r, sim'⟩, s'⟩ := result
      rw [hrun] at hsound
      cases r with
      | ok result => exact hsound
      | error e => exact hsound

/-- A turn that returns. -/
theorem turned (hS : Keeps S WF holdings links) (h : m.Orderly WF holdings)
    (hspares : links = .spared → m.Spares S holdings program .turn)
    (hnext : m.next S program .turn = some m') :
    WF m'.scheduler ∧
      (Kernel.Turned program m.control m.space m.sim (holdings m.scheduler)
          (m'.control, m'.space) m'.sim (holdings m'.scheduler) ∨
        Kernel.Aborted m.space (m'.control, m'.space) m'.sim (holdings m'.scheduler) ∧
          (m'.sim.status = some .deadlock →
            Kernel.Deadlocks program m.space m.sim (holdings m.scheduler) m.control)) := by
  have hturn := turn_sound hS h hspares
  rw [next_turn hnext] at hturn
  exact hturn

theorem next_orderly (hS : Keeps S WF holdings links) {e : LoopEvent}
    (h : m.Orderly WF holdings) (hspares : links = .spared → m.Spares S holdings program e)
    (hnext : m.next S program e = some m') : m'.Orderly WF holdings := by
  cases e with
  | turn =>
      obtain ⟨hWF, hturned | ⟨haborted, -⟩⟩ := turned hS h hspares hnext
      · exact ⟨hWF, hturned.placed h.placed⟩
      · refine ⟨hWF, ?_⟩
        have hcontrol : m'.control = .finished := haborted.control
        rw [hcontrol]
        exact haborted.empty.placed
  | runFor budget =>
      rw [next] at hnext
      split at hnext
      · rename_i hfinished
        cases hnext
        have hplaced := h.placed
        rw [hfinished.1] at hplaced
        exact ⟨h.wf, hplaced⟩
      · cases hnext

theorem launch_orderly (hS : Keeps S WF holdings links) {params : Params}
    {space : UserSpace U} {s : σ} (hfresh : Fresh WF holdings s)
    (h : launch S params space s = some m) : m.Orderly WF holdings := by
  have hassume : (Kernel.startLoop (Sim.init params false)).Along S.answer
      (fun s call => (keeperSpec links).assume (holdings s) call) s :=
    ⟨fun _ => trivial, fun _ _ _ => ⟨fun _ => trivial, fun _ _ _ => trivial⟩⟩
  have hsound := wp_sound hS hfresh.wf hassume
    (@Kernel.ensures_startLoop links False (holdings s) params hfresh.sound hfresh.vacant)
  unfold launch at h
  split at h
  · rename_i hrun
    cases h
    rw [hrun] at hsound
    exact ⟨hsound.1, hsound.2⟩
  · cases h

/-- By induction on the run. -/
theorem reached_orderly (hS : Keeps S WF holdings links)
    (hC : ∀ m e, C m e → links = .spared → m.Spares S holdings program e)
    (h : Reached S program (Fresh WF holdings) C m) : m.Orderly WF holdings := by
  obtain ⟨params, space, s, m₀, hfresh, hlaunch, hreach⟩ := h
  exact hreach.invariant (launch_orderly hS hfresh hlaunch)
    fun m e m' horderly hcond hnext => next_orderly hS horderly (hC m e hcond) hnext

theorem Reached.mono {initial : σ → Prop} {C' : Machine U σ → LoopEvent → Prop}
    (h : Reached S program initial C m) (hC : ∀ m e, C m e → C' m e) :
    Reached S program initial C' m := by
  obtain ⟨params, space, s, m₀, hs, hlaunch, hreach⟩ := h
  exact ⟨params, space, s, m₀, hs, hlaunch, hreach.mono hC⟩

end Machine

end TwistSim
