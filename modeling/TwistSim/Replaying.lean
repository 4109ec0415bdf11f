/-
A run that was recorded, replayed: the same loop under the replay scheduler, with the
schedule of the recorder, goes through the same states.
-/
import TwistSim.Mirroring
import TwistSim.SyncHistories
import TwistSim.Idling
import TwistSim.Places

namespace TwistSim

open Effect
open Interaction (Along wp_sound)

/-! ### Turns -/

namespace Machine

open Replay

variable {U σ τ : Type}

/-- The same simulation under another scheduler. -/
def under (m : Machine U σ) (s : τ) : Machine U τ := ⟨m.control, m.space, m.sim, s⟩

/-- All questions of a turn meet the condition, until an abort. -/
def Asking (S : IScheduler σ) (program : Program U) (C : σ → Call → Prop) (m : Machine U σ) :
    LoopEvent → Prop
  | .turn => (Kernel.step program m.control m.space m.sim).Along S.answer C m.scheduler
  | .runFor _ => True

theorem Asking.mono {S : IScheduler τ} {program : Program U} {C D : τ → Call → Prop}
    {m : Machine U τ} {e : LoopEvent} (h : m.Asking S program C e)
    (hCD : ∀ s call, C s call → D s call) : m.Asking S program D e := by
  cases e with
  | turn => exact Along.mono hCD h
  | runFor budget => trivial

theorem asking_of_forall {S : IScheduler τ} {program : Program U} {C : τ → Call → Prop}
    {m : Machine U τ} {e : LoopEvent} (h : ∀ s call, C s call) : m.Asking S program C e := by
  cases e with
  | turn => exact Along.of_forall h
  | runFor budget => trivial

/-- `Asking`, evaluated. -/
def asks (S : IScheduler σ) (program : Program U) (C : σ → Call → Bool) (m : Machine U σ) :
    LoopEvent → Bool
  | .turn => (Kernel.step program m.control m.space m.sim).holdsAlong S.answer C m.scheduler
  | .runFor _ => true

theorem asking_of_asks {S : IScheduler τ} {program : Program U} {C : τ → Call → Bool}
    {D : τ → Call → Prop} {m : Machine U τ} {e : LoopEvent} (h : m.asks S program C e = true)
    (hCD : ∀ s call, C s call = true → D s call) : m.Asking S program D e := by
  cases e with
  | turn => exact Along.of_holds hCD h
  | runFor budget => trivial

variable {S : IScheduler σ} {WF : σ → Prop} {holdings : σ → Holdings} {links : Links}
  {program : Program U} {full : Schedule} {m m' : Machine U (Recorder σ)} {p : State}

/-- Between two turns of a recorded run. -/
abbrev Recording (WF : σ → Prop) (holdings : σ → Holdings) (m : Machine U (Recorder σ)) : Prop :=
  m.Orderly (fun r => WF r.underlying) (fun r => holdings r.underlying)

/-- No thread is removed from the recorded scheduler that is in one of its wait queues. -/
abbrev Sparing (S : IScheduler σ) (holdings : σ → Holdings) (program : Program U)
    (m : Machine U (Recorder σ)) (e : LoopEvent) : Prop :=
  m.Spares (Recorder.scheduler S) (fun r => holdings r.underlying) program e

/-- Up to an abort a turn does again what it did. -/
theorem step_again (hS : Recordable S WF holdings links) (h : m.Recording WF holdings)
    (hmirrors : Mirrors holdings full m.scheduler p)
    (hspares : links = .spared → m.Sparing S holdings program .turn)
    (hrepeats : m.Asking (Recorder.scheduler S) program
      (fun r call => WF r.underlying → Repeatable S holdings r.underlying call) .turn)
    {y : Except Thrown (Control × UserSpace U) × Sim} {r' : Recorder σ}
    (hrun : (Kernel.step program m.control m.space m.sim).interp (Recorder.scheduler S).answer
      m.scheduler = .ok (y, r'))
    (hupto : r'.schedule <+: full) :
    ∃ p', (Kernel.step program m.control m.space m.sim).interp Replay.scheduler.answer p =
        .ok (y, p') ∧ Mirrors holdings full r' p' := by
  have hwp := @Kernel.ensures_step links True m.sim (holdings m.scheduler.underlying) U program
    m.control m.space h.placed fun _ => trivial
  by_cases hexit : ∃ t resumption budget, m.control = .run t resumption budget ∧
      (program.resume t resumption m.space.user).1 = .sys .threadExit
  · obtain ⟨t, resumption, budget, hcontrol, hrequest⟩ := hexit
    have hslot := (h.placed.runs t (by rw [hcontrol]; rfl)).slot
    have hclears : Clears holdings full True m.scheduler p :=
      hmirrors.clears h.placed.filed.sound fun _ => hslot
    have hasks : Kernel.Asks Query.Ending
        (Kernel.step program (.run t resumption budget) m.space) :=
      Kernel.asks_step_exit hrequest
    rw [← hcontrol] at hasks
    obtain ⟨p', hreplay, hclears'⟩ := hclears.again hS h.wf hwp hasks
      (fun hlinks => Along.of_bind (hspares hlinks))
      (hrepeats.mono fun r call hcall hWF => ⟨(hcall hWF).unpruned, fun _ => (hcall hWF).letsGo⟩)
      hrun hupto
    exact ⟨p', hreplay, hclears'.mirrors⟩
  · have hasks : Kernel.Asks Query.Moving (Kernel.step program m.control m.space) :=
      Kernel.asks_step fun t resumption budget hcontrol hrequest =>
        hexit ⟨t, resumption, budget, hcontrol, hrequest⟩
    exact hmirrors.again hS h.wf hwp hasks hrepeats hrun hupto

/-- A turn that does not return: what is left can be burnt. -/
theorem step_linked (hS : Recordable S WF holdings links) (h : m.Recording WF holdings)
    (hspares : links = .spared → m.Sparing S holdings program .turn) {sim : Sim}
    {r' : Recorder σ}
    (hrun : (Kernel.step program m.control m.space m.sim).interp (Recorder.scheduler S).answer
      m.scheduler = .ok ((.error .sysAbortEx, sim), r')) :
    WF r'.underlying ∧ sim.Linked none (holdings r'.underlying) := by
  have hassume : (Kernel.step program m.control m.space m.sim).Along
      (Recorder.scheduler S).answer
      (fun r call => (keeperSpec links).assume (holdings r.underlying) call) m.scheduler := by
    by_cases hlinks : links = .spared
    · exact Along.mono (fun _ _ hallowed _ => hallowed) (Along.of_bind (hspares hlinks))
    · exact Along.of_forall fun _ _ heq => absurd heq hlinks
  have hwp := @Kernel.ensures_step links True m.sim (holdings m.scheduler.underlying) U program
    m.control m.space h.placed fun _ => trivial
  have hsound := wp_sound (Recorder.keeps hS.keeps) h.wf hassume hwp
  rw [hrun] at hsound
  exact ⟨hsound.1, hsound.2.1⟩

theorem next_under {p' : State}
    (h : (Kernel.guardedStep program m.control m.space m.sim).interp Replay.scheduler.answer p =
      .ok ((.ok (m'.control, m'.space), m'.sim), p')) :
    (m.under p).next Replay.scheduler program .turn = some (m'.under p') := by
  simp only [next, under, h]

/-- A turn does again what it did, with what an abort leaves burnt. -/
theorem turn_again (hS : Recordable S WF holdings links) (h : m.Recording WF holdings)
    (hmirrors : Mirrors holdings full m.scheduler p)
    (hspares : links = .spared → m.Sparing S holdings program .turn)
    (hrepeats : m.Asking (Recorder.scheduler S) program
      (fun r call => WF r.underlying → Repeatable S holdings r.underlying call) .turn)
    (hnext : m.next (Recorder.scheduler S) program .turn = some m')
    (hupto : m'.scheduler.schedule <+: full) :
    ∃ p', (m.under p).next Replay.scheduler program .turn = some (m'.under p') ∧
      (Mirrors holdings full m'.scheduler p' ∨ m'.Over) := by
  rcases interp_handle_ok (next_turn hnext) with hstep | ⟨e, sim₁, r₁, hraise, hhandler⟩
  · obtain ⟨p', hreplay, hmirrors'⟩ := step_again hS h hmirrors hspares hrepeats hstep hupto
    refine ⟨p', next_under ?_, Or.inl hmirrors'⟩
    rw [Kernel.guardedStep, handle, Interaction.interp_bind, hreplay]
    rfl
  · cases e with
    | panic q => cases hhandler
    | sysAbortEx =>
        obtain ⟨p₁, hreplay, hmirrors₁⟩ := step_again hS h hmirrors hspares hrepeats hraise
          (recorded_before.interp hhandler hupto)
        obtain ⟨hWF, hlinked⟩ := step_linked hS h hspares hraise
        have hwp : Kernel.Ensures links True (do
            let statics ← Kernel.burn m.space.statics
            pure (.finished, { m.space with statics }) : KernelM (Control × UserSpace U))
            (fun _ _ _ => True) sim₁ (holdings r₁.underlying) :=
          (Kernel.ensures_burn hlinked).bind fun _ _ _ _ => trivial
        have hburns : Kernel.Asks Query.Burning (do
            let statics ← Kernel.burn m.space.statics
            pure (.finished, { m.space with statics }) : KernelM (Control × UserSpace U)) :=
          Kernel.asks_bind (Kernel.asks_burn _) fun _ => Kernel.asks_pure _
        have hunpruned := (@Interaction.Asks.along _ _ _ _ _ _ _
          (Recorder.scheduler S).answer r₁ (hburns sim₁)).mono fun r call hcall =>
            show WF r.underlying → Unpruned S r.underlying call ∧
                (False → LetsGo S holdings r.underlying call) from
              fun _ => ⟨unpruned_of_burning hcall, False.elim⟩
        have hclears : Clears holdings full False r₁ p₁ :=
          hmirrors₁.clears hlinked.filed.sound False.elim
        have hspared : links = .spared → _ := fun hlinks =>
          Along.after (t := Kernel.step program m.control m.space m.sim) (hspares hlinks) hraise
        obtain ⟨p', hburn, -⟩ := hclears.again hS hWF hwp
          (hburns.mono fun _ => Query.Burning.ending) hspared hunpruned hhandler hupto
        refine ⟨p', next_under ?_, Or.inr ?_⟩
        · rw [Kernel.guardedStep, handle, Interaction.interp_bind, hreplay]
          exact hburn
        · obtain ⟨statics, sim₂, s₂, hburnt, hpure⟩ := interp_bind_ok hhandler
          have hdone := Kernel.burn_done hburnt
          obtain ⟨control', space', sim', s'⟩ := m'
          cases hpure
          exact ⟨rfl, hdone⟩

/-! ### Runs -/

theorem event_again (hS : Recordable S WF holdings links) {e : LoopEvent}
    (h : m.Recording WF holdings)
    (hmirrors : Mirrors holdings full m.scheduler p ∨ m.Over)
    (hspares : links = .spared → m.Sparing S holdings program e)
    (hrepeats : m.Asking (Recorder.scheduler S) program
      (fun r call => WF r.underlying → Repeatable S holdings r.underlying call) e)
    (hnext : m.next (Recorder.scheduler S) program e = some m')
    (hupto : m'.scheduler.schedule <+: full) :
    ∃ p', (m.under p).next Replay.scheduler program e = some (m'.under p') ∧
      (Mirrors holdings full m'.scheduler p' ∨ m'.Over) := by
  rcases hmirrors with hmirrors | hover
  · cases e with
    | turn => exact turn_again hS h hmirrors hspares hrepeats hnext hupto
    | runFor budget =>
        simp only [next] at hnext
        split at hnext
        · rename_i hready
          cases hnext
          exact ⟨p, if_pos hready, Or.inl hmirrors⟩
        · cases hnext
  · obtain rfl := over_next hover hnext
    refine ⟨p, ?_, Or.inr hover⟩
    obtain ⟨hcontrol, hdone⟩ := hover
    cases e with
    | turn =>
        obtain ⟨control, space, sim, r⟩ := m'
        obtain rfl : control = .finished := hcontrol
        rfl
    | runFor budget =>
        simp only [next, hcontrol, hdone] at hnext
        cases hnext

/-- The schedule of a recorder only grows. -/
theorem schedule_grows {e : LoopEvent}
    (hnext : m.next (Recorder.scheduler S) program e = some m') :
    m.scheduler.schedule <+: m'.scheduler.schedule := by
  cases e with
  | turn => exact recorded_before.interp (next_turn hnext) (List.prefix_refl _)
  | runFor budget =>
      simp only [next] at hnext
      split at hnext
      · cases hnext
        exact List.prefix_refl _
      · cases hnext

/-- Events that happen one after the other, each under the condition. -/
inductive Played (S : IScheduler σ) (program : Program U) (C : Machine U σ → LoopEvent → Prop)
    (m₀ : Machine U σ) : List LoopEvent → Machine U σ → Prop where
  | start : Played S program C m₀ [] m₀
  | event {events : List LoopEvent} {m m' : Machine U σ} {e : LoopEvent}
      (h : Played S program C m₀ events m) (hC : C m e)
      (hnext : m.next S program e = some m') : Played S program C m₀ (events ++ [e]) m'

theorem Played.mono {S : IScheduler τ} {C D : Machine U τ → LoopEvent → Prop}
    {m₀ m : Machine U τ} {events : List LoopEvent} (h : Played S program C m₀ events m)
    (hCD : ∀ m e, C m e → D m e) : Played S program D m₀ events m := by
  induction h with
  | start => exact Played.start
  | event _ hC hnext ih => exact ih.event (hCD _ _ hC) hnext

theorem Played.cons {S : IScheduler τ} {C : Machine U τ → LoopEvent → Prop}
    {m₀ m₁ m : Machine U τ} {e : LoopEvent} {events : List LoopEvent} (hC : C m₀ e)
    (hnext : m₀.next S program e = some m₁) (h : Played S program C m₁ events m) :
    Played S program C m₀ (e :: events) m := by
  induction h with
  | start => exact Played.start.event hC hnext
  | event _ hC' hnext' ih => exact ih.event hC' hnext'

/-- A run that can be computed. -/
theorem played_of_run {S : IScheduler τ} {C : Machine U τ → LoopEvent → Prop}
    [∀ m e, Decidable (C m e)] {m₀ m : Machine U τ} {events : List LoopEvent}
    (h : runEvents (next S program) C events m₀ = some m) : Played S program C m₀ events m := by
  induction events generalizing m₀ with
  | nil =>
      cases h
      exact Played.start
  | cons e events ih =>
      unfold runEvents at h
      split at h
      · rename_i hC
        obtain ⟨m₁, hnext, hrest⟩ := Option.bind_eq_some_iff.mp h
        exact (ih hrest).cons hC hnext
      · cases h

/-- The same events under any scheduler. -/
def play (S : IScheduler σ) (program : Program U) (events : List LoopEvent)
    (m : Machine U σ) : Option (Machine U σ) :=
  events.foldlM (fun m e => m.next S program e) m

theorem launch_again (hS : Recordable S WF holdings links) {params : Params}
    {space : UserSpace U} {s : σ} (hfresh : Fresh WF holdings s)
    (hlaunch : launch (Recorder.scheduler S) params space (Recorder.new s) = some m)
    (hupto : m.scheduler.schedule <+: full) :
    ∃ p, launch Replay.scheduler params space (State.new full) = some (m.under p) ∧
      Mirrors holdings full m.scheduler p := by
  have hstart := Kernel.startLoop_eq params
  have hwp := @Kernel.ensures_startLoop links True (holdings s) params hfresh.sound hfresh.vacant
  rw [Kernel.Ensures, Effect.wp, hstart, Interaction.wp_ask] at hwp
  have hspares : links = .spared →
    (holdings s).allowed true ((Sim.init params true).view, .start) := fun _ => trivial
  obtain ⟨hpre, -, hwp⟩ := hwp hspares
  unfold launch at hlaunch ⊢
  rw [hstart, Interaction.interp_ask] at hlaunch
  rw [hstart, Interaction.interp_ask]
  cases hanswer : (Recorder.scheduler S).answer ((Sim.init params true).view, .start)
    (Recorder.new s) with
  | error q =>
      rw [hanswer] at hlaunch
      cases hlaunch
  | ok answer =>
      obtain ⟨u, r₁⟩ := answer
      rw [hanswer] at hlaunch
      dsimp only at hlaunch
      split at hlaunch
      · rename_i u' sim r hrun
        cases hlaunch
        have hstep := Recorder.keeps hS.keeps _ (Recorder.new s) hfresh.wf hspares hpre
        rw [hanswer] at hstep
        obtain ⟨-, -, -, hgrants⟩ := hS.granted hfresh.wf hpre hspares hanswer
        have hempty : holdings r₁.underlying = Holdings.empty := hgrants.post
        have hmirrors : Mirrors holdings full r₁ (State.new full) := by
          refine ⟨⟨⟨fun _ _ => rfl⟩, ?_, fun q => ?_, ?_⟩, rfl, ?_⟩
          · rw [hempty]
            rfl
          · rw [hempty]
            rfl
          · rw [hempty]
            rfl
          · rw [recorder_schedule hanswer]
            rfl
        have hasked := Kernel.asks_spawnMainThread
        have hmoving : Kernel.Asks Query.Moving Kernel.spawnMainThread :=
          hasked.mono fun q hq => by
            obtain ⟨t, rfl⟩ := hq
            trivial
        have hrepeats := (@Interaction.Asks.along _ _ _ _ _ _ _ (Recorder.scheduler S).answer r₁
          (hasked (Sim.init params true))).mono fun r call hcall =>
            show WF r.underlying → Repeatable S holdings r.underlying call from
              fun _ => repeatable_spawn hcall
        have hwp₁ := hwp u (holdings r₁.underlying) hstep.2
        obtain ⟨p, hreplay, hmirrors'⟩ :=
          hmirrors.again hS hstep.1 hwp₁ hmoving hrepeats hrun hupto
        refine ⟨p, ?_, hmirrors'⟩
        have hreset : Replay.scheduler.answer ((Sim.init params true).view, .start)
          (State.new full) = .ok ((), State.new full) := rfl
        rw [hreset]
        simp only [hreplay]
        rfl
      · cases hlaunch

/-- What was recorded happens again: the same events lead to the same states, with the
schedule of the recorder and whatever comes after it. -/
theorem played_again (hS : Recordable S WF holdings links) {params : Params}
    {space : UserSpace U} {s : σ} {m₀ : Machine U (Recorder σ)} {events : List LoopEvent}
    (hfresh : Fresh WF holdings s)
    (hlaunch : launch (Recorder.scheduler S) params space (Recorder.new s) = some m₀)
    (hplayed : Played (Recorder.scheduler S) program (fun m e =>
      (links = .spared → m.Sparing S holdings program e) ∧
        m.Asking (Recorder.scheduler S) program
          (fun r call => WF r.underlying → Repeatable S holdings r.underlying call) e)
        m₀ events m)
    (hupto : m.scheduler.schedule <+: full) :
    ∃ p₀ p, launch Replay.scheduler params space (State.new full) = some (m₀.under p₀) ∧
      play Replay.scheduler program events (m₀.under p₀) = some (m.under p) := by
  have hkeep : m.Recording WF holdings ∧
      ∀ full, m.scheduler.schedule <+: full →
      ∃ p₀ p, launch Replay.scheduler params space (State.new full) = some (m₀.under p₀) ∧
        play Replay.scheduler program events (m₀.under p₀) = some (m.under p) ∧
        (Mirrors holdings full m.scheduler p ∨ m.Over) := by
    clear hupto
    induction hplayed with
    | start =>
        refine ⟨launch_orderly (Recorder.keeps hS.keeps)
          ⟨hfresh.wf, hfresh.sound, hfresh.vacant⟩ hlaunch, fun full hupto => ?_⟩
        obtain ⟨p, hagain, hmirrors⟩ := launch_again hS hfresh hlaunch hupto
        exact ⟨p, p, hagain, rfl, Or.inl hmirrors⟩
    | event h hC hnext ih =>
        obtain ⟨horderly, hagain⟩ := ih
        refine ⟨next_orderly (Recorder.keeps hS.keeps) horderly hC.1 hnext, fun full hupto => ?_⟩
        obtain ⟨p₀, p, hlaunch', hplay, hmirrors⟩ :=
          hagain full ((schedule_grows hnext).trans hupto)
        obtain ⟨p', hnext', hmirrors'⟩ :=
          event_again hS horderly hmirrors hC.1 hC.2 hnext hupto
        refine ⟨p₀, p', hlaunch', ?_, hmirrors'⟩
        rw [play, List.foldlM_append]
        rw [play] at hplay
        rw [hplay]
        simp [hnext']
  obtain ⟨p₀, p, hlaunch', hplay, -⟩ := hkeep.2 full hupto
  exact ⟨p₀, p, hlaunch', hplay⟩

end Machine

/-! ### The schedulers -/

open Replay (Recordable Unpruned Awake LetsGo Repeatable)

/-- What must go down well in a recorded run apart from the program, if its schedule is to
lead to the same states. -/
def Replay.Reproduces {σ : Type} (S : IScheduler σ) (WF : σ → Prop) (holdings : σ → Holdings)
    (C : {U : Type} → Program U → Machine U (Replay.Recorder σ) → LoopEvent → Prop) : Prop :=
  ∀ {U : Type} (program : Program U) (params : Params) (space : UserSpace U) (s : σ)
    (m₀ m : Machine U (Replay.Recorder σ)) (events : List LoopEvent) (rest : Replay.Schedule),
    Machine.Fresh WF holdings s →
    Machine.launch (Replay.Recorder.scheduler S) params space (Replay.Recorder.new s) = some m₀ →
    Machine.Played (Replay.Recorder.scheduler S) program (C program) m₀ events m →
    ∃ p₀ p, Machine.launch Replay.scheduler params space
        (Replay.State.new (m.scheduler.schedule ++ rest)) = some (m₀.under p₀) ∧
      Machine.play Replay.scheduler program events (m₀.under p₀) = some (m.under p)

namespace Replay

variable {σ : Type} {S : IScheduler σ} {holdings : σ → Holdings} {call : Call} {s : σ}

theorem unpruned_of_exec
    (hpick : ∀ view x s', S.exec (view, .pickNext) s = .ok (x, s') → ∃ t, x = .ok t)
    (hexit : ∀ view t x s', S.exec (view, .exit t) s = .ok (x, s') → x = .ok ()) :
    Unpruned S s call := by
  intro x s' h
  obtain ⟨view, q⟩ := call
  cases q with
  | pickNext =>
      obtain ⟨t, rfl⟩ := hpick view x s' (answer_exec h)
      trivial
  | exit t =>
      rw [hexit view t x s' (answer_exec h)]
      trivial
  | _ => trivial

theorem letsGo_of_exec
    (h : ∀ view t s', (holdings s).slot = false → (holdings s).owned.Nodup →
      S.exec (view, .remove t) s = .ok ((), s') →
      t ∉ (holdings s').owned ∧ (holdings s').slot = false) :
    LetsGo S holdings s call := by
  obtain ⟨view, q⟩ := call
  cases q with
  | remove t => exact fun hslot hnodup s' hanswer => h view t s' hslot hnodup (answer_exec hanswer)
  | _ => trivial

end Replay

/-! ### The four schedulers -/

open Replay (unpruned_of_exec letsGo_of_exec)

namespace Coop

theorem recordable : Recordable scheduler State.WF State.holdings .spared where
  keeps := keeps nofun
  queues := keepsQueues
  apart := nofun
  chooses hWF halts h := exec_exact hWF (answer_exec h) (Nat.lt_of_succ_lt halts)

theorem letsGo {s : State} {call : Call} (hWF : s.WF) :
    LetsGo scheduler State.holdings s call := by
  refine letsGo_of_exec fun view t s' _ _ h => ?_
  cases h
  refine ⟨?_, rfl⟩
  rw [Holdings.owned, State.holdings, add_zero, Multiset.mem_coe, remove_lists,
    IntrusiveLists.unlink_lists hWF.consistent]
  exact (hWF.consistent.nodup none).not_mem_erase

theorem repeatable {s : State} {call : Call} (hWF : s.WF) :
    Repeatable scheduler State.holdings s call where
  unpruned := by
    refine unpruned_of_exec (fun view x s' h => ?_) fun view t x s' h => ?_
    · obtain ⟨t, ht, -⟩ := pickNext_picks hWF h
      exact ⟨t, ht⟩
    · cases h
      rfl
  awake _ _ := rfl
  letsGo := letsGo hWF

end Coop

namespace Random

variable {params : Params}

theorem recordable : Recordable (scheduler params) State.WF State.holdings .apart where
  keeps := keeps params
  queues := keepsQueues params
  apart := nofun
  chooses _ halts h := exec_exact (answer_exec h) (Nat.lt_of_succ_lt halts)

theorem letsGo {s : State} {call : Call} : LetsGo (scheduler params) State.holdings s call := by
  refine letsGo_of_exec fun view t s' hslot hnodup h => ?_
  cases h
  have hnone : s.next = none := Option.isNone_iff_eq_none.mp (Option.isSome_eq_false_iff.mp hslot)
  have howned : s.holdings.owned = ↑s.runQueue + ↑s.suspendedThreads := by
    rw [Holdings.owned, State.holdings, hnone, Option.toList_none, List.nil_append]
  rw [howned, Multiset.nodup_add] at hnodup
  obtain ⟨hqueue, hthreads, -⟩ := hnodup
  refine ⟨?_, hslot⟩
  rw [Holdings.owned, State.holdings, hnone, Option.toList_none, List.nil_append,
    Multiset.mem_add, Multiset.mem_coe, Multiset.mem_coe,
    (ThreadSet.remove_perm _ t).mem_iff, (ThreadSet.remove_perm _ t).mem_iff]
  rintro (hmem | hmem)
  · exact List.Nodup.not_mem_erase hqueue hmem
  · exact List.Nodup.not_mem_erase hthreads hmem

theorem repeatable {s : State} {call : Call} (hawake : Awake State.holdings s call) :
    Repeatable (scheduler params) State.holdings s call where
  unpruned := by
    refine unpruned_of_exec (fun view x s' h => ?_) fun view t x s' h => ?_
    · obtain ⟨t, ht, -⟩ := pickNext_spec h
      exact ⟨t, ht⟩
    · simp only [scheduler] at h
      split at h
      · cases h
      · cases h
        rfl
  awake := hawake
  letsGo := letsGo

end Random

namespace Pct

variable {params : Params} {fuel : Nat}

theorem recordable : Recordable (scheduler params fuel) State.WF State.holdings .apart where
  keeps := keeps params fuel
  queues := keepsQueues params fuel
  apart := nofun
  chooses hWF halts h := exec_exact hWF (answer_exec h) (Nat.lt_of_succ_lt halts)

theorem repeatable {s : State} {call : Call}
    (hletsGo : LetsGo (scheduler params fuel) State.holdings s call) :
    Repeatable (scheduler params fuel) State.holdings s call where
  unpruned := by
    refine unpruned_of_exec (fun view x s' h => ?_) fun view t x s' h => ?_
    · obtain ⟨t, ht, -⟩ := pickNext_picks h
      exact ⟨t, ht⟩
    · cases h
      rfl
  awake _ _ := rfl
  letsGo := hletsGo

end Pct

namespace Dfs

variable {params : Params} {answers : Nat → Nat}

theorem recordable :
    Recordable (guided params answers) (GuidedWF params) (guidedHoldings params) .apart where
  keeps := keeps params answers
  queues := keepsQueues params answers
  apart := nofun
  chooses := by
    intro view alts s i s' hWF halts h
    have hpos := Nat.lt_of_succ_lt halts
    have hcall : ((view, .randomChoice alts) : Call).2 ≠ .start := nofun
    obtain ⟨choices, hleaf⟩ := guided_leaf hcall
      (fun n hn => by cases hn; exact hpos) (answer_exec h)
    exact method_exact hWF hleaf hpos

theorem letsGo {s : Nat × State} {call : Call} :
    LetsGo (guided params answers) (guidedHoldings params) s call := by
  refine letsGo_of_exec fun view t s' hslot hnodup h => ?_
  cases h
  have hnone : s.2.active = none :=
    Option.isNone_iff_eq_none.mp (Option.isSome_eq_false_iff.mp hslot)
  rw [guidedHoldings, owned_eq, hnone, Option.toList_none, List.nil_append,
    Multiset.coe_nodup] at hnodup
  refine ⟨?_, hslot⟩
  rw [guidedHoldings, owned_eq, hnone, Option.toList_none, List.nil_append, Multiset.mem_coe]
  exact hnodup.not_mem_erase

theorem repeatable {s : Nat × State} {call : Call}
    (hunpruned : Unpruned (guided params answers) s call) :
    Repeatable (guided params answers) (guidedHoldings params) s call where
  unpruned := hunpruned
  awake _ _ := rfl
  letsGo := letsGo

end Dfs

/-- What was recorded happens again under the replay scheduler: of the coop scheduler, if
no thread is removed that waits on the links of the run queue, of the random scheduler, if
it has no suspended threads where it looks idle, of the PCT scheduler, if no thread is
removed that is in its run queue, and of the depth-first one, if it does not prune the run. -/
theorem replay_reproduces :
    (Replay.Reproduces Coop.scheduler Coop.State.WF Coop.State.holdings
      fun program m e => m.Sparing Coop.scheduler Coop.State.holdings program e) ∧
    (∀ params, Replay.Reproduces (Random.scheduler params) Random.State.WF
      Random.State.holdings fun program m e =>
        m.Asking (Replay.Recorder.scheduler (Random.scheduler params)) program
          (fun r call => Awake Random.State.holdings r.underlying call) e) ∧
    (∀ params fuel, Replay.Reproduces (Pct.scheduler params fuel) Pct.State.WF
      Pct.State.holdings fun program m e =>
        m.Asking (Replay.Recorder.scheduler (Pct.scheduler params fuel)) program
          (fun r call => LetsGo (Pct.scheduler params fuel) Pct.State.holdings r.underlying call)
          e) ∧
    ∀ params answers, Replay.Reproduces (Dfs.guided params answers) (Dfs.GuidedWF params)
      (Dfs.guidedHoldings params) fun program m e =>
        m.Asking (Replay.Recorder.scheduler (Dfs.guided params answers)) program
          (fun r call => Unpruned (Dfs.guided params answers) r.underlying call) e := by
  refine ⟨?_, fun params => ?_, fun params fuel => ?_, fun params answers => ?_⟩
  · intro U program params space s m₀ m events rest hfresh hlaunch hplayed
    refine Machine.played_again Coop.recordable hfresh hlaunch (hplayed.mono fun m e hC => ?_)
      (List.prefix_append _ rest)
    exact ⟨fun _ => hC, Machine.asking_of_forall fun r call hWF => Coop.repeatable hWF⟩
  · intro U program params' space s m₀ m events rest hfresh hlaunch hplayed
    refine Machine.played_again Random.recordable hfresh hlaunch (hplayed.mono fun m e hC => ?_)
      (List.prefix_append _ rest)
    exact ⟨nofun, hC.mono fun r call hcall _ => Random.repeatable hcall⟩
  · intro U program params' space s m₀ m events rest hfresh hlaunch hplayed
    refine Machine.played_again Pct.recordable hfresh hlaunch (hplayed.mono fun m e hC => ?_)
      (List.prefix_append _ rest)
    exact ⟨nofun, hC.mono fun r call hcall _ => Pct.repeatable hcall⟩
  · intro U program params' space s m₀ m events rest hfresh hlaunch hplayed
    refine Machine.played_again Dfs.recordable hfresh hlaunch (hplayed.mono fun m e hC => ?_)
      (List.prefix_append _ rest)
    exact ⟨nofun, hC.mono fun r call hcall _ => Dfs.repeatable hcall⟩

def preempting : IScheduler Random.State := Random.scheduler { seed := 1, timeSlice := 2 }

/-- The random scheduler takes turns between two threads, and the replay does too. -/
theorem replay_reproduces_relay :
    ∃ (m₀ m : Machine (Nat × Nat) (Replay.Recorder Random.State)) (p₀ p : Replay.State),
      m.sim.status = some .ok ∧
      m.scheduler.schedule = [1, 1, 2, 2, 1, 1, 1].map Replay.Decision.pickNext ∧
      Machine.launch Replay.scheduler {} relaySpace
        (Replay.State.new (m.scheduler.schedule ++ [])) = some (m₀.under p₀) ∧
      Machine.play Replay.scheduler relay (.runFor 200 :: List.replicate 20 .turn)
        (m₀.under p₀) = some (m.under p) := by
  have hrun : ((Machine.launch (Replay.Recorder.scheduler preempting) {} relaySpace
      (Replay.Recorder.new (Random.State.new { seed := 1 }))).bind fun m₀ =>
        (runEvents (Machine.next (Replay.Recorder.scheduler preempting) relay)
          (fun m e => m.asks (Replay.Recorder.scheduler preempting) relay
            (fun r call => decide (Awake Random.State.holdings r.underlying call)) e = true)
          (.runFor 200 :: List.replicate 20 .turn) m₀).map fun m => (m₀, m)).any
      (fun r => decide (r.2.sim.status = some .ok ∧
        r.2.scheduler.schedule = [1, 1, 2, 2, 1, 1, 1].map Replay.Decision.pickNext)) = true := by
    decide +kernel
  obtain ⟨⟨m₀, m⟩, hsome, hends⟩ := Option.any_eq_true _ _ |>.mp hrun
  obtain ⟨m₁, hlaunch, hsome⟩ := Option.bind_eq_some_iff.mp hsome
  obtain ⟨m₂, hevents, heq⟩ := Option.map_eq_some_iff.mp hsome
  cases heq
  obtain ⟨hok, hschedule⟩ := of_decide_eq_true hends
  have hplayed := (Machine.played_of_run hevents).mono fun m e hasks =>
    Machine.asking_of_asks hasks fun r call => of_decide_eq_true
  have hfresh : Machine.Fresh Random.State.WF Random.State.holdings
      (Random.State.new { seed := 1 }) := ⟨fun _ _ => rfl, Agrees.start.sound, rfl⟩
  obtain ⟨p₀, p, hagain, hplay⟩ := replay_reproduces.2.1 { seed := 1, timeSlice := 2 } relay {}
    relaySpace _ m₀ m _ [] hfresh hlaunch hplayed
  exact ⟨m₀, m, p₀, p, hok, hschedule, hagain, hplay⟩

end TwistSim
