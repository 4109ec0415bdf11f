/-
What one turn of the loop can be: it picks a thread and performs its action, it serves a
call of the running thread, it passes the time, or it ends the simulation.
-/
import TwistSim.Footprints
import TwistSim.Turns

namespace TwistSim

open Effect
open Interaction (interp_bind)

variable {U σ : Type}

namespace Kernel

variable {S : IScheduler σ} {sim sim' : Sim} {s s' : σ}

theorem burn_done {statics statics' : Statics.Manager}
    (h : (burn statics sim).interp S.answer s = .ok ((.ok statics', sim'), s')) :
    sim'.done = true := by
  obtain ⟨_, _, _, ⟨⟩, h⟩ := interp_bind_ok h
  split at h
  · obtain ⟨_, _, _, -, h⟩ := interp_bind_ok h
    obtain ⟨_, _, _, ⟨⟩, h⟩ := interp_bind_ok h
    obtain ⟨_, _, _, -, h⟩ := interp_bind_ok h
    obtain ⟨_, _, _, ⟨⟩, ⟨⟩⟩ := interp_bind_ok h
    rfl
  · cases h

/-- The simulator when a new iteration begins. -/
def nextIter (sim : Sim) : Sim :=
  { sim with iter := sim.iter + 1, ticks := (sim.ticks + 1) % ticksSize }

/-- The maintenance that is due. -/
def upkeep (sim : Sim) : KernelM Unit :=
  if sim.iter % 8 = 0 then maintenance else pure ()

theorem quiet_upkeep {R : Sim × σ → Sim × σ → Prop}
    (hR : Allows S Sim.Quiet Query.Plain R) (sim : Sim) : Within S R (upkeep sim) := by
  unfold upkeep
  split
  · exact quiet_maintenance hR
  · exact within_pure hR ()

/-- Nothing happens to the atomics before a thread is picked. -/
theorem sameCells_upkeep {sim₁ : Sim} {s₁ : σ} {u : Unit}
    (h : (upkeep (nextIter sim) (nextIter sim)).interp S.answer s = .ok ((.ok u, sim₁), s₁)) :
    sim.SameCells sim₁ := by
  have hiter : sim.SameCells (nextIter sim) :=
    Sim.sameCells_of_fields rfl rfl rfl fun _ ht => ht
  exact hiter.trans (Sim.Quiet.sameCells (quiet_upkeep allows_quiet _ _ _ _ _ _ h))

theorem beginIter_ok {next : ThreadId}
    (h : (beginIter sim).interp S.answer s = .ok ((.ok next, sim'), s')) :
    ∃ sim₁ s₁,
      (upkeep (nextIter sim) (nextIter sim)).interp S.answer s = .ok ((.ok (), sim₁), s₁) ∧
      S.answer (sim₁.view, .pickNext) s₁ = .ok (.ok next, s') ∧ Takes sim₁ next sim' := by
  obtain ⟨_, _, _, ⟨⟩, h⟩ := interp_bind_ok h
  obtain ⟨_, _, _, ⟨⟩, h⟩ := interp_bind_ok h
  split at h
  · rename_i hdue
    obtain ⟨_, sim₁, s₁, hmaintenance, hpicked⟩ := interp_bind_ok h
    have hduty : upkeep (nextIter sim) = maintenance := if_pos hdue
    exact ⟨sim₁, s₁, hduty ▸ hmaintenance, runPicked_ok hpicked⟩
  · rename_i hdue
    have hduty : upkeep (nextIter sim) = pure () := if_neg hdue
    exact ⟨nextIter sim, s, hduty ▸ rfl, runPicked_ok h⟩

/-- What the loop does between two runs of user code. -/
inductive Heads (S : IScheduler σ) (budget : Nat) (sim : Sim) (s : σ) :
    Control → Sim → σ → Prop where
  | picks {sim₁ sim' : Sim} {s₁ s₂ s' : σ} {next : ThreadId}
      (hidle : S.answer (sim.view, .isIdle) s = .ok (false, s₁))
      (hupkeep : (upkeep (nextIter sim) (nextIter sim)).interp S.answer s₁ =
        .ok ((.ok (), sim₁), s₂))
      (hpick : S.answer (sim₁.view, .pickNext) s₂ = .ok (.ok next, s'))
      (htakes : Takes sim₁ next sim') :
      Heads S budget sim s
        (.run next (.answer (.resumed (sim'.threads next).status (sim'.threads next).load)) budget)
        sim' s'
  | waits {sim' : Sim} {s₁ s' : σ} {again : Bool}
      (hidle : S.answer (sim.view, .isIdle) s = .ok (true, s₁))
      (hwait : (idle sim).interp S.answer s₁ = .ok ((.ok again, sim'), s')) :
      Heads S budget sim s (if again then .head budget else .finished) sim' s'
  | stops {idle : Bool} {s' : σ} (hidle : S.answer (sim.view, .isIdle) s = .ok (idle, s'))
      (hbudget : budget = 0) : Heads S budget sim s .finished sim s'

theorem heads_of_stepHead {budget : Nat} {control : Control}
    (h : (stepHead budget sim).interp S.answer s = .ok ((.ok control, sim'), s')) :
    Heads S budget sim s control sim' s' := by
  obtain ⟨idle, sim₁, s₁, hquery, hthen⟩ := interp_bind_ok h
  obtain ⟨hidle, rfl⟩ := query_ok hquery
  split at hthen
  · rename_i hgo
    obtain ⟨next, sim₂, s₂, hiter, hrest⟩ := interp_bind_ok hthen
    obtain ⟨_, _, _, ⟨⟩, ⟨⟩⟩ := interp_bind_ok hrest
    obtain ⟨sim₃, s₃, hupkeep, hpick, htakes⟩ := beginIter_ok hiter
    simp only [Bool.and_eq_true, Bool.not_eq_true'] at hgo
    exact Heads.picks (hgo.1 ▸ hidle) hupkeep hpick htakes
  · rename_i hstay
    split at hthen
    · rename_i hbudget
      obtain ⟨again, sim₂, s₂, hwait, ⟨⟩⟩ := interp_bind_ok hthen
      have hidle' : idle = true := by
        simpa [hbudget] using hstay
      exact Heads.waits (hidle' ▸ hidle) hwait
    · rename_i hbudget
      cases hthen
      exact Heads.stops hidle (Nat.eq_zero_of_not_pos hbudget)

/-- What serving a call comes to. -/
inductive Serves (S : IScheduler σ) (thread : ThreadId) (stat : HeapStat) (call : SysCall)
    (budget : Nat) (sim : Sim) (s : σ) : Control → Sim → σ → Prop where
  | answers {sim₁ : Sim} {s' : σ} {answer : Answer}
      (hcall : (handleSystemCall thread stat call sim).interp S.answer s =
        .ok ((.ok (some answer), sim₁), s')) :
      Serves S thread stat call budget sim s (.run thread (.answer answer) budget)
        (sim₁.setThread thread
          { sim₁.threads thread with
            state := .running
            runs := (sim₁.threads thread).runs + 1 }) s'
  | suspends {sim' : Sim} {s' : σ}
      (hcall : (handleSystemCall thread stat call sim).interp S.answer s =
        .ok ((.ok none, sim'), s')) :
      Serves S thread stat call budget sim s (.head (budget - 1)) sim' s'

theorem serves_of_stepSys {thread : ThreadId} {stat : HeapStat} {call : SysCall} {budget : Nat}
    {control : Control}
    (h : (stepSys thread stat call budget sim).interp S.answer s =
      .ok ((.ok control, sim'), s')) :
    Serves S thread stat call budget sim s control sim' s' := by
  obtain ⟨answer, sim₁, s₁, hcall, h⟩ := interp_bind_ok h
  cases answer with
  | none =>
      cases h
      exact Serves.suspends hcall
  | some answer =>
      obtain ⟨_, _, _, ⟨⟩, ⟨⟩⟩ := interp_bind_ok h
      exact Serves.answers hcall

end Kernel

namespace Machine

open Kernel (Heads Serves)

variable {S : IScheduler σ} {program : Program U} {m m' : Machine U σ}

/-- What an event of the loop can be. -/
inductive Goes (S : IScheduler σ) (program : Program U) (m m' : Machine U σ) : Prop where
  | aborts (hbusy : m.control ≠ .finished) (hcontrol : m'.control = .finished)
      (hdone : m'.sim.done = true)
  | rests (hcontrol : m.control = .finished) (heq : m' = m)
  | reopens {budget : Nat} (hcontrol : m.control = .finished) (hdone : m.sim.done = false)
      (heq : m' = { m with control := .head budget })
  | heads {budget : Nat} (hcontrol : m.control = .head budget) (hspace : m'.space = m.space)
      (hheads : Heads S budget m.sim m.scheduler m'.control m'.sim m'.scheduler)
  | serves {thread : ThreadId} {resumption : Resumption} {budget : Nat} {call : SysCall}
      (hcontrol : m.control = .run thread resumption budget)
      (hrequest : program.resume thread resumption m.space.user = (.sys call, m'.space.user))
      (hstatics : m'.space.statics = m.space.statics)
      (hserves : Serves S thread (program.heapStat m'.space.user) call budget m.sim m.scheduler
        m'.control m'.sim m'.scheduler)
  | visits {thread : ThreadId} {resumption : Resumption} {budget : Nat} {op : Statics.Op}
      {reply : Statics.Reply} (hcontrol : m.control = .run thread resumption budget)
      (hrequest : program.resume thread resumption m.space.user =
        (.statics op, m'.space.user))
      (hop : Statics.exec m.space.statics op = .ok (reply, m'.space.statics))
      (hcontrol' : m'.control = .run thread (.statics reply) budget)
      (hsim : m'.sim = m.sim) (hscheduler : m'.scheduler = m.scheduler)

theorem goes_of_step
    (h : (Kernel.step program m.control m.space m.sim).interp S.answer m.scheduler =
      .ok ((.ok (m'.control, m'.space), m'.sim), m'.scheduler)) : m.Goes S program m' := by
  obtain ⟨control, space, sim, s⟩ := m
  obtain ⟨control', space', sim', s'⟩ := m'
  cases control with
  | finished =>
      cases h
      exact Goes.rests rfl rfl
  | head budget =>
      obtain ⟨control₁, sim₁, s₁, hhead, ⟨⟩⟩ := interp_bind_ok h
      exact Goes.heads rfl rfl (Kernel.heads_of_stepHead hhead)
  | run thread resumption budget =>
      simp only [Kernel.step] at h
      cases hresume : program.resume thread resumption space.user with
      | mk request user =>
          simp only [hresume] at h
          cases request with
          | sys call =>
              obtain ⟨control₁, sim₁, s₁, hsys, ⟨⟩⟩ := interp_bind_ok h
              exact Goes.serves rfl hresume rfl (Kernel.serves_of_stepSys hsys)
          | statics op =>
              obtain ⟨⟨reply, statics⟩, sim₁, s₁, hop, ⟨⟩⟩ := interp_bind_ok h
              cases hexec : Statics.exec space.statics op with
              | error p =>
                  rw [hexec] at hop
                  cases hop
              | ok result =>
                  rw [hexec] at hop
                  cases hop
                  exact Goes.visits rfl hresume hexec rfl rfl rfl

/-- A turn does its step, or the step is broken off and the rest burnt. -/
theorem steps_or_burns (h : m.next S program .turn = some m') :
    (Kernel.step program m.control m.space m.sim).interp S.answer m.scheduler =
        .ok ((.ok (m'.control, m'.space), m'.sim), m'.scheduler) ∨
      ∃ sim₁ s₁ statics,
        (Kernel.step program m.control m.space m.sim).interp S.answer m.scheduler =
          .ok ((.error .sysAbortEx, sim₁), s₁) ∧
        (Kernel.burn m.space.statics sim₁).interp S.answer s₁ =
          .ok ((.ok statics, m'.sim), m'.scheduler) ∧ m'.control = .finished := by
  rcases interp_handle_ok (next_turn h) with hstep | ⟨e, sim₁, s₁, hraise, hhandler⟩
  · exact Or.inl hstep
  · cases e with
    | panic p => cases hhandler
    | sysAbortEx =>
        obtain ⟨statics, sim₂, s₂, hburn, hpure⟩ := interp_bind_ok hhandler
        obtain ⟨control', space', sim', s'⟩ := m'
        cases hpure
        exact Or.inr ⟨sim₁, s₁, statics, hraise, hburn, rfl⟩

/-- The cases of an event. -/
theorem goes_of_next {e : LoopEvent} (h : m.next S program e = some m') :
    m.Goes S program m' := by
  cases e with
  | turn =>
      rcases steps_or_burns h with hstep | ⟨sim₁, s₁, statics, hraise, hburn, hends⟩
      · exact goes_of_step hstep
      · have hbusy : m.control ≠ .finished := by
          intro hcontrol
          rw [hcontrol] at hraise
          cases hraise
        exact Goes.aborts hbusy hends (Kernel.burn_done hburn)
  | runFor budget =>
      simp only [next] at h
      split at h
      · rename_i hready
        cases h
        exact Goes.reopens hready.1 hready.2 rfl
      · cases h

end Machine

end TwistSim
