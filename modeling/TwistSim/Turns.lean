/-
The scheduling loop as a transition system: turns of `RunLoop`, with as many calls
of `RunFor` as the caller likes.
-/
import TwistSim.RunLoop
import TwistSim.Runs

namespace TwistSim

open Interaction Effect

/-- The simulator between two turns of the loop. -/
structure Machine (U σ : Type) where
  control : Control
  space : UserSpace U
  sim : Sim
  scheduler : σ

/-- A turn of `RunLoop`, or a call of `RunFor`. -/
inductive LoopEvent where
  | turn
  | runFor (budget : Nat)
  deriving DecidableEq, Repr

namespace Machine

variable {U σ : Type}

section Steps

variable (S : IScheduler σ) (program : Program U)

/-- `Start`: the loop does not run yet. -/
def launch (params : Params) (space : UserSpace U) (s : σ) : Option (Machine U σ) :=
  match (Kernel.startLoop (Sim.init params false)).interp S.answer s with
  | .ok ((.ok (), sim), scheduler) => some ⟨.finished, space, sim, scheduler⟩
  | _ => none

def next (m : Machine U σ) : LoopEvent → Option (Machine U σ)
  | .turn =>
      match (Kernel.guardedStep program m.control m.space m.sim).interp S.answer
          m.scheduler with
      | .ok ((.ok (control, space), sim), scheduler) =>
          some ⟨control, space, sim, scheduler⟩
      | _ => none
  | .runFor budget =>
      if m.control = .finished ∧ m.sim.done = false then
        some { m with control := .head budget }
      else none

/-- The machines that are reached from a start by events that meet the condition. -/
def Reached (initial : σ → Prop) (C : Machine U σ → LoopEvent → Prop)
    (m : Machine U σ) : Prop :=
  ∃ params space s m₀, initial s ∧ launch S params space s = some m₀ ∧
    Reach (next S program) C m₀ m

end Steps

variable {S : IScheduler σ} {program : Program U} {m m' : Machine U σ}
  {initial : σ → Prop} {C : Machine U σ → LoopEvent → Prop}

theorem next_turn (h : m.next S program .turn = some m') :
    (Kernel.guardedStep program m.control m.space m.sim).interp S.answer m.scheduler =
      .ok ((.ok (m'.control, m'.space), m'.sim), m'.scheduler) := by
  unfold next at h
  dsimp only at h
  split at h
  · rename_i heq
    cases h
    exact heq
  · cases h

/-- A run that can be computed. -/
theorem exists_reached [∀ m e, Decidable (C m e)] {params : Params}
    {space : UserSpace U} {s : σ} {events : List LoopEvent} {P : Machine U σ → Prop}
    [DecidablePred P] (hs : initial s)
    (h : ((launch S params space s).bind (runEvents (next S program) C events)).any
      (fun m => decide (P m)) = true) :
    ∃ m, Reached S program initial C m ∧ P m := by
  obtain ⟨m, hrun, hP⟩ := Option.any_eq_true _ _ |>.mp h
  obtain ⟨m₀, hlaunch, hevents⟩ := Option.bind_eq_some_iff.mp hrun
  exact ⟨m, ⟨params, space, s, m₀, hs, hlaunch, reach_of_run Reach.start hevents⟩,
    of_decide_eq_true hP⟩

end Machine

end TwistSim
