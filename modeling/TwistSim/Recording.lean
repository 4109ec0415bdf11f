/-
A recorder changes nothing of a run but what a model checker says of itself:
`IsModelChecker` is the one method that it does not forward.
-/
import TwistSim.RunLoop
import TwistSim.Replay
import TwistSim.CoopScheduler
import TwistSim.DfsHoldings

namespace TwistSim

open Interaction

/-- `IsModelChecker`, a constant method: it changes no state. -/
def IScheduler.SaysModelChecker {σ : Type} (scheduler : IScheduler σ)
    (isModelChecker : σ → Bool) : Prop :=
  ∀ view s, scheduler.exec (view, .isModelChecker) s = .ok (isModelChecker s, s)

theorem Coop.saysModelChecker : Coop.scheduler.SaysModelChecker fun _ => false :=
  fun _ _ => rfl

theorem Dfs.saysModelChecker (params : Dfs.Params) :
    (Dfs.scheduler params).SaysModelChecker fun _ => true :=
  fun _ _ => rfl

namespace Replay

namespace Recorder

variable {σ α U : Type} {S : IScheduler σ} {isModelChecker : σ → Bool}

/-- The decisions of a run: one for each answer that is one, in order. -/
def decisions (answers : List (Sigma Call.Reply)) : Schedule :=
  answers.filterMap fun answer => decision answer.1 answer.2

/-- Under the recorder the program asks the same questions, gets the same
answers and ends with the same result and scheduler, and the schedule is made of
the decisions. -/
structure Transparent (S : IScheduler σ) (t : Scheduled α) (s : σ) : Prop where
  asked : t.transcript (scheduler S).answer (new s) = t.transcript S.answer s
  result : t.interp (scheduler S).answer (new s) =
    (t.interp S.answer s).map fun (value, s') =>
      (value, ⟨s', decisions (t.transcript S.answer s)⟩)

/-- The program asks `IsModelChecker` only where the answer is no. -/
def Unaware (S : IScheduler σ) (isModelChecker : σ → Bool) (t : Scheduled α)
    (s : σ) : Prop :=
  t.Along S.answer
    (fun s call => call.2 = .isModelChecker → isModelChecker s = false) s

theorem answer_isModelChecker (hS : S.SaysModelChecker isModelChecker)
    (view : KernelView) (s : σ) :
    S.answer (view, .isModelChecker) s = .ok (isModelChecker s, s) := by
  rw [IScheduler.answer_ok_iff]
  exact ⟨hS view s, rfl⟩

theorem recorder_isModelChecker (view : KernelView) (r : Recorder σ) :
    (scheduler S).answer (view, .isModelChecker) r = .ok (false, r) := rfl

theorem recorder_exec {call : Call} (hcall : call.2 ≠ .isModelChecker)
    (r : Recorder σ) : (scheduler S).exec call r = forward S call r := by
  obtain ⟨view, q⟩ := call
  cases q with
  | isModelChecker => exact absurd rfl hcall
  | _ => rfl

/-- Every other method is forwarded. -/
theorem recorder_answer {call : Call} (hcall : call.2 ≠ .isModelChecker)
    (r : Recorder σ) :
    (scheduler S).answer call r =
      (S.answer call r.underlying).map fun (reply, s) =>
        (reply, ⟨s, r.schedule ++ (decision call reply).toList⟩) := by
  rw [IScheduler.answer, recorder_exec hcall, forward, IScheduler.answer]
  cases S.exec call r.underlying with
  | error p => rfl
  | ok answer =>
      simp only [Except.map]
      split <;> rfl

theorem decisions_cons (call : Call) (reply : call.Reply)
    (answers : List (Sigma Call.Reply)) :
    decisions (⟨call, reply⟩ :: answers) =
      (decision call reply).toList ++ decisions answers := by
  simp only [decisions, List.filterMap_cons]
  cases decision call reply <;> rfl

/-- A recorder that already has a schedule appends to it. -/
theorem transparent_from (hS : S.SaysModelChecker isModelChecker)
    {t : Scheduled α} {r : Recorder σ}
    (h : Unaware S isModelChecker t r.underlying) :
    t.transcript (scheduler S).answer r = t.transcript S.answer r.underlying ∧
      t.interp (scheduler S).answer r =
        (t.interp S.answer r.underlying).map fun (value, s') =>
          (value, ⟨s', r.schedule ++
            decisions (t.transcript S.answer r.underlying)⟩) := by
  induction t generalizing r with
  | ret value => exact ⟨rfl, by simp [transcript, decisions, Except.map]⟩
  | ask call next ih =>
      obtain ⟨hcall, hnext⟩ := h
      have hanswer : (scheduler S).answer call r =
          (S.answer call r.underlying).map fun (reply, s) =>
            (reply, ⟨s, r.schedule ++ (decision call reply).toList⟩) := by
        by_cases hq : call.2 = .isModelChecker
        · obtain ⟨view, q⟩ := call
          cases hq
          rw [answer_isModelChecker hS, hcall rfl, recorder_isModelChecker]
          simp [decision, Except.map]
        · exact recorder_answer hq r
      rw [transcript_ask, transcript_ask, interp_ask, interp_ask, hanswer]
      cases hreply : S.answer call r.underlying with
      | error p => exact ⟨rfl, rfl⟩
      | ok reply =>
          obtain ⟨hasked, hresult⟩ := @ih reply.1
            ⟨reply.2, r.schedule ++ (decision call reply.1).toList⟩
            (hnext reply.1 reply.2 hreply)
          simp only [Except.map, hasked, hresult, decisions_cons,
            List.append_assoc, and_self]

/-- The answers tell a model checker from its recorder. -/
theorem unaware_of_asked (hS : S.SaysModelChecker isModelChecker)
    {t : Scheduled α} {r : Recorder σ}
    (h : t.transcript (scheduler S).answer r =
      t.transcript S.answer r.underlying) :
    Unaware S isModelChecker t r.underlying := by
  induction t generalizing r with
  | ret value => trivial
  | ask call next ih =>
      rw [transcript_ask, transcript_ask] at h
      by_cases hq : call.2 = .isModelChecker
      · obtain ⟨view, q⟩ := call
        cases hq
        rw [answer_isModelChecker hS, recorder_isModelChecker] at h
        obtain ⟨hhead, htail⟩ := List.cons.inj h
        have hfalse : isModelChecker r.underlying = false :=
          (eq_of_heq (Sigma.mk.inj hhead).2).symm
        refine ⟨fun _ => hfalse, fun reply s' hreply => ?_⟩
        rw [answer_isModelChecker hS, hfalse] at hreply
        cases hreply
        rw [hfalse] at htail
        exact ih false htail
      · refine ⟨fun hcall => absurd hcall hq, fun reply s' hreply => ?_⟩
        rw [recorder_answer hq, hreply] at h
        exact @ih reply ⟨s', r.schedule ++ (decision call reply).toList⟩
          (List.cons.inj h).2

/-- A run is recorded as it is if and only if it does not hear from its
scheduler that it is a model checker. -/
theorem recording_transparent (hS : S.SaysModelChecker isModelChecker)
    (program : Program U) (fuel : Nat) (space : UserSpace U) (sim : Sim) (s : σ) :
    Transparent S (Kernel.run program fuel space sim) s ↔
      Unaware S isModelChecker (Kernel.run program fuel space sim) s := by
  constructor
  · intro h
    exact @unaware_of_asked _ _ S _ hS _ (new s) h.asked
  · intro h
    obtain ⟨hasked, hresult⟩ := @transparent_from _ _ S _ hS _ (new s) h
    exact ⟨hasked, hresult⟩

/-- A thread that yields when it should park, as `SpinWait` tells it. -/
def considerParking : Program Nat where
  resume _ resumption asked :=
    match asked, resumption with
    | 0, _ => (.sys .isModelChecker, 1)
    | 1, .answer (.value 1) => (.sys .yield, 2)
    | _, _ => (.sys .threadExit, 2)
  heapStat _ := ⟨0, 0, 0, 0⟩

/-- The simulation of `considerParking`. -/
def considerParkingRun :
    Scheduled (Except Thrown (Option Kernel.Result × UserSpace Nat) × Sim) :=
  Kernel.run considerParking 20 ⟨0, ⟨fun _ => ⟨0, 0, 0⟩, [], true, [], fun _ => false⟩⟩
    (Sim.init {} false)

/-- The iterations of a run that ends well. -/
def itersOf {β : Type} :
    Except Panic ((Except Thrown (Option Kernel.Result × β) × Sim) × σ) → Option Nat
  | .ok ((.ok (some result, _), _), _) => some result.iters
  | _ => none

theorem itersOf_map {β τ : Type} (f : σ → τ)
    (x : Except Panic ((Except Thrown (Option Kernel.Result × β) × Sim) × σ)) :
    itersOf (x.map fun (value, s) => (value, f s)) = itersOf x := by
  rcases x with p | ⟨⟨e | ⟨_ | result, space⟩, sim⟩, s⟩ <;> rfl

theorem considerParking_transparent :
    Transparent Coop.scheduler considerParkingRun (Coop.State.new { seed := 1 }) ∧
      itersOf (considerParkingRun.interp Coop.scheduler.answer (Coop.State.new { seed := 1 })) =
        some 1 := by
  refine ⟨?_, by decide +kernel⟩
  exact (recording_transparent Coop.saysModelChecker _ _ _ _ _).mpr
    (Along.of_forall fun _ _ _ => rfl)

/-- Under the depth-first scheduler the program yields, under its recorder it
does not. -/
theorem considerParking_recorded :
    ¬ Transparent (Dfs.scheduler {}) considerParkingRun Dfs.Scheduler.new ∧
      itersOf (considerParkingRun.interp (Dfs.scheduler {}).answer
        Dfs.Scheduler.new) = some 2 ∧
      itersOf (considerParkingRun.interp (scheduler (Dfs.scheduler {})).answer
        (new Dfs.Scheduler.new)) = some 1 := by
  have hdirect : itersOf (considerParkingRun.interp (Dfs.scheduler {}).answer
      Dfs.Scheduler.new) = some 2 := by decide +kernel
  have hrecorded : itersOf (considerParkingRun.interp
      (scheduler (Dfs.scheduler {})).answer (new Dfs.Scheduler.new)) = some 1 := by
    decide +kernel
  refine ⟨fun h => ?_, hdirect, hrecorded⟩
  have hsame := (itersOf_map (Recorder.mk · _) _).symm.trans
    ((congrArg itersOf h.result).symm.trans hrecorded)
  rw [hdirect] at hsame
  cases hsame

end Recorder

end Replay

end TwistSim
