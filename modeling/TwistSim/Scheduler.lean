/-
The interface between the simulator loop and a scheduler.  The simulator is a
program that asks the questions below; a scheduler is a handler for them.
-/
import TwistSim.Basic
import TwistSim.Interaction

namespace TwistSim

/-- What a scheduler can read of the simulator when it is called. -/
structure KernelView where
  currTick : Nat
  attrs : ThreadId → ThreadAttrs
  action : ThreadId → Option ActionType
  alive : ThreadId → Bool

/-- Wait queues made by `NewWaitQueue`, numbered in order of creation. -/
abbrev QueueId := Nat

/-- The methods of `IScheduler`, and of the `IWaitQueue`s it hands out. -/
inductive Query where
  | start
  | interrupt (thread : ThreadId)
  | switchTo (thread next : ThreadId)
  | yield (thread : ThreadId)
  | wake (thread : ThreadId)
  | spawn (thread : ThreadId)
  | exit (thread : ThreadId)
  | lockFree (thread : ThreadId) (flag : Bool)
  | progress (thread : ThreadId)
  | newIter
  | isIdle
  | pickNext
  | remove (thread : ThreadId)
  | newWaitQueue
  | queueIsEmpty (queue : QueueId)
  | queuePush (queue : QueueId) (thread : ThreadId)
  | queuePop (queue : QueueId)
  | queuePopAll (queue : QueueId)
  | queueRemove (queue : QueueId) (thread : ThreadId)
  | randomNumber
  | randomChoice (alts : Nat)
  | spuriousWakeup
  | spuriousTryFailure
  | isModelChecker
  /-- Has the scheduler set the thread's state to `LfSuspended`? -/
  | isSuspended (thread : ThreadId)
  deriving DecidableEq, Repr

/-- The answer to a query.  `PickNext` and `Exit` may prune the run instead. -/
@[reducible] def Query.Reply : Query → Type
  | exit _ => Except String Unit
  | pickNext => Except String ThreadId
  | isIdle | queueIsEmpty _ | queueRemove _ _ => Bool
  | newWaitQueue => QueueId
  | queuePop _ | queuePopAll _ => Option ThreadId
  | randomNumber | randomChoice _ => Nat
  | spuriousWakeup | spuriousTryFailure | isModelChecker | isSuspended _ => Bool
  | _ => Unit

/-- A query together with what the scheduler may read while it answers. -/
abbrev Call := KernelView × Query

abbrev Call.Reply (call : Call) : Type := call.2.Reply

/-- Programs over a scheduler. -/
abbrev Scheduled (α : Type) := Interaction Call Call.Reply α

/-- A scheduler with internal state `σ`. -/
structure IScheduler (σ : Type) where
  nextSchedule : σ → Bool × σ
  exec : (call : Call) → σ → Except Panic (call.Reply × σ)

/-- `PickNext` answers with a pointer, which must not dangle. -/
def Call.usable : (call : Call) → call.Reply → Bool
  | (view, .pickNext), .ok thread => view.alive thread
  | _, _ => true

/-- The scheduler's answer, as the simulator uses it. -/
def IScheduler.answer {σ : Type} (scheduler : IScheduler σ) (call : Call) (s : σ) :
    Except Panic (call.Reply × σ) :=
  match scheduler.exec call s with
  | .error p => .error p
  | .ok (reply, s) =>
      if call.usable reply then .ok (reply, s)
      else .error (.undefined "use after free")

theorem IScheduler.answer_ok_iff {σ : Type} {scheduler : IScheduler σ}
    {call : Call} {s s' : σ} {reply : call.Reply} :
    scheduler.answer call s = .ok (reply, s') ↔
      scheduler.exec call s = .ok (reply, s') ∧ call.usable reply = true := by
  unfold answer
  cases scheduler.exec call s with
  | error p => simp
  | ok result =>
      obtain ⟨r, t⟩ := result
      by_cases husable : call.usable r = true
      · simp only [husable, if_true, Except.ok.injEq, Prod.mk.injEq]
        constructor
        · rintro ⟨rfl, rfl⟩
          exact ⟨⟨rfl, rfl⟩, husable⟩
        · exact fun h => h.1
      · simp only [husable]
        constructor
        · rintro ⟨⟩
        · rintro ⟨h, hreply⟩
          cases h
          exact absurd hreply husable

end TwistSim
