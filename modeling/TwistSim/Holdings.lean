/-
What a scheduler is for: it holds the threads that are handed to it and gives
each back once, and its wait queues are multisets of threads.
-/
import TwistSim.Scheduler
import Mathlib.Data.Multiset.AddSub
import Mathlib.Data.Multiset.Count

namespace TwistSim

open Interaction

/-- The threads inside a scheduler.  `slot` says that an interrupted thread is
kept aside for the next pick. -/
structure Holdings where
  held : Multiset ThreadId
  suspended : Multiset ThreadId
  waiters : QueueId → Multiset ThreadId
  queues : Nat
  slot : Bool

namespace Holdings

def empty : Holdings := ⟨0, 0, fun _ => 0, 0, false⟩

/-- All threads that the scheduler has to give back some day. -/
def owned (a : Holdings) : Multiset ThreadId := a.held + a.suspended

/-- The scheduler does not know the thread. -/
def Lacks (a : Holdings) (t : ThreadId) : Prop :=
  t ∉ a.owned ∧ ∀ q, t ∉ a.waiters q

/-- Nothing is left of an earlier run. -/
def Vacant (a : Holdings) : Prop := a.owned = 0

/-- The wait queues have not changed. -/
def SameQueues (a a' : Holdings) : Prop :=
  a'.waiters = a.waiters ∧ a'.queues = a.queues

/-- One wait queue has changed. -/
structure QueueUpdate (a a' : Holdings) (q : QueueId) (w : Multiset ThreadId) :
    Prop where
  waiters : a'.waiters = Function.update a.waiters q w
  held : a'.held = a.held
  suspended : a'.suspended = a.suspended
  queues : a'.queues = a.queues
  slot : a'.slot = a.slot

/-- The thread is handed to the scheduler. -/
structure Takes (a a' : Holdings) (t : ThreadId) : Prop where
  owned : a'.owned = t ::ₘ a.owned
  same : a.SameQueues a'

/-- Threads may have moved between running and suspended. -/
structure Keeps (a a' : Holdings) : Prop where
  owned : a'.owned = a.owned
  same : a.SameQueues a'
  slot : a'.slot = a.slot

/-- The thread may be gone; all others are where they were. -/
structure Forgets (a a' : Holdings) (t : ThreadId) : Prop where
  held : ∀ u, u ≠ t → a'.held.count u = a.held.count u
  suspended : ∀ u, u ≠ t → a'.suspended.count u = a.suspended.count u
  least : a'.held ≤ a.held ∧ a'.suspended ≤ a.suspended
  same : a.SameQueues a'

theorem Keeps.refl (a : Holdings) : a.Keeps a := ⟨rfl, ⟨rfl, rfl⟩, rfl⟩

end Holdings

/-! ### The specification of a scheduler -/

namespace Holdings

/-- What the simulator owes the scheduler. -/
def pre (a : Holdings) : Call → Prop
  | (_, .start) => a.Vacant
  | (_, .interrupt t) => a.Lacks t ∧ a.slot = false
  | (_, .switchTo t _) | (_, .yield t) | (_, .wake t) | (_, .spawn t) => a.Lacks t
  | (view, .pickNext) => ∀ t, view.alive t = true → a.owned.count t ≤ 1
  | (_, .queuePush q t) => a.Lacks t ∧ q < a.queues
  | (_, .queueRemove q t) => t ∈ a.waiters q ∧ q < a.queues
  | (_, .queueIsEmpty q) | (_, .queuePop q) | (_, .queuePopAll q) => q < a.queues
  | (_, .isSuspended _) => a.held = 0
  | _ => True

/-- A run in which every removed thread is in no wait queue, if the scheduler
keeps its run queue and its wait queues on the same links. -/
def allowed (sharesLinks : Bool) (a : Holdings) : Call → Prop
  | (_, .remove t) => sharesLinks = true → ∀ q, t ∉ a.waiters q
  | _ => True

/-- Removing a thread and looking never fails. -/
def mayCrash (_ : Holdings) : Call → Prop
  | (_, .remove _) | (_, .isIdle) | (_, .isSuspended _) | (_, .queueIsEmpty _)
  | (_, .queueRemove _ _) => False
  | _ => True

/-- The waiter that a queue hands out. -/
def Pops (a : Holdings) (q : QueueId) : Option ThreadId → Holdings → Prop
  | some t, a' => ∃ rest, a.waiters q = t ::ₘ rest ∧ a.QueueUpdate a' q rest
  | none, a' => a' = a

/-- What the simulator may rely on. -/
def post (a : Holdings) : (call : Call) → call.Reply → Holdings → Prop
  | (_, .start), _, a' => a' = empty
  | (_, .interrupt t), _, a' => a.Takes a' t
  | (_, .switchTo t _), _, a' | (_, .yield t), _, a' | (_, .wake t), _, a'
  | (_, .spawn t), _, a' => a.Takes a' t ∧ a'.slot = a.slot
  | (view, .pickNext), .ok t, a' =>
      a.held = t ::ₘ a'.held ∧ a'.suspended = a.suspended ∧ a.SameQueues a' ∧
        a'.slot = false ∧ view.alive t = true
  | (_, .pickNext), .error _, a' => a.SameQueues a'
  | (_, .remove t), _, a' => a.Forgets a' t
  | (_, .isIdle), r, a' => (r = true ↔ a.held = 0) ∧ a' = a
  | (_, .isSuspended t), r, a' => (r = true ↔ t ∈ a.suspended) ∧ a' = a
  | (_, .newWaitQueue), q, a' =>
      q = a.queues ∧ a.waiters q = 0 ∧ a' = { a with queues := a.queues + 1 }
  | (_, .queueIsEmpty q), r, a' => (r = true ↔ a.waiters q = 0) ∧ a' = a
  | (_, .queuePush q t), _, a' => a.QueueUpdate a' q (t ::ₘ a.waiters q)
  | (_, .queuePop q), r, a' | (_, .queuePopAll q), r, a' => a.Pops q r a'
  | (_, .queueRemove q t), r, a' =>
      r = true ∧ a.QueueUpdate a' q ((a.waiters q).erase t)
  | (_, .exit _), _, a' | (_, .lockFree _ _), _, a' | (_, .progress _), _, a' =>
      a.Keeps a'
  | (_, .newIter), _, a' | (_, .randomNumber), _, a' | (_, .randomChoice _), _, a'
  | (_, .spuriousWakeup), _, a' | (_, .spuriousTryFailure), _, a'
  | (_, .isModelChecker), _, a' => a' = a

end Holdings

/-- The contract between the simulator and its scheduler. -/
def schedulerSpec (sharesLinks : Bool) : Spec Call Call.Reply Holdings where
  assume := Holdings.allowed sharesLinks
  pre := Holdings.pre
  mayCrash := Holdings.mayCrash
  post := Holdings.post

/-- It is enough to look at the answers that the scheduler gives. -/
theorem IScheduler.implements {σ : Type} {scheduler : IScheduler σ}
    {sharesLinks : Bool} {WF : σ → Prop} {holdings : σ → Holdings}
    (hanswer : ∀ call s r s', WF s → (holdings s).allowed sharesLinks call →
      (holdings s).pre call → scheduler.exec call s = .ok (r, s') →
      call.usable r = true → WF s' ∧ (holdings s).post call r (holdings s'))
    (hcrash : ∀ call s p, WF s → (holdings s).allowed sharesLinks call →
      (holdings s).pre call → scheduler.exec call s = .error p →
      (holdings s).mayCrash call) :
    Implements scheduler.answer WF holdings (schedulerSpec sharesLinks) := by
  intro call s hWF hallowed hpre
  unfold answer
  cases hexec : scheduler.exec call s with
  | error p => exact hcrash call s p hWF hallowed hpre hexec
  | ok result =>
      obtain ⟨r, s'⟩ := result
      by_cases husable : call.usable r = true
      · simp only [husable, if_true]
        exact hanswer call s r s' hWF hallowed hpre hexec husable
      · simp only [husable]
        obtain ⟨view, q⟩ := call
        cases q <;> trivial

end TwistSim
