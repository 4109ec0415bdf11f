/-
The threads in a scheduler's custody, as its caller counts them: every thread
that is handed in comes back once.
-/
import TwistSim.Holdings
import Mathlib.Data.Finset.Card
import Mathlib.Order.Interval.Finset.Nat

namespace TwistSim

open Interaction

/-! ### What a scheduler must live up to -/

namespace Holdings

/-- An id that `CreateThread` hands out. -/
def ValidId (t : ThreadId) : Prop := 0 < t ∧ t ≤ maxThreads

/-- No thread is there twice. -/
structure Sound (a : Holdings) : Prop where
  owned : a.owned.Nodup
  valid : ∀ t ∈ a.owned, ValidId t
  waiters : ∀ q, (a.waiters q).Nodup
  validWaiters : ∀ q, ∀ t ∈ a.waiters q, ValidId t

/-- The calls of a simulator that removes no thread. -/
def Due (a : Holdings) : Call → Prop
  | (_, .start) => a.held = 0
  | (view, .interrupt t) =>
      a.Lacks t ∧ ValidId t ∧ a.slot = false ∧ view.action t ≠ none
  | (_, .switchTo t next) => a.Lacks t ∧ ValidId t ∧ next ∈ a.owned
  | (_, .yield t) | (_, .wake t) | (_, .spawn t) => a.Lacks t ∧ ValidId t
  | (view, .pickNext) => a.held ≠ 0 ∧ ∀ t ∈ a.owned, view.alive t = true
  | (_, .queuePush q t) => a.Lacks t ∧ ValidId t ∧ q < a.queues
  | (_, .queueRemove q t) => t ∈ a.waiters q ∧ q < a.queues
  | (_, .queueIsEmpty q) | (_, .queuePop q) | (_, .queuePopAll q) => q < a.queues
  | (_, .isSuspended _) => a.held = 0
  | (_, .randomChoice alts) => 0 < alts
  | (_, .remove _) => False
  | _ => True

/-- A queue gives nothing only if it has nothing, and a choice is one of the
alternatives. -/
def Exact (a : Holdings) : (call : Call) → call.Reply → Prop
  | (_, .queuePop q), r | (_, .queuePopAll q), r => r = none → a.waiters q = 0
  | (_, .randomChoice alts), r => 0 < alts → r < alts
  | _, _ => True

theorem Due.pre {a : Holdings} (hsound : a.Sound) {call : Call} (h : a.Due call)
    (hstart : call.2 ≠ .start) : a.pre call := by
  obtain ⟨view, q⟩ := call
  cases q with
  | start => exact absurd rfl hstart
  | interrupt t => exact ⟨h.1, h.2.2.1⟩
  | switchTo t next => exact h.1
  | yield t => exact h.1
  | wake t => exact h.1
  | spawn t => exact h.1
  | pickNext => exact fun t _ => Multiset.nodup_iff_count_le_one.mp hsound.owned t
  | queuePush q t => exact ⟨h.1, h.2.2⟩
  | _ => first | exact h | trivial

theorem Pops.held {a a' : Holdings} {q : QueueId} {r : Option ThreadId}
    (h : a.Pops q r a') : a'.held = a.held := by
  cases r with
  | none => rw [show a' = a from h]
  | some t =>
      obtain ⟨_, _, hupdate⟩ := h
      exact hupdate.held

theorem Due.allowed {a : Holdings} {sharesLinks : Bool} {call : Call}
    (h : a.Due call) : a.allowed sharesLinks call := by
  obtain ⟨view, q⟩ := call
  cases q with
  | remove t => exact absurd h id
  | _ => trivial

/-- There is always room for one more of the threads there can be. -/
theorem card_lt_of_lacks {threads : Multiset ThreadId} {t : ThreadId}
    (hnodup : threads.Nodup) (hvalid : ∀ u ∈ threads, ValidId u) (ht : ValidId t)
    (hlacks : t ∉ threads) : threads.card < maxThreads := by
  have hsub : (⟨t ::ₘ threads, Multiset.nodup_cons.mpr ⟨hlacks, hnodup⟩⟩ :
      Finset ThreadId) ⊆ Finset.Icc 1 maxThreads := by
    intro u hu
    rw [Finset.mem_mk, Multiset.mem_cons] at hu
    rw [Finset.mem_Icc]
    rcases hu with rfl | hu
    · exact ht
    · exact hvalid u hu
  have hcard := Finset.card_le_card hsub
  rw [Finset.card_mk, Multiset.card_cons, Nat.card_Icc] at hcard
  exact hcard

end Holdings

/-- The threads that were handed in and have not come back, and the members of
the wait queues; `switched` says that a thread was interrupted since the last
`PickNext`. -/
structure Hands where
  given : Multiset ThreadId
  waiting : QueueId → Multiset ThreadId
  queues : Nat
  switched : Bool

namespace Hands

def none : Hands := ⟨0, fun _ => 0, 0, false⟩

/-- The scheduler does not have the thread. -/
def Free (h : Hands) (t : ThreadId) : Prop :=
  t ∉ h.given ∧ (∀ q, t ∉ h.waiting q) ∧ Holdings.ValidId t

def hand (h : Hands) (t : ThreadId) : Hands := { h with given := t ::ₘ h.given }

def setWaiting (h : Hands) (q : QueueId) (waiters : Multiset ThreadId) : Hands :=
  { h with waiting := Function.update h.waiting q waiters }

/-- What a call does, as far as the caller can tell from its answer. -/
def after (h : Hands) : (call : Call) → call.Reply → Hands
  | (_, .start), _ => none
  | (_, .interrupt t), _ | (_, .switchTo t _), _ => { h.hand t with switched := true }
  | (_, .yield t), _ | (_, .wake t), _ | (_, .spawn t), _ => h.hand t
  | (_, .pickNext), .ok t =>
      { h with given := h.given.erase t, switched := false }
  | (_, .newWaitQueue), _ => { h with queues := h.queues + 1 }
  | (_, .queuePush q t), _ => h.setWaiting q (t ::ₘ h.waiting q)
  | (_, .queuePop q), some t | (_, .queuePopAll q), some t =>
      h.setWaiting q ((h.waiting q).erase t)
  | (_, .queueRemove q t), true => h.setWaiting q ((h.waiting q).erase t)
  | _, _ => h

variable {σ : Type}

/-- The calls the simulator can make, apart from `Remove`. -/
def MayCall (S : IScheduler σ) (s : σ) (h : Hands) : Call → Prop
  | (view, .start) => S.answer (view, .isIdle) s = .ok (true, s)
  | (view, .interrupt t) =>
      h.Free t ∧ h.switched = false ∧ view.action t ≠ .none
  | (_, .switchTo t next) => h.Free t ∧ h.switched = false ∧ next ∈ h.given
  | (_, .yield t) | (_, .wake t) | (_, .spawn t) => h.Free t
  | (view, .pickNext) =>
      S.answer (view, .isIdle) s = .ok (false, s) ∧
        ∀ t ∈ h.given, view.alive t = true
  | (_, .queuePush q t) => h.Free t ∧ q < h.queues
  | (_, .queueRemove q t) => t ∈ h.waiting q ∧ q < h.queues
  | (_, .queueIsEmpty q) | (_, .queuePop q) | (_, .queuePopAll q) => q < h.queues
  | (view, .isSuspended _) => S.answer (view, .isIdle) s = .ok (true, s)
  | (_, .randomChoice alts) => 0 < alts
  | (_, .remove _) => False
  | _ => True

end Hands

/-- The run goes on: it has not been pruned. -/
def Call.Continues : (call : Call) → call.Reply → Prop
  | (_, .pickNext), .error _ | (_, .exit _), .error _ => False
  | _, _ => True

/-- The scheduler's books and the caller's. -/
structure Agrees (a : Holdings) (h : Hands) : Prop where
  given : h.given = a.owned
  waiting : h.waiting = a.waiters
  queues : h.queues = a.queues
  slot : h.switched = false → a.slot = false
  sound : a.Sound

namespace Agrees

variable {a a' : Holdings} {h : Hands} {t : ThreadId} {q : QueueId}

theorem lacks (hagree : Agrees a h) (hfree : h.Free t) : a.Lacks t :=
  ⟨hagree.given ▸ hfree.1, fun q => hagree.waiting ▸ hfree.2.1 q⟩

/-- A thread that is handed in. -/
theorem takes (hagree : Agrees a h) (hfree : h.Free t) (htakes : a.Takes a' t)
    {switched : Bool} (hslot : switched = false → a'.slot = false) :
    Agrees a' { h.hand t with switched } where
  given := by rw [htakes.owned, ← hagree.given]; rfl
  waiting := hagree.waiting.trans htakes.same.1.symm
  queues := hagree.queues.trans htakes.same.2.symm
  slot := hslot
  sound := by
    obtain ⟨hlacks, _⟩ := hagree.lacks hfree
    refine ⟨?_, ?_, ?_, ?_⟩
    · rw [htakes.owned]
      exact Multiset.nodup_cons.mpr ⟨hlacks, hagree.sound.owned⟩
    · intro u hu
      rw [htakes.owned, Multiset.mem_cons] at hu
      rcases hu with rfl | hu
      · exact hfree.2.2
      · exact hagree.sound.valid u hu
    · rw [htakes.same.1]
      exact hagree.sound.waiters
    · rw [htakes.same.1]
      exact hagree.sound.validWaiters

/-- A thread that comes back. -/
theorem picked (hagree : Agrees a h) (hheld : a.held = t ::ₘ a'.held)
    (hsuspended : a'.suspended = a.suspended) (hsame : a.SameQueues a')
    (hslot : a'.slot = false) :
    Agrees a' { h with given := h.given.erase t, switched := false } := by
  have howned : a.owned = t ::ₘ a'.owned := by
    rw [Holdings.owned, Holdings.owned, hheld, hsuspended, Multiset.cons_add]
  refine ⟨?_, hagree.waiting.trans hsame.1.symm, hagree.queues.trans hsame.2.symm,
    fun _ => hslot, ?_⟩
  · rw [hagree.given, howned, Multiset.erase_cons_head]
  · obtain ⟨hnodup, hvalid, hwaiters, hvalidWaiters⟩ := hagree.sound
    rw [howned] at hnodup hvalid
    refine ⟨(Multiset.nodup_cons.mp hnodup).2, ?_, ?_, ?_⟩
    · exact fun u hu => hvalid u (Multiset.mem_cons_of_mem hu)
    · rw [hsame.1]
      exact hwaiters
    · rw [hsame.1]
      exact hvalidWaiters

/-- A wait queue that changes. -/
theorem queueUpdate (hagree : Agrees a h) {waiters : Multiset ThreadId}
    (hupdate : a.QueueUpdate a' q waiters) (hnodup : waiters.Nodup)
    (hvalid : ∀ u ∈ waiters, Holdings.ValidId u) :
    Agrees a' (h.setWaiting q waiters) := by
  have howned : a'.owned = a.owned := by
    rw [Holdings.owned, Holdings.owned, hupdate.held, hupdate.suspended]
  refine ⟨hagree.given.trans howned.symm, ?_, hagree.queues.trans hupdate.queues.symm,
    fun hswitched => hupdate.slot.trans (hagree.slot hswitched), ?_, ?_, ?_, ?_⟩
  · rw [hupdate.waiters, ← hagree.waiting]
    rfl
  · rw [howned]
    exact hagree.sound.owned
  · rw [howned]
    exact hagree.sound.valid
  · intro q'
    rw [hupdate.waiters]
    by_cases hq : q' = q
    · subst hq
      rw [Function.update_self]
      exact hnodup
    · rw [Function.update_of_ne hq]
      exact hagree.sound.waiters q'
  · intro q'
    rw [hupdate.waiters]
    by_cases hq : q' = q
    · subst hq
      rw [Function.update_self]
      exact hvalid
    · rw [Function.update_of_ne hq]
      exact hagree.sound.validWaiters q'

theorem keeps (hagree : Agrees a h) (hkeeps : a.Keeps a') : Agrees a' h where
  given := hagree.given.trans hkeeps.owned.symm
  waiting := hagree.waiting.trans hkeeps.same.1.symm
  queues := hagree.queues.trans hkeeps.same.2.symm
  slot hswitched := hkeeps.slot.trans (hagree.slot hswitched)
  sound := by
    obtain ⟨hnodup, hvalid, hwaiters, hvalidWaiters⟩ := hagree.sound
    refine ⟨hkeeps.owned ▸ hnodup, hkeeps.owned ▸ hvalid, ?_, ?_⟩
    · rw [hkeeps.same.1]
      exact hwaiters
    · rw [hkeeps.same.1]
      exact hvalidWaiters

theorem start : Agrees Holdings.empty Hands.none where
  given := rfl
  waiting := rfl
  queues := rfl
  slot _ := rfl
  sound := by
    refine ⟨Multiset.nodup_zero, ?_, fun _ => Multiset.nodup_zero, ?_⟩
    · exact fun t ht => absurd ht (Multiset.notMem_zero t)
    · exact fun q t ht => absurd ht (Multiset.notMem_zero t)

theorem push (hagree : Agrees a h) (hfree : h.Free t)
    (hupdate : a.QueueUpdate a' q (t ::ₘ a.waiters q)) :
    Agrees a' (h.setWaiting q (t ::ₘ h.waiting q)) := by
  rw [hagree.waiting]
  refine hagree.queueUpdate hupdate ?_ ?_
  · exact Multiset.nodup_cons.mpr
      ⟨(hagree.lacks hfree).2 q, hagree.sound.waiters q⟩
  · intro u hu
    rcases Multiset.mem_cons.mp hu with rfl | hu
    · exact hfree.2.2
    · exact hagree.sound.validWaiters q u hu

theorem erase (hagree : Agrees a h)
    (hupdate : a.QueueUpdate a' q ((a.waiters q).erase t)) :
    Agrees a' (h.setWaiting q ((h.waiting q).erase t)) := by
  rw [hagree.waiting]
  refine hagree.queueUpdate hupdate ?_ ?_
  · exact (hagree.sound.waiters q).erase t
  · exact fun u hu => hagree.sound.validWaiters q u (Multiset.mem_of_mem_erase hu)

theorem pops {r : Option ThreadId} (hagree : Agrees a h) (hpops : a.Pops q r a')
    {h' : Hands} (hnone : r = none → h' = h)
    (hsome : ∀ t, r = some t → h' = h.setWaiting q ((h.waiting q).erase t)) :
    Agrees a' h' := by
  cases r with
  | none =>
      rw [hnone rfl, show a' = a from hpops]
      exact hagree
  | some t =>
      obtain ⟨rest, hrest, hupdate⟩ := hpops
      rw [hsome t rfl]
      refine hagree.erase ?_
      rw [hrest, Multiset.erase_cons_head]
      exact hupdate

end Agrees

/-! ### The caller's books are right -/

section Caller

variable {σ : Type} {S : IScheduler σ} {WF : σ → Prop} {holdings : σ → Holdings}
  {excused : Call → Prop}

/-- The answer is what the caller's books say. -/
def Hands.Answered (h : Hands) (suspended : Multiset ThreadId) :
    (call : Call) → call.Reply → Prop
  | (_, .pickNext), .ok t => t ∈ h.given
  | (_, .isIdle), idle => idle = true ↔ h.given = suspended
  | _, _ => True

end Caller

end TwistSim
