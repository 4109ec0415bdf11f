/-
The depth-first scheduler with its choices made by a stream of numbers.  What
exploration runs is a run of this scheduler, whatever the schedule vector says.
-/
import TwistSim.Custody
import TwistSim.DfsHoldings
import TwistSim.DfsCoverage

namespace TwistSim

namespace DecisionTree

open Interaction

variable {Q : Type} {α : Type}

end DecisionTree

namespace Dfs

open Interaction DecisionTree

variable {params : Params} {view : KernelView} {s s' : State} {t : ThreadId}

/-- `Choose`, answered with one of the alternatives by a stream of numbers. -/
def guide (answers : Nat → Nat) (q : Question) (i : Nat) : Except Panic (Nat × Nat) :=
  .ok (answers i % q.alts, i + 1)

/-- What a method answers, once its choices are made. -/
def settled {α κ : Type} :
    Except Panic (Except Panic (α × State) × κ) → Except Panic (α × κ × State)
  | .error p => .error p
  | .ok (.error p, _) => .error p
  | .ok (.ok (r, s), choices) => .ok (r, choices, s)

/-- `dfs::Scheduler` with its choices made by a stream. -/
def guided (params : Params) (answers : Nat → Nat) : IScheduler (Nat × State) where
  nextSchedule s := (false, s)
  exec call s :=
    match call with
    | (_, .start) => .ok ((), s.1, State.fresh)
    | call => settled ((method params call s.2).interp (guide answers) s.1)

def guidedHoldings (params : Params) (s : Nat × State) : Holdings :=
  s.2.holdings params

def GuidedWF (params : Params) (s : Nat × State) : Prop := s.2.WF params

/-- The stream leads to a leaf. -/
theorem guide_leaf {α : Type} {t : Choosing α} (h : Branching Question.alts t)
    (answers : Nat → Nat) (i : Nat) :
    ∃ x j choices, t.interp (guide answers) i = .ok (x, j) ∧
      Leaf Question.alts t choices x := by
  induction t generalizing i with
  | ret x => exact ⟨x, i, [], rfl, Leaf.ret x⟩
  | ask q next ih =>
      have hlt := Nat.mod_lt (answers i) h.1
      obtain ⟨x, j, choices, hrun, hleaf⟩ := ih _ (h.2 _ hlt) (i + 1)
      exact ⟨x, j, _, hrun, Leaf.ask hlt hleaf⟩

theorem either_branching {type : BranchType} :
    Branching Question.alts (either type) :=
  ⟨Nat.two_pos, fun _ _ => trivial⟩

theorem method_branching {call : Call}
    (halts : ∀ alts, call.2 = .randomChoice alts → 0 < alts) :
    Branching Question.alts (method params call s) := by
  obtain ⟨view, q⟩ := call
  cases q with
  | pickNext => exact pickNext_branching
  | queuePop q =>
      refine branching_bind ?_ fun _ _ _ => trivial
      unfold queuePop
      split
      · exact branching_bind pick_branching fun _ _ _ => trivial
      · trivial
  | randomChoice alts => exact ⟨halts alts rfl, fun _ _ => trivial⟩
  | spuriousWakeup =>
      simp only [method]
      split
      · exact branching_bind either_branching fun _ _ _ => trivial
      · trivial
  | spuriousTryFailure =>
      simp only [method]
      split
      · exact branching_bind either_branching fun _ _ _ => trivial
      · trivial
  | _ => trivial

/-! ### No choice goes wrong -/

theorem switch_answers {preempted : Option ThreadId} {choices : List Nat}
    {x : Except Panic (Except String ThreadId × State)} (hne : s.runQueue ≠ [])
    (h : Leaf Question.alts (switch preempted s) choices x) :
    ∃ r s', x = .ok (r, s') := by
  obtain ⟨i, hi, _, rfl⟩ := (switch_leaf_iff hne).mp h
  exact ⟨_, _, rfl⟩

/-- Only a thread that is not alone is preempted. -/
theorem preempt_busy {active : ThreadId} {choices : List Nat}
    (h : Leaf Question.alts (preempt params view active s) choices (.ok true)) :
    s.runQueue ≠ [] := by
  intro hempty
  unfold preempt at h
  split at h
  · cases (leaf_ret_iff.mp h).2
  · have halone : s.runQueue.isEmpty = true := by
      rw [hempty]
      rfl
    rw [halone, if_pos rfl] at h
    cases (leaf_ret_iff.mp h).2

theorem pickNext_answers {choices : List Nat}
    {x : Except Panic (Except String ThreadId × State)}
    (hbusy : (s.holdings params).held ≠ 0)
    (h : Leaf Question.alts (pickNext params view s) choices x) :
    ∃ r s', x = .ok (r, s') := by
  obtain ⟨hqueue, -, -⟩ := @addStep_same params s.active { s with active := none }
  unfold pickNext at h
  dsimp only at h
  split at h
  · obtain ⟨-, rfl⟩ := leaf_ret_iff.mp h
    exact ⟨_, _, rfl⟩
  · split at h
    · rename_i hactive
      refine switch_answers ?_ h
      rw [hqueue]
      intro hempty
      apply hbusy
      have hempty : s.runQueue = [] := hempty
      simp only [State.holdings, hactive, hempty, Option.toList_none,
        List.nil_append, Multiset.coe_nil]
    · obtain ⟨first, rest, answer, _, hpreempt, hrest⟩ := leaf_bind_iff.mp h
      rcases answer with why | yes
      · obtain ⟨-, rfl⟩ := leaf_ret_iff.mp hrest
        exact ⟨_, _, rfl⟩
      · cases yes with
        | false =>
            obtain ⟨-, rfl⟩ := leaf_ret_iff.mp hrest
            exact ⟨_, _, rfl⟩
        | true => exact switch_answers (preempt_busy hpreempt) hrest

/-- `SwitchTo` and `RandomNumber` are not supported. -/
def excused : Call → Prop
  | (_, .switchTo _ _) | (_, .randomNumber) => True
  | _ => False

theorem queuePush_answers {q : QueueId} (hWF : s.WF params)
    (hlacks : (s.holdings params).Lacks t) :
    ∃ s', queuePush params q t s = .ok s' := by
  unfold queuePush
  cases hwake : params.wakeOrder with
  | true =>
      simp only [if_true]
      exact ⟨_, rfl⟩
  | false =>
      have hunlinked : s.fifoQueues.isLinked t = false := by
        rw [IntrusiveLists.isLinked_eq_false_iff hWF.consistent]
        intro q' hmem
        refine hlacks.2 q' ?_
        simp only [State.holdings, waiters_fifo hwake]
        exact hmem
      simp only [Bool.false_eq_true, if_false,
        IntrusiveLists.pushBack_eq hunlinked]
      exact ⟨_, rfl⟩

theorem method_answers {call : Call} {choices : List Nat}
    {x : Except Panic (call.Reply × State)} (hWF : s.WF params)
    (hdue : (s.holdings params).Due call) (hexcused : ¬ excused call)
    (h : Leaf Question.alts (method params call s) choices x) :
    ∃ r s', x = .ok (r, s') := by
  obtain ⟨view, q⟩ := call
  cases q with
  | pickNext => exact pickNext_answers hdue.1 h
  | switchTo t next => exact absurd trivial hexcused
  | randomNumber => exact absurd trivial hexcused
  | queuePush q t =>
      obtain ⟨s₁, hpush⟩ := @queuePush_answers params s t q hWF hdue.1
      simp only [method, hpush] at h
      obtain ⟨-, rfl⟩ := leaf_ret_iff.mp h
      exact ⟨_, _, rfl⟩
  | queuePop q =>
      obtain ⟨_, _, _, _, _, hrest⟩ := leaf_bind_iff.mp h
      obtain ⟨-, rfl⟩ := leaf_ret_iff.mp hrest
      exact ⟨_, _, rfl⟩
  | randomChoice alts =>
      obtain ⟨_, _, _, _, hrest⟩ := leaf_ask_iff.mp h
      obtain ⟨-, rfl⟩ := leaf_ret_iff.mp hrest
      exact ⟨_, _, rfl⟩
  | spuriousWakeup =>
      simp only [method] at h
      split at h
      · obtain ⟨_, _, _, _, _, hrest⟩ := leaf_bind_iff.mp h
        obtain ⟨-, rfl⟩ := leaf_ret_iff.mp hrest
        exact ⟨_, _, rfl⟩
      · obtain ⟨-, rfl⟩ := leaf_ret_iff.mp h
        exact ⟨_, _, rfl⟩
  | spuriousTryFailure =>
      simp only [method] at h
      split at h
      · obtain ⟨_, _, _, _, _, hrest⟩ := leaf_bind_iff.mp h
        obtain ⟨-, rfl⟩ := leaf_ret_iff.mp hrest
        exact ⟨_, _, rfl⟩
      · obtain ⟨-, rfl⟩ := leaf_ret_iff.mp h
        exact ⟨_, _, rfl⟩
  | _ =>
      obtain ⟨-, rfl⟩ := leaf_ret_iff.mp h
      exact ⟨_, _, rfl⟩

theorem pick_none {list rest : SortedList} {type : BranchType} {choices : List Nat}
    (h : Leaf Question.alts (pick list type) choices (none, rest)) : list = [] := by
  by_contra hne
  obtain ⟨i, hi, _, heq⟩ := (pick_leaf_iff hne).mp h
  cases heq

theorem fifo_none {q : QueueId} (hWF : s.WF params)
    (h : (s.fifoQueues.popFront q).1 = none) : s.fifoQueues.lists q = [] := by
  obtain ⟨hempty, _⟩ | ⟨t, rest, _, hpop, _⟩ :=
    IntrusiveLists.popFront_cases hWF.consistent q
  · exact hempty
  · rw [hpop] at h
    cases h

theorem queuePop_none {q : QueueId} {choices : List Nat} (hWF : s.WF params)
    (h : Leaf Question.alts (queuePop params q s) choices (none, s')) :
    waiters params s q = [] := by
  unfold queuePop at h
  cases hwake : params.wakeOrder with
  | true =>
      simp only [hwake, if_true] at h
      obtain ⟨_, _, ⟨r, rest⟩, _, hpick, hrest⟩ := leaf_bind_iff.mp h
      obtain ⟨-, heq⟩ := leaf_ret_iff.mp hrest
      cases heq
      rw [waiters_branching hwake]
      exact pick_none hpick
  | false =>
      simp only [hwake, Bool.false_eq_true, if_false] at h
      obtain ⟨-, heq⟩ := leaf_ret_iff.mp h
      rw [waiters_fifo hwake]
      exact fifo_none hWF (congrArg Prod.fst heq).symm

theorem queuePopAll_none {q : QueueId} (hWF : s.WF params)
    (h : (queuePopAll params q s).1 = none) : waiters params s q = [] := by
  unfold queuePopAll at h
  cases hwake : params.wakeOrder with
  | true =>
      simp only [hwake, if_true, setBranching, SortedList.popLast] at h
      rw [waiters_branching hwake]
      exact List.getLast?_eq_none_iff.mp h
  | false =>
      simp only [hwake, Bool.false_eq_true, if_false] at h
      rw [waiters_fifo hwake]
      exact fifo_none hWF h

theorem method_exact {call : Call} {choices : List Nat} {r : call.Reply}
    (hWF : s.WF params)
    (h : Leaf Question.alts (method params call s) choices (.ok (r, s'))) :
    (s.holdings params).Exact call r := by
  obtain ⟨view, q⟩ := call
  cases q with
  | queuePop q =>
      intro hnone
      obtain ⟨_, _, ⟨waiter, s₁⟩, _, hpop, hrest⟩ := leaf_bind_iff.mp h
      obtain ⟨-, heq⟩ := leaf_ret_iff.mp hrest
      cases heq
      subst hnone
      exact (Multiset.coe_eq_zero _).mpr (queuePop_none hWF hpop)
  | queuePopAll q =>
      intro hnone
      obtain ⟨-, heq⟩ := leaf_ret_iff.mp h
      cases heq
      exact (Multiset.coe_eq_zero _).mpr (queuePopAll_none hWF hnone)
  | randomChoice alts =>
      obtain ⟨index, _, _, hlt, hrest⟩ := leaf_ask_iff.mp h
      obtain ⟨-, heq⟩ := leaf_ret_iff.mp hrest
      cases heq
      exact fun _ => hlt
  | _ => trivial

/-! ### The contract -/

theorem guided_exec {answers : Nat → Nat} {call : Call}
    (hcall : call.2 ≠ .start) (s : Nat × State) :
    (guided params answers).exec call s =
      settled ((method params call s.2).interp (guide answers) s.1) := by
  obtain ⟨view, q⟩ := call
  cases q with
  | start => exact absurd rfl hcall
  | _ => rfl

/-- What the guided scheduler answers is a leaf of the method. -/
theorem guided_leaf {answers : Nat → Nat} {call : Call} {s s' : Nat × State}
    {r : call.Reply} (hcall : call.2 ≠ .start)
    (halts : ∀ alts, call.2 = .randomChoice alts → 0 < alts)
    (h : (guided params answers).exec call s = .ok (r, s')) :
    ∃ choices, Leaf Question.alts (method params call s.2) choices (.ok (r, s'.2)) := by
  obtain ⟨x, j, choices, hrun, hleaf⟩ :=
    guide_leaf (@method_branching params s.2 call halts) answers s.1
  rw [guided_exec hcall, hrun] at h
  rcases x with p | ⟨r', s₁⟩
  · cases h
  · cases h
    exact ⟨choices, hleaf⟩

theorem fresh_wf : State.fresh.WF params := by
  refine ⟨IntrusiveLists.empty_consistent, fun q _ => ?_⟩
  cases hwake : params.wakeOrder <;>
    simp [waiters, hwake, State.fresh, IntrusiveLists.empty]

theorem fresh_holdings : State.fresh.holdings params = Holdings.empty := by
  cases hwake : params.wakeOrder <;>
    simp [State.holdings, waiters, hwake, State.fresh, IntrusiveLists.empty,
      Holdings.empty]

end Dfs

end TwistSim
