/-
No scheduler loses a thread or runs one twice.
-/
import TwistSim.Custody
import TwistSim.CoopScheduler
import TwistSim.RandomScheduler
import TwistSim.PctScheduler
import TwistSim.DfsExplored
import TwistSim.Recording

namespace TwistSim

open Interaction

namespace Coop

variable {s s' : State} {t : ThreadId}

/-- `next_` names a thread of the run queue. -/
structure State.Targeted (s : State) : Prop where
  wf : s.WF
  next : ∀ t, s.next = some t → t ∈ s.holdings.held

theorem pickNext_answers (hs : s.Targeted) (hbusy : s.holdings.held ≠ 0) :
    ∃ t s', pickNext s = .ok (.ok t, s') := by
  unfold pickNext
  cases hnext : s.next with
  | some t =>
      have hmem : t ∈ s.lists.lists none := hs.next t hnext
      simp only [List.elem_iff.mpr hmem, if_true]
      exact ⟨t, _, rfl⟩
  | none =>
      obtain ⟨hempty, _⟩ | ⟨t, rest, _, hpop, _⟩ :=
        IntrusiveLists.popFront_cases hs.wf.consistent (none : Option QueueId)
      · exact absurd ((Multiset.coe_eq_zero _).mpr hempty) hbusy
      · simp only [hpop]
        exact ⟨t, _, rfl⟩

/-- The cooperative scheduler answers every call. -/
theorem exec_answers {call : Call} (hs : s.Targeted) (hdue : s.holdings.Due call) :
    ∃ r s', scheduler.exec call s = .ok (r, s') := by
  obtain ⟨view, q⟩ := call
  have hunlinked : ∀ t, s.holdings.Lacks t → s.lists.isLinked t = false :=
    fun t ht => isLinked_of_lacks hs.wf ht
  have hpush : ∀ t, s.holdings.Lacks t → ∃ s', pushBack s t = .ok ((), s') := by
    intro t ht
    rw [pushBack, IntrusiveLists.pushBack_eq (hunlinked t ht)]
    exact ⟨_, rfl⟩
  cases q with
  | start =>
      have hempty : s.lists.isEmpty none = true := (isEmpty_iff none).mpr hdue
      simp only [scheduler, start, hempty, if_true]
      exact ⟨(), _, rfl⟩
  | interrupt t =>
      simp only [scheduler, IntrusiveLists.pushFront_eq (hunlinked t hdue.1)]
      exact ⟨(), _, rfl⟩
  | switchTo t next =>
      obtain ⟨s₁, hs₁⟩ := hpush t hdue.1
      simp only [scheduler, hs₁]
      exact ⟨(), _, rfl⟩
  | yield t => exact ⟨(), hpush t hdue.1⟩
  | wake t => exact ⟨(), hpush t hdue.1⟩
  | spawn t => exact ⟨(), hpush t hdue.1⟩
  | pickNext =>
      obtain ⟨t, s', hpick⟩ := pickNext_answers hs hdue.1
      exact ⟨.ok t, s', hpick⟩
  | queuePush q t =>
      simp only [scheduler, IntrusiveLists.pushBack_eq (hunlinked t hdue.1)]
      exact ⟨(), _, rfl⟩
  | _ => exact ⟨_, _, rfl⟩

theorem exec_exact {call : Call} {r : call.Reply} (hs : s.WF)
    (h : scheduler.exec call s = .ok (r, s')) : s.holdings.Exact call r := by
  have hpop : ∀ q, (s.lists.popFront (some q)).1 = none →
      s.holdings.waiters q = 0 := by
    intro q hnone
    obtain ⟨hempty, _⟩ | ⟨t, rest, _, hpop, _⟩ :=
      IntrusiveLists.popFront_cases hs.consistent (some q)
    · exact (Multiset.coe_eq_zero _).mpr hempty
    · rw [hpop] at hnone
      cases hnone
  obtain ⟨view, q⟩ := call
  cases q with
  | queuePop q =>
      cases h
      exact hpop q
  | queuePopAll q =>
      cases h
      exact hpop q
  | randomChoice alts =>
      have hr : (nextRandom s).1 % alts = r := congrArg Prod.fst (Except.ok.inj h)
      exact fun halts => hr ▸ Nat.mod_lt _ halts
  | _ => trivial

end Coop

namespace ThreadSet

/-- There is room for a thread that is not in the set yet. -/
theorem push_lacks {set : ThreadSet} {threads : Multiset ThreadId} {t : ThreadId}
    (hsub : ↑set ≤ threads) (hnodup : threads.Nodup)
    (hvalid : ∀ u ∈ threads, Holdings.ValidId u) (ht : Holdings.ValidId t)
    (hlacks : t ∉ threads) : set.push t = .ok (set ++ [t]) := by
  have hroom := Holdings.card_lt_of_lacks hnodup hvalid ht hlacks
  have hlength : set.length ≤ threads.card := Multiset.card_le_card hsub
  rw [push, if_neg (Nat.ne_of_lt (Nat.lt_of_le_of_lt hlength hroom))]

end ThreadSet

namespace Random

variable {params : Params} {view : KernelView} {s s' : State} {t : ThreadId}

/-- `SwitchTo` is not supported; the lock-free hints assert the attribute of
their thread; without a time slice, or with probabilities over zero, nothing can
be drawn. -/
def excused (params : Params) : Call → Prop
  | (_, .switchTo _ _) | (_, .lockFree _ _) => True
  | (view, .exit t) | (view, .progress t) => (view.attrs t).lockFree = true
  | (_, .pickNext) => params.timeSlice = 0
  | (_, .spuriousWakeup) => params.spuriousWakeups.denom = 0
  | (_, .spuriousTryFailure) => params.spuriousFailures.denom = 0
  | _ => False

theorem enqueue_answers (hsound : s.holdings.Sound) (ht : Holdings.ValidId t)
    (hlacks : s.holdings.Lacks t) : ∃ s', enqueue t s = .ok s' := by
  have hsub : (↑s.runQueue : Multiset ThreadId) ≤ s.holdings.owned := by
    rw [owned_eq]
    exact Multiset.coe_le.mpr
      ((List.sublist_append_right _ _).trans (List.sublist_append_left _ _)).subperm
  rw [enqueue, ThreadSet.push_lacks hsub hsound.owned hsound.valid ht hlacks.1]
  exact ⟨_, rfl⟩

theorem lfSuspend_answers (hsound : s.holdings.Sound) (ht : Holdings.ValidId t)
    (hlacks : s.holdings.Lacks t) : ∃ s', lfSuspend t s = .ok s' := by
  have hsub : (↑s.suspendedThreads : Multiset ThreadId) ≤ s.holdings.owned := by
    rw [owned_eq]
    exact Multiset.coe_le.mpr (List.sublist_append_right _ _).subperm
  rw [lfSuspend, ThreadSet.push_lacks hsub hsound.owned hsound.valid ht hlacks.1]
  exact ⟨_, rfl⟩

theorem lfCandidate_answers (haction : view.action t ≠ none) :
    ∃ candidate, lfCandidate params view t s = .ok candidate := by
  unfold lfCandidate
  split
  · exact ⟨_, rfl⟩
  · split
    · exact ⟨_, rfl⟩
    · split
      · exact ⟨_, rfl⟩
      · split
        · rename_i hnone
          exact absurd hnone haction
        · exact ⟨_, rfl⟩

theorem interrupt_answers (hsound : s.holdings.Sound) (ht : Holdings.ValidId t)
    (hlacks : s.holdings.Lacks t) (haction : view.action t ≠ none) :
    ∃ s', interrupt params view t s = .ok s' := by
  unfold interrupt
  split
  · exact enqueue_answers hsound ht hlacks
  · obtain ⟨candidate, hcandidate⟩ := @lfCandidate_answers params view s t haction
    cases hsuspend : toLfSuspend params view t s with
    | error p =>
        simp only [toLfSuspend, hcandidate] at hsuspend
        cases hsuspend
    | ok result =>
        obtain ⟨yes, s₁⟩ := result
        obtain ⟨random, rfl⟩ := toLfSuspend_spec hsuspend
        cases yes with
        | true => exact @lfSuspend_answers (reseed s random) t hsound ht hlacks
        | false => exact ⟨_, rfl⟩

theorem pickNext_answers (hslice : params.timeSlice ≠ 0)
    (hbusy : s.holdings.held ≠ 0) :
    ∃ t s', pickNext params view s = .ok (.ok t, s') := by
  unfold pickNext
  cases hnext : s.next with
  | some t => exact ⟨t, _, rfl⟩
  | none =>
      obtain ⟨n, random, hroll⟩ := randomNumber_eq s
      simp only [pickNextFromRunQueue, hroll]
      obtain ⟨hempty, _⟩ | ⟨t, rest, hpop, _⟩ :=
        ThreadSet.popRandom_cases s.runQueue n
      · refine absurd ?_ hbusy
        simp only [State.holdings, hnext, hempty, Option.toList_none, List.nil_append,
          Multiset.coe_nil]
      · simp only [hpop, hslice, if_false]
        exact ⟨t, _, rfl⟩

theorem spurious_answers {p : Rational} (hp : p.denom ≠ 0) :
    ∃ r s', spurious p s = .ok (r, s') := by
  rw [spurious, if_neg hp]
  exact ⟨_, _, rfl⟩

theorem exec_answers {call : Call} (hsound : s.holdings.Sound)
    (hdue : s.holdings.Due call) (hexcused : ¬ excused params call) :
    ∃ r s', (scheduler params).exec call s = .ok (r, s') := by
  have hdone : ∀ x : Except Panic State, (∃ s', x = .ok s') →
      ∃ r s', done x = .ok (r, s') := by
    rintro x ⟨s', rfl⟩
    exact ⟨(), s', rfl⟩
  obtain ⟨view, q⟩ := call
  cases q with
  | interrupt t =>
      exact hdone _ (interrupt_answers hsound hdue.2.1 hdue.1 hdue.2.2.2)
  | yield t => exact hdone _ (enqueue_answers hsound hdue.2 hdue.1)
  | wake t => exact hdone _ (enqueue_answers hsound hdue.2 hdue.1)
  | spawn t =>
      exact hdone _ (@enqueue_answers { s with
        preemptAt := Function.update s.preemptAt t 0
        suspended := Function.update s.suspended t false } t hsound hdue.2 hdue.1)
  | switchTo t next => exact absurd trivial hexcused
  | lockFree t flag => exact absurd trivial hexcused
  | exit t =>
      have hattr : ¬ (view.attrs t).lockFree = true := hexcused
      simp only [scheduler, if_neg hattr]
      exact ⟨_, _, rfl⟩
  | progress t =>
      have hattr : ¬ (view.attrs t).lockFree = true := hexcused
      refine hdone _ ⟨s, ?_⟩
      rw [progress, if_neg hattr]
  | pickNext =>
      obtain ⟨t, s', hpick⟩ := @pickNext_answers params view s hexcused hdue.1
      exact ⟨.ok t, s', hpick⟩
  | queuePush q t =>
      refine hdone _ ⟨setWaitSet q (s.waitSets q ++ [t]) s, ?_⟩
      rw [ThreadSet.push_lacks (le_refl _) (hsound.waiters q)
        (hsound.validWaiters q) hdue.2.1 (hdue.1.2 q)]
      rfl
  | spuriousWakeup => exact spurious_answers hexcused
  | spuriousTryFailure => exact spurious_answers hexcused
  | _ => exact ⟨_, _, rfl⟩

theorem exec_exact {call : Call} {r : call.Reply}
    (h : (scheduler params).exec call s = .ok (r, s')) :
    s.holdings.Exact call r := by
  obtain ⟨view, q⟩ := call
  cases q with
  | queuePop q =>
      intro hnone
      obtain ⟨n, random, hroll⟩ := randomNumber_eq s
      simp only [scheduler, hroll] at h
      obtain ⟨hempty, _⟩ | ⟨t, rest, hpop, _⟩ :=
        ThreadSet.popRandom_cases (s.waitSets q) n
      · exact (Multiset.coe_eq_zero _).mpr hempty
      · rw [hpop] at h
        cases h
        cases hnone
  | queuePopAll q =>
      intro hnone
      obtain ⟨hempty, _⟩ | ⟨t, rest, hpop, _⟩ := ThreadSet.popAll_cases (s.waitSets q)
      · exact (Multiset.coe_eq_zero _).mpr hempty
      · simp only [scheduler, hpop] at h
        cases h
        cases hnone
  | randomChoice alts =>
      have hr : (randomNumber s).1 % alts = r := congrArg Prod.fst (Except.ok.inj h)
      exact fun halts => hr ▸ Nat.mod_lt _ halts
  | _ => trivial

end Random

namespace Pct

variable {params : Params} {fuel : Nat} {view : KernelView} {s s' : State}
  {t : ThreadId}

/-- `SwitchTo` is not supported, and `Start` does not end if there are fewer
steps than change points. -/
def excused : Call → Prop
  | (_, .switchTo _ _) | (_, .start) => True
  | _ => False

theorem popMaxPriority_answers (h : s.runQueue ≠ []) :
    ∃ t s', popMaxPriority s = .ok (.ok t, s') := by
  obtain ⟨t, htop⟩ := @top_isSome s.priority s.runQueue h
  rw [popMaxPriority, htop]
  exact ⟨t, _, rfl⟩

theorem pickNext_answers (hbusy : s.holdings.held ≠ 0) :
    ∃ t s', pickNext view s = .ok (.ok t, s') := by
  unfold pickNext
  cases hactive : s.active with
  | none =>
      refine popMaxPriority_answers fun hempty => hbusy ?_
      simp only [State.holdings, hactive, show s.runQueue = [] from hempty,
        Option.toList_none, List.nil_append, Multiset.coe_nil]
  | some active =>
      dsimp only
      split
      · exact ⟨_, _, rfl⟩
      · refine popMaxPriority_answers ?_
        simp only [enqueue]
        exact List.append_ne_nil_of_right_ne_nil _ (List.cons_ne_nil _ _)

theorem exec_answers {call : Call} (hWF : s.WF) (hdue : s.holdings.Due call)
    (hexcused : ¬ excused call) :
    ∃ r s', (scheduler params fuel).exec call s = .ok (r, s') := by
  obtain ⟨view, q⟩ := call
  cases q with
  | start => exact absurd trivial hexcused
  | switchTo t next => exact absurd trivial hexcused
  | pickNext =>
      obtain ⟨t, s', hpick⟩ := @pickNext_answers view s hdue.1
      exact ⟨.ok t, s', hpick⟩
  | queuePush q t =>
      have hunlinked := isLinked_of_lacks hWF hdue.1
      simp only [scheduler, IntrusiveLists.pushBack_eq hunlinked]
      exact ⟨(), _, rfl⟩
  | _ => exact ⟨_, _, rfl⟩

theorem exec_exact {call : Call} {r : call.Reply} (hWF : s.WF)
    (h : (scheduler params fuel).exec call s = .ok (r, s')) :
    s.holdings.Exact call r := by
  have hpop : ∀ q, (s.waitLists.popFront q).1 = none → s.holdings.waiters q = 0 := by
    intro q hnone
    obtain ⟨hempty, _⟩ | ⟨t, rest, _, hpop, _⟩ :=
      IntrusiveLists.popFront_cases hWF.consistent q
    · exact (Multiset.coe_eq_zero _).mpr hempty
    · rw [hpop] at hnone
      cases hnone
  obtain ⟨view, q⟩ := call
  cases q with
  | queuePop q =>
      cases h
      exact hpop q
  | queuePopAll q =>
      cases h
      exact hpop q
  | randomChoice alts =>
      have hr : (randomNumber s).1 % alts = r := congrArg Prod.fst (Except.ok.inj h)
      exact fun halts => hr ▸ Nat.mod_lt _ halts
  | _ => trivial

end Pct

/-! ### Replaying a recorded run -/

namespace Replay

/-- The replay scheduler has what the caller counts. -/
structure Matches (p : State) (h : Hands) : Prop where
  wf : p.WF
  given : (↑p.runSet : Multiset ThreadId) = h.given
  waiting : ∀ q, (↑(p.waitSets q) : Multiset ThreadId) = h.waiting q
  queues : p.queueCount = h.queues

variable {p p' : State} {h : Hands} {t : ThreadId} {q : QueueId}

theorem Matches.hand (hmatches : Matches p h) (hfree : h.Free t) {switched : Bool} :
    ∃ p', emplace t p = .ok ((), p') ∧ Matches p' { h.hand t with switched } ∧
      p'.schedule = p.schedule ∧ p'.next = p.next := by
  have hnot : t ∉ p.runSet := by
    rw [← Multiset.mem_coe, hmatches.given]
    exact hfree.1
  refine ⟨_, rfl, ⟨⟨hmatches.wf.unused⟩, ?_, hmatches.waiting, hmatches.queues⟩, rfl,
    rfl⟩
  rw [List.insert_of_not_mem hnot, ← Multiset.cons_coe, hmatches.given]
  rfl

theorem Matches.setWaiting (hmatches : Matches p h) {set : List ThreadId}
    {waiters : Multiset ThreadId} (hset : (↑set : Multiset ThreadId) = waiters)
    (hq : q < h.queues) : Matches (setWaitSet q set p) (h.setWaiting q waiters) := by
  refine ⟨setWaitSet_wf hmatches.wf (hmatches.queues ▸ hq), hmatches.given, ?_,
    hmatches.queues⟩
  intro q'
  by_cases hne : q' = q
  · subst hne
    simp only [setWaitSet, Hands.setWaiting, Function.update_self]
    exact hset
  · simp only [setWaitSet, Hands.setWaiting, Function.update_of_ne hne]
    exact hmatches.waiting q'

/-- The next decision of the schedule is taken. -/
theorem next_takes {β : Type} {get : Decision → Option β} {d : Decision} {x : β}
    (hnext : p.schedule[p.next]? = some d) (hget : get d = some x) :
    Replay.next get p = .ok (x, { p with next := p.next + 1 }) := by
  simp only [Replay.next, hnext, hget]

/-- A waiter that was woken in the recorded run. -/
theorem Matches.wakes (hmatches : Matches p h) (hq : q < h.queues)
    {get : Decision → Option (Option ThreadId)} {d : Decision} {r : Option ThreadId}
    (hnext : p.schedule[p.next]? = some d) (hget : get d = some r)
    (hmem : ∀ t, r = some t → t ∈ h.waiting q) {h' : Hands}
    (hnone : r = none → h' = h)
    (hsome : ∀ t, r = some t → h' = h.setWaiting q ((h.waiting q).erase t)) :
    ∃ p', wake get q p = .ok (r, p') ∧ Matches p' h' ∧ p'.schedule = p.schedule ∧
      p'.next = p.next + 1 := by
  rw [wake, next_takes hnext hget]
  cases r with
  | none =>
      refine ⟨_, rfl, ?_, rfl, rfl⟩
      rw [hnone rfl]
      exact ⟨⟨hmatches.wf.unused⟩, hmatches.given, hmatches.waiting, hmatches.queues⟩
  | some t =>
      have hwaits : (p.waitSets q).elem t = true := by
        rw [List.elem_iff, ← Multiset.mem_coe, hmatches.waiting]
        exact hmem t rfl
      simp only [hwaits, if_true]
      refine ⟨_, rfl, ?_, rfl, rfl⟩
      rw [hsome t rfl]
      have hmatches' : Matches { p with next := p.next + 1 } h :=
        ⟨⟨hmatches.wf.unused⟩, hmatches.given, hmatches.waiting, hmatches.queues⟩
      refine hmatches'.setWaiting ?_ hq
      rw [← hmatches.waiting q, Multiset.coe_erase]

/-- The answers a scheduler gives that meets the contract. -/
def Sensible (h : Hands) : (call : Call) → call.Reply → Prop
  | (_, .pickNext), .ok t => t ∈ h.given
  | (_, .queuePop q), some t | (_, .queuePopAll q), some t => t ∈ h.waiting q
  | (_, .queueRemove _ _), removed => removed = true
  | (_, .randomChoice alts), index => index < alts
  | _, _ => True

/-- One call, answered as it was recorded. -/
theorem Matches.step {σ : Type} {S : IScheduler σ} {s : σ} {call : Call}
    {r : call.Reply} (hmatches : Matches p h) (hcall : h.MayCall S s call)
    (hstart : call.2 = .start → h = Hands.none) (hsensible : Sensible h call r)
    (hgoes : call.Continues r)
    (hnext : ∀ d, decision call r = some d → p.schedule[p.next]? = some d) :
    ∃ r' p', scheduler.answer call p = .ok (r', p') ∧
      decision call r' = decision call r ∧ Matches p' (h.after call r) ∧
      p'.schedule = p.schedule ∧
      p'.next = p.next + (decision call r).toList.length := by
  have hkeep : ∀ n, Matches { p with next := n } h := fun n =>
    ⟨⟨hmatches.wf.unused⟩, hmatches.given, hmatches.waiting, hmatches.queues⟩
  have hsame : Matches p h := hmatches
  have hanswer : ∀ (call : Call) (r : call.Reply) (p' : State),
      scheduler.exec call p = .ok (r, p') → call.usable r = true →
      scheduler.answer call p = .ok (r, p') := fun call r p' hexec husable =>
    IScheduler.answer_ok_iff.mpr ⟨hexec, husable⟩
  obtain ⟨view, q⟩ := call
  cases q with
  | start =>
      refine ⟨(), _, rfl, rfl, ?_, rfl, rfl⟩
      obtain rfl := hstart rfl
      exact ⟨⟨fun _ _ => rfl⟩, hmatches.given, fun _ => rfl, rfl⟩
  | interrupt t =>
      obtain ⟨p', hemplace, hmatches', hschedule, hindex⟩ :=
        @Matches.hand p h t hmatches hcall.1 true
      exact ⟨(), p', hanswer _ _ _ hemplace rfl, rfl, hmatches', hschedule, hindex⟩
  | switchTo t next =>
      obtain ⟨p', hemplace, hmatches', hschedule, hindex⟩ :=
        @Matches.hand p h t hmatches hcall.1 true
      exact ⟨(), p', hanswer _ _ _ hemplace rfl, rfl, hmatches', hschedule, hindex⟩
  | yield t =>
      obtain ⟨p', hemplace, hmatches', hschedule, hindex⟩ :=
        @Matches.hand p h t hmatches hcall h.switched
      exact ⟨(), p', hanswer _ _ _ hemplace rfl, rfl, hmatches', hschedule, hindex⟩
  | wake t =>
      obtain ⟨p', hemplace, hmatches', hschedule, hindex⟩ :=
        @Matches.hand p h t hmatches hcall h.switched
      exact ⟨(), p', hanswer _ _ _ hemplace rfl, rfl, hmatches', hschedule, hindex⟩
  | spawn t =>
      obtain ⟨p', hemplace, hmatches', hschedule, hindex⟩ :=
        @Matches.hand p h t hmatches hcall h.switched
      exact ⟨(), p', hanswer _ _ _ hemplace rfl, rfl, hmatches', hschedule, hindex⟩
  | pickNext =>
      cases r with
      | error why => exact absurd hgoes id
      | ok t =>
          have hruns : p.runSet.elem t = true := by
            rw [List.elem_iff, ← Multiset.mem_coe, hmatches.given]
            exact hsensible
          have hpick : pickNext p = .ok (.ok t,
              { p with next := p.next + 1, runSet := p.runSet.erase t }) := by
            have htake := hnext (.pickNext t) rfl
            simp only [pickNext, Replay.next, htake, hruns, if_true]
          refine ⟨.ok t, _, hanswer _ _ _ hpick (hcall.2 t hsensible), rfl, ?_, rfl, rfl⟩
          refine ⟨⟨hmatches.wf.unused⟩, ?_, hmatches.waiting, hmatches.queues⟩
          rw [← Multiset.coe_erase, hmatches.given]
          rfl
  | newWaitQueue =>
      refine ⟨_, _, rfl, rfl, ⟨⟨fun q hq => ?_⟩, hmatches.given, hmatches.waiting, ?_⟩,
        rfl, rfl⟩
      · exact hmatches.wf.unused q (Nat.le_of_succ_le hq)
      · exact congrArg (· + 1) hmatches.queues
  | queuePush q t =>
      have hnot : t ∉ p.waitSets q := by
        rw [← Multiset.mem_coe, hmatches.waiting]
        exact hcall.1.2.1 q
      refine ⟨(), _, rfl, rfl, ?_, rfl, rfl⟩
      refine hmatches.setWaiting ?_ hcall.2
      rw [List.insert_of_not_mem hnot, ← Multiset.cons_coe, hmatches.waiting]
  | queuePop q =>
      obtain ⟨p', hwake, hmatches', hschedule, hindex⟩ :
          ∃ p', wakeOne q p = .ok (r, p') ∧ Matches p' (h.after (view, .queuePop q) r) ∧
            p'.schedule = p.schedule ∧ p'.next = p.next + 1 :=
        hmatches.wakes hcall (hnext (.wakeOne r) rfl) rfl
          (fun t ht => by subst ht; exact hsensible) (fun hr => by subst hr; rfl)
          (fun t hr => by subst hr; rfl)
      exact ⟨r, p', hanswer _ _ _ hwake rfl, rfl, hmatches', hschedule, hindex⟩
  | queuePopAll q =>
      obtain ⟨p', hwake, hmatches', hschedule, hindex⟩ :
          ∃ p', wakeAll q p = .ok (r, p') ∧ Matches p' (h.after (view, .queuePopAll q) r) ∧
            p'.schedule = p.schedule ∧ p'.next = p.next + 1 :=
        hmatches.wakes hcall (hnext (.wakeAll r) rfl) rfl
          (fun t ht => by subst ht; exact hsensible) (fun hr => by subst hr; rfl)
          (fun t hr => by subst hr; rfl)
      exact ⟨r, p', hanswer _ _ _ hwake rfl, rfl, hmatches', hschedule, hindex⟩
  | queueRemove q t =>
      obtain rfl : r = true := hsensible
      refine ⟨_, _, rfl, rfl, ?_, rfl, rfl⟩
      refine hmatches.setWaiting ?_ hcall.2
      rw [← Multiset.coe_erase, hmatches.waiting]
  | randomNumber =>
      have htake : scheduler.exec (view, .randomNumber) p =
          .ok (r, { p with next := p.next + 1 }) :=
        next_takes (hnext (.randomNumber r) rfl) rfl
      exact ⟨r, _, hanswer _ _ _ htake rfl, rfl, hkeep _, rfl, rfl⟩
  | randomChoice alts =>
      have hchoice : randomChoice alts p = .ok (r, { p with next := p.next + 1 }) := by
        have htake := hnext (.randomChoice r) rfl
        have hlt : r < alts := hsensible
        simp only [randomChoice, Replay.next, htake, hlt, if_true]
      exact ⟨r, _, hanswer _ _ _ hchoice rfl, rfl, hkeep _, rfl, rfl⟩
  | spuriousWakeup =>
      have htake : scheduler.exec (view, .spuriousWakeup) p =
          .ok (r, { p with next := p.next + 1 }) :=
        next_takes (hnext (.spuriousWakeup r) rfl) rfl
      exact ⟨r, _, hanswer _ _ _ htake rfl, rfl, hkeep _, rfl, rfl⟩
  | spuriousTryFailure =>
      have htake : scheduler.exec (view, .spuriousTryFailure) p =
          .ok (r, { p with next := p.next + 1 }) :=
        next_takes (hnext (.spuriousTryFailure r) rfl) rfl
      exact ⟨r, _, hanswer _ _ _ htake rfl, rfl, hkeep _, rfl, rfl⟩
  | exit t =>
      cases r with
      | error why => exact absurd hgoes id
      | ok => exact ⟨.ok (), p, rfl, rfl, hsame, rfl, rfl⟩
  | remove t => exact absurd hcall id
  | _ => exact ⟨_, _, rfl, rfl, hsame, rfl, rfl⟩

section Recorded

variable {σ : Type} {S : IScheduler σ} {WF : σ → Prop} {holdings : σ → Holdings}
  {excused : Call → Prop} {initial : σ → Prop}

end Recorded

end Replay

/-! ### Every scheduler -/

end TwistSim
