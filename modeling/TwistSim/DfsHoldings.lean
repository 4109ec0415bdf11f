/-
The depth-first scheduler keeps the contract between the simulator and its
scheduler, whatever its schedule vector says.
-/
import TwistSim.DfsScheduler
import TwistSim.Holdings

namespace TwistSim

namespace Dfs

open Interaction

/-- The wait queues, in the kind that the parameters ask for. -/
def waiters (params : Params) (s : State) (q : QueueId) : List ThreadId :=
  if params.wakeOrder then s.branchingQueues q else s.fifoQueues.lists q

def State.holdings (params : Params) (s : State) : Holdings where
  held := ↑(s.active.toList ++ s.runQueue)
  suspended := 0
  waiters q := ↑(waiters params s q)
  queues := s.queueCount
  slot := s.active.isSome

structure State.WF (params : Params) (s : State) : Prop where
  consistent : s.fifoQueues.Consistent
  unused : ∀ q, s.queueCount ≤ q → waiters params s q = []

def Scheduler.holdings (params : Params) (s : Scheduler) : Holdings :=
  s.state.holdings params

def Scheduler.WF (params : Params) (s : Scheduler) : Prop := s.state.WF params

variable {params : Params} {view : KernelView} {s s' : State} {t : ThreadId}

/-- Two states with the same wait queues. -/
structure SameLists (s s' : State) : Prop where
  fifo : s'.fifoQueues = s.fifoQueues
  branching : s'.branchingQueues = s.branchingQueues
  count : s'.queueCount = s.queueCount

theorem SameLists.refl (s : State) : SameLists s s := ⟨rfl, rfl, rfl⟩

theorem SameLists.trans {s₁ s₂ s₃ : State} (h₁₂ : SameLists s₁ s₂)
    (h₂₃ : SameLists s₂ s₃) : SameLists s₁ s₃ :=
  ⟨h₂₃.fifo.trans h₁₂.fifo, h₂₃.branching.trans h₁₂.branching,
    h₂₃.count.trans h₁₂.count⟩

theorem SameLists.waiters (h : SameLists s s') :
    waiters params s' = waiters params s := by
  funext q
  simp only [Dfs.waiters, h.fifo, h.branching]

theorem SameLists.wf (h : SameLists s s') (hWF : s.WF params) : s'.WF params where
  consistent := h.fifo ▸ hWF.consistent
  unused q hq := by
    rw [h.waiters]
    exact hWF.unused q (h.count ▸ hq)

theorem SameLists.same (h : SameLists s s') :
    (s.holdings params).SameQueues (s'.holdings params) := by
  refine ⟨?_, h.count⟩
  simp only [State.holdings, h.waiters]

theorem owned_eq (s : State) :
    (s.holdings params).owned = ↑(s.active.toList ++ s.runQueue) := by
  simp only [Holdings.owned, State.holdings, Multiset.add_zero]

theorem push_takes (hWF : s.WF params) :
    (s.push t).WF params ∧
      (s.holdings params).Takes ((s.push t).holdings params) t ∧
      ((s.push t).holdings params).slot = (s.holdings params).slot := by
  have hsame : SameLists s (s.push t) := ⟨rfl, rfl, rfl⟩
  refine ⟨hsame.wf hWF, ⟨?_, hsame.same⟩, rfl⟩
  rw [owned_eq, owned_eq, State.push, Multiset.cons_coe]
  apply Multiset.coe_eq_coe.mpr
  calc s.active.toList ++ s.runQueue.push t
      _ |>.Perm (s.active.toList ++ t :: s.runQueue) :=
        (SortedList.push_perm s.runQueue t).append_left _
      _ |>.Perm (t :: (s.active.toList ++ s.runQueue)) := List.perm_middle

/-- Counting a step leaves the threads where they are. -/
theorem addStep_same (running : Option ThreadId) (s : State) :
    (addStep params running s).2.runQueue = s.runQueue ∧
      (addStep params running s).2.active = s.active ∧
      SameLists s (addStep params running s).2 := by
  have hbump : ∀ s : State, (addStep.bump running s).runQueue = s.runQueue ∧
      (addStep.bump running s).active = s.active ∧
      SameLists s (addStep.bump running s) := by
    intro s
    cases running with
    | none => exact ⟨rfl, rfl, rfl, rfl, rfl⟩
    | some t => exact ⟨rfl, rfl, rfl, rfl, rfl⟩
  unfold addStep
  dsimp only
  split
  · split
    · exact ⟨rfl, rfl, rfl, rfl, rfl⟩
    · obtain ⟨hqueue, hactive, hsame⟩ := hbump { s with steps := s.steps + 1 }
      exact ⟨hqueue, hactive, hsame.fifo, hsame.branching, hsame.count⟩
  · obtain ⟨hqueue, hactive, hsame⟩ := hbump { s with steps := s.steps + 1 }
    exact ⟨hqueue, hactive, hsame.fifo, hsame.branching, hsame.count⟩

/-- Whatever index is chosen, `pick` takes one thread or none. -/
theorem pick_returns {list rest : SortedList} {type : BranchType}
    {r : Option ThreadId} (h : (pick list type).Returns (r, rest)) :
    (r = none ∧ rest = list) ∨ ∃ t, r = some t ∧ list.Perm (t :: rest) := by
  have hpop : ∀ i, (r, rest) = list.pop i →
      (r = none ∧ rest = list) ∨ ∃ t, r = some t ∧ list.Perm (t :: rest) := by
    intro i heq
    cases heq
    by_cases hi : i < list.length
    · exact Or.inr (SortedList.pop_perm hi)
    · refine Or.inl ⟨?_, ?_⟩
      · simpa [SortedList.pop] using hi
      · exact List.eraseIdx_of_length_le (Nat.le_of_not_lt hi)
  unfold pick at h
  split at h
  · cases h
    exact Or.inl ⟨rfl, rfl⟩
  · split at h
    · exact hpop 0 h
    · obtain ⟨i, hi⟩ := h
      exact hpop i hi

theorem switch_returns {preempted : Option ThreadId}
    {r : Except String ThreadId} (hactive : s.active = none)
    (h : (switch preempted s).Returns (.ok (r, s'))) :
    ∃ t, r = .ok t ∧
      (preempted.toList ++ s.runQueue).Perm (t :: s'.runQueue) ∧
      s'.active = none ∧ SameLists s s' := by
  obtain ⟨⟨next, rest⟩, hpick, hnext⟩ := returns_bind.mp h
  obtain ⟨rfl, rfl⟩ | ⟨t, rfl, hperm⟩ := pick_returns hpick
  · cases hnext
  · refine ⟨t, ?_⟩
    cases preempted with
    | none =>
        cases hnext
        exact ⟨rfl, hperm, hactive, rfl, rfl, rfl⟩
    | some u =>
        cases hnext
        refine ⟨rfl, ?_, hactive, rfl, rfl, rfl⟩
        calc u :: s.runQueue
            _ |>.Perm (u :: t :: rest) := hperm.cons u
            _ |>.Perm (t :: u :: rest) := List.Perm.swap t u rest
            _ |>.Perm (t :: rest.push u) := (SortedList.push_perm rest u).symm.cons t

/-- `PickNext` gives back the active thread or one of the run queue. -/
theorem pickNext_returns {r : Except String ThreadId}
    (h : (pickNext params view s).Returns (.ok (r, s'))) :
    SameLists s s' ∧ ∀ t, r = .ok t →
      (s.holdings params).held = t ::ₘ (s'.holdings params).held ∧
        s'.active = none := by
  have hadd : ∀ limit s₁,
      addStep params s.active { s with active := none } = (limit, s₁) →
      s₁.runQueue = s.runQueue ∧ s₁.active = none ∧ SameLists s s₁ := by
    intro limit s₁ heq
    have hcleared : SameLists s { s with active := none } := ⟨rfl, rfl, rfl⟩
    obtain ⟨hqueue, hnone, hsame⟩ :=
      @addStep_same params s.active { s with active := none }
    rw [heq] at hqueue hnone hsame
    exact ⟨hqueue, hnone, hcleared.trans hsame⟩
  unfold pickNext at h
  dsimp only at h
  generalize addStep params s.active { s with active := none } = step at h hadd
  obtain ⟨limit, s₁⟩ := step
  obtain ⟨hqueue, hnone, hsame⟩ := hadd limit s₁ rfl
  clear hadd
  cases limit with
  | error why =>
      cases h
      exact ⟨hsame, fun t ht => by cases ht⟩
  | ok _ =>
      cases hactive : s.active with
      | none =>
          simp only [hactive] at h
          obtain ⟨t, rfl, hperm, hnone', hsame'⟩ := switch_returns hnone h
          refine ⟨hsame.trans hsame', fun u hu => ?_⟩
          cases hu
          refine ⟨?_, hnone'⟩
          simp only [State.holdings, hactive, hnone', Option.toList_none,
            List.nil_append, Multiset.cons_coe]
          exact Multiset.coe_eq_coe.mpr (hqueue ▸ hperm)
      | some active =>
          simp only [hactive] at h
          obtain ⟨answer, -, hanswer⟩ := returns_bind.mp h
          match answer with
          | .error why =>
              cases hanswer
              exact ⟨hsame, fun t ht => by cases ht⟩
          | .ok false =>
              cases hanswer
              refine ⟨hsame, fun u hu => ?_⟩
              cases hu
              refine ⟨?_, hnone⟩
              simp only [State.holdings, hactive, hnone, hqueue,
                Option.toList_none, Option.toList_some, List.nil_append,
                List.cons_append, Multiset.cons_coe]
          | .ok true =>
              obtain ⟨t, rfl, hperm, hnone', hsame'⟩ := switch_returns hnone hanswer
              refine ⟨hsame.trans hsame', fun u hu => ?_⟩
              cases hu
              refine ⟨?_, hnone'⟩
              simp only [State.holdings, hactive, hnone', Option.toList_none,
                List.nil_append, Multiset.cons_coe]
              exact Multiset.coe_eq_coe.mpr (hqueue ▸ hperm)

/-- Only wait queue `q` changes. -/
theorem queueUpdate {q : QueueId} {list : List ThreadId}
    (hwaiters : waiters params s' = Function.update (waiters params s) q list)
    (hqueue : s'.runQueue = s.runQueue) (hactive : s'.active = s.active)
    (hcount : s'.queueCount = s.queueCount) :
    (s.holdings params).QueueUpdate (s'.holdings params) q ↑list where
  waiters := by
    funext q'
    by_cases hq : q' = q
    · subst hq
      simp [State.holdings, hwaiters]
    · simp [State.holdings, hwaiters, hq]
  held := by simp only [State.holdings, hqueue, hactive]
  suspended := rfl
  queues := hcount
  slot := congrArg Option.isSome hactive

/-- Putting a list into a branching queue. -/
def withBranching (q : QueueId) (list : SortedList) (s : State) : State :=
  { s with branchingQueues := Function.update s.branchingQueues q list }

theorem withBranching_update {q : QueueId} {list : SortedList}
    (hwake : params.wakeOrder = true) (hWF : s.WF params)
    (hq : q < s.queueCount) :
    (withBranching q list s).WF params ∧
      (s.holdings params).QueueUpdate
        ((withBranching q list s).holdings params) q ↑list := by
  have hwaiters : waiters params (withBranching q list s) =
      Function.update (waiters params s) q list := by
    funext q'
    simp only [waiters, hwake, if_true, withBranching]
    by_cases hq' : q' = q
    · subst hq'
      simp
    · simp [hq', waiters, hwake]
  refine ⟨⟨hWF.consistent, fun q' hq' => ?_⟩, queueUpdate hwaiters rfl rfl rfl⟩
  have hne : q' ≠ q := by
    rintro rfl
    exact absurd hq (Nat.not_lt.mpr hq')
  rw [hwaiters, Function.update_of_ne hne]
  exact hWF.unused q' hq'

theorem withFifo_update {q : QueueId} {list : List ThreadId}
    {fifoQueues : IntrusiveLists QueueId ThreadId}
    (hwake : params.wakeOrder = false) (hWF : s.WF params)
    (hq : q < s.queueCount) (hconsistent : fifoQueues.Consistent)
    (hlists : fifoQueues.lists = Function.update s.fifoQueues.lists q list) :
    ({ s with fifoQueues } : State).WF params ∧
      (s.holdings params).QueueUpdate
        (({ s with fifoQueues } : State).holdings params) q ↑list := by
  have hwaiters : waiters params { s with fifoQueues } =
      Function.update (waiters params s) q list := by
    funext q'
    simp only [waiters, hwake, Bool.false_eq_true, if_false, hlists]
    by_cases hq' : q' = q
    · subst hq'
      simp
    · simp [hq', waiters, hwake]
  refine ⟨⟨hconsistent, fun q' hq' => ?_⟩, queueUpdate hwaiters rfl rfl rfl⟩
  have hne : q' ≠ q := by
    rintro rfl
    exact absurd hq (Nat.not_lt.mpr hq')
  rw [hwaiters, Function.update_of_ne hne]
  exact hWF.unused q' hq'

theorem waiters_fifo (hwake : params.wakeOrder = false) (s : State) (q : QueueId) :
    waiters params s q = s.fifoQueues.lists q := by
  simp only [waiters, hwake, Bool.false_eq_true, if_false]

theorem waiters_branching (hwake : params.wakeOrder = true) (s : State)
    (q : QueueId) : waiters params s q = s.branchingQueues q := by
  simp only [waiters, hwake, if_true]

theorem queuePush_update {q : QueueId} (hWF : s.WF params)
    (hlacks : (s.holdings params).Lacks t) (hq : q < s.queueCount)
    (h : queuePush params q t s = .ok s') :
    s'.WF params ∧ (s.holdings params).QueueUpdate (s'.holdings params) q
      (t ::ₘ (s.holdings params).waiters q) := by
  unfold queuePush at h
  have hcoe : ∀ list : List ThreadId, list.Perm (t :: waiters params s q) →
      t ::ₘ (s.holdings params).waiters q = ↑list :=
    fun list hperm => (Multiset.coe_eq_coe.mpr hperm).symm
  cases hwake : params.wakeOrder with
  | true =>
      simp only [hwake, if_true] at h
      cases h
      rw [hcoe ((s.branchingQueues q).push t) (by
        rw [waiters_branching hwake]
        exact SortedList.push_perm _ t)]
      exact withBranching_update hwake hWF hq
  | false =>
      have hunlinked : s.fifoQueues.isLinked t = false := by
        rw [IntrusiveLists.isLinked_eq_false_iff hWF.consistent]
        intro q'
        simpa [State.holdings, waiters_fifo hwake] using hlacks.2 q'
      simp only [hwake, Bool.false_eq_true, if_false,
        IntrusiveLists.pushBack_eq hunlinked] at h
      cases h
      have hperm := List.perm_append_singleton t (s.fifoQueues.lists q)
      rw [hcoe (s.fifoQueues.lists q ++ [t]) (by
        rw [waiters_fifo hwake]
        exact hperm)]
      exact withFifo_update hwake hWF hq
        (IntrusiveLists.link_consistent hWF.consistent q hunlinked hperm) rfl

/-- A branching queue that hands out one of its threads, or none. -/
theorem setBranching_pops {q : QueueId} {r : Option ThreadId}
    {popped : Option ThreadId × SortedList} (hwake : params.wakeOrder = true)
    (hWF : s.WF params) (hq : q < s.queueCount)
    (hpopped : (popped.1 = none ∧ popped.2 = s.branchingQueues q) ∨
      ∃ t, popped.1 = some t ∧ (s.branchingQueues q).Perm (t :: popped.2))
    (h : (r, s') = setBranching q s popped) :
    s'.WF params ∧ (s.holdings params).Pops q r (s'.holdings params) := by
  cases h
  obtain ⟨hWF', hupdate⟩ :=
    @withBranching_update params s q popped.2 hwake hWF hq
  refine ⟨hWF', ?_⟩
  obtain ⟨hnone, hrest⟩ | ⟨t, hsome, hperm⟩ := hpopped
  · simp only [hnone, hrest, Function.update_eq_self, Holdings.Pops]
  · rw [hsome]
    refine ⟨↑popped.2, ?_, hupdate⟩
    simp only [State.holdings, waiters_branching hwake, Multiset.cons_coe]
    exact Multiset.coe_eq_coe.mpr hperm

theorem setFifo_pops {q : QueueId} {r : Option ThreadId}
    (hwake : params.wakeOrder = false) (hWF : s.WF params)
    (hq : q < s.queueCount)
    (h : (r, s') = setFifo s (s.fifoQueues.popFront q)) :
    s'.WF params ∧ (s.holdings params).Pops q r (s'.holdings params) := by
  cases h
  obtain ⟨_, hnone⟩ | ⟨t, rest, hlist, hsome, hlists⟩ :=
    IntrusiveLists.popFront_cases hWF.consistent q
  · rw [hnone]
    exact ⟨hWF, rfl⟩
  · rw [hsome]
    obtain ⟨hWF', hupdate⟩ := withFifo_update hwake hWF hq
      (IntrusiveLists.unlink_consistent hWF.consistent t) hlists
    refine ⟨hWF', ↑rest, ?_, hupdate⟩
    simp only [State.holdings, waiters_fifo hwake, hlist, Multiset.cons_coe]

theorem queuePop_returns {q : QueueId} {r : Option ThreadId}
    (hWF : s.WF params) (hq : q < s.queueCount)
    (h : (queuePop params q s).Returns (r, s')) :
    s'.WF params ∧ (s.holdings params).Pops q r (s'.holdings params) := by
  unfold queuePop at h
  cases hwake : params.wakeOrder with
  | true =>
      simp only [hwake, if_true] at h
      obtain ⟨popped, hpick, hret⟩ := returns_bind.mp h
      exact setBranching_pops hwake hWF hq (pick_returns hpick) hret
  | false =>
      simp only [hwake, Bool.false_eq_true, if_false] at h
      exact setFifo_pops hwake hWF hq h

theorem queuePopAll_pops {q : QueueId} {r : Option ThreadId}
    (hWF : s.WF params) (hq : q < s.queueCount)
    (h : queuePopAll params q s = (r, s')) :
    s'.WF params ∧ (s.holdings params).Pops q r (s'.holdings params) := by
  unfold queuePopAll at h
  cases hwake : params.wakeOrder with
  | true =>
      simp only [hwake, if_true] at h
      refine setBranching_pops hwake hWF hq ?_ h.symm
      by_cases hempty : s.branchingQueues q = []
      · simp [SortedList.popLast, hempty]
      · exact Or.inr (SortedList.popLast_perm hempty)
  | false =>
      simp only [hwake, Bool.false_eq_true, if_false] at h
      exact setFifo_pops hwake hWF hq h.symm

theorem queueRemove_removes {q : QueueId} {r : Bool} (hWF : s.WF params)
    (ht : t ∈ (s.holdings params).waiters q) (hq : q < s.queueCount)
    (h : queueRemove params q t s = (r, s')) :
    s'.WF params ∧ r = true ∧
      (s.holdings params).QueueUpdate (s'.holdings params) q
        (((s.holdings params).waiters q).erase t) := by
  have hmem : t ∈ waiters params s q := Multiset.mem_coe.mp ht
  have hcoe : ((s.holdings params).waiters q).erase t =
      ↑((waiters params s q).erase t) := Multiset.coe_erase _ _
  rw [hcoe]
  unfold queueRemove at h
  cases hwake : params.wakeOrder with
  | true =>
      rw [waiters_branching hwake] at hmem ⊢
      simp only [hwake, if_true, SortedList.remove] at h
      cases h
      obtain ⟨hWF', hupdate⟩ := @withBranching_update params s q
        ((s.branchingQueues q).erase t) hwake hWF hq
      exact ⟨hWF', List.elem_iff.mpr hmem, hupdate⟩
  | false =>
      rw [waiters_fifo hwake] at hmem ⊢
      have hhome := (hWF.consistent.mem_iff q t).mp hmem
      have hremove : s.fifoQueues.remove t = (true, s.fifoQueues.unlink t) := by
        simp [IntrusiveLists.remove, IntrusiveLists.isLinked, hhome]
      simp only [hwake, Bool.false_eq_true, if_false, hremove] at h
      cases h
      obtain ⟨hWF', hupdate⟩ := withFifo_update hwake hWF hq
        (IntrusiveLists.unlink_consistent hWF.consistent t)
        (show (s.fifoQueues.unlink t).lists = Function.update _ q
            ((s.fifoQueues.lists q).erase t) by
          simp only [IntrusiveLists.unlink, hhome])
      exact ⟨hWF', rfl, hupdate⟩

theorem queueIsEmpty_iff {q : QueueId} :
    queueIsEmpty params q s = true ↔ (s.holdings params).waiters q = 0 := by
  simp only [State.holdings, Multiset.coe_eq_zero]
  cases hwake : params.wakeOrder with
  | true =>
      simp only [queueIsEmpty, waiters_branching hwake, hwake, if_true,
        List.isEmpty_iff]
  | false =>
      simp only [queueIsEmpty, waiters_fifo hwake, hwake, Bool.false_eq_true,
        if_false, IntrusiveLists.isEmpty, List.isEmpty_iff]

theorem remove_forgets :
    (s.holdings params).Forgets
      (({ s with runQueue := (s.runQueue.remove t).2 } : State).holdings params)
      t := by
  have hle : (s.active.toList ++ s.runQueue.erase t).Sublist
      (s.active.toList ++ s.runQueue) := List.erase_sublist.append_left _
  refine ⟨fun u hu => ?_, fun _ _ => rfl, ⟨?_, le_refl _⟩, rfl, rfl⟩
  · simp only [State.holdings, SortedList.remove, Multiset.coe_count,
      List.count_append, List.count_erase_of_ne hu]
  · exact Multiset.coe_le.mpr hle.subperm

/-- What a method can answer: by the tree of its choices. -/
theorem runMethod_returns {α : Type} {m : Choosing (Except Panic (α × State))}
    {cursor : Cursor} {r : α} {s' : Scheduler}
    (h : runMethod m cursor = .ok (r, s')) : m.Returns (.ok (r, s'.state)) := by
  unfold runMethod at h
  split at h
  · cases h
  · cases h
  · rename_i hinterp
    cases h
    exact interp_returns hinterp

theorem method_spec {q : Query} {r : q.Reply} (hWF : s.WF params)
    (hpre : (s.holdings params).pre (view, q)) (hstart : q ≠ .start)
    (husable : Call.usable (view, q) r = true)
    (h : (method params (view, q) s).Returns (.ok (r, s'))) :
    s'.WF params ∧
      (s.holdings params).post (view, q) r (s'.holdings params) := by
  cases q with
  | start => exact absurd rfl hstart
  | interrupt t =>
      cases h
      have hnone : s.active = none := by
        simpa [State.holdings] using hpre.2
      refine ⟨⟨hWF.consistent, hWF.unused⟩, ?_, rfl, rfl⟩
      simp only [owned_eq, hnone, Option.toList_some, Option.toList_none,
        List.nil_append, List.cons_append, Multiset.cons_coe]
  | switchTo t next => cases h
  | yield t =>
      cases h
      exact push_takes hWF
  | wake t =>
      cases h
      exact push_takes hWF
  | spawn t =>
      cases h
      exact push_takes hWF
  | exit t =>
      obtain ⟨hqueue, hactive, hsame⟩ := @addStep_same params (some t) s
      have hs' : s' = (addStep params (some t) s).2 :=
        congrArg Prod.snd (Except.ok.inj h)
      rw [← hs'] at hqueue hactive hsame
      refine ⟨hsame.wf hWF, ?_, hsame.same, congrArg Option.isSome hactive⟩
      rw [owned_eq, owned_eq, hqueue, hactive]
  | pickNext =>
      obtain ⟨hsame, hpicks⟩ := pickNext_returns h
      refine ⟨hsame.wf hWF, ?_⟩
      cases r with
      | error why => exact hsame.same
      | ok t =>
          obtain ⟨hheld, hnone⟩ := hpicks t rfl
          exact ⟨hheld, rfl, hsame.same, congrArg Option.isSome hnone, husable⟩
  | remove t =>
      cases h
      exact ⟨⟨hWF.consistent, hWF.unused⟩, remove_forgets⟩
  | queuePush q t =>
      cases hpush : queuePush params q t s with
      | error p =>
          simp only [method, hpush] at h
          cases h
      | ok s₁ =>
          simp only [method, hpush] at h
          cases h
          exact queuePush_update hWF hpre.1 hpre.2 hpush
  | queuePop q =>
      obtain ⟨⟨waiter, s₁⟩, hpop, hdone⟩ := returns_bind.mp h
      cases hdone
      exact queuePop_returns hWF hpre hpop
  | queuePopAll q =>
      cases h
      exact queuePopAll_pops hWF hpre rfl
  | queueRemove q t =>
      cases h
      exact queueRemove_removes hWF hpre.1 hpre.2 rfl
  | queueIsEmpty q =>
      cases h
      exact ⟨hWF, queueIsEmpty_iff, rfl⟩
  | isIdle =>
      cases h
      refine ⟨hWF, ?_, rfl⟩
      cases hactive : s.active with
      | none =>
          simp only [State.holdings, hactive, Option.isNone_none, Bool.and_true,
            Option.toList_none, List.nil_append, Multiset.coe_eq_zero]
          exact List.isEmpty_iff
      | some t => simp [State.holdings, hactive]
  | newWaitQueue =>
      cases h
      refine ⟨⟨hWF.consistent, fun q hq => hWF.unused q (Nat.le_of_succ_le hq)⟩,
        rfl, ?_, rfl⟩
      simp [State.holdings, hWF.unused s.queueCount (Nat.le_refl _)]
  | isSuspended t =>
      cases h
      exact ⟨hWF, by simp [State.holdings], rfl⟩
  | randomNumber => cases h
  | randomChoice alts =>
      obtain ⟨index, hdone⟩ := h
      cases hdone
      exact ⟨hWF, rfl⟩
  | spuriousWakeup =>
      simp only [method] at h
      split at h
      · obtain ⟨yes, -, hdone⟩ := returns_bind.mp h
        cases hdone
        exact ⟨hWF, rfl⟩
      · cases h
        exact ⟨hWF, rfl⟩
  | spuriousTryFailure =>
      simp only [method] at h
      split at h
      · obtain ⟨yes, -, hdone⟩ := returns_bind.mp h
        cases hdone
        exact ⟨hWF, rfl⟩
      · cases h
        exact ⟨hWF, rfl⟩
  | lockFree t flag =>
      cases h
      exact ⟨hWF, Holdings.Keeps.refl _⟩
  | progress t =>
      cases h
      exact ⟨hWF, Holdings.Keeps.refl _⟩
  | newIter =>
      cases h
      exact ⟨hWF, rfl⟩
  | isModelChecker =>
      cases h
      exact ⟨hWF, rfl⟩

theorem implements (params : Params) :
    Implements (scheduler params).answer (Scheduler.WF params)
      (Scheduler.holdings params) (schedulerSpec false) := by
  apply IScheduler.implements
  · intro ⟨view, q⟩ s r s' hWF _ hpre hexec husable
    by_cases hstart : q = .start
    · subst hstart
      cases hexec
      refine ⟨⟨IntrusiveLists.empty_consistent, fun q _ => ?_⟩, ?_⟩
      · cases hwake : params.wakeOrder <;> simp [waiters, hwake, start,
          State.fresh, IntrusiveLists.empty]
      · cases hwake : params.wakeOrder <;> simp [Holdings.post,
          Scheduler.holdings, State.holdings, waiters, hwake, start, State.fresh,
          IntrusiveLists.empty, Holdings.empty]
    · have hmethod : runMethod (method params (view, q) s.state) s.cursor =
          .ok (r, s') := by
        cases q <;> first | exact hexec | exact absurd rfl hstart
      exact method_spec hWF hpre hstart husable (runMethod_returns hmethod)
  · intro ⟨view, q⟩ s p hWF _ hpre hexec
    cases q <;> trivial

end Dfs

end TwistSim
