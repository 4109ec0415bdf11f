/-
The cooperative scheduler.  Its run queue and its wait queues are intrusive
lists on the same links, so a thread is linked in one of them at most.
-/
import TwistSim.Holdings
import TwistSim.IntrusiveLists
import TwistSim.RandomNumbers

namespace TwistSim

namespace Coop

structure Params where
  seed : UInt64
  deriving DecidableEq, Repr

/-- List `none` is the run queue, the others are the wait queues. -/
structure State where
  lists : IntrusiveLists (Option QueueId) ThreadId
  queueCount : Nat
  next : Option ThreadId
  random : WyRand

def State.new (params : Params) : State := ⟨IntrusiveLists.empty, 0, none, params.seed⟩

def State.withLists (s : State)
    (lists : Except Panic (IntrusiveLists (Option QueueId) ThreadId)) :
    Except Panic (Unit × State) :=
  lists.map fun lists => ((), { s with lists })

def pushBack (s : State) (t : ThreadId) : Except Panic (Unit × State) :=
  s.withLists (s.lists.pushBack none t)

/-- `Start`; `random_` is not seeded again. -/
def start (s : State) : Except Panic (Unit × State) :=
  if s.lists.isEmpty none then
    .ok ((), { s with lists := IntrusiveLists.empty, queueCount := 0, next := none })
  else .error (.verify "Inconsistent state")

def pickNext (s : State) : Except Panic (Except String ThreadId × State) :=
  match s.next with
  | some id =>
      if (s.lists.lists none).elem id then
        .ok (.ok id, { s with next := none, lists := s.lists.unlink id })
      else .error (.unreachable "Cannot find target thread for SwitchTo")
  | none =>
      match s.lists.popFront none with
      | (some t, lists) => .ok (.ok t, { s with lists })
      | (none, _) => .error (.undefined "null thread")

def nextRandom (s : State) : Nat × State :=
  ((WyRand.next s.random).1, { s with random := (WyRand.next s.random).2 })

/-- `coop::Scheduler`. -/
def scheduler : IScheduler State where
  nextSchedule s := (false, s)
  exec
    | (_, .start), s => start s
    | (_, .interrupt t), s => s.withLists (s.lists.pushFront none t)
    | (_, .switchTo t next), s =>
        (pushBack s t).map fun (_, s) => ((), { s with next := some next })
    | (_, .yield t), s | (_, .wake t), s | (_, .spawn t), s => pushBack s t
    | (_, .exit _), s => .ok (.ok (), s)
    | (_, .lockFree _ _), s | (_, .progress _), s | (_, .newIter), s => .ok ((), s)
    | (_, .isIdle), s => .ok (s.lists.isEmpty none, s)
    | (_, .pickNext), s => pickNext s
    | (_, .remove t), s => .ok ((), { s with lists := (s.lists.remove t).2 })
    | (_, .newWaitQueue), s =>
        .ok (s.queueCount, { s with queueCount := s.queueCount + 1 })
    | (_, .queueIsEmpty q), s => .ok (s.lists.isEmpty (some q), s)
    | (_, .queuePush q t), s => s.withLists (s.lists.pushBack (some q) t)
    | (_, .queuePop q), s | (_, .queuePopAll q), s =>
        let (waiter, lists) := s.lists.popFront (some q)
        .ok (waiter, { s with lists })
    | (_, .queueRemove _ t), s =>
        let (removed, lists) := s.lists.remove t
        .ok (removed, { s with lists })
    | (_, .randomNumber), s => .ok (nextRandom s)
    | (_, .randomChoice alts), s =>
        .ok ((nextRandom s).1 % alts, (nextRandom s).2)
    | (_, .spuriousWakeup), s | (_, .spuriousTryFailure), s => .ok (false, s)
    | (_, .isModelChecker), s => .ok (false, s)
    | (_, .isSuspended _), s => .ok (false, s)

/-! ### What the scheduler holds -/

def State.holdings (s : State) : Holdings where
  held := ↑(s.lists.lists none)
  suspended := 0
  waiters q := ↑(s.lists.lists (some q))
  queues := s.queueCount
  slot := false

structure State.WF (s : State) : Prop where
  consistent : s.lists.Consistent
  unused : ∀ q, s.queueCount ≤ q → s.lists.lists (some q) = []

variable {s s' : State} {t : ThreadId}

theorem isLinked_of_lacks (hWF : s.WF) (h : s.holdings.Lacks t) :
    s.lists.isLinked t = false := by
  rw [IntrusiveLists.isLinked_eq_false_iff hWF.consistent]
  obtain ⟨howned, hwaiters⟩ := h
  intro k
  cases k with
  | none => simpa [Holdings.owned, State.holdings] using howned
  | some q => simpa [State.holdings] using hwaiters q

/-- Linking a thread into the run queue. -/
theorem takes_link {list : List ThreadId} (hWF : s.WF)
    (h : s.holdings.Lacks t) (hperm : list.Perm (t :: s.lists.lists none))
    (hlists : s'.lists = s.lists.link none t list)
    (hcount : s'.queueCount = s.queueCount) :
    s'.WF ∧ s.holdings.Takes s'.holdings t := by
  have hwaiters : ∀ q, s'.lists.lists (some q) = s.lists.lists (some q) := by
    intro q
    simp [hlists, IntrusiveLists.link]
  refine ⟨⟨?_, fun q hq => ?_⟩, ?_, ?_, hcount⟩
  · rw [hlists]
    exact IntrusiveLists.link_consistent hWF.consistent none
      (isLinked_of_lacks hWF h) hperm
  · rw [hwaiters]
    exact hWF.unused q (hcount ▸ hq)
  · simp only [Holdings.owned, State.holdings, hlists, IntrusiveLists.link,
      Function.update_self, Multiset.add_zero, Multiset.cons_coe]
    exact Multiset.coe_eq_coe.mpr hperm
  · funext q
    simp only [State.holdings, hwaiters]

theorem pushBack_takes {r : Unit} (hWF : s.WF) (h : s.holdings.Lacks t)
    (hpush : pushBack s t = .ok (r, s')) :
    s'.WF ∧ s.holdings.Takes s'.holdings t ∧ s'.holdings.slot = s.holdings.slot := by
  rw [pushBack, IntrusiveLists.pushBack_eq (isLinked_of_lacks hWF h)] at hpush
  cases hpush
  have hperm := List.perm_append_singleton t (s.lists.lists none)
  exact and_assoc.mp ⟨takes_link hWF h hperm rfl rfl, rfl⟩

/-- Unlinking a thread from wherever it is. -/
theorem unlink_wf (hWF : s.WF) (hlists : s'.lists = s.lists.unlink t)
    (hcount : s'.queueCount = s.queueCount) : s'.WF := by
  refine ⟨hlists ▸ IntrusiveLists.unlink_consistent hWF.consistent t, fun q hq => ?_⟩
  rw [hlists, IntrusiveLists.unlink_lists hWF.consistent,
    hWF.unused q (hcount ▸ hq)]
  rfl

/-- A thread that is picked was in the run queue, so it is in no wait queue. -/
theorem picks_unlink (hWF : s.WF) (ht : t ∈ s.lists.lists none)
    (hlists : s'.lists = s.lists.unlink t)
    (hcount : s'.queueCount = s.queueCount) :
    s.holdings.held = t ::ₘ s'.holdings.held ∧
      s.holdings.SameQueues s'.holdings := by
  have hhome := (hWF.consistent.mem_iff none t).mp ht
  refine ⟨?_, ?_, hcount⟩
  · simp only [State.holdings, hlists, IntrusiveLists.unlink_lists hWF.consistent,
      Multiset.cons_coe]
    exact Multiset.coe_eq_coe.mpr (List.perm_cons_erase ht)
  · funext q
    have hnot : t ∉ s.lists.lists (some q) := by
      rw [hWF.consistent.mem_iff, hhome]
      simp
    simp only [State.holdings, hlists, IntrusiveLists.unlink_lists hWF.consistent,
      List.erase_of_not_mem hnot]

theorem pickNext_picks {r : Except String ThreadId} (hWF : s.WF)
    (hpick : pickNext s = .ok (r, s')) :
    ∃ t, r = .ok t ∧ s'.WF ∧ s.holdings.held = t ::ₘ s'.holdings.held ∧
      s.holdings.SameQueues s'.holdings := by
  unfold pickNext at hpick
  cases hnext : s.next with
  | some id =>
      rw [hnext] at hpick
      by_cases hmem : id ∈ s.lists.lists none
      · simp only [List.elem_eq_mem, hmem, decide_true, if_true] at hpick
        cases hpick
        exact ⟨id, rfl, unlink_wf hWF rfl rfl, picks_unlink hWF hmem rfl rfl⟩
      · simp [hmem] at hpick
  | none =>
      rw [hnext] at hpick
      obtain ⟨_, hpop⟩ | ⟨t, rest, hlist, hpop, _⟩ :=
        IntrusiveLists.popFront_cases hWF.consistent (none : Option QueueId)
      · rw [hpop] at hpick
        cases hpick
      · rw [hpop] at hpick
        cases hpick
        have hmem : t ∈ s.lists.lists none := by
          rw [hlist]
          exact List.mem_cons_self
        exact ⟨t, rfl, unlink_wf hWF rfl rfl, picks_unlink hWF hmem rfl rfl⟩

/-- Removal unlinks the thread from any list it is in. -/
theorem remove_lists (l : IntrusiveLists (Option QueueId) ThreadId) (t : ThreadId) :
    (l.remove t).2 = l.unlink t := by
  unfold IntrusiveLists.remove
  by_cases hlinked : l.isLinked t = true
  · simp [hlinked]
  · have hnone : l.home t = none := by
      simpa [IntrusiveLists.isLinked] using hlinked
    simp [hlinked, IntrusiveLists.unlink, hnone]

theorem unlink_forgets (hWF : s.WF) (hallowed : ∀ q, t ∉ s.holdings.waiters q)
    (hlists : s'.lists = s.lists.unlink t)
    (hcount : s'.queueCount = s.queueCount) :
    s.holdings.Forgets s'.holdings t := by
  have hheld : s'.holdings.held = s.holdings.held.erase t := by
    simp only [State.holdings, hlists, IntrusiveLists.unlink_lists hWF.consistent,
      Multiset.coe_erase]
  refine ⟨fun u hu => ?_, fun _ _ => rfl, ⟨?_, le_refl _⟩, ?_, hcount⟩
  · rw [hheld, Multiset.count_erase_of_ne hu]
  · rw [hheld]
    exact Multiset.erase_le t _
  · funext q
    have hnot : t ∉ s.lists.lists (some q) := by
      simpa [State.holdings] using hallowed q
    simp only [State.holdings, hlists, IntrusiveLists.unlink_lists hWF.consistent,
      List.erase_of_not_mem hnot]

/-- Only wait queue `q` changes. -/
theorem queueUpdate {q : QueueId} {list : List ThreadId}
    (hlists : s'.lists.lists = Function.update s.lists.lists (some q) list)
    (hcount : s'.queueCount = s.queueCount) :
    s.holdings.QueueUpdate s'.holdings q ↑list where
  waiters := by
    funext q'
    by_cases hq : q' = q
    · subst hq
      simp [State.holdings, hlists]
    · simp [State.holdings, hlists, hq]
  held := by simp [State.holdings, hlists]
  suspended := rfl
  queues := hcount
  slot := rfl

theorem queuePop_pops {q : QueueId} {r : Option ThreadId}
    {lists : IntrusiveLists (Option QueueId) ThreadId} (hWF : s.WF)
    (hpop : s.lists.popFront (some q) = (r, lists)) :
    ({ s with lists } : State).WF ∧
      s.holdings.Pops q r ({ s with lists } : State).holdings := by
  obtain ⟨_, hnone⟩ | ⟨t, rest, hlist, hsome, hlists⟩ :=
    IntrusiveLists.popFront_cases hWF.consistent (some q)
  · rw [hnone] at hpop
    cases hpop
    exact ⟨hWF, rfl⟩
  · rw [hsome] at hpop
    cases hpop
    refine ⟨unlink_wf hWF rfl rfl, ↑rest, ?_, queueUpdate hlists rfl⟩
    simp [State.holdings, hlist]

theorem queueRemove_removes {q : QueueId} (hWF : s.WF)
    (ht : t ∈ s.holdings.waiters q) :
    (s.lists.remove t).1 = true ∧
      s.holdings.QueueUpdate
        ({ s with lists := s.lists.unlink t } : State).holdings q
        ((s.holdings.waiters q).erase t) := by
  have hmem : t ∈ s.lists.lists (some q) := by
    simpa [State.holdings] using ht
  have hhome := (hWF.consistent.mem_iff (some q) t).mp hmem
  constructor
  · simp [IntrusiveLists.remove, IntrusiveLists.isLinked, hhome]
  · exact queueUpdate (by simp only [IntrusiveLists.unlink, hhome]) rfl

/-- Random numbers are not part of the holdings. -/
theorem reseeded (hWF : s.WF) (random : WyRand) :
    ({ s with random } : State).WF ∧
      ({ s with random } : State).holdings = s.holdings :=
  ⟨⟨hWF.consistent, hWF.unused⟩, rfl⟩

theorem isEmpty_iff (k : Option QueueId) :
    s.lists.isEmpty k = true ↔ (↑(s.lists.lists k) : Multiset ThreadId) = 0 := by
  rw [IntrusiveLists.isEmpty, List.isEmpty_iff, Multiset.coe_eq_zero]

theorem implements :
    Interaction.Implements scheduler.answer State.WF State.holdings
      (schedulerSpec true) := by
  apply IScheduler.implements
  · rintro ⟨view, q⟩ s r s' hWF hallowed hpre hexec husable
    cases q with
    | start =>
        simp only [scheduler, start] at hexec
        split at hexec
        · cases hexec
          exact ⟨⟨IntrusiveLists.empty_consistent, fun _ _ => rfl⟩, rfl⟩
        · cases hexec
    | interrupt t =>
        simp only [scheduler, State.withLists,
          IntrusiveLists.pushFront_eq (isLinked_of_lacks hWF hpre.1)] at hexec
        cases hexec
        exact takes_link hWF hpre.1 (List.Perm.refl _) rfl rfl
    | switchTo t next =>
        obtain ⟨⟨_, pushed⟩, hpush, heq⟩ := map_eq_ok hexec
        cases heq
        obtain ⟨hWF', htakes, hslot⟩ := pushBack_takes hWF hpre hpush
        exact ⟨⟨hWF'.consistent, hWF'.unused⟩, htakes, hslot⟩
    | yield t => exact pushBack_takes hWF hpre hexec
    | wake t => exact pushBack_takes hWF hpre hexec
    | spawn t => exact pushBack_takes hWF hpre hexec
    | pickNext =>
        obtain ⟨t, rfl, hWF', hheld, hsame⟩ := pickNext_picks hWF hexec
        exact ⟨hWF', hheld, rfl, hsame, rfl, husable⟩
    | remove t =>
        cases hexec
        have hlists := remove_lists s.lists t
        exact ⟨unlink_wf hWF hlists rfl,
          unlink_forgets hWF (hallowed rfl) hlists rfl⟩
    | queuePush q t =>
        have hunlinked := isLinked_of_lacks hWF hpre.1
        simp only [scheduler, State.withLists,
          IntrusiveLists.pushBack_eq hunlinked] at hexec
        cases hexec
        have hperm := List.perm_append_singleton t (s.lists.lists (some q))
        refine ⟨⟨IntrusiveLists.link_consistent hWF.consistent _ hunlinked hperm,
          fun q' hq' => ?_⟩, ?_⟩
        · have hne : q' ≠ q := by
            rintro rfl
            exact absurd hpre.2 (Nat.not_lt.mpr hq')
          simpa [IntrusiveLists.link, hne] using hWF.unused q' hq'
        · have hcoe : t ::ₘ s.holdings.waiters q =
              ↑(s.lists.lists (some q) ++ [t]) :=
            (Multiset.coe_eq_coe.mpr hperm).symm
          rw [Holdings.post, hcoe]
          exact queueUpdate rfl rfl
    | queuePop q =>
        cases hexec
        exact queuePop_pops hWF rfl
    | queuePopAll q =>
        cases hexec
        exact queuePop_pops hWF rfl
    | queueRemove q t =>
        cases hexec
        obtain ⟨hremoved, hupdate⟩ := queueRemove_removes hWF hpre.1
        rw [← remove_lists] at hupdate
        exact ⟨unlink_wf hWF (remove_lists s.lists t) rfl, hremoved, hupdate⟩
    | queueIsEmpty q =>
        cases hexec
        exact ⟨hWF, isEmpty_iff _, rfl⟩
    | isIdle =>
        cases hexec
        exact ⟨hWF, isEmpty_iff _, rfl⟩
    | newWaitQueue =>
        cases hexec
        refine ⟨⟨hWF.consistent, fun q hq => hWF.unused q (Nat.le_of_succ_le hq)⟩,
          rfl, ?_, rfl⟩
        simp [State.holdings, hWF.unused s.queueCount (Nat.le_refl _)]
    | isSuspended t =>
        cases hexec
        exact ⟨hWF, by simp [State.holdings], rfl⟩
    | randomNumber =>
        have hs' : (nextRandom s).2 = s' := congrArg Prod.snd (Except.ok.inj hexec)
        subst hs'
        exact reseeded hWF _
    | randomChoice alts =>
        have hs' : (nextRandom s).2 = s' := congrArg Prod.snd (Except.ok.inj hexec)
        subst hs'
        exact reseeded hWF _
    | exit t =>
        cases hexec
        exact ⟨hWF, Holdings.Keeps.refl _⟩
    | lockFree t flag =>
        cases hexec
        exact ⟨hWF, Holdings.Keeps.refl _⟩
    | progress t =>
        cases hexec
        exact ⟨hWF, Holdings.Keeps.refl _⟩
    | newIter => cases hexec; exact ⟨hWF, rfl⟩
    | spuriousWakeup => cases hexec; exact ⟨hWF, rfl⟩
    | spuriousTryFailure => cases hexec; exact ⟨hWF, rfl⟩
    | isModelChecker => cases hexec; exact ⟨hWF, rfl⟩
  · rintro ⟨view, q⟩ s p _ _ _ hexec
    cases q <;> trivial

end Coop

end TwistSim
