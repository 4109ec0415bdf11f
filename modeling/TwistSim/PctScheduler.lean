/-
The scheduler of probabilistic concurrency testing: priorities, and points at
which the running thread falls below all others.
-/
import TwistSim.Holdings
import TwistSim.IntrusiveLists
import TwistSim.RandomNumbers
import Mathlib.Data.List.Sort

namespace TwistSim

namespace Pct

structure Estimates where
  threads : Nat
  steps : Nat
  deriving DecidableEq, Repr

structure Params where
  depth : Nat
  maxRuns : Option Nat := none
  deriving DecidableEq, Repr

/-- `PriorityValue` is an `int32_t`; counting down wraps around. -/
def decrement (p : Int) : Int := Int.bmod (p - 1) (2 ^ 32)

/-- `priority` of a thread is the field `f1` of its scheduling context.  The
constructor leaves `seed_` as it is. -/
structure State where
  seed : UInt64
  runs : Nat
  estimates : Estimates
  initPrior : List Int
  nextPrior : Int
  changePoints : List Nat
  nextChangePoint : Nat
  random : WyRand
  runQueue : List ThreadId
  active : Option ThreadId
  iter : Nat
  priority : ThreadId → Int
  waitLists : IntrusiveLists QueueId ThreadId
  queueCount : Nat

def State.new (seed : UInt64) : State where
  seed := seed
  runs := 0
  estimates := ⟨1, 7⟩
  initPrior := []
  nextPrior := 0
  changePoints := []
  nextChangePoint := 0
  random := 42
  runQueue := []
  active := none
  iter := 0
  priority _ := 0
  waitLists := IntrusiveLists.empty
  queueCount := 0

section Operations

variable (params : Params)

def nextSchedule (s : State) : Bool × State :=
  if params.maxRuns.any fun limit => limit ≤ s.runs + 1 then (false, s)
  else
    (true, { s with
      seed := hashCombine s.seed (UInt64.ofNat (s.runs + 1))
      runs := s.runs + 1 })

/-- The Fisher–Yates shuffle of positions `i`, `i - 1`, .., 2. -/
def shuffle : Nat → List Int → WyRand → List Int × WyRand
  | 0, prior, random => (prior, random)
  | 1, prior, random => (prior, random)
  | i + 1, prior, random =>
      let j := 1 + (WyRand.next random).1 % (i + 1)
      let swapped := (prior.set (i + 1) (prior.getD j 0)).set j (prior.getD (i + 1) 0)
      shuffle i swapped (WyRand.next random).2

/-- `GenerateInitPriorities`, 1-indexed. -/
def generateInitPriorities (n : Nat) (random : WyRand) : List Int × WyRand :=
  shuffle n ((List.range (n + 1)).map Int.ofNat) random

/-- The rejection loop of `GenerateChangePoints`, for at most `fuel` draws. -/
def drawChangePoints (length count : Nat) :
    Nat → List Nat → WyRand → Option (List Nat × WyRand)
  | 0, points, random =>
      if count ≤ points.length then some (points, random) else none
  | fuel + 1, points, random =>
      if count ≤ points.length then some (points, random)
      else
        let iter := 1 + (WyRand.next random).1 % length
        let points :=
          if points.elem iter then points else points.orderedInsert (· ≤ ·) iter
        drawChangePoints length count fuel points (WyRand.next random).2

/-- The guard value that ends the change points. -/
def noChangePoint : Nat := 2 ^ 64 - 1

/-- `Start`; `depth - 1` is computed in `size_t`. -/
def start (fuel : Nat) (s : State) : Except Panic State :=
  let (initPrior, random) := generateInitPriorities s.estimates.threads s.seed
  match drawChangePoints s.estimates.steps ((params.depth + noChangePoint) % 2 ^ 64)
      fuel [] random with
  | none => .error (.undefined "no more change points")
  | some (points, random) =>
      if s.runQueue.isEmpty then
        .ok { s with
          initPrior
          nextPrior := 0
          changePoints := points ++ [noChangePoint]
          nextChangePoint := 0
          iter := 0
          random
          active := none
          priority := fun _ => 0
          waitLists := IntrusiveLists.empty
          queueCount := 0 }
      else .error (.verify "Inconsistent state")

def enqueue (t : ThreadId) (s : State) : State :=
  { s with runQueue := s.runQueue ++ [t] }

/-- `SetPriority(t, NextPriority())`. -/
def demote (t : ThreadId) (s : State) : State :=
  { s with
    priority := Function.update s.priority t s.nextPrior
    nextPrior := decrement s.nextPrior }

def spawn (t : ThreadId) (s : State) : State :=
  match s.initPrior[t]? with
  | some p => enqueue t { s with priority := Function.update s.priority t p }
  | none =>
      enqueue t (demote t { s with
        estimates := { s.estimates with threads := max s.estimates.threads t } })

/-- The top of the priority queue.  Entries of equal priority are taken in the
order in which they were pushed. -/
def top (priority : ThreadId → Int) : List ThreadId → Option ThreadId
  | [] => none
  | first :: rest =>
      some (rest.foldl (fun best t =>
        if priority best < priority t then t else best) first)

theorem top_isSome {priority : ThreadId → Int} {queue : List ThreadId} (h : queue ≠ []) :
    ∃ t, top priority queue = some t := by
  cases queue with
  | nil => exact absurd rfl h
  | cons first rest => exact ⟨_, rfl⟩

def popMaxPriority (s : State) : Except Panic (Except String ThreadId × State) :=
  match top s.priority s.runQueue with
  | some t => .ok (.ok t, { s with runQueue := s.runQueue.erase t })
  | none => .error (.undefined "top of an empty queue")

/-- Skip the change points that are behind. -/
def skipChangePoints (s : State) : State :=
  { s with
    nextChangePoint := s.nextChangePoint +
      ((s.changePoints.drop s.nextChangePoint).takeWhile (· < s.iter)).length }

/-- `Preempt`, of a scheduler that has skipped the change points behind. -/
def preempt (view : KernelView) (active : ThreadId) (s : State) : Bool × State :=
  if !(view.attrs active).preemptive then (false, s)
  else
    let s := skipChangePoints s
    if s.changePoints[s.nextChangePoint]? = some s.iter then (true, demote active s)
    else
      match top s.priority s.runQueue with
      | none => (false, s)  -- Alone
      | some t => (decide (s.priority active < s.priority t), s)

def pickNext (view : KernelView) (s : State) :
    Except Panic (Except String ThreadId × State) :=
  let active := s.active
  let s :=
    { s with
      active := none
      iter := (s.iter + 1) % 2 ^ 64
      estimates :=
        { s.estimates with steps := max s.estimates.steps ((s.iter + 1) % 2 ^ 64) } }
  match active with
  | none => popMaxPriority s
  | some active =>
      match preempt view active s with
      | (false, s) => .ok (.ok active, s)
      | (true, s) => popMaxPriority (enqueue active s)

def randomNumber (s : State) : Nat × State :=
  ((WyRand.next s.random).1, { s with random := (WyRand.next s.random).2 })

end Operations

/-- `pct::Scheduler`; `RunQueue::Remove` does nothing. -/
def scheduler (params : Params) (fuel : Nat) : IScheduler State where
  nextSchedule := nextSchedule params
  exec
    | (_, .start), s => (start params fuel s).map fun s => ((), s)
    | (_, .interrupt t), s => .ok ((), { s with active := some t })
    | (_, .switchTo _ _), _ =>
        .error (.unreachable "SwitchTo not supported by PctScheduler")
    | (_, .yield t), s => .ok ((), enqueue t (demote t s))
    | (_, .wake t), s => .ok ((), enqueue t s)
    | (_, .spawn t), s => .ok ((), spawn t s)
    | (_, .exit _), s => .ok (.ok (), s)
    | (_, .lockFree _ _), s | (_, .progress _), s | (_, .newIter), s => .ok ((), s)
    | (_, .isIdle), s => .ok (s.runQueue.isEmpty && s.active.isNone, s)
    | (view, .pickNext), s => pickNext view s
    | (_, .remove _), s => .ok ((), s)
    | (_, .newWaitQueue), s =>
        .ok (s.queueCount, { s with queueCount := s.queueCount + 1 })
    | (_, .queueIsEmpty q), s => .ok (s.waitLists.isEmpty q, s)
    | (_, .queuePush q t), s =>
        (s.waitLists.pushBack q t).map fun waitLists => ((), { s with waitLists })
    | (_, .queuePop q), s | (_, .queuePopAll q), s =>
        let (waiter, waitLists) := s.waitLists.popFront q
        .ok (waiter, { s with waitLists })
    | (_, .queueRemove _ t), s =>
        let (removed, waitLists) := s.waitLists.remove t
        .ok (removed, { s with waitLists })
    | (_, .randomNumber), s => .ok (randomNumber s)
    | (_, .randomChoice alts), s =>
        .ok ((randomNumber s).1 % alts, (randomNumber s).2)
    | (_, .spuriousWakeup), s | (_, .spuriousTryFailure), s => .ok (false, s)
    | (_, .isModelChecker), s => .ok (false, s)
    | (_, .isSuspended _), s => .ok (false, s)

/-! ### What the scheduler holds -/

def State.holdings (s : State) : Holdings where
  held := ↑(s.active.toList ++ s.runQueue)
  suspended := 0
  waiters q := ↑(s.waitLists.lists q)
  queues := s.queueCount
  slot := s.active.isSome

structure State.WF (s : State) : Prop where
  consistent : s.waitLists.Consistent
  unused : ∀ q, s.queueCount ≤ q → s.waitLists.lists q = []

variable {params : Params} {fuel : Nat} {view : KernelView} {s s' : State}
  {t : ThreadId}

/-- Two states with the same wait queues. -/
def SameLists (s s' : State) : Prop :=
  s'.waitLists = s.waitLists ∧ s'.queueCount = s.queueCount

theorem SameLists.wf (h : SameLists s s') (hWF : s.WF) : s'.WF := by
  refine ⟨h.1 ▸ hWF.consistent, fun q hq => ?_⟩
  rw [h.1]
  exact hWF.unused q (h.2 ▸ hq)

theorem SameLists.same (h : SameLists s s') : s.holdings.SameQueues s'.holdings := by
  refine ⟨?_, h.2⟩
  simp only [State.holdings, h.1]

theorem owned_eq (s : State) :
    s.holdings.owned = ↑(s.active.toList ++ s.runQueue) := by
  simp only [Holdings.owned, State.holdings, Multiset.add_zero]

/-- Pushing into the run queue, after changes that no list sees. -/
theorem enqueue_takes {s₁ : State} (hqueue : s₁.runQueue = s.runQueue)
    (hactive : s₁.active = s.active) (hsame : SameLists s s₁) (hWF : s.WF) :
    (enqueue t s₁).WF ∧ s.holdings.Takes (enqueue t s₁).holdings t ∧
      (enqueue t s₁).holdings.slot = s.holdings.slot := by
  have hsame' : SameLists s (enqueue t s₁) := hsame
  refine ⟨hsame'.wf hWF, ⟨?_, hsame'.same⟩, congrArg Option.isSome hactive⟩
  rw [owned_eq, owned_eq, enqueue, hqueue, hactive, ← List.append_assoc,
    Multiset.cons_coe]
  exact Multiset.coe_eq_coe.mpr (List.perm_append_singleton t _)

theorem top_mem {priority : ThreadId → Int} {queue : List ThreadId}
    (h : top priority queue = some t) : t ∈ queue := by
  cases queue with
  | nil => cases h
  | cons first rest =>
      rw [top, Option.some.injEq] at h
      rw [← h]
      clear h
      induction rest generalizing first with
      | nil => simp
      | cons u rest ih =>
          rw [List.foldl_cons]
          split
          · exact List.mem_cons_of_mem _ (ih u)
          · obtain heq | hrest := List.mem_cons.mp (ih first)
            · rw [heq]
              exact List.mem_cons_self
            · exact List.mem_cons_of_mem _ (List.mem_cons_of_mem _ hrest)

theorem popMaxPriority_picks {r : Except String ThreadId}
    (h : popMaxPriority s = .ok (r, s')) :
    ∃ t, r = .ok t ∧ s.runQueue.Perm (t :: s'.runQueue) ∧
      s'.active = s.active ∧ SameLists s s' := by
  unfold popMaxPriority at h
  split at h
  · rename_i t htop
    cases h
    exact ⟨t, rfl, List.perm_cons_erase (top_mem htop), rfl, rfl, rfl⟩
  · cases h

/-- `Preempt` leaves the threads where they are. -/
theorem preempt_same {active : ThreadId} {answer : Bool}
    (h : preempt view active s = (answer, s')) :
    s'.runQueue = s.runQueue ∧ s'.active = s.active ∧ SameLists s s' := by
  have hskip : (skipChangePoints s).runQueue = s.runQueue ∧
      (skipChangePoints s).active = s.active ∧ SameLists s (skipChangePoints s) :=
    ⟨rfl, rfl, rfl, rfl⟩
  unfold preempt at h
  split at h
  · cases h
    exact ⟨rfl, rfl, rfl, rfl⟩
  · dsimp only at h
    split at h
    · cases h
      exact hskip
    · split at h
      · cases h
        exact hskip
      · cases h
        exact hskip

theorem pickNext_picks {r : Except String ThreadId}
    (h : pickNext view s = .ok (r, s')) :
    ∃ t, r = .ok t ∧ s.holdings.held = t ::ₘ s'.holdings.held ∧
      s'.active = none ∧ SameLists s s' := by
  unfold pickNext at h
  cases hactive : s.active with
  | none =>
      simp only [hactive] at h
      obtain ⟨t, rfl, hperm, hnone, hsame⟩ := popMaxPriority_picks h
      refine ⟨t, rfl, ?_, hnone, hsame⟩
      simp only [State.holdings, hactive, hnone, Option.toList_none,
        List.nil_append, Multiset.cons_coe]
      exact Multiset.coe_eq_coe.mpr hperm
  | some active =>
      simp only [hactive] at h
      split at h
      · rename_i s₁ hpreempt
        obtain ⟨hqueue, hnone, hsame⟩ := preempt_same hpreempt
        cases h
        refine ⟨active, rfl, ?_, hnone, hsame⟩
        simp only [State.holdings, hactive, hnone, hqueue, Option.toList_none,
          Option.toList_some, List.nil_append, List.cons_append, Multiset.cons_coe]
      · rename_i s₁ hpreempt
        obtain ⟨hqueue, hnone, hsame⟩ := preempt_same hpreempt
        obtain ⟨t, rfl, hperm, hnone', hsame'⟩ := popMaxPriority_picks h
        refine ⟨t, rfl, ?_, hnone'.trans hnone,
          hsame'.1.trans hsame.1, hsame'.2.trans hsame.2⟩
        have hactive' : s'.active = none := hnone'.trans hnone
        rw [enqueue, hqueue] at hperm
        simp only [State.holdings, hactive, hactive', Option.toList_none,
          Option.toList_some, List.nil_append, List.cons_append, Multiset.cons_coe]
        exact Multiset.coe_eq_coe.mpr
          ((List.perm_append_singleton active s.runQueue).symm.trans hperm)

/-- Only wait queue `q` changes. -/
theorem queueUpdate {q : QueueId} {list : List ThreadId}
    {waitLists : IntrusiveLists QueueId ThreadId}
    (hlists : waitLists.lists = Function.update s.waitLists.lists q list) :
    s.holdings.QueueUpdate ({ s with waitLists } : State).holdings q ↑list where
  waiters := by
    funext q'
    by_cases hq : q' = q
    · subst hq
      simp [State.holdings, hlists]
    · simp [State.holdings, hlists, hq]
  held := rfl
  suspended := rfl
  queues := rfl
  slot := rfl

theorem isLinked_of_lacks (hWF : s.WF) (h : s.holdings.Lacks t) :
    s.waitLists.isLinked t = false := by
  rw [IntrusiveLists.isLinked_eq_false_iff hWF.consistent]
  intro q
  simpa [State.holdings] using h.2 q

theorem unlink_wf (hWF : s.WF) (t : ThreadId) :
    ({ s with waitLists := s.waitLists.unlink t } : State).WF where
  consistent := IntrusiveLists.unlink_consistent hWF.consistent t
  unused q hq := by
    rw [IntrusiveLists.unlink_lists hWF.consistent, hWF.unused q hq]
    rfl

theorem queuePop_pops {q : QueueId} {r : Option ThreadId}
    {waitLists : IntrusiveLists QueueId ThreadId} (hWF : s.WF)
    (hpop : s.waitLists.popFront q = (r, waitLists)) :
    ({ s with waitLists } : State).WF ∧
      s.holdings.Pops q r ({ s with waitLists } : State).holdings := by
  obtain ⟨_, hnone⟩ | ⟨t, rest, hlist, hsome, hlists⟩ :=
    IntrusiveLists.popFront_cases hWF.consistent q
  · rw [hnone] at hpop
    cases hpop
    exact ⟨hWF, rfl⟩
  · rw [hsome] at hpop
    cases hpop
    refine ⟨unlink_wf hWF t, ↑rest, ?_, queueUpdate hlists⟩
    simp [State.holdings, hlist]

theorem queueRemove_removes {q : QueueId} (hWF : s.WF)
    (ht : t ∈ s.holdings.waiters q) :
    s.waitLists.remove t = (true, s.waitLists.unlink t) ∧
      s.holdings.QueueUpdate
        ({ s with waitLists := s.waitLists.unlink t } : State).holdings q
        ((s.holdings.waiters q).erase t) := by
  have hmem : t ∈ s.waitLists.lists q := by
    simpa [State.holdings] using ht
  have hhome := (hWF.consistent.mem_iff q t).mp hmem
  constructor
  · simp [IntrusiveLists.remove, IntrusiveLists.isLinked, hhome]
  · exact queueUpdate (by simp only [IntrusiveLists.unlink, hhome])

theorem start_fresh (h : start params fuel s = .ok s') :
    s'.WF ∧ s'.holdings = Holdings.empty := by
  unfold start at h
  dsimp only at h
  split at h
  · cases h
  · split at h
    · rename_i hempty
      cases h
      refine ⟨⟨IntrusiveLists.empty_consistent, fun _ _ => rfl⟩, ?_⟩
      simp only [State.holdings, List.isEmpty_iff.mp hempty]
      rfl
    · cases h

theorem spawn_takes (hWF : s.WF) :
    (spawn t s).WF ∧ s.holdings.Takes (spawn t s).holdings t ∧
      (spawn t s).holdings.slot = s.holdings.slot := by
  unfold spawn
  split
  · exact enqueue_takes rfl rfl ⟨rfl, rfl⟩ hWF
  · exact enqueue_takes rfl rfl ⟨rfl, rfl⟩ hWF

/-- Random numbers are not part of the holdings. -/
theorem reseeded (hWF : s.WF) (random : WyRand) :
    ({ s with random } : State).WF ∧
      ({ s with random } : State).holdings = s.holdings :=
  ⟨⟨hWF.consistent, hWF.unused⟩, rfl⟩

theorem implements (params : Params) (fuel : Nat) :
    Interaction.Implements (scheduler params fuel).answer State.WF State.holdings
      (schedulerSpec false) := by
  apply IScheduler.implements
  · intro ⟨view, q⟩ s r s' hWF _ hpre hexec husable
    cases q with
    | start =>
        obtain ⟨s₁, hstart, heq⟩ := map_eq_ok hexec
        cases heq
        exact start_fresh hstart
    | interrupt t =>
        cases hexec
        have hnone : s.active = none := by
          simpa [State.holdings] using hpre.2
        refine ⟨⟨hWF.consistent, hWF.unused⟩, ?_, rfl, rfl⟩
        simp only [owned_eq, hnone, Option.toList_some, Option.toList_none,
          List.nil_append, List.cons_append, Multiset.cons_coe]
    | switchTo t next => cases hexec
    | yield t =>
        cases hexec
        exact enqueue_takes rfl rfl ⟨rfl, rfl⟩ hWF
    | wake t =>
        cases hexec
        exact enqueue_takes rfl rfl ⟨rfl, rfl⟩ hWF
    | spawn t =>
        cases hexec
        exact spawn_takes hWF
    | pickNext =>
        obtain ⟨t, rfl, hheld, hnone, hsame⟩ := pickNext_picks hexec
        exact ⟨hsame.wf hWF, hheld, rfl, hsame.same,
          congrArg Option.isSome hnone, husable⟩
    | remove t =>
        cases hexec
        exact ⟨hWF, fun _ _ => rfl, fun _ _ => rfl, ⟨le_refl _, le_refl _⟩, rfl, rfl⟩
    | queuePush q t =>
        have hunlinked := isLinked_of_lacks hWF hpre.1
        simp only [scheduler, IntrusiveLists.pushBack_eq hunlinked] at hexec
        cases hexec
        have hperm := List.perm_append_singleton t (s.waitLists.lists q)
        refine ⟨⟨IntrusiveLists.link_consistent hWF.consistent _ hunlinked hperm,
          fun q' hq' => ?_⟩, ?_⟩
        · have hne : q' ≠ q := by
            rintro rfl
            exact absurd hpre.2 (Nat.not_lt.mpr hq')
          simpa [IntrusiveLists.link, hne] using hWF.unused q' hq'
        · have hcoe : t ::ₘ s.holdings.waiters q =
              ↑(s.waitLists.lists q ++ [t]) :=
            (Multiset.coe_eq_coe.mpr hperm).symm
          rw [Holdings.post, hcoe]
          exact queueUpdate rfl
    | queuePop q =>
        cases hexec
        exact queuePop_pops hWF rfl
    | queuePopAll q =>
        cases hexec
        exact queuePop_pops hWF rfl
    | queueRemove q t =>
        obtain ⟨hremoved, hupdate⟩ := queueRemove_removes hWF hpre.1
        simp only [scheduler, hremoved] at hexec
        cases hexec
        exact ⟨unlink_wf hWF t, rfl, hupdate⟩
    | queueIsEmpty q =>
        cases hexec
        refine ⟨hWF, ?_, rfl⟩
        rw [IntrusiveLists.isEmpty, List.isEmpty_iff]
        exact (Multiset.coe_eq_zero _).symm
    | isIdle =>
        cases hexec
        refine ⟨hWF, ?_, rfl⟩
        cases hactive : s.active with
        | none =>
            simp only [State.holdings, hactive, Option.isNone_none, Bool.and_true,
              Option.toList_none, List.nil_append, Multiset.coe_eq_zero]
            exact List.isEmpty_iff
        | some t => simp [State.holdings, hactive]
    | newWaitQueue =>
        cases hexec
        refine ⟨⟨hWF.consistent, fun q hq => hWF.unused q (Nat.le_of_succ_le hq)⟩,
          rfl, ?_, rfl⟩
        simp [State.holdings, hWF.unused s.queueCount (Nat.le_refl _)]
    | isSuspended t =>
        cases hexec
        exact ⟨hWF, by simp [State.holdings], rfl⟩
    | randomNumber =>
        have hs' : (randomNumber s).2 = s' := congrArg Prod.snd (Except.ok.inj hexec)
        subst hs'
        exact reseeded hWF _
    | randomChoice alts =>
        have hs' : (randomNumber s).2 = s' := congrArg Prod.snd (Except.ok.inj hexec)
        subst hs'
        exact reseeded hWF _
    | exit t =>
        cases hexec
        exact ⟨hWF, Holdings.Keeps.refl _⟩
    | lockFree t flag =>
        cases hexec
        exact ⟨hWF, Holdings.Keeps.refl _⟩
    | progress t =>
        cases hexec
        exact ⟨hWF, Holdings.Keeps.refl _⟩
    | newIter =>
        cases hexec
        exact ⟨hWF, rfl⟩
    | spuriousWakeup =>
        cases hexec
        exact ⟨hWF, rfl⟩
    | spuriousTryFailure =>
        cases hexec
        exact ⟨hWF, rfl⟩
    | isModelChecker =>
        cases hexec
        exact ⟨hWF, rfl⟩
  · intro ⟨view, q⟩ s p _ _ _ hexec
    cases q <;> trivial

end Pct

end TwistSim
