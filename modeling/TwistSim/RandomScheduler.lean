/-
The randomized scheduler, with time slices and lock-free suspension.
-/
import TwistSim.Holdings
import TwistSim.RandomNumbers
import Mathlib.Data.List.Basic
import Mathlib.Data.List.Perm.Basic

namespace TwistSim

/-- `ThreadSet`, the part of its buffer that is in use. -/
abbrev ThreadSet := List ThreadId

namespace ThreadSet

def push (set : ThreadSet) (t : ThreadId) : Except Panic ThreadSet :=
  if set.length = maxThreads then
    .error (.verify s!"Twist thread limit reached: {maxThreads}")
  else .ok (set ++ [t])

/-- Take the thread at an index; the last one fills the gap. -/
def takeAt (set : ThreadSet) (i : Nat) : Option ThreadId × ThreadSet :=
  (set[i]?, (set.set i (set.getLastD 0)).dropLast)

def popRandom (set : ThreadSet) (r : Nat) : Option ThreadId × ThreadSet :=
  if set.isEmpty then (none, set) else set.takeAt (r % set.length)

def popAll (set : ThreadSet) : Option ThreadId × ThreadSet :=
  if set.isEmpty then (none, set) else set.takeAt (set.length - 1)

def remove (set : ThreadSet) (t : ThreadId) : Bool × ThreadSet :=
  if set.elem t then (true, (set.takeAt (set.idxOf t)).2) else (false, set)

theorem takeAt_perm {set : ThreadSet} {i : Nat} (hi : i < set.length) :
    (set.takeAt i).1 = some set[i] ∧ set.Perm (set[i] :: (set.takeAt i).2) := by
  refine ⟨List.getElem?_eq_getElem hi, ?_⟩
  obtain ⟨init, last, rfl⟩ : ∃ init last, set = init ++ [last] := by
    refine ⟨set.dropLast, set.getLast (List.ne_nil_of_length_pos (by omega)), ?_⟩
    exact (List.dropLast_append_getLast _).symm
  have hlast : (init ++ [last]).getLastD 0 = last := by simp
  simp only [takeAt, hlast]
  by_cases hend : i < init.length
  · have hset : ((init ++ [last]).set i last).dropLast = init.set i last := by
      rw [List.set_append_left _ _ hend, List.dropLast_concat]
    rw [hset, List.getElem_append_left hend]
    have hfill := List.set_perm_cons_eraseIdx hend last
    have herase := List.getElem_cons_eraseIdx_perm hend
    calc init ++ [last]
        _ |>.Perm (last :: init) := List.perm_append_singleton last init
        _ |>.Perm (last :: init[i] :: init.eraseIdx i) := herase.symm.cons last
        _ |>.Perm (init[i] :: last :: init.eraseIdx i) := List.Perm.swap _ _ _
        _ |>.Perm (init[i] :: init.set i last) := hfill.symm.cons _
  · have hi' : i = init.length := by
      simp only [List.length_append, List.length_cons, List.length_nil] at hi
      omega
    subst hi'
    simp

theorem popRandom_cases (set : ThreadSet) (r : Nat) :
    (set = [] ∧ set.popRandom r = (none, set)) ∨
      ∃ t rest, set.popRandom r = (some t, rest) ∧ set.Perm (t :: rest) := by
  unfold popRandom
  cases hempty : set.isEmpty with
  | true => exact Or.inl ⟨List.isEmpty_iff.mp hempty, rfl⟩
  | false =>
      have hpos : 0 < set.length := by
        rw [List.length_pos_iff]
        rintro rfl
        cases hempty
      obtain ⟨hsome, hperm⟩ := takeAt_perm (Nat.mod_lt r hpos)
      exact Or.inr ⟨_, _, Prod.ext hsome rfl, hperm⟩

theorem popAll_cases (set : ThreadSet) :
    (set = [] ∧ set.popAll = (none, set)) ∨
      ∃ t rest, set.popAll = (some t, rest) ∧ set.Perm (t :: rest) := by
  unfold popAll
  cases hempty : set.isEmpty with
  | true => exact Or.inl ⟨List.isEmpty_iff.mp hempty, rfl⟩
  | false =>
      have hpos : 0 < set.length := by
        rw [List.length_pos_iff]
        rintro rfl
        cases hempty
      obtain ⟨hsome, hperm⟩ := takeAt_perm (Nat.sub_lt hpos Nat.one_pos)
      exact Or.inr ⟨_, _, Prod.ext hsome rfl, hperm⟩

theorem remove_perm (set : ThreadSet) (t : ThreadId) :
    (set.remove t).2.Perm (set.erase t) := by
  unfold remove
  by_cases hmem : t ∈ set
  · have hi := List.idxOf_lt_length_of_mem hmem
    have hperm := (takeAt_perm hi).2
    rw [List.getElem_idxOf hi] at hperm
    simp only [List.elem_eq_mem, hmem, decide_true, if_true]
    have herase := hperm.erase t
    rw [List.erase_cons_head] at herase
    exact herase.symm
  · simp [hmem, List.erase_of_not_mem hmem]

end ThreadSet

namespace Random

structure Rational where
  num : Nat
  denom : Nat
  deriving DecidableEq, Repr

structure Params where
  seed : UInt64
  maxRuns : Option Nat := none
  spuriousWakeups : Rational := ⟨1, 7⟩
  spuriousFailures : Rational := ⟨1, 7⟩
  timeSlice : Nat := 15
  lockFree : Bool := true
  lfProgressStreakToResume : Nat := 4
  lfSuspendedThreadsLimit : Nat := 1
  deriving DecidableEq, Repr

/-- `preemptAt` and `suspended` of a thread are the fields `f1` and `f2` of its
scheduling context. -/
structure State where
  seed : UInt64
  random : WyRand
  runs : Nat
  runQueue : ThreadSet
  next : Option ThreadId
  lfThreadCount : Nat
  lfProgressStreak : Nat
  suspendedThreads : ThreadSet
  preemptAt : ThreadId → Nat
  suspended : ThreadId → Bool
  waitSets : QueueId → ThreadSet
  queueCount : Nat

def State.new (params : Params) : State where
  seed := params.seed
  random := params.seed
  runs := 0
  runQueue := []
  next := none
  lfThreadCount := 0
  lfProgressStreak := 0
  suspendedThreads := []
  preemptAt _ := 0
  suspended _ := false
  waitSets _ := []
  queueCount := 0

section Operations

variable (params : Params) (view : KernelView)

def nextSchedule (s : State) : Bool × State :=
  match params.maxRuns with
  | some limit =>
      let s := { s with runs := s.runs + 1 }
      if limit < s.runs then (false, s)
      else (true, { s with seed := hashCombine s.seed (UInt64.ofNat s.runs) })
  | none => (true, { s with seed := hashCombine s.seed (UInt64.ofNat s.runs) })

/-- `Start`.  Threads and futexes are new, so their contexts and wait sets are. -/
def start (s : State) : State :=
  { s with
    random := s.seed
    lfThreadCount := 0
    lfProgressStreak := 0
    suspendedThreads := []
    runQueue := []
    next := none
    preemptAt := fun _ => 0
    suspended := fun _ => false
    waitSets := fun _ => []
    queueCount := 0 }

def reseed (s : State) (random : WyRand) : State := { s with random }

def randomNumber (s : State) : Nat × State :=
  ((WyRand.next s.random).1, reseed s (WyRand.next s.random).2)

def enqueue (t : ThreadId) (s : State) : Except Panic State :=
  (s.runQueue.push t).map fun runQueue => { s with runQueue }

def toPreempt (active : ThreadId) (s : State) : Bool :=
  (view.attrs active).preemptive && decide (s.preemptAt active ≤ view.currTick)

def lfIsPotentialSuspensionPoint (next : ActionType) : Bool :=
  match next with
  | .atomicRmwLoad | .atomicStore => true
  | _ => false

/-- May `active` be suspended, as far as the die is not concerned? -/
def lfCandidate (active : ThreadId) (s : State) : Except Panic Bool :=
  if !params.lockFree then .ok false
  else if !(view.attrs active).lockFree || !(view.attrs active).preemptive then
    .ok false
  else if s.suspended active then .ok false
  else
    match view.action active with
    | none => .error (.assertion "active->action != nullptr")
    | some action =>
        .ok (lfIsPotentialSuspensionPoint action &&
          decide (s.suspendedThreads.length < params.lfSuspendedThreadsLimit) &&
          decide (1 + s.suspendedThreads.length < s.lfThreadCount))

def toLfSuspend (active : ThreadId) (s : State) : Except Panic (Bool × State) :=
  (lfCandidate params view active s).map fun candidate =>
    (candidate && (randomNumber s).1 % 7 == 0,
      if candidate then (randomNumber s).2 else s)

def lfSuspend (t : ThreadId) (s : State) : Except Panic State :=
  (s.suspendedThreads.push t).map fun suspendedThreads =>
    { s with
      suspended := Function.update s.suspended t true
      suspendedThreads }

def interrupt (active : ThreadId) (s : State) : Except Panic State :=
  if toPreempt view active s then enqueue active s
  else
    match toLfSuspend params view active s with
    | .error p => .error p
    | .ok (true, s) => lfSuspend active s
    | .ok (false, s) => .ok { s with next := some active }

/-- `LfResume`. -/
def lfResume (s : State) : Except Panic State :=
  if s.suspendedThreads.isEmpty then .ok s
  else
    match s.suspendedThreads.popRandom (randomNumber s).1 with
    | (some t, rest) =>
        if (view.attrs t).lockFree then
          enqueue t { (randomNumber s).2 with suspendedThreads := rest }
        else .error (.assertion "t->attrs.lock_free")
    | (none, _) => .error (.undefined "null thread")

def setLockFree (t : ThreadId) (flag : Bool) (s : State) : Except Panic State :=
  if (view.attrs t).lockFree ≠ flag then
    .error (.assertion "thread->attrs.lock_free == flag")
  else if flag then .ok { s with lfThreadCount := s.lfThreadCount + 1 }
  else if s.lfThreadCount = 0 then .error (.assertion "lf_thread_count_ > 0")
  else lfResume view { s with lfThreadCount := s.lfThreadCount - 1 }

def lfProgress (t : ThreadId) (s : State) : Except Panic State :=
  let s :=
    { s with
      suspended := Function.update s.suspended t false
      lfProgressStreak := s.lfProgressStreak + 1 }
  if params.lfProgressStreakToResume ≤ s.lfProgressStreak then
    (lfResume view s).map fun s => { s with lfProgressStreak := 0 }
  else .ok s

def progress (t : ThreadId) (s : State) : Except Panic State :=
  if (view.attrs t).lockFree then lfProgress params view t s else .ok s

def pickNextFromRunQueue (s : State) :
    Except Panic (Except String ThreadId × State) :=
  match s.runQueue.popRandom (randomNumber s).1 with
  | (none, _) => .error (.undefined "null thread")
  | (some next, runQueue) =>
      if params.timeSlice = 0 then .error (.undefined "division by zero")
      else
        let s := (randomNumber s).2
        let slice := (randomNumber s).1 % params.timeSlice
        .ok (.ok next,
          { (randomNumber s).2 with
            runQueue
            preemptAt := Function.update s.preemptAt next (view.currTick + slice) })

def pickNext (s : State) : Except Panic (Except String ThreadId × State) :=
  match s.next with
  | some next => .ok (.ok next, { s with next := none })
  | none => pickNextFromRunQueue params view s

def spurious (p : Rational) (s : State) : Except Panic (Bool × State) :=
  if p.denom = 0 then .error (.undefined "division by zero")
  else .ok (decide ((randomNumber s).1 % p.denom < p.num), (randomNumber s).2)

def setWaitSet (q : QueueId) (set : ThreadSet) (s : State) : State :=
  { s with waitSets := Function.update s.waitSets q set }

end Operations

def done (x : Except Panic State) : Except Panic (Unit × State) :=
  x.map fun s => ((), s)

/-- `random::Scheduler`. -/
def scheduler (params : Params) : IScheduler State where
  nextSchedule := nextSchedule params
  exec
    | (_, .start), s => .ok ((), start s)
    | (view, .interrupt t), s => done (interrupt params view t s)
    | (_, .switchTo _ _), _ =>
        .error (.unreachable "SwitchTo not supported by RandomScheduler")
    | (_, .yield t), s | (_, .wake t), s => done (enqueue t s)
    | (_, .spawn t), s =>
        done (enqueue t { s with
          preemptAt := Function.update s.preemptAt t 0
          suspended := Function.update s.suspended t false })
    | (view, .exit t), s =>
        if (view.attrs t).lockFree then
          .error (.assertion "!thread->attrs.lock_free")
        else .ok (.ok (), s)
    | (view, .lockFree t flag), s => done (setLockFree view t flag s)
    | (view, .progress t), s => done (progress params view t s)
    | (_, .newIter), s => .ok ((), s)
    | (_, .isIdle), s => .ok (s.runQueue.isEmpty && s.next.isNone, s)
    | (view, .pickNext), s => pickNext params view s
    | (_, .remove t), s =>
        .ok ((), { s with
          runQueue := (s.runQueue.remove t).2
          suspendedThreads := (s.suspendedThreads.remove t).2 })
    | (_, .newWaitQueue), s =>
        .ok (s.queueCount, { s with queueCount := s.queueCount + 1 })
    | (_, .queueIsEmpty q), s => .ok ((s.waitSets q).isEmpty, s)
    | (_, .queuePush q t), s =>
        done (((s.waitSets q).push t).map fun set => setWaitSet q set s)
    | (_, .queuePop q), s =>
        let (waiter, set) := (s.waitSets q).popRandom (randomNumber s).1
        .ok (waiter, setWaitSet q set (randomNumber s).2)
    | (_, .queuePopAll q), s =>
        let (waiter, set) := (s.waitSets q).popAll
        .ok (waiter, setWaitSet q set s)
    | (_, .queueRemove q t), s =>
        let (removed, set) := (s.waitSets q).remove t
        .ok (removed, setWaitSet q set s)
    | (_, .randomNumber), s => .ok (randomNumber s)
    | (_, .randomChoice alts), s =>
        .ok ((randomNumber s).1 % alts, (randomNumber s).2)
    | (_, .spuriousWakeup), s => spurious params.spuriousWakeups s
    | (_, .spuriousTryFailure), s => spurious params.spuriousFailures s
    | (_, .isModelChecker), s => .ok (false, s)
    | (_, .isSuspended t), s => .ok (s.suspendedThreads.elem t, s)

/-! ### What the scheduler holds -/

def State.holdings (s : State) : Holdings where
  held := ↑(s.next.toList ++ s.runQueue)
  suspended := ↑s.suspendedThreads
  waiters q := ↑(s.waitSets q)
  queues := s.queueCount
  slot := s.next.isSome

def State.WF (s : State) : Prop := ∀ q, s.queueCount ≤ q → s.waitSets q = []

variable {params : Params} {view : KernelView} {s s' : State} {t : ThreadId}

section Reseed

variable (s) (random : WyRand)

@[simp] theorem reseed_next : (reseed s random).next = s.next := rfl

@[simp] theorem reseed_runQueue : (reseed s random).runQueue = s.runQueue := rfl

@[simp] theorem reseed_suspendedThreads :
    (reseed s random).suspendedThreads = s.suspendedThreads := rfl

@[simp] theorem reseed_holdings : (reseed s random).holdings = s.holdings := rfl

theorem randomNumber_eq : ∃ n random, randomNumber s = (n, reseed s random) :=
  ⟨_, _, rfl⟩

end Reseed

/-- Two states with the same wait sets. -/
def SameSets (s s' : State) : Prop :=
  s'.waitSets = s.waitSets ∧ s'.queueCount = s.queueCount

theorem SameSets.wf (h : SameSets s s') (hWF : s.WF) : s'.WF := by
  intro q hq
  rw [h.1]
  exact hWF q (h.2 ▸ hq)

theorem SameSets.same (h : SameSets s s') : s.holdings.SameQueues s'.holdings := by
  refine ⟨?_, h.2⟩
  funext q
  simp only [State.holdings, h.1]

theorem owned_eq (s : State) : s.holdings.owned =
    ↑(s.next.toList ++ s.runQueue ++ s.suspendedThreads) := by
  simp only [Holdings.owned, State.holdings, Multiset.coe_add]

theorem enqueue_spec (h : enqueue t s = .ok s') :
    s'.holdings.owned = t ::ₘ s.holdings.owned ∧ SameSets s s' ∧
      s'.next = s.next := by
  obtain ⟨queue, hpush, rfl⟩ := map_eq_ok h
  unfold ThreadSet.push at hpush
  split at hpush
  · cases hpush
  · cases hpush
    refine ⟨?_, ⟨rfl, rfl⟩, rfl⟩
    rw [owned_eq, owned_eq, Multiset.cons_coe]
    apply Multiset.coe_eq_coe.mpr
    simp only [← List.append_assoc]
    exact (List.perm_append_singleton t _).append_right s.suspendedThreads

theorem lfSuspend_spec (h : lfSuspend t s = .ok s') :
    s'.holdings.owned = t ::ₘ s.holdings.owned ∧ SameSets s s' := by
  obtain ⟨suspended, hpush, rfl⟩ := map_eq_ok h
  unfold ThreadSet.push at hpush
  split at hpush
  · cases hpush
  · cases hpush
    refine ⟨?_, ⟨rfl, rfl⟩⟩
    rw [owned_eq, owned_eq, Multiset.cons_coe]
    apply Multiset.coe_eq_coe.mpr
    simp only [← List.append_assoc]
    exact List.perm_append_singleton t _

theorem toLfSuspend_spec {r : Bool}
    (h : toLfSuspend params view t s = .ok (r, s')) :
    ∃ random, s' = reseed s random := by
  obtain ⟨n, random, hroll⟩ := randomNumber_eq s
  rw [toLfSuspend, hroll] at h
  obtain ⟨candidate, _, heq⟩ := map_eq_ok h
  have hs' : (if candidate then reseed s random else s) = s' := congrArg Prod.snd heq
  cases candidate with
  | true => exact ⟨random, hs'.symm⟩
  | false => exact ⟨s.random, hs'.symm⟩

theorem interrupt_spec (hnext : s.next = none)
    (h : interrupt params view t s = .ok s') :
    s'.holdings.owned = t ::ₘ s.holdings.owned ∧ SameSets s s' := by
  unfold interrupt at h
  split at h
  · obtain ⟨howned, hsame, _⟩ := enqueue_spec h
    exact ⟨howned, hsame⟩
  · cases hsuspend : toLfSuspend params view t s with
    | error p =>
        rw [hsuspend] at h
        cases h
    | ok result =>
        obtain ⟨yes, s₁⟩ := result
        rw [hsuspend] at h
        obtain ⟨random, rfl⟩ := toLfSuspend_spec hsuspend
        cases yes with
        | true => exact lfSuspend_spec (s := reseed s random) h
        | false =>
            cases h
            refine ⟨?_, ⟨rfl, rfl⟩⟩
            rw [owned_eq, owned_eq, Multiset.cons_coe]
            simp only [Option.toList_some, hnext, Option.toList_none,
              reseed_runQueue, reseed_suspendedThreads, List.nil_append,
              List.cons_append]

theorem lfResume_spec (h : lfResume view s = .ok s') :
    s'.holdings.owned = s.holdings.owned ∧ SameSets s s' ∧ s'.next = s.next := by
  obtain ⟨n, random, hroll⟩ := randomNumber_eq s
  rw [lfResume, hroll] at h
  split at h
  · cases h
    exact ⟨rfl, ⟨rfl, rfl⟩, rfl⟩
  · obtain ⟨_, hpop⟩ | ⟨t, rest, hpop, hperm⟩ :=
      ThreadSet.popRandom_cases s.suspendedThreads n
    · rw [hpop] at h
      cases h
    · rw [hpop] at h
      simp only at h
      split at h
      · obtain ⟨howned, hsame, hnext⟩ := enqueue_spec h
        refine ⟨?_, hsame, hnext⟩
        rw [howned, owned_eq, owned_eq, Multiset.cons_coe]
        apply Multiset.coe_eq_coe.mpr
        exact (List.perm_middle.symm).trans (hperm.symm.append_left _)
      · cases h

theorem setLockFree_spec {flag : Bool} (h : setLockFree view t flag s = .ok s') :
    s.holdings.Keeps s'.holdings ∧ SameSets s s' := by
  unfold setLockFree at h
  split at h
  · cases h
  · split at h
    · cases h
      exact ⟨Holdings.Keeps.refl _, ⟨rfl, rfl⟩⟩
    · split at h
      · cases h
      · obtain ⟨howned, hsame, hnext⟩ := lfResume_spec h
        refine ⟨⟨howned, SameSets.same hsame, ?_⟩, hsame⟩
        simp only [State.holdings, hnext]

theorem progress_spec (h : progress params view t s = .ok s') :
    s.holdings.Keeps s'.holdings ∧ SameSets s s' := by
  unfold progress lfProgress at h
  simp only at h
  split at h
  · split at h
    · obtain ⟨s₁, hresume, rfl⟩ := map_eq_ok h
      obtain ⟨howned, hsame, hnext⟩ := lfResume_spec hresume
      refine ⟨⟨howned, SameSets.same hsame, ?_⟩, hsame⟩
      simp only [State.holdings, hnext]
    · cases h
      exact ⟨Holdings.Keeps.refl _, ⟨rfl, rfl⟩⟩
  · cases h
    exact ⟨Holdings.Keeps.refl _, ⟨rfl, rfl⟩⟩

theorem pickNext_spec {r : Except String ThreadId}
    (h : pickNext params view s = .ok (r, s')) :
    ∃ t, r = .ok t ∧ s.holdings.held = t ::ₘ s'.holdings.held ∧
      s'.holdings.suspended = s.holdings.suspended ∧ SameSets s s' ∧
      s'.next = none := by
  unfold pickNext at h
  cases hnext : s.next with
  | some t =>
      rw [hnext] at h
      cases h
      refine ⟨t, rfl, ?_, rfl, ⟨rfl, rfl⟩, rfl⟩
      simp [State.holdings, hnext]
  | none =>
      obtain ⟨n, random, hroll⟩ := randomNumber_eq s
      obtain ⟨slice, random', hroll'⟩ := randomNumber_eq (reseed s random)
      rw [hnext] at h
      simp only [pickNextFromRunQueue, hroll, hroll'] at h
      obtain ⟨_, hpop⟩ | ⟨t, rest, hpop, hperm⟩ :=
        ThreadSet.popRandom_cases s.runQueue n
      · rw [hpop] at h
        cases h
      · rw [hpop] at h
        simp only at h
        split at h
        · cases h
        · cases h
          refine ⟨t, rfl, ?_, rfl, ⟨rfl, rfl⟩, hnext⟩
          simp only [State.holdings, hnext, reseed, Option.toList_none,
            List.nil_append, Multiset.cons_coe]
          exact Multiset.coe_eq_coe.mpr hperm

theorem queueUpdate {q : QueueId} {set : ThreadSet} {w : Multiset ThreadId}
    (hset : (↑set : Multiset ThreadId) = w) :
    s.holdings.QueueUpdate (setWaitSet q set s).holdings q w where
  waiters := by
    funext q'
    by_cases hq : q' = q
    · subst hq
      simp [State.holdings, setWaitSet, hset]
    · simp [State.holdings, setWaitSet, hq]
  held := rfl
  suspended := rfl
  queues := rfl
  slot := rfl

theorem setWaitSet_wf {q : QueueId} {set : ThreadSet} (hWF : s.WF)
    (hq : q < s.queueCount ∨ set = []) : (setWaitSet q set s).WF := by
  intro q' hq'
  by_cases heq : q' = q
  · subst heq
    rcases hq with hlt | hnil
    · exact absurd hlt (Nat.not_lt.mpr hq')
    · simp [setWaitSet, hnil]
  · simpa [setWaitSet, heq] using hWF q' hq'

/-- A thread set that hands out one of its threads, if it has any. -/
theorem pops {q : QueueId} {r : Option ThreadId} {set : ThreadSet}
    (hq : q < s.queueCount) (hWF : s.WF) (random : WyRand)
    (hpop : (s.waitSets q = [] ∧ (r, set) = (none, s.waitSets q)) ∨
      ∃ t rest, (r, set) = (some t, rest) ∧ (s.waitSets q).Perm (t :: rest)) :
    (setWaitSet q set (reseed s random)).WF ∧
      s.holdings.Pops q r (setWaitSet q set (reseed s random)).holdings := by
  refine ⟨setWaitSet_wf hWF (Or.inl hq), ?_⟩
  obtain ⟨_, heq⟩ | ⟨t, rest, heq, hperm⟩ := hpop
  · cases heq
    simp only [Holdings.Pops, State.holdings, setWaitSet, reseed,
      Function.update_eq_self]
  · cases heq
    exact ⟨↑set, Multiset.coe_eq_coe.mpr hperm, queueUpdate rfl⟩

theorem queueRemove_spec {q : QueueId} (ht : t ∈ s.holdings.waiters q) :
    ((s.waitSets q).remove t).1 = true ∧
      s.holdings.QueueUpdate
        (setWaitSet q ((s.waitSets q).remove t).2 s).holdings q
        ((s.holdings.waiters q).erase t) := by
  have hmem : t ∈ s.waitSets q := by
    simpa [State.holdings] using ht
  constructor
  · simp [ThreadSet.remove, hmem]
  · apply queueUpdate
    rw [State.holdings, Multiset.coe_erase]
    exact Multiset.coe_eq_coe.mpr (ThreadSet.remove_perm _ _)

theorem spurious_spec {p : Rational} {r : Bool} (hWF : s.WF)
    (h : spurious p s = .ok (r, s')) : s'.WF ∧ s'.holdings = s.holdings := by
  obtain ⟨n, random, hroll⟩ := randomNumber_eq s
  rw [spurious, hroll] at h
  split at h
  · cases h
  · cases h
    exact ⟨hWF, rfl⟩

/-- `Remove` looks into the run queue and the suspended threads. -/
theorem remove_forgets :
    s.holdings.Forgets
      ({ s with
        runQueue := (s.runQueue.remove t).2
        suspendedThreads := (s.suspendedThreads.remove t).2 } : State).holdings t := by
  have hqueue := ThreadSet.remove_perm s.runQueue t
  have hthreads := ThreadSet.remove_perm s.suspendedThreads t
  refine ⟨fun u hu => ?_, fun u hu => ?_, ⟨?_, ?_⟩, ⟨rfl, rfl⟩⟩
  · simp only [State.holdings, Multiset.coe_count, List.count_append]
    rw [hqueue.count_eq, List.count_erase_of_ne hu]
  · simp only [State.holdings, Multiset.coe_count]
    rw [hthreads.count_eq, List.count_erase_of_ne hu]
  · apply Multiset.coe_le.mpr
    exact (hqueue.append_left _).subperm.trans
      ((List.erase_sublist.append_left _).subperm)
  · exact Multiset.coe_le.mpr
      (hthreads.subperm.trans List.erase_sublist.subperm)

theorem implements (params : Params) :
    Interaction.Implements (scheduler params).answer State.WF State.holdings
      (schedulerSpec false) := by
  apply IScheduler.implements
  · rintro ⟨view, q⟩ s r s' hWF _ hpre hexec husable
    cases q with
    | start =>
        cases hexec
        exact ⟨fun _ _ => rfl, rfl⟩
    | interrupt t =>
        obtain ⟨s₁, hinterrupt, heq⟩ := map_eq_ok hexec
        cases heq
        have hnext : s.next = none := by
          simpa [State.holdings] using hpre.2
        obtain ⟨howned, hsame⟩ := interrupt_spec hnext hinterrupt
        exact ⟨hsame.wf hWF, howned, hsame.same⟩
    | switchTo t next => cases hexec
    | yield t =>
        obtain ⟨s₁, henqueue, heq⟩ := map_eq_ok hexec
        cases heq
        obtain ⟨howned, hsame, hnext⟩ := enqueue_spec henqueue
        exact ⟨hsame.wf hWF, ⟨howned, hsame.same⟩, congrArg Option.isSome hnext⟩
    | wake t =>
        obtain ⟨s₁, henqueue, heq⟩ := map_eq_ok hexec
        cases heq
        obtain ⟨howned, hsame, hnext⟩ := enqueue_spec henqueue
        exact ⟨hsame.wf hWF, ⟨howned, hsame.same⟩, congrArg Option.isSome hnext⟩
    | spawn t =>
        obtain ⟨s₁, henqueue, heq⟩ := map_eq_ok hexec
        cases heq
        obtain ⟨howned, hsame, hnext⟩ := enqueue_spec henqueue
        exact ⟨SameSets.wf hsame hWF, ⟨howned, SameSets.same hsame⟩,
          congrArg Option.isSome hnext⟩
    | pickNext =>
        obtain ⟨t, rfl, hheld, hsuspended, hsame, hnext⟩ := pickNext_spec hexec
        exact ⟨hsame.wf hWF, hheld, hsuspended, hsame.same,
          congrArg Option.isSome hnext, husable⟩
    | remove t =>
        cases hexec
        exact ⟨hWF, remove_forgets⟩
    | lockFree t flag =>
        obtain ⟨s₁, hset, heq⟩ := map_eq_ok hexec
        cases heq
        obtain ⟨hkeeps, hsame⟩ := setLockFree_spec hset
        exact ⟨hsame.wf hWF, hkeeps⟩
    | progress t =>
        obtain ⟨s₁, hprogress, heq⟩ := map_eq_ok hexec
        cases heq
        obtain ⟨hkeeps, hsame⟩ := progress_spec hprogress
        exact ⟨hsame.wf hWF, hkeeps⟩
    | exit t =>
        simp only [scheduler] at hexec
        split at hexec
        · cases hexec
        · cases hexec
          exact ⟨hWF, Holdings.Keeps.refl _⟩
    | queuePush q t =>
        obtain ⟨s₁, hset, heq⟩ := map_eq_ok hexec
        cases heq
        obtain ⟨set, hpush, rfl⟩ := map_eq_ok hset
        unfold ThreadSet.push at hpush
        split at hpush
        · cases hpush
        · have hset' := Except.ok.inj hpush
          subst hset'
          refine ⟨setWaitSet_wf hWF (Or.inl hpre.2), queueUpdate ?_⟩
          exact Multiset.coe_eq_coe.mpr (List.perm_append_singleton t _)
    | queuePop q =>
        obtain ⟨n, random, hroll⟩ := randomNumber_eq s
        simp only [scheduler, hroll] at hexec
        cases hexec
        exact pops hpre hWF random (ThreadSet.popRandom_cases _ _)
    | queuePopAll q =>
        cases hexec
        exact pops hpre hWF s.random (ThreadSet.popAll_cases _)
    | queueRemove q t =>
        cases hexec
        obtain ⟨hremoved, hupdate⟩ := queueRemove_spec hpre.1
        exact ⟨setWaitSet_wf hWF (Or.inl hpre.2), hremoved, hupdate⟩
    | queueIsEmpty q =>
        cases hexec
        refine ⟨hWF, ?_, rfl⟩
        rw [List.isEmpty_iff]
        exact (Multiset.coe_eq_zero _).symm
    | isIdle =>
        cases hexec
        refine ⟨hWF, ?_, rfl⟩
        cases hnext : s.next with
        | none =>
            simp only [State.holdings, hnext, Option.isNone_none, Bool.and_true,
              Option.toList_none, List.nil_append, Multiset.coe_eq_zero]
            exact List.isEmpty_iff
        | some t => simp [State.holdings, hnext]
    | newWaitQueue =>
        cases hexec
        refine ⟨fun q hq => hWF q (Nat.le_of_succ_le hq), rfl, ?_, rfl⟩
        simp [State.holdings, hWF s.queueCount (Nat.le_refl _)]
    | isSuspended t =>
        cases hexec
        exact ⟨hWF, List.elem_iff, rfl⟩
    | randomNumber =>
        obtain ⟨n, random, hroll⟩ := randomNumber_eq s
        simp only [scheduler, hroll] at hexec
        cases hexec
        exact ⟨hWF, rfl⟩
    | randomChoice alts =>
        obtain ⟨n, random, hroll⟩ := randomNumber_eq s
        simp only [scheduler, hroll] at hexec
        cases hexec
        exact ⟨hWF, rfl⟩
    | spuriousWakeup => exact spurious_spec hWF hexec
    | spuriousTryFailure => exact spurious_spec hWF hexec
    | newIter => cases hexec; exact ⟨hWF, rfl⟩
    | isModelChecker => cases hexec; exact ⟨hWF, rfl⟩
  · rintro ⟨view, q⟩ s p _ _ _ hexec
    cases q <;> trivial

end Random

end TwistSim
