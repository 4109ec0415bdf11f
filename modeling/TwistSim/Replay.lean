/-
Recording the decisions of a scheduler, and the scheduler that replays them.
-/
import TwistSim.Holdings
import Mathlib.Data.List.Basic
import Mathlib.Data.List.Perm.Basic
import Mathlib.Logic.Function.Basic

namespace TwistSim

namespace Replay

inductive Decision where
  | pickNext (id : ThreadId)
  | wakeOne (id : Option ThreadId)
  | wakeAll (id : Option ThreadId)
  | randomNumber (value : Nat)
  | randomChoice (index : Nat)
  | spuriousWakeup (wake : Bool)
  | spuriousTryFailure (fail : Bool)
  deriving DecidableEq, Repr

abbrev Schedule := List Decision

/-- The decision that an answer is. -/
def decision : (call : Call) → call.Reply → Option Decision
  | (_, .pickNext), .ok next => some (.pickNext next)
  | (_, .queuePop _), waiter => some (.wakeOne waiter)
  | (_, .queuePopAll _), waiter => some (.wakeAll waiter)
  | (_, .randomNumber), value => some (.randomNumber value)
  | (_, .randomChoice _), index => some (.randomChoice index)
  | (_, .spuriousWakeup), wake => some (.spuriousWakeup wake)
  | (_, .spuriousTryFailure), fail => some (.spuriousTryFailure fail)
  | _, _ => none

/-! ### The recorder -/

/-- The recorder of an underlying scheduler. -/
structure Recorder (σ : Type) where
  underlying : σ
  schedule : Schedule

namespace Recorder

variable {σ : Type}

def new (underlying : σ) : Recorder σ := ⟨underlying, []⟩

/-- A forwarded method: the underlying scheduler answers, and the answer is
recorded.  A run that is pruned leaves before its decision is recorded. -/
def forward (underlying : IScheduler σ) (call : Call) (s : Recorder σ) :
    Except Panic (call.Reply × Recorder σ) :=
  (underlying.exec call s.underlying).map fun (r, u) =>
    (r, ⟨u, s.schedule ++ (decision call r).toList⟩)

/-- `Recorder`.  It inherits `IsModelChecker` from `IScheduler`. -/
def scheduler (underlying : IScheduler σ) : IScheduler (Recorder σ) where
  nextSchedule s := (false, s)
  exec
    | (_, .isModelChecker), s => .ok (false, s)
    | call, s => forward underlying call s

end Recorder

/-! ### The replay scheduler -/

/-- The maps from ids to threads, as the lists of their keys. -/
structure State where
  schedule : Schedule
  next : Nat
  runSet : List ThreadId
  waitSets : QueueId → List ThreadId
  queueCount : Nat

def State.new (schedule : Schedule) : State := ⟨schedule, 0, [], fun _ => [], 0⟩

/-- `run_set_.try_emplace`. -/
def emplace (t : ThreadId) (s : State) : Except Panic (Unit × State) :=
  .ok ((), { s with runSet := s.runSet.insert t })

/-- `Next`; `get` selects the type of decision. -/
def next {α : Type} (get : Decision → Option α) (s : State) :
    Except Panic (α × State) :=
  match s.schedule[s.next]? with
  | none => .error (.verify "Unexpected schedule length")
  | some decision =>
      match get decision with
      | some value => .ok (value, { s with next := s.next + 1 })
      | none => .error (.verify "Decision type mismatch")

def pickNext (s : State) : Except Panic (Except String ThreadId × State) :=
  match next (fun | .pickNext id => some id | _ => none) s with
  | .error p => .error p
  | .ok (id, s) =>
      if s.runSet.elem id then .ok (.ok id, { s with runSet := s.runSet.erase id })
      else .error (.verify "Next thread not found in run queue")

def setWaitSet (q : QueueId) (set : List ThreadId) (s : State) : State :=
  { s with waitSets := Function.update s.waitSets q set }

/-- `WakeOne` and `WakeAll`, with `PopById`. -/
def wake (get : Decision → Option (Option ThreadId)) (q : QueueId) (s : State) :
    Except Panic (Option ThreadId × State) :=
  match next get s with
  | .error p => .error p
  | .ok (none, s) => .ok (none, s)
  | .ok (some id, s) =>
      if (s.waitSets q).elem id then
        .ok (some id, setWaitSet q ((s.waitSets q).erase id) s)
      else .error (.verify "Fiber not found in wait queue")

def wakeOne : QueueId → State → Except Panic (Option ThreadId × State) :=
  wake fun | .wakeOne id => some id | _ => none

def wakeAll : QueueId → State → Except Panic (Option ThreadId × State) :=
  wake fun | .wakeAll id => some id | _ => none

def randomChoice (alts : Nat) (s : State) : Except Panic (Nat × State) :=
  match next (fun | .randomChoice index => some index | _ => none) s with
  | .error p => .error p
  | .ok (index, s) =>
      if index < alts then .ok (index, s) else .error (.verify "Alts mismatch")

/-- `replay::Scheduler`.  `Start` does nothing; the futexes of a new simulation
have new wait queues. -/
def scheduler : IScheduler State where
  nextSchedule s := (false, s)
  exec
    | (_, .start), s => .ok ((), { s with waitSets := fun _ => [], queueCount := 0 })
    | (_, .interrupt t), s | (_, .switchTo t _), s | (_, .yield t), s
    | (_, .wake t), s | (_, .spawn t), s => emplace t s
    | (_, .exit _), s => .ok (.ok (), s)
    | (_, .lockFree _ _), s | (_, .progress _), s | (_, .newIter), s => .ok ((), s)
    | (_, .isIdle), s => .ok (s.runSet.isEmpty, s)
    | (_, .pickNext), s => pickNext s
    | (_, .remove t), s => .ok ((), { s with runSet := s.runSet.erase t })
    | (_, .newWaitQueue), s =>
        .ok (s.queueCount, { s with queueCount := s.queueCount + 1 })
    | (_, .queueIsEmpty q), s => .ok ((s.waitSets q).isEmpty, s)
    | (_, .queuePush q t), s =>
        .ok ((), setWaitSet q ((s.waitSets q).insert t) s)
    | (_, .queuePop q), s => wakeOne q s
    | (_, .queuePopAll q), s => wakeAll q s
    | (_, .queueRemove q t), s =>
        .ok ((s.waitSets q).elem t, setWaitSet q ((s.waitSets q).erase t) s)
    | (_, .randomNumber), s =>
        next (fun | .randomNumber value => some value | _ => none) s
    | (_, .randomChoice alts), s => randomChoice alts s
    | (_, .spuriousWakeup), s =>
        next (fun | .spuriousWakeup wake => some wake | _ => none) s
    | (_, .spuriousTryFailure), s =>
        next (fun | .spuriousTryFailure fail => some fail | _ => none) s
    | (_, .isModelChecker), s => .ok (false, s)
    | (_, .isSuspended _), s => .ok (false, s)

/-! ### What the replay scheduler holds -/

def State.holdings (s : State) : Holdings where
  held := ↑s.runSet
  suspended := 0
  waiters q := ↑(s.waitSets q)
  queues := s.queueCount
  slot := false

structure State.WF (s : State) : Prop where
  unused : ∀ q, s.queueCount ≤ q → s.waitSets q = []

variable {s s' : State} {t : ThreadId}

/-- `Next` only moves on in the schedule. -/
theorem next_eq {α : Type} {get : Decision → Option α} {x : α}
    (h : next get s = .ok (x, s')) : s' = { s with next := s.next + 1 } := by
  unfold next at h
  split at h
  · cases h
  · split at h
    · cases h
      rfl
    · cases h

theorem next_holdings {α : Type} {get : Decision → Option α} {x : α}
    (hWF : s.WF) (h : next get s = .ok (x, s')) :
    s'.WF ∧ s'.holdings = s.holdings := by
  rw [next_eq h]
  exact ⟨⟨hWF.unused⟩, rfl⟩

theorem emplace_takes {r : Unit} (hWF : s.WF) (h : s.holdings.Lacks t)
    (hemplace : emplace t s = .ok (r, s')) :
    s'.WF ∧ s.holdings.Takes s'.holdings t ∧ s'.holdings.slot = s.holdings.slot := by
  cases hemplace
  have hnot : t ∉ s.runSet := by
    simpa [Holdings.owned, State.holdings] using h.1
  refine ⟨⟨hWF.unused⟩, ⟨?_, rfl, rfl⟩, rfl⟩
  simp only [Holdings.owned, State.holdings, List.insert_of_not_mem hnot,
    Multiset.add_zero, Multiset.cons_coe]

theorem pickNext_picks {r : Except String ThreadId} (hWF : s.WF)
    (h : pickNext s = .ok (r, s')) :
    ∃ t, r = .ok t ∧ s'.WF ∧ s.holdings.held = t ::ₘ s'.holdings.held ∧
      s.holdings.SameQueues s'.holdings := by
  unfold pickNext at h
  split at h
  · cases h
  · rename_i id s₁ hnext
    rw [next_eq hnext] at h
    split at h
    · rename_i hmem
      cases h
      refine ⟨id, rfl, ⟨hWF.unused⟩, ?_, rfl, rfl⟩
      simp only [State.holdings, Multiset.cons_coe]
      exact Multiset.coe_eq_coe.mpr (List.perm_cons_erase (List.elem_iff.mp hmem))
    · cases h

theorem setWaitSet_wf {q : QueueId} {set : List ThreadId} (hWF : s.WF)
    (hq : q < s.queueCount) : (setWaitSet q set s).WF where
  unused q' hq' := by
    have hne : q' ≠ q := by
      rintro rfl
      exact absurd hq (Nat.not_lt.mpr hq')
    simpa [setWaitSet, hne] using hWF.unused q' hq'

theorem setWaitSet_update (q : QueueId) (set : List ThreadId) :
    s.holdings.QueueUpdate (setWaitSet q set s).holdings q ↑set where
  waiters := by
    funext q'
    by_cases hq : q' = q
    · subst hq
      simp [State.holdings, setWaitSet]
    · simp [State.holdings, setWaitSet, hq]
  held := rfl
  suspended := rfl
  queues := rfl
  slot := rfl

theorem wake_pops {get : Decision → Option (Option ThreadId)} {q : QueueId}
    {r : Option ThreadId} (hWF : s.WF) (hq : q < s.queueCount)
    (h : wake get q s = .ok (r, s')) :
    s'.WF ∧ s.holdings.Pops q r s'.holdings := by
  unfold wake at h
  split at h
  · cases h
  · rename_i s₁ hnext
    cases h
    exact next_holdings hWF hnext
  · rename_i id s₁ hnext
    rw [next_eq hnext] at h
    split at h
    · rename_i hmem
      cases h
      refine ⟨setWaitSet_wf ⟨hWF.unused⟩ hq, ↑((s.waitSets q).erase id), ?_,
        setWaitSet_update q _⟩
      exact Multiset.coe_eq_coe.mpr (List.perm_cons_erase (List.elem_iff.mp hmem))
    · cases h

theorem queueRemove_removes {q : QueueId} (ht : t ∈ s.holdings.waiters q) :
    (s.waitSets q).elem t = true ∧
      s.holdings.QueueUpdate
        (setWaitSet q ((s.waitSets q).erase t) s).holdings q
        ((s.holdings.waiters q).erase t) := by
  refine ⟨List.elem_iff.mpr (Multiset.mem_coe.mp ht), ?_⟩
  rw [State.holdings, Multiset.coe_erase]
  exact setWaitSet_update q _

theorem remove_forgets :
    s.holdings.Forgets
      ({ s with runSet := s.runSet.erase t } : State).holdings t := by
  refine ⟨fun u hu => ?_, fun _ _ => rfl, ⟨?_, le_refl _⟩, rfl, rfl⟩
  · simp only [State.holdings, Multiset.coe_count]
    exact List.count_erase_of_ne hu
  · exact Multiset.coe_le.mpr List.erase_sublist.subperm

theorem queuePush_update {q : QueueId} (h : s.holdings.Lacks t) :
    s.holdings.QueueUpdate
      (setWaitSet q ((s.waitSets q).insert t) s).holdings q
      (t ::ₘ s.holdings.waiters q) := by
  have hnot : t ∉ s.waitSets q := by
    simpa [State.holdings] using h.2 q
  rw [List.insert_of_not_mem hnot]
  exact setWaitSet_update q _

theorem isEmpty_iff (list : List ThreadId) :
    list.isEmpty = true ↔ (↑list : Multiset ThreadId) = 0 := by
  rw [List.isEmpty_iff, Multiset.coe_eq_zero]

theorem implements :
    Interaction.Implements scheduler.answer State.WF State.holdings
      (schedulerSpec false) := by
  apply IScheduler.implements
  · intro ⟨view, q⟩ s r s' hWF _ hpre hexec husable
    cases q with
    | start =>
        cases hexec
        have hempty : s.runSet = [] := by
          simpa [Holdings.pre, Holdings.Vacant, Holdings.owned, State.holdings]
            using hpre
        refine ⟨⟨fun _ _ => rfl⟩, ?_⟩
        simp only [Holdings.post, State.holdings, Holdings.empty, hempty,
          Multiset.coe_nil]
    | interrupt t =>
        obtain ⟨hWF', htakes, _⟩ := emplace_takes hWF hpre.1 hexec
        exact ⟨hWF', htakes⟩
    | switchTo t next => exact emplace_takes hWF hpre hexec
    | yield t => exact emplace_takes hWF hpre hexec
    | wake t => exact emplace_takes hWF hpre hexec
    | spawn t => exact emplace_takes hWF hpre hexec
    | pickNext =>
        obtain ⟨t, rfl, hWF', hheld, hsame⟩ := pickNext_picks hWF hexec
        exact ⟨hWF', hheld, rfl, hsame, rfl, husable⟩
    | remove t =>
        cases hexec
        exact ⟨⟨hWF.unused⟩, remove_forgets⟩
    | queuePush q t =>
        cases hexec
        exact ⟨setWaitSet_wf hWF hpre.2, queuePush_update hpre.1⟩
    | queuePop q => exact wake_pops hWF hpre hexec
    | queuePopAll q => exact wake_pops hWF hpre hexec
    | queueRemove q t =>
        cases hexec
        exact ⟨setWaitSet_wf hWF hpre.2, queueRemove_removes hpre.1⟩
    | queueIsEmpty q =>
        cases hexec
        exact ⟨hWF, isEmpty_iff _, rfl⟩
    | isIdle =>
        cases hexec
        exact ⟨hWF, isEmpty_iff _, rfl⟩
    | newWaitQueue =>
        cases hexec
        refine ⟨⟨fun q hq => hWF.unused q (Nat.le_of_succ_le hq)⟩, rfl, ?_, rfl⟩
        simp [State.holdings, hWF.unused s.queueCount (Nat.le_refl _)]
    | isSuspended t =>
        cases hexec
        exact ⟨hWF, by simp [State.holdings], rfl⟩
    | randomNumber => exact next_holdings hWF hexec
    | randomChoice alts =>
        simp only [scheduler, randomChoice] at hexec
        split at hexec
        · cases hexec
        · rename_i index s₁ hnext
          split at hexec
          · cases hexec
            exact next_holdings hWF hnext
          · cases hexec
    | spuriousWakeup => exact next_holdings hWF hexec
    | spuriousTryFailure => exact next_holdings hWF hexec
    | exit t =>
        cases hexec
        exact ⟨hWF, Holdings.Keeps.refl _⟩
    | lockFree t flag =>
        cases hexec
        exact ⟨hWF, Holdings.Keeps.refl _⟩
    | progress t =>
        cases hexec
        exact ⟨hWF, Holdings.Keeps.refl _⟩
    | newIter =>
        cases hexec
        exact ⟨hWF, rfl⟩
    | isModelChecker =>
        cases hexec
        exact ⟨hWF, rfl⟩
  · intro ⟨view, q⟩ s p _ _ _ hexec
    cases q <;> trivial

end Replay

end TwistSim
