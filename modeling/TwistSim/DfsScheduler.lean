/-
The depth-first scheduler.  Its operations are decision trees over `Choose`;
running them against the schedule vector gives the scheduler itself.
-/
import TwistSim.DfsSchedule
import TwistSim.IntrusiveLists
import Mathlib.Data.List.DropRight

namespace TwistSim

namespace Dfs

structure Params where
  maxPreemptions : Option Nat := none
  maxSteps : Option Nat := none
  forcePreemptAfterSteps : Option Nat := none
  wakeOrder : Bool := true
  spuriousWakeups : Bool := false
  spuriousFailures : Bool := false
  deriving DecidableEq, Repr

/-- Threads in the order of their ids. -/
abbrev SortedList := List ThreadId

namespace SortedList

/-- Insert from the back, shifting the threads with larger ids. -/
def push (list : SortedList) (thread : ThreadId) : SortedList :=
  list.rdropWhile (fun other => decide (thread < other)) ++
    thread :: list.rtakeWhile (fun other => decide (thread < other))

def pop (list : SortedList) (i : Nat) : Option ThreadId × SortedList :=
  (list[i]?, list.eraseIdx i)

def popLast (list : SortedList) : Option ThreadId × SortedList :=
  (list.getLast?, list.dropLast)

def remove (list : SortedList) (thread : ThreadId) : Bool × SortedList :=
  (list.elem thread, list.erase thread)

theorem push_perm (list : SortedList) (thread : ThreadId) :
    (list.push thread).Perm (thread :: list) := by
  have hperm := @List.perm_middle _ thread
    (list.rdropWhile (fun other => decide (thread < other)))
    (list.rtakeWhile (fun other => decide (thread < other)))
  rwa [List.rdropWhile_append_rtakeWhile] at hperm

theorem pop_perm {list : SortedList} {i : Nat} (hi : i < list.length) :
    ∃ thread, (list.pop i).1 = some thread ∧
      list.Perm (thread :: (list.pop i).2) :=
  ⟨list[i], by simp [pop, hi], (List.getElem_cons_eraseIdx_perm hi).symm⟩

theorem popLast_perm {list : SortedList} (hne : list ≠ []) :
    ∃ thread, list.popLast.1 = some thread ∧
      list.Perm (thread :: list.popLast.2) := by
  refine ⟨list.getLast hne, by simp [popLast, List.getLast?_eq_some_getLast hne], ?_⟩
  have happend := List.dropLast_append_getLast hne
  have hperm := List.perm_append_singleton (list.getLast hne) list.dropLast
  rw [happend] at hperm
  exact hperm

end SortedList

/-- The scheduler without its schedule vector.  `steps` of a thread is the
field `f1` of its scheduling context. -/
structure State where
  runQueue : SortedList
  active : Option ThreadId
  preempts : Nat
  steps : Nat
  threadSteps : ThreadId → Nat
  fifoQueues : IntrusiveLists QueueId ThreadId
  branchingQueues : QueueId → SortedList
  queueCount : Nat

/-- The state `Start` leaves behind.  The threads and the futexes of a new
simulation are new objects, so their contexts and wait queues are fresh too. -/
def State.fresh : State where
  runQueue := []
  active := none
  preempts := 0
  steps := 0
  threadSteps _ := 0
  fifoQueues := IntrusiveLists.empty
  branchingQueues _ := []
  queueCount := 0

structure Scheduler where
  cursor : Cursor
  state : State

def Scheduler.new : Scheduler := ⟨⟨[], 0⟩, State.fresh⟩

def start (s : Scheduler) : Scheduler :=
  ⟨{ s.cursor with branchIndex := 0 }, State.fresh⟩

def nextSchedule (s : Scheduler) : Bool × Scheduler :=
  let (more, schedule) := backtrack s.cursor.schedule
  (more, { s with cursor := { s.cursor with schedule } })

section Operations

variable (params : Params) (view : KernelView)

def State.push (s : State) (thread : ThreadId) : State :=
  { s with runQueue := s.runQueue.push thread }

/-- `AddStep`: the reason of a prune, or nothing. -/
def addStep (running : Option ThreadId) (s : State) :
    Except String Unit × State :=
  let s := { s with steps := s.steps + 1 }
  match params.maxSteps with
  | some limit =>
      if s.steps > limit then
        (.error s!"max_steps limit = {limit} reached", s)
      else (.ok (), bump s)
  | none => (.ok (), bump s)
where
  bump (s : State) : State :=
    match running with
    | some thread =>
        { s with
          threadSteps := Function.update s.threadSteps thread
            (s.threadSteps thread + 1) }
    | none => s

def resetSteps (next : ThreadId) (s : State) : State :=
  { s with threadSteps := Function.update s.threadSteps next 0 }

def forcedPreempt (running : ThreadId) (s : State) : Bool :=
  match params.forcePreemptAfterSteps with
  | some limit => limit ≤ s.threadSteps running
  | none => false

def maxPreemptsReached (s : State) : Bool :=
  match params.maxPreemptions with
  | some limit => limit ≤ s.preempts
  | none => false

def either (type : BranchType) : Choosing Bool :=
  .ask ⟨type, 2⟩ fun index => .ret (index == 1)

def pick (list : SortedList) (type : BranchType) :
    Choosing (Option ThreadId × SortedList) :=
  if list.isEmpty then .ret (none, list)
  else if list.length = 1 then .ret (list.pop 0)
  else .ask ⟨type, list.length⟩ fun index => .ret (list.pop index)

/-- Shall `active` be preempted? -/
def preempt (active : ThreadId) (s : State) : Choosing (Except String Bool) :=
  if !(view.attrs active).preemptive then .ret (.ok false)
  else if s.runQueue.isEmpty then .ret (.ok false)  -- Alone
  else if forcedPreempt params active s then
    if maxPreemptsReached params s then
      let limit := params.forcePreemptAfterSteps.getD 0
      let bound := params.maxPreemptions.getD 0
      .ret (.error s!"Simulation blocked: force_preempt_after = {limit} blocked by max_preempts = {bound}")
    else .ret (.ok true)
  else if maxPreemptsReached params s then .ret (.ok false)
  else (either .preempt).bind fun yes => .ret (.ok yes)

/-- Take the next thread from the run queue; a preempted thread goes back only
after its successor has been chosen. -/
def switch (preempted : Option ThreadId) (s : State) :
    Choosing (Except Panic (Except String ThreadId × State)) :=
  (pick s.runQueue .pickNext).bind fun (next, rest) =>
    match next with
    | none => .ret (.error (.undefined "ResetSteps on a null thread"))
    | some next =>
        let s := { s with runQueue := rest }
        let s := match preempted with
          | some thread => { s with preempts := s.preempts + 1 }.push thread
          | none => s
        .ret (.ok (.ok next, resetSteps next s))

def pickNext (s : State) :
    Choosing (Except Panic (Except String ThreadId × State)) :=
  let active := s.active
  let (limit, s) := addStep params active { s with active := none }
  match limit with
  | .error why => .ret (.ok (.error why, s))
  | .ok () =>
      match active with
      | none => switch none s
      | some active =>
          (preempt params view active s).bind fun answer =>
            match answer with
            | .error why => .ret (.ok (.error why, s))
            | .ok false => .ret (.ok (.ok active, s))
            | .ok true => switch (some active) s

/-- `BranchingWaitQueue`, or `FifoWaitQueue` without `wake_order`. -/
def queuePush (queue : QueueId) (thread : ThreadId) (s : State) :
    Except Panic State :=
  if params.wakeOrder then
    .ok { s with
      branchingQueues := Function.update s.branchingQueues queue
        ((s.branchingQueues queue).push thread) }
  else (s.fifoQueues.pushBack queue thread).map fun q =>
    { s with fifoQueues := q }

def queueIsEmpty (queue : QueueId) (s : State) : Bool :=
  if params.wakeOrder then (s.branchingQueues queue).isEmpty
  else s.fifoQueues.isEmpty queue

def setBranching (queue : QueueId) (s : State)
    (popped : Option ThreadId × SortedList) : Option ThreadId × State :=
  (popped.1, { s with
    branchingQueues := Function.update s.branchingQueues queue popped.2 })

def setFifo (s : State)
    (popped : Option ThreadId × IntrusiveLists QueueId ThreadId) :
    Option ThreadId × State :=
  (popped.1, { s with fifoQueues := popped.2 })

/-- `Pop` of a branching queue is `PickWaiter`. -/
def queuePop (queue : QueueId) (s : State) :
    Choosing (Option ThreadId × State) :=
  if params.wakeOrder then
    (pick (s.branchingQueues queue) .wakeOne).bind fun popped =>
      .ret (setBranching queue s popped)
  else .ret (setFifo s (s.fifoQueues.popFront queue))

def queuePopAll (queue : QueueId) (s : State) : Option ThreadId × State :=
  if params.wakeOrder then
    setBranching queue s (s.branchingQueues queue).popLast
  else setFifo s (s.fifoQueues.popFront queue)

def queueRemove (queue : QueueId) (thread : ThreadId) (s : State) :
    Bool × State :=
  if params.wakeOrder then
    let (found, list) := (s.branchingQueues queue).remove thread
    (found, { s with
      branchingQueues := Function.update s.branchingQueues queue list })
  else
    let (found, lists) := s.fifoQueues.remove thread
    (found, { s with fifoQueues := lists })

end Operations

def done {α : Type} (r : α) (s : State) :
    Choosing (Except Panic (α × State)) := .ret (.ok (r, s))

def unsupported {α : Type} (error : String) :
    Choosing (Except Panic (α × State)) := .ret (.error (.unreachable error))

/-- Every method but `Start`, as a decision tree over `Choose`. -/
def method (params : Params) (call : Call) (s : State) :
    Choosing (Except Panic (call.Reply × State)) :=
  match call with
  | (_, .start) => done () s
  | (_, .interrupt thread) => done () { s with active := some thread }
  | (_, .switchTo _ _) => unsupported "SwitchTo not supported by DfsScheduler"
  | (_, .yield thread) => done () (s.push thread)
  | (_, .wake thread) => done () (s.push thread)
  | (_, .spawn thread) => done () (s.push thread)
  | (_, .exit thread) =>
      let (limit, s) := addStep params (some thread) s
      done limit s
  | (_, .lockFree _ _) => done () s
  | (_, .progress _) => done () s
  | (_, .newIter) => done () s
  | (_, .isIdle) => done (s.runQueue.isEmpty && s.active.isNone) s
  | (view, .pickNext) => pickNext params view s
  | (_, .remove thread) =>
      done () { s with runQueue := (s.runQueue.remove thread).2 }
  | (_, .newWaitQueue) =>
      done s.queueCount { s with queueCount := s.queueCount + 1 }
  | (_, .queueIsEmpty queue) => done (queueIsEmpty params queue s) s
  | (_, .queuePush queue thread) =>
      .ret ((queuePush params queue thread s).map fun s => ((), s))
  | (_, .queuePop queue) =>
      (queuePop params queue s).bind fun (waiter, s) => done waiter s
  | (_, .queuePopAll queue) =>
      let (waiter, s) := queuePopAll params queue s
      done waiter s
  | (_, .queueRemove queue thread) =>
      let (found, s) := queueRemove params queue thread s
      done found s
  | (_, .randomNumber) => unsupported "RandomNumber not supported"
  | (_, .randomChoice alts) =>
      .ask ⟨.randomChoice, alts⟩ fun index => done index s
  | (_, .spuriousWakeup) =>
      if params.spuriousWakeups then
        (either .spuriousWakeup).bind fun yes => done yes s
      else done false s
  | (_, .spuriousTryFailure) =>
      if params.spuriousFailures then
        (either .spuriousTryFailure).bind fun yes => done yes s
      else done false s
  | (_, .isModelChecker) => done true s
  | (_, .isSuspended _) => done false s

/-- Run a method against the schedule vector. -/
def runMethod {α : Type} (t : Choosing (Except Panic (α × State)))
    (cursor : Cursor) : Except Panic (α × Scheduler) :=
  match t.interp choose cursor with
  | .error p => .error p
  | .ok (.error p, _) => .error p
  | .ok (.ok (r, state), cursor) => .ok (r, ⟨cursor, state⟩)

/-- `dfs::Scheduler`. -/
def scheduler (params : Params) : IScheduler Scheduler where
  nextSchedule := nextSchedule
  exec call s :=
    match call with
    | (_, .start) => .ok ((), start s)
    | call => runMethod (method params call s.state) s.cursor

end Dfs

end TwistSim
