/-
The schedule vector of the depth-first scheduler: `Choose` replays it and grows
it inside a run, `Backtrack` moves it to the next schedule between runs.
-/
import TwistSim.Scheduler
import TwistSim.DecisionTree

namespace TwistSim

namespace Dfs

inductive BranchType where
  | pickNext | wakeOne | preempt | randomChoice | spuriousWakeup
  | spuriousTryFailure
  deriving DecidableEq, Repr

/-- The arguments of `Choose`. -/
structure Question where
  type : BranchType
  alts : Nat
  deriving DecidableEq, Repr

structure Branch extends Question where
  index : Nat
  deriving DecidableEq, Repr

abbrev Schedule := List Branch

/-- The schedule together with the position of the run inside it. -/
structure Cursor where
  schedule : Schedule
  branchIndex : Nat
  deriving DecidableEq, Repr

def choose (q : Question) (c : Cursor) : Except Panic (Nat × Cursor) :=
  match c.schedule[c.branchIndex]? with
  | some branch =>
      -- Replay
      if branch.type = q.type then
        .ok (branch.index, { c with branchIndex := c.branchIndex + 1 })
      else
        .error (.assertion "Unexpected branch type")
  | none =>
      -- Go left
      .ok (0,
        { schedule := c.schedule ++ [{ q with index := 0 }]
          branchIndex := c.branchIndex + 1 })

/-- The loop of `Backtrack`, over the schedule from its back. -/
def backtrackLoop : Schedule → Bool × Schedule
  | [] => (false, [])
  | last :: rest =>
      if last.index + 1 = last.alts then backtrackLoop rest
      else (true, ({ last with index := last.index + 1 } :: rest).reverse)

def backtrack (s : Schedule) : Bool × Schedule := backtrackLoop s.reverse

/-- Programs whose only questions are put to `Choose`. -/
abbrev Choosing (α : Type) := DecisionTree Question α

theorem backtrackLoop_append_single (s : Schedule) (first : Branch) :
    backtrackLoop (s ++ [first]) =
      match backtrackLoop s with
      | (true, s') => (true, first :: s')
      | (false, _) =>
          if first.index + 1 = first.alts then (false, [])
          else (true, [{ first with index := first.index + 1 }]) := by
  induction s with
  | nil => simp [backtrackLoop]
  | cons last rest ih =>
      by_cases hlast : last.index + 1 = last.alts
      · simp [backtrackLoop, hlast, ih]
      · simp [backtrackLoop, hlast]

/-- Backtracking works below the first branch as long as it can, and moves the
first branch only when nothing is left below it. -/
theorem backtrack_cons (first : Branch) (s : Schedule) :
    backtrack (first :: s) =
      match backtrack s with
      | (true, s') => (true, first :: s')
      | (false, _) =>
          if first.index + 1 = first.alts then (false, [])
          else (true, [{ first with index := first.index + 1 }]) := by
  simp only [backtrack, List.reverse_cons, backtrackLoop_append_single]

end Dfs

end TwistSim
