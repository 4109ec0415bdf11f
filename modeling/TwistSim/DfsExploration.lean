/-
Depth-first exploration of a decision tree.  The loop `Start; run; NextSchedule`
visits the leaves of the tree once each, from left to right.
-/
import TwistSim.DfsScheduler

namespace TwistSim

namespace Dfs

open Interaction

variable {α : Type}

/-- One run from the beginning: `Start`, then the program. -/
def runOnce (t : Choosing α) (s : Scheduler) :
    Except Panic ((List Nat × α) × Scheduler) :=
  match t.answered.interp choose (start s).cursor with
  | .error p => .error p
  | .ok (leaf, cursor) => .ok (leaf, { start s with cursor })

/-- `do { Start; run } while (NextSchedule())`, for at most `fuel` runs.  The
result lists the answers and the outcome of every run. -/
def explore (t : Choosing α) : Nat → Scheduler →
    Except Panic (List (List Nat × α))
  | 0, _ => .error (.undefined "out of fuel")
  | fuel + 1, s =>
      match runOnce t s with
      | .error p => .error p
      | .ok (leaf, s) =>
          match nextSchedule s with
          | (false, _) => .ok [leaf]
          | (true, s) => (explore t fuel s).map fun rest => leaf :: rest

/-- What a run does to the part of the schedule it has not yet consumed. -/
def runSuffix : Choosing α → Schedule →
    Except Panic ((List Nat × α) × Schedule)
  | .ret value, s => .ok (([], value), s)
  | .ask q next, [] =>
      (runSuffix (next 0) []).map fun (leaf, s) =>
        ((0 :: leaf.1, leaf.2), { q with index := 0 } :: s)
  | .ask q next, branch :: s =>
      if branch.type = q.type then
        (runSuffix (next branch.index) s).map fun (leaf, s) =>
          ((branch.index :: leaf.1, leaf.2), branch :: s)
      else .error (.assertion "Unexpected branch type")

/-- The cursor run against `consumed ++ s` is `runSuffix` on `s`. -/
theorem interp_answered_choose (t : Choosing α) (consumed s : Schedule) :
    (t.answered.interp choose ⟨consumed ++ s, consumed.length⟩) =
      (runSuffix t s).map fun (leaf, s') =>
        (leaf, ⟨consumed ++ s', consumed.length + leaf.1.length⟩) := by
  induction t generalizing consumed s with
  | ret value => rfl
  | ask q next ih =>
      rw [DecisionTree.answered, interp_ask]
      cases s with
      | nil =>
          have hchoose : choose q ⟨consumed ++ [], consumed.length⟩ =
              .ok (0, ⟨(consumed ++ [{ q with index := 0 }]) ++ [],
                (consumed ++ [({ q with index := 0 } : Branch)]).length⟩) := by
            simp [choose]
          rw [hchoose]
          simp only [interp_bind, ih, runSuffix]
          cases runSuffix (next 0) [] with
          | error p => rfl
          | ok result => simp [Except.map, Nat.add_comm, Nat.add_left_comm]
      | cons branch s =>
          by_cases htype : branch.type = q.type
          · have hchoose : choose q ⟨consumed ++ branch :: s, consumed.length⟩ =
                .ok (branch.index, ⟨(consumed ++ [branch]) ++ s,
                  (consumed ++ [branch]).length⟩) := by
              simp [choose, htype]
            rw [hchoose]
            simp only [interp_bind, ih, runSuffix, htype, if_true]
            cases runSuffix (next branch.index) s with
            | error p => rfl
            | ok result => simp [Except.map, Nat.add_comm, Nat.add_left_comm]
          · simp [choose, runSuffix, htype, Except.map]

theorem runOnce_eq (t : Choosing α) (s : Scheduler) :
    runOnce t s = (runSuffix t s.cursor.schedule).map fun (leaf, s') =>
      (leaf, { start s with cursor := ⟨s', leaf.1.length⟩ }) := by
  have hrun := interp_answered_choose t [] s.cursor.schedule
  simp only [List.nil_append, List.length_nil, Nat.zero_add] at hrun
  unfold runOnce
  simp only [start, hrun]
  cases runSuffix t s.cursor.schedule <;> rfl

/-- Starting from the schedule `s`, exploration of `t` visits the listed
leaves and then runs out of schedules. -/
inductive Visits (t : Choosing α) : Schedule → List (List Nat × α) → Prop where
  | last {s s' : Schedule} {leaf : List Nat × α}
      (hrun : runSuffix t s = .ok (leaf, s')) (hback : backtrack s' = (false, []))
      : Visits t s [leaf]
  | more {s s' s'' : Schedule} {leaf : List Nat × α}
      {rest : List (List Nat × α)}
      (hrun : runSuffix t s = .ok (leaf, s'))
      (hback : backtrack s' = (true, s''))
      (h : Visits t s'' rest) : Visits t s (leaf :: rest)

theorem Visits.explore_eq {t : Choosing α} {sched : Schedule}
    {visited : List (List Nat × α)} (h : Visits t sched visited)
    (s : Scheduler) (hsched : s.cursor.schedule = sched)
    (fuel : Nat) (hfuel : visited.length ≤ fuel) :
    explore t fuel s = .ok visited := by
  induction h generalizing s fuel with
  | @last sched sched' leaf hrun hback =>
      obtain ⟨fuel, rfl⟩ : ∃ n, fuel = n + 1 := ⟨fuel - 1, by simp at hfuel; omega⟩
      simp [explore, runOnce_eq, hsched, hrun, Except.map, nextSchedule, hback]
  | @more sched sched' sched'' leaf rest hrun hback _ ih =>
      obtain ⟨fuel, rfl⟩ : ∃ n, fuel = n + 1 := ⟨fuel - 1, by simp at hfuel; omega⟩
      have hrest := ih { start s with cursor := ⟨sched'', leaf.1.length⟩ } rfl
        fuel (by simp at hfuel; omega)
      simp [explore, runOnce_eq, hsched, hrun, Except.map, nextSchedule, hback,
        hrest]

section Node

variable {q : Question} {next : Nat → Choosing α}

theorem runSuffix_ask {i : Nat} {s s' : Schedule} {leaf : List Nat × α}
    (h : runSuffix (next i) s = .ok (leaf, s')) :
    runSuffix (.ask q next) ({ q with index := i } :: s) =
      .ok ((i :: leaf.1, leaf.2), { q with index := i } :: s') := by
  simp [runSuffix, h, Except.map]

/-- Growing the schedule starts with the first answer. -/
theorem runSuffix_ask_nil :
    runSuffix (.ask q next) [] =
      runSuffix (.ask q next) [{ q with index := 0 }] := by
  simp [runSuffix]

theorem Visits.from_nil {visited : List (List Nat × α)}
    (h : Visits (.ask q next) [{ q with index := 0 }] visited) :
    Visits (.ask q next) [] visited := by
  cases h with
  | last hrun hback => exact Visits.last (runSuffix_ask_nil.trans hrun) hback
  | more hrun hback h =>
      exact Visits.more (runSuffix_ask_nil.trans hrun) hback h

/-- The leaves below the last answer of a node are the last leaves. -/
theorem Visits.lift_last {i : Nat} (hi : i + 1 = q.alts) {s : Schedule}
    {visited : List (List Nat × α)} (h : Visits (next i) s visited) :
    Visits (.ask q next) ({ q with index := i } :: s)
      (visited.map fun leaf => (i :: leaf.1, leaf.2)) := by
  induction h with
  | last hrun hback =>
      apply Visits.last (runSuffix_ask hrun)
      simp [backtrack_cons, hback, hi]
  | more hrun hback _ ih =>
      apply Visits.more (runSuffix_ask hrun) _ ih
      simp [backtrack_cons, hback]

/-- After the leaves below one answer come the leaves below the next. -/
theorem Visits.lift_more {i : Nat} (hi : i + 1 ≠ q.alts) {s : Schedule}
    {visited rest : List (List Nat × α)} (h : Visits (next i) s visited)
    (hrest : Visits (.ask q next) [{ q with index := i + 1 }] rest) :
    Visits (.ask q next) ({ q with index := i } :: s)
      ((visited.map fun leaf => (i :: leaf.1, leaf.2)) ++ rest) := by
  induction h with
  | last hrun hback =>
      apply Visits.more (runSuffix_ask hrun) _ hrest
      simp [backtrack_cons, hback, hi]
  | more hrun hback _ ih =>
      apply Visits.more (runSuffix_ask hrun) _ ih
      simp [backtrack_cons, hback]

/-- The answers from `i` on, by induction on how many are left. -/
theorem Visits.answers_from (hchild : ∀ i < q.alts,
      Visits (next i) [] ((next i).leaves Question.alts))
    (left : Nat) {i : Nat} (hi : i + left + 1 = q.alts) :
    Visits (.ask q next) [{ q with index := i }]
      ((List.range' i (left + 1)).flatMap fun j =>
        ((next j).leaves Question.alts).map fun leaf => (j :: leaf.1, leaf.2)) := by
  induction left generalizing i with
  | zero =>
      have hlast := (hchild i (by omega)).lift_last (q := q) (by omega)
      simpa using hlast
  | succ left ih =>
      have hrest := ih (i := i + 1) (by omega)
      have hmore := (hchild i (by omega)).lift_more (q := q) (by omega) hrest
      simpa [List.range'_succ] using hmore

end Node

/-- From the empty schedule every leaf is visited, left to right. -/
theorem visits_leaves {t : Choosing α} (hbranch : t.Branching Question.alts) :
    Visits t [] (t.leaves Question.alts) := by
  induction t with
  | ret value =>
      have hrun : runSuffix (.ret value) [] = .ok (([], value), []) := rfl
      exact Visits.last hrun rfl
  | ask q next ih =>
      obtain ⟨hpos, hnext⟩ := hbranch
      have hchild : ∀ i < q.alts,
          Visits (next i) [] (DecisionTree.leaves Question.alts (next i)) :=
        fun i hi => ih i (hnext i hi)
      have hall := Visits.answers_from (q := q) (i := 0) hchild (q.alts - 1)
        (by rw [Nat.zero_add]; exact Nat.sub_add_cancel hpos)
      rw [Nat.sub_add_cancel hpos, ← List.range_eq_range'] at hall
      exact hall.from_nil

theorem explore_eq_leaves {t : Choosing α} (hbranch : t.Branching Question.alts)
    {fuel : Nat} (hfuel : (t.leaves Question.alts).length ≤ fuel) :
    explore t fuel Scheduler.new = .ok (t.leaves Question.alts) :=
  (visits_leaves hbranch).explore_eq Scheduler.new rfl fuel hfuel

/-- Exploration of a finite decision tree terminates without a failed
assertion, its runs are in lexicographic order of their answers, and they are
exactly the leaves of the tree, each visited once. -/
theorem explore_exhaustive (t : Choosing α) (hbranch : t.Branching Question.alts) :
    ∃ runs : List (List Nat × α),
      (∀ fuel, runs.length ≤ fuel → explore t fuel Scheduler.new = .ok runs) ∧
      runs.Pairwise (fun earlier later => earlier.1 < later.1) ∧
      ∀ answers value, (answers, value) ∈ runs ↔
        DecisionTree.Leaf Question.alts t answers value :=
  ⟨t.leaves Question.alts, fun _ hfuel => explore_eq_leaves hbranch hfuel,
    t.leaves_pairwise_lt Question.alts, fun answers value =>
      t.mem_leaves_iff Question.alts answers value⟩

/-- A coin, and after heads a choice of three. -/
def coinThenThree : Choosing Nat :=
  .ask ⟨.randomChoice, 2⟩ fun coin =>
    if coin = 0 then .ret 7 else .ask ⟨.wakeOne, 3⟩ fun i => .ret i

theorem coinThenThree_exhaustive :
    coinThenThree.Branching Question.alts ∧
      ∃ runs : List (List Nat × Nat),
        (∀ fuel, runs.length ≤ fuel →
          explore coinThenThree fuel Scheduler.new = .ok runs) ∧
        runs.Pairwise (fun earlier later => earlier.1 < later.1) ∧
        ∀ answers value, (answers, value) ∈ runs ↔
          DecisionTree.Leaf Question.alts coinThenThree answers value := by
  have hbranch : coinThenThree.Branching Question.alts := by
    refine ⟨by decide, fun i _ => ?_⟩
    by_cases hi : i = 0
    · simp [hi, DecisionTree.Branching]
    · simp [hi, DecisionTree.Branching]
  exact ⟨hbranch, explore_exhaustive coinThenThree hbranch⟩

example : explore coinThenThree 10 Scheduler.new =
    .ok [([0], 7), ([1, 0], 0), ([1, 1], 1), ([1, 2], 2)] := by
  rfl

end Dfs

end TwistSim
