/-
Every run of an exploration, whatever the schedule vector holds by then, makes
its choices in range: it is a run of the guided scheduler.
-/
import TwistSim.DfsGuided

namespace TwistSim

namespace Dfs

open Interaction DecisionTree

variable {α κ σ : Type} {params : Params}

/-- A driver of the scheduler as one decision tree. -/
def flatten (params : Params) :
    Scheduled α → State → Choosing (Except Panic (α × State))
  | .ret value, s => .ret (.ok (value, s))
  | .ask call next, s =>
      (method params call s).bind fun answer =>
        match answer with
        | .error p => .ret (.error p)
        | .ok (r, s) =>
            if call.usable r then flatten params (next r) s
            else .ret (.error (.undefined "use after free"))

/-- A driver that does not start the scheduler, and offers something wherever it
asks for a choice. -/
abbrev Plain (t : Scheduled α) : Prop :=
  t.Asks fun call => call.2 ≠ .start ∧
    ∀ alts, call.2 = .randomChoice alts → 0 < alts

theorem flatten_branching {t : Scheduled α} (h : Plain t) (s : State) :
    Branching Question.alts (flatten params t s) := by
  induction t generalizing s with
  | ret value => trivial
  | ask call next ih =>
      unfold flatten
      refine branching_bind (method_branching h.1.2) ?_
      rintro _ (p | ⟨r, s'⟩) _
      · trivial
      · dsimp only
        split
        · exact ih r (h.2 r) s'
        · trivial

/-- A scheduler that answers by the trees of its methods runs a driver by the
driver's tree. -/
theorem interp_flatten {choice : (q : Question) → κ → Except Panic (Nat × κ)}
    {S : IScheduler σ} {mk : κ × State → σ}
    (hexec : ∀ (call : Call) c s, call.2 ≠ .start → S.exec call (mk (c, s)) =
      (settled ((method params call s).interp choice c)).map fun x => (x.1, mk x.2))
    {t : Scheduled α} (h : Plain t) (c : κ) (s : State) :
    t.interp S.answer (mk (c, s)) =
      (settled ((flatten params t s).interp choice c)).map fun x => (x.1, mk x.2) := by
  induction t generalizing c s with
  | ret value => rfl
  | ask call next ih =>
      rw [interp_ask, IScheduler.answer, hexec call c s h.1.1, flatten, interp_bind]
      rcases (method params call s).interp choice c with p | ⟨p | ⟨r, s'⟩, c'⟩
      · rfl
      · rfl
      · simp only [settled, Except.map]
        by_cases husable : call.usable r = true
        · simp only [husable, if_true]
          exact ih r (h.2 r) c' s'
        · simp only [husable]
          rfl

/-! ### The schedule vector fits the tree -/

/-- The schedule is a path in the tree, and every index is in range. -/
def Fits : Choosing α → Schedule → Prop
  | _, [] => True
  | .ret _, _ :: _ => False
  | .ask q next, branch :: rest =>
      branch.toQuestion = q ∧ branch.index < q.alts ∧ Fits (next branch.index) rest

theorem fits_nil (t : Choosing α) : Fits t [] := by
  cases t <;> trivial

theorem fits_run {t : Choosing α} (hbranch : Branching Question.alts t)
    {schedule : Schedule} (hfits : Fits t schedule) (consumed : Schedule) :
    ∃ x schedule' choices,
      t.interp choose ⟨consumed ++ schedule, consumed.length⟩ =
        .ok (x, ⟨consumed ++ schedule', consumed.length + choices.length⟩) ∧
      Fits t schedule' ∧ Leaf Question.alts t choices x := by
  induction t generalizing schedule consumed with
  | ret x =>
      cases schedule with
      | nil => exact ⟨x, [], [], rfl, trivial, Leaf.ret x⟩
      | cons branch rest => exact absurd hfits id
  | ask q next ih =>
      have hstep : ∀ (branch : Branch) (rest : Schedule),
          branch.toQuestion = q → branch.index < q.alts →
          Fits (next branch.index) rest →
          choose q ⟨consumed ++ schedule, consumed.length⟩ =
            .ok (branch.index, ⟨consumed ++ branch :: rest, consumed.length + 1⟩) →
          ∃ x schedule' choices,
            (ask q next : Choosing α).interp choose
                ⟨consumed ++ schedule, consumed.length⟩ =
              .ok (x, ⟨consumed ++ schedule', consumed.length + choices.length⟩) ∧
            Fits (.ask q next) schedule' ∧
            Leaf Question.alts (.ask q next) choices x := by
        intro branch rest htype hlt hrest hchoose
        obtain ⟨x, schedule', choices, hrun, hfits', hleaf⟩ :=
          ih branch.index (hbranch.2 _ hlt) hrest (consumed ++ [branch])
        simp only [List.append_assoc, List.singleton_append, List.length_append,
          List.length_singleton] at hrun
        refine ⟨x, branch :: schedule', branch.index :: choices, ?_,
          ⟨htype, hlt, hfits'⟩, Leaf.ask hlt hleaf⟩
        rw [interp_ask, hchoose]
        simp only [hrun, List.length_cons, Except.ok.injEq, Prod.mk.injEq, true_and,
          Cursor.mk.injEq]
        omega
      cases schedule with
      | nil =>
          refine hstep { q with index := 0 } [] rfl hbranch.1 (fits_nil _) ?_
          simp [choose]
      | cons branch rest =>
          obtain ⟨htype, hlt, hrest⟩ := hfits
          refine hstep branch rest htype hlt hrest ?_
          simp [choose, ← htype]

theorem fits_backtrack {t : Choosing α} {schedule schedule' : Schedule}
    (hfits : Fits t schedule) (hback : backtrack schedule = (true, schedule')) :
    Fits t schedule' := by
  induction t generalizing schedule schedule' with
  | ret x =>
      cases schedule with
      | nil => cases hback
      | cons branch rest => exact absurd hfits id
  | ask q next ih =>
      cases schedule with
      | nil => cases hback
      | cons branch rest =>
          obtain ⟨htype, hlt, hrest⟩ := hfits
          rw [backtrack_cons] at hback
          cases hbelow : backtrack rest with
          | mk more rest' =>
              rw [hbelow] at hback
              cases more with
              | true =>
                  cases hback
                  exact ⟨htype, hlt, ih branch.index hrest hbelow⟩
              | false =>
                  dsimp only at hback
                  split at hback
                  · cases hback
                  · rename_i hlast
                    cases hback
                    refine ⟨htype, ?_, fits_nil _⟩
                    have halts : branch.alts = q.alts := congrArg Question.alts htype
                    rw [halts] at hlast
                    exact Nat.lt_of_le_of_ne hlt hlast

/-- Guided along the answers of a leaf, the tree ends there. -/
theorem leaf_guide {t : Choosing α} {choices : List Nat} {x : α}
    (h : Leaf Question.alts t choices x) {answers : Nat → Nat} {i : Nat}
    (hanswers : ∀ j choice, choices[j]? = some choice → answers (i + j) = choice) :
    t.interp (guide answers) i = .ok (x, i + choices.length) := by
  induction h generalizing i with
  | ret x => rfl
  | @ask q next choice choices x hlt _ ih =>
      have hfirst : answers i % q.alts = choice := by
        have hchoice : answers i = choice := hanswers 0 choice rfl
        rw [hchoice, Nat.mod_eq_of_lt hlt]
      have hrest := @ih (i + 1) fun j choice hj => by
        rw [Nat.add_assoc, Nat.add_comm 1 j]
        exact hanswers (j + 1) choice hj
      rw [interp_ask, guide]
      simp only [hfirst, hrest, List.length_cons, Except.ok.injEq, Prod.mk.injEq,
        true_and]
      omega

/-! ### Exploration -/

/-- The states of the scheduler in front of the runs that exploration makes. -/
inductive Explored (params : Params) (t : Scheduled α) : Scheduler → Prop where
  | new : Explored params t Scheduler.new
  | next {s s' s'' : Scheduler} {value : α} (h : Explored params t s)
      (hrun : t.interp (scheduler params).answer s = .ok (value, s'))
      (hmore : nextSchedule s' = (true, s'')) : Explored params t s''

theorem scheduler_exec (call : Call) (c : Cursor) (s : State)
    (hcall : call.2 ≠ .start) :
    (scheduler params).exec call ⟨c, s⟩ =
      (settled ((method params call s).interp choose c)).map fun x =>
        (x.1, (⟨x.2.1, x.2.2⟩ : Scheduler)) := by
  have hrun : (scheduler params).exec call ⟨c, s⟩ =
      runMethod (method params call s) c := by
    obtain ⟨view, q⟩ := call
    cases q with
    | start => exact absurd rfl hcall
    | _ => rfl
  rw [hrun, runMethod]
  rcases (method params call s).interp choose c with p | ⟨p | ⟨r, s'⟩, c'⟩ <;> rfl

theorem guided_flatten {t : Scheduled α} (h : Plain t) (answers : Nat → Nat) (i : Nat)
    (s : State) :
    t.interp (guided params answers).answer (i, s) =
      settled ((flatten params t s).interp (guide answers) i) := by
  have hexec : ∀ (call : Call) c s, call.2 ≠ .start →
      (guided params answers).exec call (id (c, s)) =
        (settled ((method params call s).interp (guide answers) c)).map
          fun x => (x.1, id x.2) := by
    intro call c s hcall
    rw [id, guided_exec hcall]
    rcases settled ((method params call s).interp (guide answers) c) with p | x <;> rfl
  refine (interp_flatten hexec h i s).trans ?_
  rcases settled ((flatten params t s).interp (guide answers) i) with p | x <;> rfl

theorem scheduler_flatten {t : Scheduled α} (h : Plain t) (c : Cursor) (s : State) :
    t.interp (scheduler params).answer ⟨c, s⟩ =
      (settled ((flatten params t s).interp choose c)).map fun x =>
        (x.1, (⟨x.2.1, x.2.2⟩ : Scheduler)) :=
  @interp_flatten _ _ _ params choose (scheduler params) (fun x => ⟨x.1, x.2⟩)
    scheduler_exec t h c s

section Driver

variable {view : KernelView} {next : Unit → Scheduled α} {s : Scheduler}

/-- `Start`, and then the driver. -/
theorem interp_start (view : KernelView) (next : Unit → Scheduled α) (s : Scheduler) :
    (ask (view, .start) next : Scheduled α).interp (scheduler params).answer s =
      (next ()).interp (scheduler params).answer
        ⟨⟨s.cursor.schedule, 0⟩, State.fresh⟩ := rfl

/-- In front of every run the schedule fits what the driver is going to ask. -/
theorem explored_fits (hplain : Plain (next ()))
    (h : Explored params (.ask (view, .start) next) s) :
    Fits (flatten params (next ()) State.fresh) s.cursor.schedule := by
  induction h with
  | new => exact fits_nil _
  | @next s s' s'' value _ hrun hmore ih =>
      have hbranch := @flatten_branching _ params _ hplain State.fresh
      obtain ⟨x, schedule', choices, hinterp, hfits, _⟩ := fits_run hbranch ih []
      simp only [List.nil_append, List.length_nil, Nat.zero_add] at hinterp
      rw [interp_start, scheduler_flatten hplain, hinterp] at hrun
      rcases x with p | ⟨v, state⟩
      · cases hrun
      · simp only [settled, Except.map, Except.ok.injEq, Prod.mk.injEq] at hrun
        obtain ⟨-, rfl⟩ := hrun
        cases hback : backtrack schedule' with
        | mk more schedule'' =>
            simp only [nextSchedule, hback, Prod.mk.injEq] at hmore
            obtain ⟨rfl, rfl⟩ := hmore
            exact fits_backtrack hfits hback

/-- Every run of an exploration is a run of the guided scheduler. -/
theorem explored_guided (hplain : Plain (next ()))
    (h : Explored params (.ask (view, .start) next) s) :
    ∃ answers : Nat → Nat,
      ((ask (view, .start) next : Scheduled α).interp (scheduler params).answer s).map
          (fun x => (x.1, x.2.state)) =
        ((ask (view, .start) next : Scheduled α).interp
          (guided params answers).answer (0, State.fresh)).map
          fun x => (x.1, x.2.2) := by
  have hbranch := @flatten_branching _ params _ hplain State.fresh
  obtain ⟨x, schedule', choices, hinterp, _, hleaf⟩ :=
    fits_run hbranch (explored_fits hplain h) []
  simp only [List.nil_append, List.length_nil, Nat.zero_add] at hinterp
  refine ⟨fun i => choices.getD i 0, ?_⟩
  have hguide := @leaf_guide _ _ _ _ hleaf (fun i => choices.getD i 0) 0
    fun j choice hj => by simp [hj]
  have hstart : (ask (view, .start) next : Scheduled α).interp
      (guided params fun i => choices.getD i 0).answer (0, State.fresh) =
      (next ()).interp (guided params fun i => choices.getD i 0).answer
        (0, State.fresh) := rfl
  rw [interp_start, scheduler_flatten hplain, hinterp, hstart, guided_flatten hplain,
    hguide]
  rcases x with p | ⟨v, state⟩ <;> rfl

end Driver

end Dfs

end TwistSim
