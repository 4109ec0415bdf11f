/-
One turn of a client under the depth-first scheduler: the answers of `PickNext`
are the choices that preemption-bounded scheduling allows.
-/
import TwistSim.DfsClient

namespace TwistSim

namespace Dfs

open Interaction DecisionTree

variable {P : Type} {params : Params} {view : KernelView}

/-! ### The leaves of `PickNext` -/

/-- The answers with which `Pick` takes the thread at `i`. -/
def pickAnswers (list : SortedList) (i : Nat) : List Nat :=
  if list.length = 1 then [] else [i]

theorem pick_leaf_iff {list : SortedList} {type : BranchType} (hne : list ≠ [])
    {answers : List Nat} {r : Option ThreadId × SortedList} :
    Leaf Question.alts (pick list type) answers r ↔
      ∃ i, ∃ hi : i < list.length, answers = pickAnswers list i ∧
        r = (some list[i], list.eraseIdx i) := by
  have hempty : list.isEmpty = false := by simpa using hne
  unfold pick pickAnswers
  simp only [hempty, Bool.false_eq_true, if_false]
  by_cases hone : list.length = 1
  · simp only [hone, if_true]
    rw [leaf_ret_iff]
    constructor
    · rintro ⟨rfl, rfl⟩
      exact ⟨0, by omega, rfl, by simp [SortedList.pop, hone]⟩
    · rintro ⟨i, hi, rfl, rfl⟩
      obtain rfl : i = 0 := by omega
      exact ⟨rfl, by simp [SortedList.pop, hone]⟩
  · simp only [hone, if_false, leaf_ask_iff, leaf_ret_iff]
    constructor
    · rintro ⟨i, _, rfl, hi, rfl, rfl⟩
      exact ⟨i, hi, rfl, by simp [SortedList.pop, show i < list.length from hi]⟩
    · rintro ⟨i, hi, rfl, rfl⟩
      exact ⟨i, [], rfl, hi, rfl, by simp [SortedList.pop, hi]⟩

/-- The state after the thread `next` at `i` has been taken. -/
def switched (preempted : Option ThreadId) (i : Nat) (next : ThreadId)
    (s : State) : State :=
  let s := { s with runQueue := s.runQueue.eraseIdx i }
  let s := match preempted with
    | some thread => { s with preempts := s.preempts + 1 }.push thread
    | none => s
  resetSteps next s

theorem switch_leaf_iff {preempted : Option ThreadId} {s : State}
    (hne : s.runQueue ≠ []) {answers : List Nat}
    {r : Except Panic (Except String ThreadId × State)} :
    Leaf Question.alts (switch preempted s) answers r ↔
      ∃ i, ∃ hi : i < s.runQueue.length,
        answers = pickAnswers s.runQueue i ∧
        r = .ok (.ok s.runQueue[i], switched preempted i s.runQueue[i] s) := by
  unfold switch
  rw [leaf_bind_iff]
  constructor
  · rintro ⟨first, rest, x, rfl, hpick, hrest⟩
    obtain ⟨i, hi, rfl, rfl⟩ := (pick_leaf_iff hne).mp hpick
    obtain ⟨rfl, rfl⟩ := leaf_ret_iff.mp hrest
    exact ⟨i, hi, by simp, rfl⟩
  · rintro ⟨i, hi, rfl, rfl⟩
    exact ⟨_, [], _, by simp, (pick_leaf_iff hne).mpr ⟨i, hi, rfl, rfl⟩,
      leaf_ret_iff.mpr ⟨rfl, rfl⟩⟩

/-- Is the interrupted thread `active` offered for preemption? -/
def offered (params : Params) (view : KernelView) (active : ThreadId)
    (s : State) : Bool :=
  (view.attrs active).preemptive && !s.runQueue.isEmpty &&
    !maxPreemptsReached params s

theorem preempt_leaf_iff (hforce : params.forcePreemptAfterSteps = none)
    {active : ThreadId} {s : State} {answers : List Nat}
    {r : Except String Bool} :
    Leaf Question.alts (preempt params view active s) answers r ↔
      (answers = (if offered params view active s then [0] else []) ∧
        r = .ok false) ∨
      (offered params view active s = true ∧ answers = [1] ∧ r = .ok true) := by
  have hnot : forcedPreempt params active s = false := by
    simp [forcedPreempt, hforce]
  unfold preempt offered
  cases hpre : (view.attrs active).preemptive with
  | false => simp [leaf_ret_iff]
  | true =>
      cases hempty : s.runQueue.isEmpty with
      | true => simp [leaf_ret_iff]
      | false =>
          cases hmax : maxPreemptsReached params s with
          | true => simp [hnot, leaf_ret_iff]
          | false =>
              simp only [Bool.not_true, Bool.false_eq_true, if_false, hnot,
                Bool.not_false, Bool.and_self, if_true, true_and]
              constructor
              · intro h
                obtain ⟨_, _, yes, rfl, hask, hret⟩ := leaf_bind_iff.mp h
                obtain ⟨i, _, rfl, hi, hleaf⟩ := leaf_ask_iff.mp hask
                obtain ⟨rfl, rfl⟩ := leaf_ret_iff.mp hleaf
                obtain ⟨rfl, rfl⟩ := leaf_ret_iff.mp hret
                have hi2 : i < 2 := hi
                obtain rfl | rfl : i = 0 ∨ i = 1 := by omega
                · exact Or.inl ⟨rfl, rfl⟩
                · exact Or.inr ⟨rfl, rfl⟩
              · intro h
                rcases h with ⟨rfl, rfl⟩ | ⟨rfl, rfl⟩
                · exact leaf_bind_iff.mpr ⟨[0], [], false, rfl,
                    Leaf.ask (by decide) (Leaf.ret _), Leaf.ret _⟩
                · exact leaf_bind_iff.mpr ⟨[1], [], true, rfl,
                    Leaf.ask (by decide) (Leaf.ret _), Leaf.ret _⟩

/-- Without `max_steps`, counting a step changes only the counters. -/
theorem addStep_spec (hsteps : params.maxSteps = none)
    (running : Option ThreadId) (s : State) :
    (addStep params running s).1 = .ok () ∧
      (addStep params running s).2.runQueue = s.runQueue ∧
      (addStep params running s).2.active = s.active ∧
      (addStep params running s).2.preempts = s.preempts := by
  cases running <;> simp [addStep, addStep.bump, hsteps]

/-- The state in which `PickNext` makes its choice. -/
def choosing (params : Params) (s : State) : State :=
  (addStep params s.active { s with active := none }).2

theorem choosing_spec (hsteps : params.maxSteps = none) (s : State) :
    (choosing params s).runQueue = s.runQueue ∧
      (choosing params s).active = none ∧
      (choosing params s).preempts = s.preempts := by
  have hspec := addStep_spec hsteps s.active { s with active := none }
  exact hspec.2

theorem pickNext_fresh_leaf_iff (hsteps : params.maxSteps = none) {s : State}
    (hactive : s.active = none) (hne : s.runQueue ≠ []) {answers : List Nat}
    {r : Except Panic (Except String ThreadId × State)} :
    Leaf Question.alts (pickNext params view s) answers r ↔
      ∃ i, ∃ hi : i < s.runQueue.length,
        answers = pickAnswers s.runQueue i ∧
        r = .ok (.ok s.runQueue[i],
          switched none i s.runQueue[i] (choosing params s)) := by
  have hlimit := (addStep_spec hsteps s.active { s with active := none }).1
  have hqueue := (choosing_spec hsteps s).1
  have hunfold : pickNext params view s = switch none (choosing params s) := by
    unfold pickNext choosing
    rw [hactive] at hlimit ⊢
    simp only [hlimit]
  rw [hunfold, switch_leaf_iff (hqueue ▸ hne)]
  simp only [hqueue]

theorem pickNext_active_leaf_iff (hsteps : params.maxSteps = none)
    (hforce : params.forcePreemptAfterSteps = none) {s : State}
    {active : ThreadId} (hactive : s.active = some active) {answers : List Nat}
    {r : Except Panic (Except String ThreadId × State)} :
    Leaf Question.alts (pickNext params view s) answers r ↔
      (answers = (if offered params view active s then [0] else []) ∧
        r = .ok (.ok active, choosing params s)) ∨
      (offered params view active s = true ∧ ∃ i, ∃ hi : i < s.runQueue.length,
        answers = 1 :: pickAnswers s.runQueue i ∧
        r = .ok (.ok s.runQueue[i],
          switched (some active) i s.runQueue[i] (choosing params s))) := by
  have hlimit := (addStep_spec hsteps s.active { s with active := none }).1
  obtain ⟨hqueue, _, hpreempts⟩ := choosing_spec hsteps s
  have hoffer : offered params view active (choosing params s) =
      offered params view active s := by
    simp [offered, maxPreemptsReached, hqueue, hpreempts]
  obtain ⟨go, hunfold, hstay, hswitch⟩ : ∃ go, pickNext params view s =
        (preempt params view active (choosing params s)).bind go ∧
      go (.ok false) = .ret (.ok (.ok active, choosing params s)) ∧
      go (.ok true) = switch (some active) (choosing params s) := by
    unfold pickNext choosing
    rw [hactive] at hlimit ⊢
    simp only [hlimit]
    exact ⟨_, rfl, rfl, rfl⟩
  rw [hunfold, leaf_bind_iff]
  simp only [preempt_leaf_iff hforce, hoffer]
  constructor
  · rintro ⟨first, rest, x, rfl, ⟨rfl, rfl⟩ | ⟨hyes, rfl, rfl⟩, hrest⟩
    · rw [hstay] at hrest
      obtain ⟨rfl, rfl⟩ := leaf_ret_iff.mp hrest
      exact Or.inl ⟨by simp, rfl⟩
    · rw [hswitch] at hrest
      have hne : (choosing params s).runQueue ≠ [] := by
        rw [hqueue]
        intro hnil
        simp [offered, hnil] at hyes
      obtain ⟨i, hi, rfl, rfl⟩ := (switch_leaf_iff hne).mp hrest
      simp only [hqueue] at hi ⊢
      exact Or.inr ⟨hyes, i, hi, rfl, rfl⟩
  · rintro (⟨rfl, rfl⟩ | ⟨hyes, i, hi, rfl, rfl⟩)
    · refine ⟨_, [], .ok false, by simp, Or.inl ⟨rfl, rfl⟩, ?_⟩
      rw [hstay]
      exact leaf_ret_iff.mpr ⟨rfl, rfl⟩
    · have hne : (choosing params s).runQueue ≠ [] := by
        rw [hqueue]
        intro hnil
        simp [hnil] at hi
      refine ⟨[1], pickAnswers s.runQueue i, .ok true, rfl, Or.inr ⟨hyes, rfl, rfl⟩, ?_⟩
      rw [hswitch, switch_leaf_iff hne]
      simp only [hqueue]
      exact ⟨i, hi, rfl, rfl⟩

/-! ### The scheduler against the abstract configuration -/

/-- What a client and the scheduler state amount to. -/
def config (p : P) (s : State) : Config P :=
  ⟨p, ↑s.runQueue, s.active, s.preempts⟩

theorem coe_push (s : State) (t : ThreadId) :
    (↑(s.push t).runQueue : Multiset ThreadId) = t ::ₘ ↑s.runQueue :=
  Multiset.coe_eq_coe.mpr (SortedList.push_perm s.runQueue t)

theorem coe_eraseIdx {list : SortedList} {i : Nat} (hi : i < list.length) :
    (↑(list.eraseIdx i) : Multiset ThreadId) = (↑list : Multiset ThreadId).erase list[i] := by
  have hperm := (List.getElem_cons_eraseIdx_perm hi).erase list[i]
  rw [List.erase_cons_head] at hperm
  exact Multiset.coe_eq_coe.mpr hperm

theorem maxPreemptsReached_eq_false_iff {s : State} :
    maxPreemptsReached params s = false ↔
      ∀ k, params.maxPreemptions = some k → s.preempts < k := by
  unfold maxPreemptsReached
  cases params.maxPreemptions with
  | none => simp
  | some limit => simp

theorem config_switched_none {p : P} {s : State} {i : Nat}
    (hi : i < s.runQueue.length) (next : ThreadId) :
    config p (switched none i next s) =
      ⟨p, (↑s.runQueue : Multiset ThreadId).erase s.runQueue[i], s.active,
        s.preempts⟩ := by
  simp only [config, switched, resetSteps, coe_eraseIdx hi]

theorem config_switched_some {p : P} {s : State} {i : Nat}
    (hi : i < s.runQueue.length) (active next : ThreadId) :
    config p (switched (some active) i next s) =
      ⟨p, active ::ₘ (↑s.runQueue : Multiset ThreadId).erase s.runQueue[i],
        s.active, s.preempts + 1⟩ := by
  have hpush := coe_push
    { s with runQueue := s.runQueue.eraseIdx i, preempts := s.preempts + 1 } active
  rw [coe_eraseIdx hi] at hpush
  simp only [config, switched, resetSteps]
  rw [hpush]
  rfl

section PickNext

variable {c : Client P} {p : P} {s : State}

theorem config_choosing (hsteps : params.maxSteps = none) :
    config p (choosing params s) =
      ⟨p, ↑s.runQueue, none, s.preempts⟩ := by
  obtain ⟨hqueue, hnone, hpreempts⟩ := choosing_spec hsteps s
  simp only [config, hqueue, hnone, hpreempts]

/-- Whatever `PickNext` answers is allowed. -/
theorem pickNext_sound (hsteps : params.maxSteps = none)
    (hforce : params.forcePreemptAfterSteps = none)
    (hbusy : s.runQueue ≠ [] ∨ s.active ≠ none) {answers : List Nat}
    {r : Except Panic (Except String ThreadId × State)}
    (h : Leaf Question.alts (pickNext params (c.view p) s) answers r) :
    ∃ t s', r = .ok (.ok t, s') ∧
      Picks params.maxPreemptions c (config p s) t (config p s') := by
  obtain ⟨hqueue, hnone, hpreempts⟩ := choosing_spec hsteps s
  cases hactive : s.active with
  | none =>
      have hne : s.runQueue ≠ [] := by
        rcases hbusy with hne | hsome
        · exact hne
        · exact absurd hactive hsome
      obtain ⟨i, hi, _, rfl⟩ := (pickNext_fresh_leaf_iff hsteps hactive hne).mp h
      refine ⟨_, _, rfl, ?_⟩
      rw [config_switched_none (hqueue ▸ hi)]
      simp only [config, hactive, hqueue, hnone, hpreempts]
      exact Picks.fresh (Multiset.mem_coe.mpr (List.getElem_mem hi))
  | some active =>
      rcases (pickNext_active_leaf_iff hsteps hforce hactive).mp h with
        ⟨_, rfl⟩ | ⟨hyes, i, hi, _, rfl⟩
      · refine ⟨_, _, rfl, ?_⟩
        rw [config_choosing hsteps]
        simp only [config, hactive]
        exact Picks.stay
      · refine ⟨_, _, rfl, ?_⟩
        rw [config_switched_some (hqueue ▸ hi)]
        simp only [offered, Bool.and_eq_true, Bool.not_eq_true'] at hyes
        simp only [config, hactive, hqueue, hnone, hpreempts]
        exact Picks.preempt (Multiset.mem_coe.mpr (List.getElem_mem hi)) hyes.1.1
          (maxPreemptsReached_eq_false_iff.mp hyes.2)

/-- Whatever is allowed is an answer of `PickNext`. -/
theorem pickNext_complete (hsteps : params.maxSteps = none)
    (hforce : params.forcePreemptAfterSteps = none) {t : ThreadId}
    {cfg' : Config P}
    (h : Picks params.maxPreemptions c (config p s) t cfg') :
    ∃ answers s', cfg' = config p s' ∧
      Leaf Question.alts (pickNext params (c.view p) s) answers (.ok (.ok t, s')) := by
  obtain ⟨hqueue, hnone, hpreempts⟩ := choosing_spec hsteps s
  generalize hcfg : config p s = cfg at h
  cases h with
  | fresh ht =>
      simp only [config, Config.mk.injEq] at hcfg
      obtain ⟨rfl, rfl, hactive, rfl⟩ := hcfg
      obtain ⟨i, hi, rfl⟩ := List.mem_iff_getElem.mp (Multiset.mem_coe.mp ht)
      have hne : s.runQueue ≠ [] := by
        intro hnil
        simp [hnil] at hi
      refine ⟨_, _, ?_, (pickNext_fresh_leaf_iff hsteps hactive hne).mpr
        ⟨i, hi, rfl, rfl⟩⟩
      rw [config_switched_none (hqueue ▸ hi)]
      simp only [hqueue, hnone, hpreempts]
  | stay =>
      simp only [config, Config.mk.injEq] at hcfg
      obtain ⟨rfl, rfl, hactive, rfl⟩ := hcfg
      exact ⟨_, _, (config_choosing hsteps).symm,
        (pickNext_active_leaf_iff hsteps hforce hactive).mpr (Or.inl ⟨rfl, rfl⟩)⟩
  | @preempt _ _ _ last _ ht hpreemptive hlimit =>
      simp only [config, Config.mk.injEq] at hcfg
      obtain ⟨rfl, rfl, hactive, rfl⟩ := hcfg
      obtain ⟨i, hi, rfl⟩ := List.mem_iff_getElem.mp (Multiset.mem_coe.mp ht)
      have hne : s.runQueue.isEmpty = false := by
        cases hempty : s.runQueue.isEmpty with
        | false => rfl
        | true =>
            rw [List.isEmpty_iff.mp hempty] at hi
            exact absurd hi (Nat.not_lt_zero i)
      have hyes : offered params (c.view p) last s = true := by
        have hmax := maxPreemptsReached_eq_false_iff.mpr hlimit
        rw [offered, Client.view, hpreemptive, hne, hmax]
        rfl
      refine ⟨_, _, ?_, (pickNext_active_leaf_iff hsteps hforce hactive).mpr
        (Or.inr ⟨hyes, i, hi, rfl, rfl⟩)⟩
      rw [config_switched_some (hqueue ▸ hi)]
      simp only [hqueue, hnone, hpreempts]

/-- The thread that is picked determines the answers. -/
theorem pickNext_unique (hsteps : params.maxSteps = none)
    (hforce : params.forcePreemptAfterSteps = none)
    (hbusy : s.runQueue ≠ [] ∨ s.active ≠ none) (hnodup : s.runQueue.Nodup)
    (hlast : ∀ a, s.active = some a → a ∉ s.runQueue) {t : ThreadId}
    {left right : List Nat} {s₁ s₂ : State}
    (hleft : Leaf Question.alts (pickNext params view s) left (.ok (.ok t, s₁)))
    (hright : Leaf Question.alts (pickNext params view s) right (.ok (.ok t, s₂))) :
    left = right := by
  cases hactive : s.active with
  | none =>
      have hne : s.runQueue ≠ [] := by
        rcases hbusy with hne | hsome
        · exact hne
        · exact absurd hactive hsome
      obtain ⟨i, hi, rfl, heqi⟩ :=
        (pickNext_fresh_leaf_iff hsteps hactive hne).mp hleft
      obtain ⟨j, hj, rfl, heqj⟩ :=
        (pickNext_fresh_leaf_iff hsteps hactive hne).mp hright
      simp only [Except.ok.injEq, Prod.mk.injEq] at heqi heqj
      have hij : i = j :=
        hnodup.getElem_inj_iff.mp (heqi.1.symm.trans heqj.1)
      rw [hij]
  | some active =>
      have hnot := hlast active hactive
      rcases (pickNext_active_leaf_iff hsteps hforce hactive).mp hleft with
        ⟨rfl, heqi⟩ | ⟨_, i, hi, rfl, heqi⟩ <;>
      rcases (pickNext_active_leaf_iff hsteps hforce hactive).mp hright with
        ⟨rfl, heqj⟩ | ⟨_, j, hj, rfl, heqj⟩ <;>
      simp only [Except.ok.injEq, Prod.mk.injEq] at heqi heqj
      · rfl
      · exact absurd (heqi.1.symm.trans heqj.1 ▸ List.getElem_mem hj) hnot
      · exact absurd (heqj.1.symm.trans heqi.1 ▸ List.getElem_mem hi) hnot
      · have hij : i = j :=
          hnodup.getElem_inj_iff.mp (heqi.1.symm.trans heqj.1)
        rw [hij]

end PickNext

/-! ### Turns -/

section Turns

variable {c : Client P} {t : ThreadId}

theorem runTurn_leaf_iff {turn : Turn P} {s : State} {answers : List Nat}
    {r : List Nat × P × State} :
    Leaf Question.alts (runTurn params t turn s) answers r ↔
      ∃ woken ending p, turn.Ends answers woken ending p ∧
        r = (answers, p, handBack params t ending (woken.foldl State.push s)) := by
  induction turn generalizing s answers r with
  | wake u next ih =>
      rw [runTurn, ih]
      constructor
      · rintro ⟨woken, ending, p, hends, rfl⟩
        exact ⟨u :: woken, ending, p, Turn.Ends.wake hends, rfl⟩
      · rintro ⟨_, ending, p, hends, rfl⟩
        cases hends with
        | wake hends => exact ⟨_, ending, p, hends, rfl⟩
  | ask q next ih =>
      simp only [runTurn, leaf_ask_iff, leaf_bind_iff, ih]
      constructor
      · rintro ⟨i, _, rfl, hi, first, rest, x, rfl, ⟨woken, ending, p, hends, rfl⟩, hret⟩
        obtain ⟨rfl, rfl⟩ := leaf_ret_iff.mp hret
        rw [List.append_nil]
        exact ⟨woken, ending, p, Turn.Ends.ask hi hends, rfl⟩
      · rintro ⟨woken, ending, p, hends, rfl⟩
        cases hends with
        | @ask _ _ i as _ _ _ hi hends =>
            exact ⟨i, as, rfl, hi, as, [], _, by simp, ⟨woken, ending, p, hends, rfl⟩,
              leaf_ret_iff.mpr ⟨rfl, rfl⟩⟩
  | give ending p =>
      rw [runTurn, leaf_ret_iff]
      constructor
      · rintro ⟨rfl, rfl⟩
        exact ⟨[], ending, p, Turn.Ends.give, rfl⟩
      · rintro ⟨_, _, _, hends, rfl⟩
        cases hends
        exact ⟨rfl, rfl⟩

theorem runTurn_branching {turn : Turn P} (h : turn.Answerable) (s : State) :
    Branching Question.alts (runTurn params t turn s) := by
  induction turn generalizing s with
  | wake u next ih => exact ih h (s.push u)
  | ask q next ih =>
      refine ⟨h.1, fun i hi => ?_⟩
      exact branching_bind (ih i (h.2 i hi) s) fun _ _ _ => trivial
  | give ending p => trivial

theorem pushes_spec (woken : List ThreadId) (s : State) :
    (↑(woken.foldl State.push s).runQueue : Multiset ThreadId) =
        ↑woken + ↑s.runQueue ∧
      (woken.foldl State.push s).active = s.active ∧
      (woken.foldl State.push s).preempts = s.preempts := by
  induction woken generalizing s with
  | nil => simp
  | cons u woken ih =>
      obtain ⟨hqueue, hactive, hpreempts⟩ := ih (s.push u)
      refine ⟨?_, hactive, hpreempts⟩
      rw [List.foldl_cons, hqueue, coe_push, ← Multiset.cons_coe,
        Multiset.cons_add, Multiset.add_cons]

/-- A turn changes the scheduler as the configuration says. -/
theorem config_handBack (hsteps : params.maxSteps = none) {s : State}
    (hnone : s.active = none) (p p' : P) (woken : List ThreadId)
    (ending : Ending) :
    config p' (handBack params t ending (woken.foldl State.push s)) =
      (config p s).after t woken ending p' := by
  obtain ⟨hqueue, hactive, hpreempts⟩ := pushes_spec woken s
  rw [hnone] at hactive
  cases ending with
  | interrupt => simp [config, handBack, Config.after, hqueue, hpreempts]
  | yield =>
      have hpush := coe_push (woken.foldl State.push s) t
      rw [hqueue] at hpush
      simp only [config, handBack, Config.after, hpush, if_true,
        Multiset.singleton_add, reduceCtorEq, if_false]
      simp only [State.push, hactive, hpreempts]
  | park => simp [config, handBack, Config.after, hqueue, hpreempts, hactive]
  | exit =>
      obtain ⟨_, hqueue', hactive', hpreempts'⟩ :=
        addStep_spec hsteps (some t) (woken.foldl State.push s)
      simp [config, handBack, Config.after, hqueue, hpreempts, hactive, hqueue',
        hactive', hpreempts']

end Turns

/-! ### Configurations that clients reach -/

/-- Threads are handed to the scheduler once, and only while they are ready. -/
structure Config.Sound (c : Client P) (cfg : Config P) : Prop where
  nodup : cfg.runnable.Nodup
  ready : ∀ u ∈ cfg.runnable, c.ready cfg.state u
  last : ∀ a, cfg.last = some a → a ∉ cfg.runnable ∧ c.ready cfg.state a

theorem Config.Sound.picks {limit : Option Nat} {c : Client P}
    {cfg cfg' : Config P} {t : ThreadId} (h : cfg.Sound c)
    (hpick : Picks limit c cfg t cfg') :
    cfg'.Sound c ∧ t ∉ cfg'.runnable ∧ c.ready cfg'.state t ∧
      cfg'.state = cfg.state ∧ cfg'.last = none := by
  cases hpick with
  | fresh ht =>
      refine ⟨⟨h.nodup.erase t, fun u hu => ?_, fun a ha => ?_⟩, ?_, ?_, rfl, rfl⟩
      · exact h.ready u (Multiset.mem_of_mem_erase hu)
      · cases ha
      · exact Multiset.Nodup.notMem_erase h.nodup
      · exact h.ready t ht
  | stay =>
      obtain ⟨hnot, hready⟩ := h.last t rfl
      exact ⟨⟨h.nodup, h.ready, fun a ha => (by cases ha)⟩, hnot, hready, rfl, rfl⟩
  | @preempt _ _ _ last _ ht hpreemptive hlimit =>
      obtain ⟨hnot, hready⟩ := h.last last rfl
      have hne : t ≠ last := fun heq => hnot (heq ▸ ht)
      refine ⟨⟨?_, fun u hu => ?_, fun a ha => ?_⟩, ?_, ?_, rfl, rfl⟩
      · exact Multiset.nodup_cons.mpr
          ⟨fun hmem => hnot (Multiset.mem_of_mem_erase hmem), h.nodup.erase t⟩
      · rcases Multiset.mem_cons.mp hu with rfl | hu
        · exact hready
        · exact h.ready u (Multiset.mem_of_mem_erase hu)
      · cases ha
      · rw [Multiset.mem_cons]
        rintro (heq | hmem)
        · exact hne heq
        · exact Multiset.Nodup.notMem_erase h.nodup hmem
      · exact h.ready t ht

theorem Picks.busy {limit : Option Nat} {c : Client P} {cfg cfg' : Config P}
    {t : ThreadId} (h : Picks limit c cfg t cfg') :
    cfg.runnable ≠ 0 ∨ cfg.last ≠ none := by
  cases h with
  | fresh ht =>
      refine Or.inl fun hempty => ?_
      simp only at hempty
      rw [hempty] at ht
      exact Multiset.notMem_zero t ht
  | stay => exact Or.inr (by simp)
  | preempt => exact Or.inr (by simp)

theorem Config.Sound.after {c : Client P} {cfg : Config P} {t : ThreadId}
    {answers : List Nat} {woken : List ThreadId} {ending : Ending} {p : P}
    (h : cfg.Sound c) (hnot : t ∉ cfg.runnable) (hready : c.ready cfg.state t)
    (hends : (c.resume cfg.state t).Ends answers woken ending p) :
    (cfg.after t woken ending p).Sound c := by
  have hunready := c.woken_unready hready hends
  have hnext := c.ready_next hready hends
  have hdisjoint : ∀ u ∈ woken, u ∉ cfg.runnable ∧ u ≠ t :=
    fun u hu => ⟨fun hmem => hunready u hu (h.ready u hmem),
      fun heq => hunready u hu (heq ▸ hready)⟩
  have hrest : (↑woken + cfg.runnable : Multiset ThreadId).Nodup := by
    rw [Multiset.nodup_add]
    refine ⟨Multiset.coe_nodup.mpr (c.woken_nodup hready hends), h.nodup, ?_⟩
    rw [Multiset.disjoint_left]
    exact fun {u} hu => (hdisjoint u (Multiset.mem_coe.mp hu)).1
  have htnot : t ∉ (↑woken + cfg.runnable : Multiset ThreadId) := by
    rw [Multiset.mem_add]
    rintro (hmem | hmem)
    · exact (hdisjoint t (Multiset.mem_coe.mp hmem)).2 rfl
    · exact hnot hmem
  have hrestReady : ∀ u ∈ (↑woken + cfg.runnable : Multiset ThreadId),
      c.ready p u := by
    intro u hu
    apply hnext
    rcases Multiset.mem_add.mp hu with hmem | hmem
    · exact Or.inl (Multiset.mem_coe.mp hmem)
    · exact Or.inr (Or.inl ⟨fun heq => hnot (heq ▸ hmem), h.ready u hmem⟩)
  unfold Config.after
  by_cases hyield : ending = .yield
  · subst hyield
    simp only [if_true, Multiset.singleton_add, reduceCtorEq, if_false]
    refine ⟨Multiset.nodup_cons.mpr ⟨htnot, hrest⟩, fun u hu => ?_,
      fun a ha => (by cases ha)⟩
    rcases Multiset.mem_cons.mp hu with rfl | hu
    · exact hnext u (Or.inr (Or.inr ⟨rfl, Or.inr rfl⟩))
    · exact hrestReady u hu
  · simp only [hyield, if_false, Multiset.zero_add]
    refine ⟨hrest, hrestReady, fun a ha => ?_⟩
    by_cases hinterrupt : ending = .interrupt
    · simp only [hinterrupt, if_true, Option.some.injEq] at ha
      subst ha
      exact ⟨htnot, hnext t (Or.inr (Or.inr ⟨rfl, Or.inl hinterrupt⟩))⟩
    · simp [hinterrupt] at ha

end Dfs

end TwistSim
