/-
Depth-first exploration covers exactly the preemption-bounded interleavings of
a client.
-/
import TwistSim.DfsInterleavings

namespace TwistSim

namespace Dfs

open Interaction DecisionTree

variable {P : Type} {params : Params}

/-! ### Whole executions -/

section Loop

variable {c : Client P} {p : P} {s : State}

theorem idle_iff {s : State} :
    (s.runQueue.isEmpty && s.active.isNone) = true ↔
      s.runQueue = [] ∧ s.active = none := by
  simp

theorem not_idle {s : State}
    (h : ¬ (s.runQueue.isEmpty && s.active.isNone) = true) :
    s.runQueue ≠ [] ∨ s.active ≠ none := by
  rw [idle_iff] at h
  by_cases hqueue : s.runQueue = []
  · exact Or.inr fun hactive => h ⟨hqueue, hactive⟩
  · exact Or.inl hqueue

/-- The decomposition of a run of the loop that is not idle. -/
theorem loop_leaf_turn (hsteps : params.maxSteps = none)
    (hforce : params.forcePreemptAfterSteps = none) {n : Nat}
    (hbusy : ¬ (s.runQueue.isEmpty && s.active.isNone) = true)
    (hsound : (config p s).Sound c) {answers : List Nat}
    {r : Except Panic (Except String Log)}
    (h : Leaf Question.alts (c.loop params (n + 1) p s) answers r) :
    ∃ picking own rest t s' woken ending p' s'',
      answers = picking ++ (own ++ rest) ∧
      Leaf Question.alts (pickNext params (c.view p) s) picking (.ok (.ok t, s')) ∧
      Picks params.maxPreemptions c (config p s) t (config p s') ∧
      (c.resume p t).Ends own woken ending p' ∧
      Leaf Question.alts (runTurn params t (c.resume p t) s') own (own, p', s'') ∧
      config p' s'' = (config p s').after t woken ending p' ∧
      ∃ result, Leaf Question.alts (c.loop params n p' s'') rest result ∧
        r = result.map fun log => log.map fun log =>
          ⟨t :: log.order, own :: log.answers, log.preempts⟩ := by
  rw [Client.loop, if_neg hbusy, leaf_bind_iff] at h
  obtain ⟨picking, rest₁, picked, rfl, hpicked, hrest⟩ := h
  obtain ⟨t, s', rfl, hpick⟩ :=
    pickNext_sound hsteps hforce (not_idle hbusy) hpicked
  obtain ⟨own, rest₂, turned, rfl, hturn, hrest⟩ := leaf_bind_iff.mp hrest
  obtain ⟨woken, ending, p', hends, rfl⟩ := runTurn_leaf_iff.mp hturn
  obtain ⟨rest, _, result, rfl, hloop, hret⟩ := leaf_bind_iff.mp hrest
  obtain ⟨rfl, rfl⟩ := leaf_ret_iff.mp hret
  have hnone : s'.active = none := (hsound.picks hpick).2.2.2.2
  exact ⟨picking, own, rest, t, s', woken, ending, p', _, by simp, hpicked, hpick,
    hends, hturn, config_handBack hsteps hnone p p' woken ending, result, hloop, rfl⟩

/-- What one turn leaves to do. -/
theorem Config.Sound.turn {s' s'' : State} {t : ThreadId} {own : List Nat}
    {woken : List ThreadId} {ending : Ending} {p' : P}
    (hsound : (config p s).Sound c)
    (hpick : Picks params.maxPreemptions c (config p s) t (config p s'))
    (hends : (c.resume p t).Ends own woken ending p')
    (hafter : config p' s'' = (config p s').after t woken ending p') :
    (config p' s'').Sound c ∧ c.work p' < c.work p := by
  obtain ⟨hsound', hnot, hready, _, _⟩ := hsound.picks hpick
  refine ⟨?_, c.work_lt hready hends⟩
  rw [hafter]
  exact hsound'.after hnot hready hends

/-- Every run of the loop ends well and is an allowed execution. -/
theorem loop_sound (hsteps : params.maxSteps = none)
    (hforce : params.forcePreemptAfterSteps = none) {n : Nat}
    (hwork : c.work p < n) (hsound : (config p s).Sound c) {answers : List Nat}
    {r : Except Panic (Except String Log)}
    (h : Leaf Question.alts (c.loop params n p s) answers r) :
    ∃ log, r = .ok (.ok log) ∧
      Executes params.maxPreemptions c (config p s) log.order log.answers
        log.preempts := by
  induction n generalizing p s answers r with
  | zero => exact absurd hwork (Nat.not_lt_zero _)
  | succ n ih =>
      by_cases hidle : (s.runQueue.isEmpty && s.active.isNone) = true
      · rw [Client.loop, if_pos hidle, leaf_ret_iff] at h
        obtain ⟨_, rfl⟩ := h
        obtain ⟨hqueue, hactive⟩ := idle_iff.mp hidle
        refine ⟨_, rfl, ?_⟩
        simp only [config, hqueue, hactive]
        exact Executes.done
      · obtain ⟨_, own, _, t, s', woken, ending, p', s'', _, _, hpick, hends,
          _, hafter, result, hloop, rfl⟩ := loop_leaf_turn hsteps hforce hidle hsound h
        obtain ⟨hsound', hless⟩ := hsound.turn hpick hends hafter
        obtain ⟨log, rfl, hexec⟩ := ih (by omega) hsound' hloop
        refine ⟨_, rfl, Executes.turn hpick hends ?_⟩
        rw [← hafter]
        exact hexec

/-- Every allowed execution is a run of the loop. -/
theorem loop_complete (hsteps : params.maxSteps = none)
    (hforce : params.forcePreemptAfterSteps = none) {n : Nat}
    (hwork : c.work p < n) (hsound : (config p s).Sound c)
    {order : List ThreadId} {own : List (List Nat)} {preempts : Nat}
    (h : Executes params.maxPreemptions c (config p s) order own preempts) :
    ∃ answers, Leaf Question.alts (c.loop params n p s) answers
      (.ok (.ok ⟨order, own, preempts⟩)) := by
  generalize hcfg : config p s = cfg at h
  induction h generalizing n p s with
  | done =>
      simp only [config, Config.mk.injEq] at hcfg
      obtain ⟨_, hqueue, hactive, rfl⟩ := hcfg
      have hidle : (s.runQueue.isEmpty && s.active.isNone) = true :=
        idle_iff.mpr ⟨Multiset.coe_eq_zero _ |>.mp hqueue, hactive⟩
      cases n with
      | zero => exact absurd hwork (Nat.not_lt_zero _)
      | succ n =>
          refine ⟨[], ?_⟩
          rw [Client.loop, if_pos hidle]
          exact Leaf.ret _
  | @turn cfg cfg' t answers woken ending p' order rest preempts hpick hends _ ih =>
      subst hcfg
      obtain ⟨picking, s', rfl, hpicked⟩ := pickNext_complete hsteps hforce hpick
      have hnone : s'.active = none := (hsound.picks hpick).2.2.2.2
      have hafter := config_handBack (t := t) hsteps hnone p p' woken ending
      obtain ⟨hsound', hless⟩ := hsound.turn hpick hends hafter
      have hbusy : ¬ (s.runQueue.isEmpty && s.active.isNone) = true := by
        rw [idle_iff]
        rintro ⟨hqueue, hactive⟩
        rcases hpick.busy with hne | hsome
        · exact hne (by simp [config, hqueue])
        · exact hsome hactive
      cases n with
      | zero => exact absurd hwork (Nat.not_lt_zero _)
      | succ n =>
          obtain ⟨restAnswers, hrest⟩ := ih (n := n) (by omega) hsound' hafter
          refine ⟨picking ++ (answers ++ (restAnswers ++ [])), ?_⟩
          rw [Client.loop, if_neg hbusy]
          apply leaf_bind_iff.mpr ⟨_, _, _, rfl, hpicked, ?_⟩
          apply leaf_bind_iff.mpr ⟨_, _, _, rfl,
            runTurn_leaf_iff.mpr ⟨woken, ending, p', hends, rfl⟩, ?_⟩
          exact leaf_bind_iff.mpr ⟨_, _, _, rfl, hrest, Leaf.ret _⟩

theorem log_cons {t : ThreadId} {own : List Nat} {l : Log}
    {result : Except Panic (Except String Log)}
    (h : .ok (.ok l) = result.map fun log => log.map fun log =>
      (⟨t :: log.order, own :: log.answers, log.preempts⟩ : Log)) :
    ∃ m : Log, result = .ok (.ok m) ∧
      l = ⟨t :: m.order, own :: m.answers, m.preempts⟩ := by
  cases result with
  | error e => cases h
  | ok inner =>
      cases inner with
      | error why => cases h
      | ok m =>
          cases h
          exact ⟨m, rfl, rfl⟩

/-- The order and the own answers determine the run. -/
theorem loop_unique (hsteps : params.maxSteps = none)
    (hforce : params.forcePreemptAfterSteps = none) {n : Nat}
    (hsound : (config p s).Sound c) {left right : List Nat} {l₁ l₂ : Log}
    (hleft : Leaf Question.alts (c.loop params n p s) left (.ok (.ok l₁)))
    (hright : Leaf Question.alts (c.loop params n p s) right (.ok (.ok l₂)))
    (horder : l₁.order = l₂.order) (hown : l₁.answers = l₂.answers) :
    left = right := by
  induction n generalizing p s left right l₁ l₂ with
  | zero =>
      rw [Client.loop, leaf_ret_iff] at hleft hright
      rw [hleft.1, hright.1]
  | succ n ih =>
      by_cases hidle : (s.runQueue.isEmpty && s.active.isNone) = true
      · rw [Client.loop, if_pos hidle, leaf_ret_iff] at hleft hright
        rw [hleft.1, hright.1]
      · obtain ⟨a, own₁, rest₁, t₁, s₁, woken, ending, p₁, s₁', rfl, ha, hpick,
          hends, hturn₁, hafter, result₁, hloop₁, heq₁⟩ :=
          loop_leaf_turn hsteps hforce hidle hsound hleft
        obtain ⟨b, own₂, rest₂, t₂, s₂, _, _, p₂, s₂', rfl, hb, _, _, hturn₂, _,
          result₂, hloop₂, heq₂⟩ :=
          loop_leaf_turn hsteps hforce hidle hsound hright
        obtain ⟨m₁, rfl, rfl⟩ := log_cons heq₁
        obtain ⟨m₂, rfl, rfl⟩ := log_cons heq₂
        simp only [List.cons.injEq] at horder hown
        obtain ⟨rfl, horder⟩ := horder
        obtain ⟨rfl, hown⟩ := hown
        have hpicking : a = b :=
          pickNext_unique hsteps hforce (not_idle hidle)
            (Multiset.coe_nodup.mp hsound.nodup)
            (fun x hx => fun hmem => (hsound.last x hx).1 (Multiset.mem_coe.mpr hmem))
            ha hb
        subst hpicking
        have hstate := leaf_unique ha hb
        simp only [Except.ok.injEq, Prod.mk.injEq, true_and] at hstate
        subst hstate
        have hturned := leaf_unique hturn₁ hturn₂
        simp only [Prod.mk.injEq, true_and] at hturned
        obtain ⟨rfl, rfl⟩ := hturned
        obtain ⟨hsound', _⟩ := hsound.turn hpick hends hafter
        rw [ih hsound' hloop₁ hloop₂ horder hown]

theorem pick_branching {list : SortedList} {type : BranchType} :
    Branching Question.alts (pick list type) := by
  unfold pick
  by_cases hempty : list.isEmpty = true
  · simp only [hempty, if_true]
    trivial
  · by_cases hone : list.length = 1
    · simp only [hempty, hone, if_true]
      trivial
    · simp only [hempty, hone, if_false]
      refine ⟨?_, fun _ _ => trivial⟩
      exact List.length_pos_iff.mpr fun hnil => hempty (by rw [hnil]; rfl)

theorem switch_branching {preempted : Option ThreadId} :
    Branching Question.alts (switch preempted s) := by
  apply branching_bind pick_branching
  rintro _ ⟨next, rest⟩ _
  cases next <;> trivial

theorem pickNext_branching {view : KernelView} :
    Branching Question.alts (pickNext params view s) := by
  have hpreempt : ∀ active s',
      Branching Question.alts (preempt params view active s') := by
    intro active s'
    unfold preempt
    split
    · trivial
    · split
      · trivial
      · split
        · split <;> trivial
        · split
          · trivial
          · exact ⟨Nat.two_pos, fun _ _ => trivial⟩
  unfold pickNext
  simp only
  split
  · trivial
  · split
    · exact switch_branching
    · apply branching_bind (hpreempt _ _)
      rintro _ (why | yes) _
      · trivial
      · cases yes
        · trivial
        · exact switch_branching

theorem loop_branching (n : Nat) : Branching Question.alts (c.loop params n p s) := by
  induction n generalizing p s with
  | zero => trivial
  | succ n ih =>
      unfold Client.loop
      split
      · trivial
      · apply branching_bind pickNext_branching
        rintro _ (e | ⟨why | t, s'⟩) _
        · trivial
        · trivial
        · apply branching_bind (runTurn_branching (c.answerable p t) s')
          rintro _ ⟨own, p', s''⟩ _
          exact branching_bind ih fun _ _ _ => trivial

end Loop

/-- Preemptions are counted within the limit. -/
theorem Executes.preempts_le {limit : Option Nat} {c : Client P} {cfg : Config P}
    {order : List ThreadId} {own : List (List Nat)} {preempts k : Nat}
    (h : Executes limit c cfg order own preempts) (hlimit : limit = some k)
    (hcfg : cfg.preempts ≤ k) : preempts ≤ k := by
  induction h with
  | done => exact hcfg
  | turn hpick _ _ ih =>
      apply ih
      cases hpick with
      | fresh => exact hcfg
      | stay => exact hcfg
      | preempt _ _ hless => exact hless k hlimit

/-- The runs of a client whose main thread has just been spawned. -/
def Client.tree (c : Client P) (params : Params) (p : P) (main : ThreadId) :
    Choosing (Except Panic (Except String Log)) :=
  c.loop params (c.work p + 1) p (State.fresh.push main)

/-- The configuration in which only the main thread may run. -/
def Config.initial (p : P) (main : ThreadId) : Config P := ⟨p, {main}, none, 0⟩

/-- Exploration of a client ends, every run of it is an allowed execution with
at most the permitted preemptions, every allowed execution is a run, and no two
runs have the same thread order and the same answers to the questions that the
threads asked. -/
theorem explore_interleavings (c : Client P) (params : Params) (p : P)
    (main : ThreadId) (hsteps : params.maxSteps = none)
    (hforce : params.forcePreemptAfterSteps = none) (hmain : c.ready p main) :
    ∃ runs : List (List Nat × Except Panic (Except String Log)),
      (∀ fuel, runs.length ≤ fuel →
        explore (c.tree params p main) fuel Scheduler.new = .ok runs) ∧
      (∀ run ∈ runs, ∃ log, run.2 = .ok (.ok log) ∧
        Executes params.maxPreemptions c (Config.initial p main) log.order
          log.answers log.preempts ∧
        ∀ k, params.maxPreemptions = some k → log.preempts ≤ k) ∧
      (∀ order own preempts,
        Executes params.maxPreemptions c (Config.initial p main) order own preempts →
        ∃ run ∈ runs, run.2 = .ok (.ok ⟨order, own, preempts⟩)) ∧
      runs.Pairwise fun left right => ∀ l₁ l₂,
        left.2 = .ok (.ok l₁) → right.2 = .ok (.ok l₂) →
        (l₁.order, l₁.answers) ≠ (l₂.order, l₂.answers) := by
  have hconfig : config p (State.fresh.push main) = Config.initial p main := rfl
  have hsound : (config p (State.fresh.push main)).Sound c := by
    rw [hconfig]
    refine ⟨Multiset.nodup_singleton main, fun u hu => ?_, fun a ha => ?_⟩
    · rw [Multiset.mem_singleton.mp hu]
      exact hmain
    · cases ha
  have hwork : c.work p < c.work p + 1 := Nat.lt_succ_self _
  obtain ⟨runs, hruns, hordered, hmem⟩ :=
    explore_exhaustive (c.tree params p main) (loop_branching _)
  refine ⟨runs, hruns, ?_, ?_, ?_⟩
  · intro run hrun
    have hleaf := (hmem run.1 run.2).mp hrun
    obtain ⟨log, hlog, hexec⟩ := loop_sound hsteps hforce hwork hsound hleaf
    exact ⟨log, hlog, hexec, fun k hk => hexec.preempts_le hk (Nat.zero_le k)⟩
  · intro order own preempts hexec
    obtain ⟨answers, hleaf⟩ := loop_complete hsteps hforce hwork hsound hexec
    exact ⟨(answers, _), (hmem _ _).mpr hleaf, rfl⟩
  · apply hordered.imp_of_mem
    intro left right hleft hright hlt l₁ l₂ hl₁ hl₂ hsame
    have hleaf₁ := (hmem left.1 left.2).mp hleft
    have hleaf₂ := (hmem right.1 right.2).mp hright
    rw [hl₁] at hleaf₁
    rw [hl₂] at hleaf₂
    simp only [Prod.mk.injEq] at hsame
    have heq := loop_unique hsteps hforce hsound hleaf₁ hleaf₂ hsame.1 hsame.2
    rw [heq] at hlt
    exact absurd hlt (lt_irrefl _)

/-! ### Orders that several runs produce -/

/-- The main thread wakes both waiters of a futex, one call each, and exits; so
do the two waiters. -/
inductive WakeTwo where
  | parked | woken | left (thread : ThreadId) | finished

namespace WakeTwo

def resume : WakeTwo → ThreadId → Turn WakeTwo
  | parked, _ => .ask ⟨.wakeOne, 2⟩ fun i =>
      .wake (2 + i) (.wake (3 - i) (.give .exit woken))
  | woken, t => .give .exit (left (5 - t))
  | left _, _ => .give .exit finished
  | finished, _ => .give .exit finished

def ready : WakeTwo → ThreadId → Prop
  | parked, t => t = 1
  | woken, t => t = 2 ∨ t = 3
  | left u, t => t = u
  | finished, _ => False

def work : WakeTwo → Nat
  | parked => 3
  | woken => 2
  | left _ => 1
  | finished => 0

theorem ends {p p' : WakeTwo} {t : ThreadId} {answers : List Nat}
    {woken : List ThreadId} {ending : Ending}
    (h : (resume p t).Ends answers woken ending p') :
    ending = .exit ∧
      ((p = .parked ∧ p' = .woken ∧ (woken = [2, 3] ∨ woken = [3, 2])) ∨
        (p = .woken ∧ p' = .left (5 - t) ∧ woken = []) ∨
        (∃ u, p = .left u ∧ p' = .finished ∧ woken = []) ∨
        (p = .finished ∧ p' = .finished ∧ woken = [])) := by
  cases p with
  | parked =>
      cases h with
      | @ask _ _ i _ _ _ _ hi h =>
          cases h with
          | wake h =>
              cases h with
              | wake h =>
                  cases h
                  obtain rfl | rfl : i = 0 ∨ i = 1 := by
                    simp only at hi
                    omega
                  · simp
                  · simp
  | woken =>
      cases h
      simp
  | left u =>
      cases h
      simp
  | finished =>
      cases h
      simp

def client : Client WakeTwo where
  attrs _ _ := ⟨true, false⟩
  resume := resume
  ready := ready
  work := work
  answerable p t := by
    cases p with
    | parked => exact ⟨Nat.two_pos, fun _ _ => trivial⟩
    | woken => trivial
    | left u => trivial
    | finished => trivial
  work_lt hready hends := by
    obtain ⟨_, ⟨rfl, rfl, _⟩ | ⟨rfl, rfl, _⟩ | ⟨_, rfl, rfl, _⟩ | ⟨rfl, _⟩⟩ :=
      ends hends
    · exact Nat.lt_succ_self 2
    · exact Nat.lt_succ_self 1
    · exact Nat.lt_succ_self 0
    · exact hready.elim
  woken_nodup _ hends := by
    obtain ⟨_, ⟨_, _, rfl | rfl⟩ | ⟨_, _, rfl⟩ | ⟨_, _, _, rfl⟩ | ⟨_, _, rfl⟩⟩ :=
      ends hends <;> decide
  woken_unready _ hends := by
    obtain ⟨_, ⟨rfl, _, rfl | rfl⟩ | ⟨_, _, rfl⟩ | ⟨_, _, _, rfl⟩ | ⟨_, _, rfl⟩⟩ :=
      ends hends <;> simp [ready]
  ready_next {p t _ _ _ _} hready hends u hu := by
    obtain ⟨rfl, ⟨rfl, rfl, hwoken⟩ | ⟨rfl, rfl, rfl⟩ | ⟨v, rfl, rfl, rfl⟩ |
      ⟨rfl, _⟩⟩ := ends hends
    · simp only [ready] at hready hu ⊢
      rcases hwoken with rfl | rfl <;> grind
    · simp only [ready] at hready hu ⊢
      grind
    · simp only [ready] at hready hu ⊢
      grind
    · exact hready.elim

end WakeTwo

/-- Two runs wake the waiters in different orders and then schedule the same
threads in the same order. -/
theorem interleaving_repeated :
    ∃ runs, explore (WakeTwo.client.tree {} .parked 1) 8 Scheduler.new = .ok runs ∧
      ¬ runs.Pairwise fun left right => ∀ l₁ l₂,
        left.2 = .ok (.ok l₁) → right.2 = .ok (.ok l₂) → l₁.order ≠ l₂.order := by
  refine ⟨_, rfl, fun h => ?_⟩
  rw [List.pairwise_iff_getElem] at h
  exact h 0 2 (by decide) (by decide) (by decide) _ _ rfl rfl rfl

theorem wakeTwo_interleavings :
    ∃ runs : List (List Nat × Except Panic (Except String Log)),
      (∀ fuel, runs.length ≤ fuel →
        explore (WakeTwo.client.tree {} .parked 1) fuel Scheduler.new = .ok runs) ∧
      (∀ run ∈ runs, ∃ log, run.2 = .ok (.ok log) ∧
        Executes none WakeTwo.client (Config.initial .parked 1) log.order
          log.answers log.preempts ∧
        ∀ k, none = some k → log.preempts ≤ k) ∧
      (∀ order own preempts,
        Executes none WakeTwo.client (Config.initial .parked 1) order own preempts →
        ∃ run ∈ runs, run.2 = .ok (.ok ⟨order, own, preempts⟩)) ∧
      runs.Pairwise fun left right => ∀ l₁ l₂,
        left.2 = .ok (.ok l₁) → right.2 = .ok (.ok l₂) →
        (l₁.order, l₁.answers) ≠ (l₂.order, l₂.answers) :=
  explore_interleavings WakeTwo.client {} .parked 1 rfl rfl rfl

end Dfs

end TwistSim
