/-
A debugger session comes to the same as `Run`: the same result, the same decisions
of the scheduler, the same state that is left behind.
-/
import TwistSim.Stepping
import TwistSim.Idling
import Mathlib.Algebra.GroupWithZero.Nat

namespace TwistSim

open Interaction Effect

variable {U σ : Type} {S : IScheduler σ} {program : Program U} {idle : σ → Bool}

/-! ### What `PickNext` decides -/

/-- What is decided by an answer, if it is one of `PickNext`. -/
def pick : (call : Call) → call.Reply → List (Except String ThreadId)
  | (_, .pickNext), reply => [reply]
  | _, _ => []

/-- The decisions of `PickNext`, in order. -/
def picks (answers : List (Sigma Call.Reply)) : List (Except String ThreadId) :=
  answers.flatMap fun answer => pick answer.1 answer.2

/-- The scheduler, with a record of its decisions. -/
def IScheduler.watched (S : IScheduler σ) :
    IScheduler (σ × List (Except String ThreadId)) where
  nextSchedule s := (false, s)
  exec call s := (S.exec call s.1).map fun (reply, s') => (reply, s', s.2 ++ pick call reply)

theorem watched_answer (call : Call) (s : σ) (log : List (Except String ThreadId)) :
    S.watched.answer call (s, log) =
      (S.answer call s).map fun (reply, s') => (reply, s', log ++ pick call reply) := by
  simp only [IScheduler.answer, IScheduler.watched]
  cases S.exec call s with
  | error p => rfl
  | ok answer =>
      simp only [Except.map]
      split
      · rfl
      · rfl

theorem watched_interp {α : Type} (t : Scheduled α) (s : σ)
    (log : List (Except String ThreadId)) :
    t.interp S.watched.answer (s, log) =
      (t.interp S.answer s).map fun (value, s') =>
        (value, s', log ++ picks (t.transcript S.answer s)) := by
  induction t generalizing s log with
  | ret value => simp [transcript, picks, Except.map]
  | ask call next ih =>
      rw [interp_ask, interp_ask, transcript_ask, watched_answer]
      cases S.answer call s with
      | error p => rfl
      | ok answer =>
          obtain ⟨reply, s'⟩ := answer
          simp only [Except.map, ih, picks, List.flatMap_cons, List.append_assoc]

theorem watched_idle (hS : S.SaysIdle idle) : S.watched.SaysIdle fun s => idle s.1 := by
  rintro view ⟨s, log⟩
  rw [watched_answer, hS]
  simp [Except.map, pick]

theorem Replay.Recorder.saysIdle (hS : S.SaysIdle idle) :
    (Replay.Recorder.scheduler S).SaysIdle fun r => idle r.underlying := by
  intro view r
  have hcall : ((view, .isIdle) : Call).2 ≠ .isModelChecker := nofun
  rw [recorder_answer hcall, hS]
  simp [Except.map, decision]

/-! ### How a run and a session end -/

namespace Kernel

/-- What `Run` and `Drain` do after the loop. -/
def finish (space : UserSpace U) : KernelM (Option Result × UserSpace U) := do
  stopLoop
  let result ← result
  pure (some result, space)

theorem stays_clearFutexes (keys : List FutexKey) : Stays (clearFutexes keys) := by
  induction keys with
  | nil => exact stays_pure ()
  | cons key rest ih =>
      refine stays_bind stays_get fun sim => ?_
      dsimp only
      split
      · exact stays_bind (stays_query _) fun _ => stays_bind (stays_verify _ _) fun _ =>
          stays_bind (stays_setFutex _ _) fun _ => ih
      · exact stays_bind (stays_pure _) fun _ => stays_bind (stays_verify _ _) fun _ =>
          stays_bind (stays_setFutex _ _) fun _ => ih

theorem finish_iters {space space' : UserSpace U} {result : Result} {sim sim' : Sim}
    {s s' : σ}
    (h : (finish space sim).interp S.answer s =
      .ok ((.ok (some result, space'), sim'), s')) : result.iters = sim.iter := by
  obtain ⟨_, sim₁, s₁, hstop, hresult⟩ := interp_bind_ok h
  obtain ⟨r, sim₂, s₂, hread, hpure⟩ := interp_bind_ok hresult
  cases hpure
  have hiters : result.iters = sim₁.iter := by
    unfold Kernel.result at hread
    obtain ⟨_, _, _, hget, hstatus⟩ := interp_bind_ok hread
    cases hget
    cases hsome : sim₁.status with
    | none =>
        simp only [hsome] at hstatus
        cases hstatus
    | some status =>
        simp only [hsome] at hstatus
        cases hstatus
        rfl
  rw [hiters]
  unfold stopLoop at hstop
  obtain ⟨_, _, _, hquery, hstop⟩ := interp_bind_ok hstop
  obtain ⟨_, _, _, hverify, hstop⟩ := interp_bind_ok hstop
  obtain ⟨_, _, _, hget, hstop⟩ := interp_bind_ok hstop
  cases hget
  obtain ⟨_, _, _, hverify', hstop⟩ := interp_bind_ok hstop
  obtain ⟨_, _, _, hmodify, hstop⟩ := interp_bind_ok hstop
  cases hmodify
  obtain ⟨_, _, _, hclear, hmodify⟩ := interp_bind_ok hstop
  cases hmodify
  have hcleared := congrArg Prod.fst ((stays_clearFutexes _).interp hclear)
  have hverified := congrArg Prod.fst ((stays_verify _ _).interp hverify')
  have hidle := congrArg Prod.fst ((stays_verify _ _).interp hverify)
  have hqueried := congrArg Prod.fst ((stays_query _).interp hquery)
  exact hcleared.trans (hverified.trans (hidle.trans hqueried))

end Kernel

namespace Machine

variable {y z : Machine U σ}

theorem finish_of_stepThrough {fuel : Nat} {budgets : List Nat}
    {outcome : Option Kernel.Result × UserSpace U} {sim : Sim} {s : σ}
    (hsome : outcome.1.isSome)
    (h : (Kernel.stepThrough program fuel budgets y.space y.sim).interp S.answer
      y.scheduler = .ok ((.ok outcome, sim), s)) (hS : S.SaysIdle idle) :
    ∃ z, Loops S program (budgets.sum + Kernel.unlimitedIterBudget) y z ∧
      (Kernel.finish z.space z.sim).interp S.answer z.scheduler =
        .ok ((.ok outcome, sim), s) := by
  induction budgets generalizing y with
  | nil =>
      obtain ⟨⟨control, space'⟩, sim', s', hloop, hrest⟩ := interp_bind_ok h
      cases control with
      | finished =>
          rw [List.sum_nil, Nat.zero_add]
          exact ⟨_, loops_of_runLoop hloop, hrest⟩
      | head budget =>
          cases hrest
          cases hsome
      | run t resumption budget =>
          cases hrest
          cases hsome
  | cons budget rest ih =>
      obtain ⟨⟨iters, space'⟩, sim', s', hfirst, hrest⟩ := interp_bind_ok h
      cases iters with
      | none =>
          cases hrest
          cases hsome
      | some iters =>
          obtain ⟨z, hloops, hfinish⟩ := @ih ⟨.finished, space', sim', s'⟩ hrest
          refine ⟨z, ?_, hfinish⟩
          rw [List.sum_cons, Nat.add_assoc]
          exact (loops_add hS).mpr ⟨_, (loops_of_runFor hfirst).1, hloops⟩

theorem Loops.stepThrough (hS : S.SaysIdle idle) {budgets : List Nat}
    (h : Loops S program (budgets.sum + Kernel.unlimitedIterBudget) y z) :
    ∃ n, ∀ fuel, n ≤ fuel →
      (Kernel.stepThrough program fuel budgets y.space y.sim).interp S.answer
        y.scheduler = (Kernel.finish z.space z.sim).interp S.answer z.scheduler := by
  induction budgets generalizing y with
  | nil =>
      rw [List.sum_nil, Nat.zero_add] at h
      obtain ⟨n, hn⟩ := h.runLoop
      exact ⟨n, fun fuel hfuel => interp_then (hn fuel hfuel)⟩
  | cons budget rest ih =>
      rw [List.sum_cons, Nat.add_assoc] at h
      obtain ⟨x, hfirst, hrest⟩ := (loops_add hS).mp h
      obtain ⟨n₁, hn₁⟩ := runFor_of_loops hfirst
      obtain ⟨n₂, hn₂⟩ := ih hrest
      refine ⟨max n₁ n₂, fun fuel hfuel => ?_⟩
      refine (interp_then (hn₁ fuel (le_trans (le_max_left _ _) hfuel))).trans ?_
      exact hn₂ fuel (le_trans (le_max_right _ _) hfuel)

theorem startLoop_iters {sim sim' : Sim} {s s' : σ}
    (h : (Kernel.startLoop sim).interp S.answer s = .ok ((.ok (), sim'), s')) :
    sim'.iter = sim.iter := by
  unfold Kernel.startLoop at h
  have hstays : Kernel.Stays Kernel.startLoop := by
    refine Kernel.stays_bind Kernel.stays_get fun _ => ?_
    refine Kernel.stays_bind (Kernel.stays_verify _ _) fun _ => ?_
    refine Kernel.stays_bind (Kernel.stays_modify fun _ => rfl) fun _ => ?_
    refine Kernel.stays_bind (Kernel.stays_query _) fun _ => ?_
    refine Kernel.stays_bind Kernel.stays_createThread fun _ => ?_
    exact Kernel.stays_bind (Kernel.stays_modifyThread _ _) fun _ => Kernel.stays_query _
  exact congrArg Prod.fst (hstays.interp h)

end Machine

/-! ### The session and the run -/

/-- What `Run` or a session comes to. -/
structure Conclusion (U σ : Type) where
  result : Kernel.Result
  space : UserSpace U
  sim : Sim
  scheduler : σ
  picks : List (Except String ThreadId)

/-- With enough fuel `t` comes to this conclusion. -/
def Concludes (S : IScheduler σ) (t : Nat → Scheduled (Outcome U)) (s : σ)
    (c : Conclusion U σ) : Prop :=
  ∃ fuel, (t fuel).interp S.answer s = .ok ((.ok (some c.result, c.space), c.sim), c.scheduler) ∧
    picks ((t fuel).transcript S.answer s) = c.picks

/-- The same, as far as it can be told from a run of the scheduler alone. -/
theorem concludes_iff {t : Nat → Scheduled (Outcome U)} {s : σ} {c : Conclusion U σ} :
    Concludes S t s c ↔
      ∃ fuel, (t fuel).interp S.watched.answer (s, []) =
        .ok ((.ok (some c.result, c.space), c.sim), c.scheduler, c.picks) := by
  refine exists_congr fun fuel => ?_
  rw [watched_interp]
  cases (t fuel).interp S.answer s with
  | error p => simp [Except.map]
  | ok outcome =>
      obtain ⟨outcome, s'⟩ := outcome
      simp only [Except.map, List.nil_append, Except.ok.injEq, Prod.mk.injEq]
      tauto

/-- A session starts the loop, runs it with all of its budgets together, and ends. -/
theorem debug_iff (hS : S.SaysIdle idle) {budgets : List Nat} {space space' : UserSpace U}
    {sim sim' : Sim} {s s' : σ} {result : Kernel.Result} :
    (∃ fuel, (Kernel.debug program fuel budgets space sim).interp S.answer s =
        .ok ((.ok (some result, space'), sim'), s')) ↔
      ∃ sim₀ s₀ z, (Kernel.startLoop sim).interp S.answer s = .ok ((.ok (), sim₀), s₀) ∧
        Machine.Loops S program (Kernel.unlimitedIterBudget + budgets.sum)
          ⟨.finished, space, sim₀, s₀⟩ z ∧
        (Kernel.finish z.space z.sim).interp S.answer z.scheduler =
          .ok ((.ok (some result, space'), sim'), s') := by
  constructor
  · rintro ⟨fuel, hrun⟩
    obtain ⟨_, sim₀, s₀, hstart, hrest⟩ := interp_bind_ok hrun
    obtain ⟨z, hloops, hfinish⟩ := @Machine.finish_of_stepThrough _ _ S program idle
      ⟨.finished, space, sim₀, s₀⟩ fuel budgets _ _ _ rfl hrest hS
    rw [Nat.add_comm] at hloops
    exact ⟨sim₀, s₀, z, hstart, hloops, hfinish⟩
  · rintro ⟨sim₀, s₀, z, hstart, hloops, hfinish⟩
    rw [Nat.add_comm] at hloops
    obtain ⟨n, hn⟩ := hloops.stepThrough hS
    exact ⟨n, (interp_then hstart).trans ((hn n (le_refl n)).trans hfinish)⟩

/-- Within the budget of `Run` a session and a run come to the same. -/
theorem debug_concludes (hS : S.SaysIdle idle) {budgets : List Nat}
    {space space' : UserSpace U} {sim sim' : Sim} {s s' : σ} {result : Kernel.Result}
    (hiters : result.iters < sim.iter + Kernel.unlimitedIterBudget) :
    (∃ fuel, (Kernel.debug program fuel budgets space sim).interp S.answer s =
        .ok ((.ok (some result, space'), sim'), s')) ↔
      ∃ fuel, (Kernel.run program fuel space sim).interp S.answer s =
        .ok ((.ok (some result, space'), sim'), s') := by
  simp only [Kernel.run_eq]
  rw [debug_iff hS, debug_iff hS]
  refine exists_congr fun sim₀ => exists_congr fun s₀ => exists_congr fun z => ?_
  refine and_congr_right fun hstart => and_congr_left fun hfinish => ?_
  have hwithin : z.sim.iter < sim₀.iter + Kernel.unlimitedIterBudget := by
    rw [← Kernel.finish_iters hfinish, Machine.startLoop_iters hstart]
    exact hiters
  have hiff := fun extra => @Machine.loops_within _ _ S program idle
    ⟨.finished, space, sim₀, s₀⟩ z hS Kernel.unlimitedIterBudget extra hwithin
  exact (hiff budgets.sum).trans (hiff [].sum).symm

/-- What debugger mode promises of a scheduler. -/
structure Debuggable (S : IScheduler σ) (idle : σ → Bool) : Prop where
  /-- One `RunFor` is two that share its budget, and the iterations add up. -/
  composes : ∀ (U : Type) (program : Program U) (a b n : Nat) (x z : Machine U σ),
    Machine.RunsFor S program (a + b) x n z ↔
      ∃ y k l, Machine.RunsFor S program a x k y ∧ Machine.RunsFor S program b y l z ∧
        n = k + l
  /-- A `RunFor` that leaves budget has run the simulation to its end. -/
  ends : ∀ (U : Type) (program : Program U) (a k : Nat) (x y : Machine U σ),
    Machine.RunsFor S program a x k y → k ≤ a ∧ (k < a → y.Ended idle)
  /-- After the end `RunFor` returns 0 and changes nothing. -/
  rests : ∀ (U : Type) (program : Program U) (b l : Nat) (y z : Machine U σ),
    y.control = .finished → y.Ended idle →
      (Machine.RunsFor S program b y l z ↔ l = 0 ∧ z = y)
  /-- A session comes to the same as `Run`. -/
  agrees : ∀ (U : Type) (program : Program U) (params : Params) (current : Bool)
    (budgets : List Nat) (space : UserSpace U) (s : σ) (c : Conclusion U σ),
    c.result.iters < Kernel.unlimitedIterBudget →
      (Concludes S (fun fuel => Kernel.debug program fuel budgets space
          (Sim.init params current)) s c ↔
        Concludes S (fun fuel => Kernel.run program fuel space
          (Sim.init params current)) s c)

theorem debuggable (hS : S.SaysIdle idle) : Debuggable S idle where
  composes U program a b n x z := by
    simp only [Machine.runsFor_iff]
    rw [Machine.loops_add hS]
    constructor
    · rintro ⟨⟨y, hfirst, hthen⟩, rfl⟩
      refine ⟨y, _, _, ⟨hfirst, rfl⟩, ⟨hthen, rfl⟩, ?_⟩
      have hfirst' := hfirst.counts hS
      have hthen' := hthen.counts hS
      omega
    · rintro ⟨y, k, l, ⟨hfirst, rfl⟩, ⟨hthen, rfl⟩, rfl⟩
      refine ⟨⟨y, hfirst, hthen⟩, ?_⟩
      have hfirst' := hfirst.counts hS
      have hthen' := hthen.counts hS
      omega
  ends U program a k x y h := by
    obtain ⟨hloops, rfl⟩ := Machine.runsFor_iff.mp h
    obtain ⟨hlow, hhigh, hended⟩ := hloops.counts hS
    exact ⟨by omega, fun hlt => hended (by omega)⟩
  rests U program b l y z hcontrol hended := by
    rw [Machine.runsFor_iff, Machine.loops_of_ended hS hended,
      Machine.halted_of_finished hcontrol]
    constructor
    · rintro ⟨rfl, rfl⟩
      exact ⟨Nat.sub_self _, rfl⟩
    · rintro ⟨rfl, rfl⟩
      exact ⟨rfl, (Nat.sub_self _).symm⟩
  agrees U program params current budgets space s c hiters := by
    rw [concludes_iff, concludes_iff]
    refine debug_concludes (watched_idle hS) (lt_of_lt_of_eq hiters ?_)
    exact (Nat.zero_add _).symm

/-- Debugger mode keeps its promises under every scheduler whose `IsIdle` is a constant
method, as it is for all of the schedulers and for the recorder of any of them. -/
theorem debugger_mode (random : Random.Params) (pct : Pct.Params) (fuel : Nat)
    (dfs : Dfs.Params) :
    (∀ (σ : Type) (S : IScheduler σ) (idle : σ → Bool), S.SaysIdle idle →
      Debuggable S idle ∧
        Debuggable (Replay.Recorder.scheduler S) fun r => idle r.underlying) ∧
      Debuggable Coop.scheduler (fun s => s.lists.isEmpty none) ∧
      Debuggable (Random.scheduler random)
        (fun s => s.runQueue.isEmpty && s.next.isNone) ∧
      Debuggable (Pct.scheduler pct fuel)
        (fun s => s.runQueue.isEmpty && s.active.isNone) ∧
      Debuggable (Dfs.scheduler dfs)
        (fun s => s.state.runQueue.isEmpty && s.state.active.isNone) ∧
      Debuggable Replay.scheduler (fun s => s.runSet.isEmpty) := by
  refine ⟨fun σ S idle hS => ⟨debuggable hS, debuggable (Replay.Recorder.saysIdle hS)⟩,
    debuggable Coop.rouses.isIdle, debuggable (Random.rouses random).isIdle,
    debuggable (Pct.rouses pct fuel).isIdle, debuggable (Dfs.rouses dfs).isIdle,
    debuggable Replay.rouses.isIdle⟩

/-! ### Longer than the budget of `Run` -/

theorem query_eq {q : Query} {sim : Sim} {s s' : σ} {r : q.Reply}
    (h : S.answer (sim.view, q) s = .ok (r, s')) :
    (Kernel.query q sim).interp S.answer s = .ok ((.ok r, sim), s') := by
  have hquery : Kernel.query q sim = .ask (sim.view, q) fun r => .ret (.ok r, sim) := rfl
  rw [hquery, interp_ask, h]
  rfl

/-- `main` yields for a long time, and exits. -/
def patient (yields : Nat) : Program Nat where
  resume _ _ count :=
    if count < yields then (.sys .yield, count + 1) else (.sys .threadExit, count)
  heapStat _ := ⟨0, 0, 0, 0⟩

/-- `main` has yielded `count` times, and is in the run queue. -/
structure Spinning (count : Nat) (m : Machine Nat Coop.State) : Prop where
  user : m.space.user = count
  params : m.sim.params = {}
  alive : m.sim.alive = [1]
  action : (m.sim.threads 1).action = none
  main : (m.sim.threads 1).main = true
  timers : m.sim.timerQueue.isEmpty = true
  futexKeys : m.sim.futexKeys = []
  done : m.sim.done = false
  queue : m.scheduler.lists.lists none = [1]
  home : m.scheduler.lists.home 1 = some none
  next : m.scheduler.next = none

theorem spinning_start :
    ∃ sim₀ s₀, (Kernel.startLoop (Sim.init {} false)).interp Coop.scheduler.answer
        (Coop.State.new ⟨0⟩) = .ok ((.ok (), sim₀), s₀) ∧
      Spinning 0 ⟨.finished, Machine.noVariables, sim₀, s₀⟩ :=
  ⟨_, _, rfl, rfl, rfl, rfl, rfl, rfl, rfl, rfl, rfl, rfl, rfl, rfl⟩

namespace Spinning

variable {count yields budget : Nat} {m : Machine Nat Coop.State}

theorem maintenance_eq {sim : Sim} {s : Coop.State} (h : sim.timerQueue.isEmpty = true) :
    (Kernel.maintenance sim).interp Coop.scheduler.answer s = .ok ((.ok (), sim), s) := by
  refine (interp_then rfl).trans ?_
  simp only [h, Bool.not_true, Bool.false_eq_true, if_false]
  exact interp_then (interp_then (query_eq rfl))

theorem pickNext_eq {sim : Sim} {s : Coop.State} (halive : sim.alive = [1])
    (hqueue : s.lists.lists none = [1]) (hnext : s.next = none) :
    Coop.scheduler.answer (sim.view, .pickNext) s =
      .ok (.ok 1, { s with lists := s.lists.unlink 1 }) := by
  have hpick : Coop.pickNext s = .ok (.ok 1, { s with lists := s.lists.unlink 1 }) := by
    simp only [Coop.pickNext, hnext, IntrusiveLists.popFront, hqueue]
  have hview : sim.view.alive 1 = true := by
    simp [Sim.view, halive]
  simp only [IScheduler.answer, Coop.scheduler, hpick, Call.usable, hview, if_true]

/-- The thread that runs after `PickNext`. -/
def switched (sim : Sim) : Sim :=
  let sim := { sim with digest := hashCombine sim.digest (UInt64.ofNat 1) }
  sim.setThread 1
    { sim.threads 1 with state := .running, runs := (sim.threads 1).runs + 1 }

theorem pick_eq {sim : Sim} {s : Coop.State} (halive : sim.alive = [1])
    (haction : (sim.threads 1).action = none) (hqueue : s.lists.lists none = [1])
    (hnext : s.next = none) :
    (Kernel.runPicked sim).interp Coop.scheduler.answer s =
      .ok ((.ok 1, switched sim), { s with lists := s.lists.unlink 1 }) := by
  refine (interp_then (query_eq (pickNext_eq halive hqueue hnext))).trans ?_
  refine (interp_then rfl).trans ?_
  have hcomplete : ∀ s : Coop.State,
      (Kernel.completeSync 1 { sim with digest := hashCombine sim.digest (UInt64.ofNat 1) }).interp
        Coop.scheduler.answer s =
      .ok ((.ok (), { sim with digest := hashCombine sim.digest (UInt64.ofNat 1) }), s) := by
    intro s
    refine (interp_then rfl).trans ?_
    simp only [haction]
    rfl
  exact (interp_then (hcomplete _)).trans ((interp_then rfl).trans rfl)

/-- `main` is picked, whatever the iteration is. -/
theorem beginIter_eq (h : Spinning count m) :
    (Kernel.beginIter m.sim).interp Coop.scheduler.answer m.scheduler =
      .ok ((.ok 1, switched { m.sim with
          iter := m.sim.iter + 1, ticks := (m.sim.ticks + 1) % ticksSize }),
        { m.scheduler with lists := m.scheduler.lists.unlink 1 }) := by
  unfold Kernel.beginIter
  refine (interp_then rfl).trans ((interp_then rfl).trans ?_)
  dsimp only
  split
  · refine (interp_then (maintenance_eq ?_)).trans (pick_eq h.alive h.action h.queue h.next)
    exact h.timers
  · exact pick_eq h.alive h.action h.queue h.next

/-- `main` runs. -/
def running (budget : Nat) (m : Machine Nat Coop.State) : Machine Nat Coop.State :=
  let sim := switched { m.sim with
    iter := m.sim.iter + 1, ticks := (m.sim.ticks + 1) % ticksSize }
  ⟨.run 1 (.answer (.resumed (sim.threads 1).status (sim.threads 1).load)) budget, m.space,
    sim, { m.scheduler with lists := m.scheduler.lists.unlink 1 }⟩

theorem next_head (h : Spinning count m) :
    (m.started (budget + 1)).next Coop.scheduler (patient yields) .turn =
      some (running (budget + 1) m) := by
  have hidle : Coop.scheduler.answer (m.sim.view, .isIdle) m.scheduler =
      .ok (false, m.scheduler) := by
    have hempty : m.scheduler.lists.isEmpty none = false := by
      simp [IntrusiveLists.isEmpty, h.queue]
    rw [Coop.rouses.isIdle, hempty]
  have hhead : (Kernel.stepHead (budget + 1) m.sim).interp Coop.scheduler.answer m.scheduler =
      .ok ((.ok (running (budget + 1) m).control, (running (budget + 1) m).sim),
        (running (budget + 1) m).scheduler) := by
    refine (interp_then (query_eq hidle)).trans ?_
    simp only [Bool.not_false, Bool.true_and, Nat.zero_lt_succ, decide_true, if_true]
    exact (interp_then h.beginIter_eq).trans ((interp_then rfl).trans rfl)
  exact @Machine.next_of_turn _ _ Coop.scheduler (patient yields) (m.started (budget + 1))
    _ _ _ _ (interp_handle (interp_then hhead))

theorem unlink_eq (h : Spinning count m) :
    (m.scheduler.lists.unlink 1).lists none = [] ∧
      (m.scheduler.lists.unlink 1).home 1 = none := by
  simp [IntrusiveLists.unlink, h.home, h.queue]

/-- `main` has yielded once more. -/
def yielded (m : Machine Nat Coop.State) : Machine Nat Coop.State :=
  ⟨.finished, { m.space with user := m.space.user + 1 }, (running 0 m).sim,
    { m.scheduler with lists := (m.scheduler.lists.unlink 1).link none 1 [1] }⟩

theorem spinning_yielded (h : Spinning count m) : Spinning (count + 1) (yielded m) :=
  ⟨congrArg (· + 1) h.user, h.params, h.alive, h.action, h.main, h.timers, h.futexKeys,
    h.done, by simp [yielded, IntrusiveLists.link], by simp [yielded, IntrusiveLists.link],
    h.next⟩

/-- `main` yields, as long as it has to. -/
theorem next_yield (h : Spinning count m) (hcount : count < yields) :
    (running (budget + 1) m).next Coop.scheduler (patient yields) .turn =
      some ((yielded m).started budget) := by
  obtain ⟨hlist, hhome⟩ := h.unlink_eq
  have hpush : ∀ view, Coop.scheduler.answer (view, .yield 1)
      { m.scheduler with lists := m.scheduler.lists.unlink 1 } =
      .ok ((), { m.scheduler with
        lists := (m.scheduler.lists.unlink 1).link none 1 [1] }) := by
    intro view
    simp [IScheduler.answer, Coop.scheduler, Coop.pushBack, Coop.State.withLists,
      IntrusiveLists.pushBack, IntrusiveLists.isLinked, hlist, hhome, Call.usable, Except.map]
  have hsys : ∀ stat sim, (Kernel.stepSys 1 stat .yield (budget + 1) sim).interp
      Coop.scheduler.answer { m.scheduler with lists := m.scheduler.lists.unlink 1 } =
      .ok ((.ok (.head budget), sim), { m.scheduler with
        lists := (m.scheduler.lists.unlink 1).link none 1 [1] }) := fun stat sim =>
    (interp_then ((interp_then (query_eq (hpush sim.view))).trans rfl)).trans rfl
  have hrequest : ∀ resumption, (patient yields).resume 1 resumption m.space.user =
      (.sys .yield, m.space.user + 1) := fun resumption => by
    simp only [patient, h.user, hcount, if_true]
  have hstep : (Kernel.step (patient yields) (running (budget + 1) m).control m.space
      (running (budget + 1) m).sim).interp Coop.scheduler.answer
      { m.scheduler with lists := m.scheduler.lists.unlink 1 } =
      .ok ((.ok (.head budget, { m.space with user := m.space.user + 1 }),
        (running (budget + 1) m).sim), { m.scheduler with
          lists := (m.scheduler.lists.unlink 1).link none 1 [1] }) := by
    simp only [running, Kernel.step, hrequest]
    exact (interp_then (hsys _ _)).trans rfl
  exact @Machine.next_of_turn _ _ Coop.scheduler (patient yields) (running (budget + 1) m)
    _ _ _ _ (interp_handle hstep)

/-- The simulation after `main` has exited. -/
def exited (sim : Sim) : Sim :=
  { sim with alive := [], status := some .ok }

theorem sysThreadExit_eq {sim : Sim} {s : Coop.State} (hparams : sim.params = {})
    (halive : sim.alive = [1]) (hmain : (sim.threads 1).main = true) :
    (Kernel.sysThreadExit 1 ⟨0, 0, 0, 0⟩ sim).interp Coop.scheduler.answer s =
      .ok ((.ok (), exited sim), s) := by
  have hdestroy : (Kernel.destroyThread 1 sim).interp Coop.scheduler.answer s =
      .ok ((.ok (), { sim with alive := [] }), s) := by
    simp only [Kernel.destroyThread, Effect.modify, halive]
    rfl
  have hcompleted : (Kernel.mainCompleted ⟨0, 0, 0, 0⟩ { sim with alive := [] }).interp
      Coop.scheduler.answer s = .ok ((.ok (), exited sim), s) := by
    have hdetached : (sim.params.isolation && sim.params.allowDetachedThreads) = true := by
      rw [hparams]
      rfl
    refine (interp_then rfl).trans ?_
    dsimp only
    rw [if_pos hdetached]
    refine (interp_then rfl).trans ?_
    have hcheck : (Kernel.checkMemory ⟨0, 0, 0, 0⟩ { sim with alive := [] }).interp
        Coop.scheduler.answer s = .ok ((.ok (), { sim with alive := [] }), s) := by
      refine (interp_then rfl).trans ?_
      simp only [bne_self_eq_false, Bool.and_false, Bool.false_eq_true, if_false]
      rfl
    refine (interp_then rfl).trans ((interp_then rfl).trans ?_)
    exact (interp_then hcheck).trans rfl
  refine (interp_then (query_eq rfl)).trans ((interp_then rfl).trans ?_)
  refine (interp_then hdestroy).trans ?_
  simp only [hmain, if_true]
  exact hcompleted

/-- At last `main` exits. -/
theorem next_exit (h : Spinning yields m) :
    ∃ m' : Machine Nat Coop.State,
      (running 1 m).next Coop.scheduler (patient yields) .turn = some (m'.started 0) ∧
      m'.sim = exited (running 1 m).sim ∧
      m'.scheduler = { m.scheduler with lists := m.scheduler.lists.unlink 1 } := by
  have hrequest : ∀ resumption, (patient yields).resume 1 resumption m.space.user =
      (.sys .threadExit, m.space.user) := fun resumption => by
    simp only [patient, h.user, lt_irrefl, if_false]
  have hexit := @sysThreadExit_eq (running 1 m).sim (running 1 m).scheduler h.params h.alive
    h.main
  have hsys : (Kernel.stepSys 1 ⟨0, 0, 0, 0⟩ .threadExit 1 (running 1 m).sim).interp
      Coop.scheduler.answer (running 1 m).scheduler =
      .ok ((.ok (.head 0), exited (running 1 m).sim), (running 1 m).scheduler) :=
    (interp_then ((interp_then hexit).trans rfl)).trans rfl
  have hstep : (Kernel.step (patient yields) (running 1 m).control m.space
      (running 1 m).sim).interp Coop.scheduler.answer (running 1 m).scheduler =
      .ok ((.ok (.head 0, { m.space with user := m.space.user }), exited (running 1 m).sim),
        (running 1 m).scheduler) := by
    simp only [running, Kernel.step, hrequest]
    exact (interp_then hsys).trans rfl
  exact ⟨⟨.finished, m.space, exited (running 1 m).sim, (running 1 m).scheduler⟩,
    @Machine.next_of_turn _ _ Coop.scheduler (patient yields) (running 1 m)
      _ _ _ _ (interp_handle hstep), rfl, rfl⟩

/-- As many iterations as `main` has to yield. -/
theorem spins {more : Nat} (h : Spinning count m) (hmore : count + more ≤ yields) :
    ∃ m', Spinning (count + more) m' ∧ ∀ budget z,
      Machine.Ends Coop.scheduler (patient yields) (m.started (more + budget)) z ↔
        Machine.Ends Coop.scheduler (patient yields) (m'.started budget) z := by
  induction more generalizing count m with
  | zero => exact ⟨m, h, fun budget z => by rw [Nat.zero_add]⟩
  | succ more ih =>
      obtain ⟨m', hspinning, hends⟩ := @ih (count + 1) (yielded m) h.spinning_yielded
        (by omega)
      refine ⟨m', (Nat.add_right_comm count 1 more) ▸ hspinning, fun budget z => ?_⟩
      rw [← hends budget z, Nat.add_right_comm more 1 budget]
      exact (Machine.ends_of_next Control.noConfusion h.next_head).trans
        (Machine.ends_of_next Control.noConfusion (h.next_yield (by omega)))

/-- When `main` has exited, the simulation can end. -/
theorem finish_eq {m' : Machine Nat Coop.State} (h : Spinning yields m)
    (hsim : m'.sim = exited (running 1 m).sim)
    (hs : m'.scheduler = { m.scheduler with lists := m.scheduler.lists.unlink 1 }) :
    ∃ result sim s, (Kernel.finish m'.space m'.sim).interp Coop.scheduler.answer
      m'.scheduler = .ok ((.ok (some result, m'.space), sim), s) := by
  have hidle : ∀ view, Coop.scheduler.answer (view, .isIdle) m'.scheduler =
      .ok (true, m'.scheduler) := by
    intro view
    have hempty : m'.scheduler.lists.isEmpty none = true := by
      rw [hs]
      simp [IntrusiveLists.isEmpty, h.unlink_eq.1]
    rw [Coop.rouses.isIdle, hempty]
  have htimers : m'.sim.timerQueue.isEmpty = true := by
    rw [hsim]
    exact h.timers
  have hkeys : m'.sim.futexKeys = [] := by
    rw [hsim]
    exact h.futexKeys
  have hstatus : m'.sim.status = some .ok := by
    rw [hsim]
    rfl
  have hstop : ∃ sim, (Kernel.stopLoop m'.sim).interp Coop.scheduler.answer m'.scheduler =
      .ok ((.ok (), sim), m'.scheduler) ∧ sim.status = some .ok := by
    refine ⟨{ Kernel.resetMemoryModel m'.sim with
      done := true, futexKeys := [], current := false }, ?_, hstatus⟩
    refine (interp_then (query_eq (hidle _))).trans ?_
    refine (interp_then rfl).trans ((interp_then rfl).trans ?_)
    simp only [htimers, hkeys]
    refine (interp_then rfl).trans ((interp_then rfl).trans ?_)
    exact (interp_then rfl).trans rfl
  obtain ⟨sim, hstop, hstatus'⟩ := hstop
  have hresult : (Kernel.result sim).interp Coop.scheduler.answer m'.scheduler =
      .ok ((.ok ⟨.ok, sim.stdout, sim.stderr, sim.memory.threadCount, sim.iter, sim.digest⟩,
        sim), m'.scheduler) := by
    refine (interp_then rfl).trans ?_
    simp only [hstatus']
    rfl
  exact ⟨_, _, _, (interp_then hstop).trans ((interp_then hresult).trans rfl)⟩

end Spinning

/-- The loop has used up its budget while `main` still runs. -/
theorem not_finish {count : Nat} {m : Machine Nat Coop.State} (h : Spinning count m)
    {r : Option Kernel.Result × UserSpace Nat} {space : UserSpace Nat} {sim : Sim} {s : Coop.State} :
    (Kernel.finish space m.sim).interp Coop.scheduler.answer m.scheduler ≠
      .ok ((.ok r, sim), s) := by
  intro hrun
  obtain ⟨_, _, _, hstop, _⟩ := interp_bind_ok hrun
  unfold Kernel.stopLoop at hstop
  obtain ⟨isIdle, _, _, hquery, hstop⟩ := interp_bind_ok hstop
  obtain ⟨rfl, rfl, rfl⟩ := Kernel.isIdle_ok Coop.rouses.isIdle hquery
  obtain ⟨_, _, _, hverify, _⟩ := interp_bind_ok hstop
  have hidle := (verify_ok hverify).1
  rw [IntrusiveLists.isEmpty, h.queue] at hidle
  cases hidle

/-- A program that yields as often as the budget of `Run` allows, and exits then: a
session that makes one iteration first comes to its end, and `Run` does not. -/
theorem session_outlives_run :
    (∃ c, Concludes Coop.scheduler (fun fuel => Kernel.debug
        (patient Kernel.unlimitedIterBudget) fuel [1] Machine.noVariables (Sim.init {} false))
        (Coop.State.new ⟨0⟩) c) ∧
      ∀ c, ¬ Concludes Coop.scheduler (fun fuel => Kernel.run
        (patient Kernel.unlimitedIterBudget) fuel Machine.noVariables (Sim.init {} false))
        (Coop.State.new ⟨0⟩) c := by
  obtain ⟨sim₀, s₀, hstart, hspinning⟩ := spinning_start
  obtain ⟨m, hm, hends⟩ := hspinning.spins (Nat.zero_add Kernel.unlimitedIterBudget).le
  have hloops : ∀ budget z, Machine.Loops Coop.scheduler (patient Kernel.unlimitedIterBudget)
      (Kernel.unlimitedIterBudget + budget) ⟨.finished, Machine.noVariables, sim₀, s₀⟩ z ↔
      Machine.Ends Coop.scheduler (patient Kernel.unlimitedIterBudget) (m.started budget) z := by
    intro budget z
    have hdone : sim₀.done = false := hspinning.done
    rw [Machine.Loops, if_neg (by simp [hdone]), hends]
  have hm' : Spinning Kernel.unlimitedIterBudget m := by
    rw [Nat.zero_add] at hm
    exact hm
  constructor
  · obtain ⟨m', hnext, hsim, hs⟩ := hm'.next_exit
    obtain ⟨result, sim, s, hfinish⟩ := hm'.finish_eq hsim hs
    have hend : Machine.Ends Coop.scheduler (patient Kernel.unlimitedIterBudget)
        (m.started 1) m'.halted :=
      .turn Control.noConfusion hm'.next_head (.turn Control.noConfusion hnext
        (.turn Control.noConfusion (Machine.next_ends Coop.rouses.isIdle (Or.inl rfl))
          (.finished rfl)))
    obtain ⟨fuel, hfuel⟩ := (@debug_iff _ _ Coop.scheduler
      (patient Kernel.unlimitedIterBudget) _ Coop.rouses.isIdle [1] Machine.noVariables
      m'.space (Sim.init {} false) sim _ s result).mpr
      ⟨sim₀, s₀, m'.halted, hstart, (hloops 1 _).mpr hend, hfinish⟩
    exact ⟨⟨result, m'.space, sim, s, _⟩, fuel, hfuel, rfl⟩
  · rintro c ⟨fuel, hrun, -⟩
    obtain ⟨sim₁, s₁, z, hstart', hfirst, hfinish⟩ :=
      (@debug_iff _ _ Coop.scheduler _ _ Coop.rouses.isIdle [] _ _ _ _ _ _ _).mp ⟨fuel, hrun⟩
    cases hstart.symm.trans hstart'
    have hspent := (hloops 0 z).mp hfirst
    rw [Machine.ends_of_next Control.noConfusion
      (Machine.next_ends Coop.rouses.isIdle (Or.inl rfl)), Machine.ends_of_finished rfl] at hspent
    subst hspent
    exact not_finish hm' hfinish

end TwistSim
