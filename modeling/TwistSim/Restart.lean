/-
Starting a scheduler again repeats its last schedule, as far as `Start` brings
back all that the schedule depends on.
-/
import TwistSim.Recording
import TwistSim.RandomScheduler
import TwistSim.PctScheduler

namespace TwistSim

open Interaction Effect Replay

variable {σ U : Type} {S : IScheduler σ}

/-- What `Run` leaves behind: a result, user space and the simulator. -/
abbrev Outcome (U : Type) :=
  Except Thrown (Option Kernel.Result × UserSpace U) × Sim

/-- A run that ends with a result. -/
def Completes (S : IScheduler σ) (t : Scheduled (Outcome U)) (s : σ)
    (outcome : Outcome U) (s₁ : σ) : Prop :=
  t.interp S.answer s = .ok (outcome, s₁) ∧
    ∃ result space sim, outcome = (.ok (some result, space), sim)

/-- The scheduler is started again in state `s₁`: the run is the same, and it is
the same under the recorder, as long as the program does not hear that its
scheduler is a model checker. -/
structure Repeated (S : IScheduler σ) (isModelChecker : Bool)
    (t : Scheduled (Outcome U)) (s : σ) (outcome : Outcome U) (s₁ : σ) : Prop where
  asked : t.transcript S.answer s₁ = t.transcript S.answer s
  ends : ∃ s₂, t.interp S.answer s₁ = .ok (outcome, s₂)
  recorded : Recorder.Unaware S (fun _ => isModelChecker) t s →
    t.transcript (Recorder.scheduler S).answer (Recorder.new s₁) =
        t.transcript S.answer s ∧
      ∃ s₂, t.interp (Recorder.scheduler S).answer (Recorder.new s₁) =
        .ok (outcome, s₂)

/-- Every completed run whose steps are all `Steady` is repeated. -/
def Repeats (S : IScheduler σ) (isModelChecker : Bool) (Steady : σ → Call → Prop) :
    Prop :=
  ∀ (U : Type) (program : Program U) (fuel : Nat) (space : UserSpace U) (sim : Sim)
    (s s₁ : σ) (outcome : Outcome U),
    (Kernel.run program fuel space sim).Along S.answer Steady s →
    Completes S (Kernel.run program fuel space sim) s outcome s₁ →
    Repeated S isModelChecker (Kernel.run program fuel space sim) s outcome s₁

theorem repeated_of_again {isModelChecker : Bool}
    (hS : S.SaysModelChecker fun _ => isModelChecker) {t : Scheduled (Outcome U)}
    {s s₁ s₂ : σ} {outcome : Outcome U}
    (hasked : t.transcript S.answer s₁ = t.transcript S.answer s)
    (hends : t.interp S.answer s₁ = .ok (outcome, s₂)) :
    Repeated S isModelChecker t s outcome s₁ where
  asked := hasked
  ends := ⟨s₂, hends⟩
  recorded hunaware := by
    have hunaware' : Recorder.Unaware S (fun _ => isModelChecker) t s₁ :=
      hunaware.of_transcript hasked
    obtain ⟨hsame, hresult⟩ :=
      @Recorder.transparent_from _ _ S _ hS t (Recorder.new s₁) hunaware'
    rw [hresult]
    simp only [Recorder.new, hends, Except.map, Except.ok.injEq, Prod.mk.injEq,
      true_and, exists_eq', and_true]
    exact hsame.trans hasked

/-! ### How a run starts and ends -/

theorem run_starts {program : Program U} {fuel : Nat} {space : UserSpace U}
    {sim : Sim} {s s₁ : σ} {outcome : Outcome U}
    (h : Completes S (Kernel.run program fuel space sim) s outcome s₁) :
    ∃ view next, Kernel.run program fuel space sim = .ask (view, .start) next := by
  obtain ⟨hrun, result, space', sim', rfl⟩ := h
  cases hcurrent : sim.current with
  | false =>
      have hsim : sim = { sim with current := false } := by rw [← hcurrent]
      rw [hsim]
      exact ⟨_, _, rfl⟩
  | true =>
      have hsim : sim = { sim with current := true } := by rw [← hcurrent]
      rw [hsim] at hrun
      cases hrun

theorem verify_ok {cond : Bool} {error : String} {sim sim' : Sim} {s s' : σ}
    (h : (Kernel.verify cond error sim).interp S.answer s = .ok ((.ok (), sim'), s')) :
    cond = true ∧ sim' = sim ∧ s' = s := by
  cases cond with
  | true =>
      cases h
      exact ⟨rfl, rfl, rfl⟩
  | false => cases h

theorem query_ok {q : Query} {sim sim' : Sim} {s s' : σ} {r : q.Reply}
    (h : (Kernel.query q sim).interp S.answer s = .ok ((.ok r, sim'), s')) :
    S.answer (sim.view, q) s = .ok (r, s') ∧ sim' = sim := by
  have hq : Kernel.query q sim =
      .ask (sim.view, q) fun r => .ret (.ok r, sim) := rfl
  rw [hq, interp_ask] at h
  cases hanswer : S.answer (sim.view, q) s with
  | error p =>
      rw [hanswer] at h
      cases h
  | ok answer =>
      rw [hanswer] at h
      cases h
      exact ⟨rfl, rfl⟩

/-- The destructors of the wait queues leave the scheduler as it is. -/
theorem clearFutexes_keeps {I : σ → Prop}
    (hkeep : ∀ view q s r s', S.answer (view, .queueIsEmpty q) s = .ok (r, s') →
      I s → I s')
    {keys : List FutexKey} {sim sim' : Sim} {s s' : σ} (hI : I s)
    (h : (Kernel.clearFutexes keys sim).interp S.answer s =
      .ok ((.ok (), sim'), s')) : I s' := by
  induction keys generalizing sim s with
  | nil =>
      cases h
      exact hI
  | cons key rest ih =>
      obtain ⟨_, _, _, hget, h⟩ := interp_bind_ok h
      cases hget
      have hrest : ∀ isEmpty (s₂ : σ), I s₂ →
          ((do
            Kernel.verify isEmpty "Destroying non-empty wait queue"
            Kernel.setFutex key ⟨none, none⟩
            Kernel.clearFutexes rest : KernelM Unit) sim).interp S.answer s₂ =
            .ok ((.ok (), sim'), s') → I s' := by
        intro isEmpty s₂ hI₂ h
        obtain ⟨_, _, _, hverify, hthen⟩ := interp_bind_ok h
        obtain ⟨-, rfl, rfl⟩ := verify_ok hverify
        obtain ⟨_, _, _, hset, hclear⟩ := interp_bind_ok hthen
        cases hset
        exact ih hI₂ hclear
      cases hwaiters : (sim.futex key).waiters with
      | none =>
          simp only [hwaiters] at h
          exact hrest _ s hI h
      | some id =>
          simp only [hwaiters] at h
          obtain ⟨isEmpty, _, s₂, hquery, hthen⟩ := interp_bind_ok h
          obtain ⟨hanswer, rfl⟩ := query_ok hquery
          exact hrest isEmpty s₂ (hkeep _ _ _ _ _ hanswer hI) hthen

theorem stopLoop_idle {I : σ → Prop}
    (hidle : ∀ view s s', S.answer (view, .isIdle) s = .ok (true, s') → I s')
    (hkeep : ∀ view q s r s', S.answer (view, .queueIsEmpty q) s = .ok (r, s') →
      I s → I s')
    {sim sim' : Sim} {s s' : σ}
    (h : (Kernel.stopLoop sim).interp S.answer s = .ok ((.ok (), sim'), s')) :
    I s' := by
  unfold Kernel.stopLoop at h
  obtain ⟨idle, _, _, hquery, hthen⟩ := interp_bind_ok h
  obtain ⟨hanswer, rfl⟩ := query_ok hquery
  obtain ⟨_, _, _, hverify, hgets⟩ := interp_bind_ok hthen
  obtain ⟨rfl, rfl, rfl⟩ := verify_ok hverify
  obtain ⟨_, _, _, hget, htimers⟩ := interp_bind_ok hgets
  cases hget
  obtain ⟨_, _, _, hverify, hreset⟩ := interp_bind_ok htimers
  obtain ⟨-, rfl, rfl⟩ := verify_ok hverify
  obtain ⟨_, _, _, hmodify, hfutexes⟩ := interp_bind_ok hreset
  cases hmodify
  obtain ⟨_, _, _, hclear, hend⟩ := interp_bind_ok hfutexes
  cases hend
  exact clearFutexes_keeps hkeep (hidle _ _ _ hanswer) hclear

theorem result_keeps {r : Kernel.Result} {sim sim' : Sim} {s s' : σ}
    (h : (Kernel.result sim).interp S.answer s = .ok ((.ok r, sim'), s')) :
    s' = s := by
  unfold Kernel.result at h
  obtain ⟨_, _, _, hget, hstatus⟩ := interp_bind_ok h
  cases hget
  cases hsome : sim.status with
  | none =>
      simp only [hsome] at hstatus
      cases hstatus
  | some status =>
      simp only [hsome] at hstatus
      cases hstatus
      rfl

/-- A completed run ends where the scheduler said that it is idle. -/
theorem run_ends_idle {I : σ → Prop}
    (hidle : ∀ view s s', S.answer (view, .isIdle) s = .ok (true, s') → I s')
    (hkeep : ∀ view q s r s', S.answer (view, .queueIsEmpty q) s = .ok (r, s') →
      I s → I s')
    {program : Program U} {fuel : Nat} {space : UserSpace U} {sim : Sim} {s s₁ : σ}
    {outcome : Outcome U}
    (h : Completes S (Kernel.run program fuel space sim) s outcome s₁) : I s₁ := by
  obtain ⟨hrun, result, space', sim', rfl⟩ := h
  obtain ⟨_, sim₁, a₁, _, hrun⟩ := interp_bind_ok hrun
  obtain ⟨⟨control, space₁⟩, sim₂, a₂, _, hrun⟩ := interp_bind_ok hrun
  cases control with
  | finished =>
      obtain ⟨_, sim₃, a₃, hstop, hresult⟩ := interp_bind_ok hrun
      obtain ⟨r, _, _, hread, hpure⟩ := interp_bind_ok hresult
      cases hpure
      rw [result_keeps hread]
      exact stopLoop_idle hidle hkeep hstop
  | head budget => cases hrun
  | run thread resumption budget => cases hrun

/-! ### One scheduler after the other -/

theorem start_answers {program : Program U} {fuel : Nat} {space : UserSpace U}
    {sim : Sim} {s s₁ : σ} {outcome : Outcome U}
    (h : Completes S (Kernel.run program fuel space sim) s outcome s₁) :
    ∃ view r s₂, S.exec (view, .start) s = .ok (r, s₂) := by
  obtain ⟨view, next, htree⟩ := run_starts h
  have hrun := h.1
  rw [htree, interp_ask] at hrun
  cases hanswer : S.answer (view, .start) s with
  | error p =>
      rw [hanswer] at hrun
      cases hrun
  | ok answer =>
      exact ⟨view, answer.1, answer.2, (IScheduler.answer_ok_iff.mp hanswer).1⟩

/-- `Start` makes the same of the scheduler as it did before the run. -/
theorem repeated_of_start {isModelChecker : Bool}
    (hS : S.SaysModelChecker fun _ => isModelChecker) {program : Program U}
    {fuel : Nat} {space : UserSpace U} {sim : Sim} {s s₁ : σ} {outcome : Outcome U}
    (h : Completes S (Kernel.run program fuel space sim) s outcome s₁)
    (hstart : ∀ view, S.answer (view, .start) s₁ = S.answer (view, .start) s) :
    Repeated S isModelChecker (Kernel.run program fuel space sim) s outcome s₁ := by
  obtain ⟨view, next, htree⟩ := run_starts h
  obtain ⟨hrun, -⟩ := h
  rw [htree] at hrun ⊢
  refine @repeated_of_again _ _ _ _ hS _ _ _ s₁ _ ?_ ?_
  · rw [transcript_ask, transcript_ask, hstart]
  · rw [interp_ask] at hrun ⊢
    rw [hstart]
    exact hrun

namespace Random

variable {params : Params} {view : KernelView} {s s' : State} {t : ThreadId}

/-- What `Start` reads. -/
def SameSeed (s s' : State) : Prop := s'.seed = s.seed ∧ s'.runs = s.runs

theorem SameSeed.trans {s'' : State} (h : SameSeed s s') (h' : SameSeed s' s'') :
    SameSeed s s'' :=
  ⟨h'.1.trans h.1, h'.2.trans h.2⟩

theorem start_eq (h : SameSeed s s') : start s' = start s := by
  simp only [start, h.1, h.2]

theorem enqueue_seed (h : enqueue t s = .ok s') : SameSeed s s' := by
  obtain ⟨queue, _, rfl⟩ := map_eq_ok h
  exact ⟨rfl, rfl⟩

theorem interrupt_seed (h : interrupt params view t s = .ok s') : SameSeed s s' := by
  unfold interrupt at h
  split at h
  · exact enqueue_seed h
  · split at h
    · cases h
    · rename_i s₁ hsuspend
      obtain ⟨random, rfl⟩ := toLfSuspend_spec hsuspend
      obtain ⟨queue, _, rfl⟩ := map_eq_ok h
      exact ⟨rfl, rfl⟩
    · rename_i s₁ hsuspend
      obtain ⟨random, rfl⟩ := toLfSuspend_spec hsuspend
      cases h
      exact ⟨rfl, rfl⟩

theorem lfResume_seed (h : lfResume view s = .ok s') : SameSeed s s' := by
  obtain ⟨n, random, hroll⟩ := randomNumber_eq s
  rw [lfResume, hroll] at h
  split at h
  · cases h
    exact ⟨rfl, rfl⟩
  · split at h
    · split at h
      · have hsame := enqueue_seed h
        exact ⟨hsame.1, hsame.2⟩
      · cases h
    · cases h

theorem setLockFree_seed {flag : Bool} (h : setLockFree view t flag s = .ok s') :
    SameSeed s s' := by
  unfold setLockFree at h
  split at h
  · cases h
  · split at h
    · cases h
      exact ⟨rfl, rfl⟩
    · split at h
      · cases h
      · have hsame := lfResume_seed h
        exact ⟨hsame.1, hsame.2⟩

theorem progress_seed (h : progress params view t s = .ok s') : SameSeed s s' := by
  unfold progress lfProgress at h
  dsimp only at h
  split at h
  · split at h
    · obtain ⟨s₁, hresume, rfl⟩ := map_eq_ok h
      have hsame := lfResume_seed hresume
      exact ⟨hsame.1, hsame.2⟩
    · cases h
      exact ⟨rfl, rfl⟩
  · cases h
    exact ⟨rfl, rfl⟩

theorem pickNext_seed {r : Except String ThreadId}
    (h : pickNext params view s = .ok (r, s')) : SameSeed s s' := by
  obtain ⟨n, random, hroll⟩ := randomNumber_eq s
  obtain ⟨slice, random', hroll'⟩ := randomNumber_eq (reseed s random)
  unfold pickNext at h
  split at h
  · cases h
    exact ⟨rfl, rfl⟩
  · simp only [pickNextFromRunQueue, hroll, hroll'] at h
    split at h
    · cases h
    · split at h
      · cases h
      · cases h
        exact ⟨rfl, rfl⟩

theorem exec_seed {call : Call} {r : call.Reply}
    (h : (scheduler params).exec call s = .ok (r, s')) : SameSeed s s' := by
  obtain ⟨n, random, hroll⟩ := randomNumber_eq s
  obtain ⟨view, q⟩ := call
  cases q with
  | interrupt t =>
      obtain ⟨s₁, hdone, heq⟩ := map_eq_ok h
      cases heq
      exact interrupt_seed hdone
  | yield t =>
      obtain ⟨s₁, hdone, heq⟩ := map_eq_ok h
      cases heq
      exact enqueue_seed hdone
  | wake t =>
      obtain ⟨s₁, hdone, heq⟩ := map_eq_ok h
      cases heq
      exact enqueue_seed hdone
  | spawn t =>
      obtain ⟨s₁, hdone, heq⟩ := map_eq_ok h
      cases heq
      have hsame := enqueue_seed hdone
      exact ⟨hsame.1, hsame.2⟩
  | lockFree t flag =>
      obtain ⟨s₁, hdone, heq⟩ := map_eq_ok h
      cases heq
      exact setLockFree_seed hdone
  | progress t =>
      obtain ⟨s₁, hdone, heq⟩ := map_eq_ok h
      cases heq
      exact progress_seed hdone
  | queuePush q t =>
      obtain ⟨s₁, hdone, heq⟩ := map_eq_ok h
      obtain ⟨set, _, rfl⟩ := map_eq_ok hdone
      cases heq
      exact ⟨rfl, rfl⟩
  | pickNext => exact pickNext_seed h
  | exit t =>
      simp only [scheduler] at h
      split at h
      · cases h
      · cases h
        exact ⟨rfl, rfl⟩
  | spuriousWakeup =>
      simp only [scheduler, spurious, hroll] at h
      split at h
      · cases h
      · cases h
        exact ⟨rfl, rfl⟩
  | spuriousTryFailure =>
      simp only [scheduler, spurious, hroll] at h
      split at h
      · cases h
      · cases h
        exact ⟨rfl, rfl⟩
  | queuePop q =>
      simp only [scheduler, hroll] at h
      cases h
      exact ⟨rfl, rfl⟩
  | randomNumber =>
      simp only [scheduler, hroll] at h
      cases h
      exact ⟨rfl, rfl⟩
  | randomChoice alts =>
      simp only [scheduler, hroll] at h
      cases h
      exact ⟨rfl, rfl⟩
  | switchTo t next => cases h
  | _ =>
      cases h
      exact ⟨rfl, rfl⟩

theorem saysModelChecker (params : Params) :
    (scheduler params).SaysModelChecker fun _ => false :=
  fun _ _ => rfl

/-- `Start` seeds the generator again, and resets everything else. -/
theorem repeats (params : Params) :
    Repeats (scheduler params) false fun _ _ => True := by
  intro U program fuel space sim s s₁ outcome hsteady h
  refine repeated_of_start (saysModelChecker params) h fun view => ?_
  have hstep : ∀ call s₂ r s₃, True → SameSeed s s₂ →
      (scheduler params).answer call s₂ = .ok (r, s₃) → SameSeed s s₃ := by
    intro call s₂ r s₃ _ hsame hanswer
    exact hsame.trans (exec_seed (IScheduler.answer_ok_iff.mp hanswer).1)
  have hkeep := hsteady.interp_keeps hstep ⟨rfl, rfl⟩ h.1
  simp only [IScheduler.answer, scheduler, start_eq hkeep]

end Random

namespace Pct

variable {params : Params} {fuel : Nat} {view : KernelView} {s s' : State}
  {t : ThreadId}

/-- The call does not raise an estimate. -/
def Steady (s : State) : Call → Prop
  | (_, .spawn t) => t ≤ s.estimates.threads
  | (_, .pickNext) => s.iter + 1 ≤ s.estimates.steps
  | _ => True

/-- What `Start` reads, the run queue apart. -/
def SameEstimates (s s' : State) : Prop :=
  s'.seed = s.seed ∧ s'.runs = s.runs ∧ s'.estimates = s.estimates

theorem SameEstimates.trans {s'' : State} (h : SameEstimates s s')
    (h' : SameEstimates s' s'') : SameEstimates s s'' :=
  ⟨h'.1.trans h.1, h'.2.1.trans h.2.1, h'.2.2.trans h.2.2⟩

theorem start_eq (h : SameEstimates s s') (hqueue : s'.runQueue = s.runQueue) :
    start params fuel s' = start params fuel s := by
  obtain ⟨hseed, hruns, hestimates⟩ := h
  simp only [start, hseed, hruns, hestimates, hqueue]

theorem start_empty (h : start params fuel s = .ok s') :
    s.runQueue = [] ∧ SameEstimates s s' := by
  unfold start at h
  dsimp only at h
  split at h
  · cases h
  · split at h
    · rename_i hempty
      cases h
      exact ⟨List.isEmpty_iff.mp hempty, rfl, rfl, rfl⟩
    · cases h

theorem spawn_estimates (ht : t ≤ s.estimates.threads) :
    SameEstimates s (spawn t s) := by
  unfold spawn
  split
  · exact ⟨rfl, rfl, rfl⟩
  · refine ⟨rfl, rfl, ?_⟩
    simp only [enqueue, demote, Nat.max_eq_left ht]

theorem demote_estimates : SameEstimates s (demote t s) := by
  obtain ⟨priority, nextPrior, hdemote⟩ :
      ∃ priority nextPrior, demote t s = { s with priority, nextPrior } :=
    ⟨_, _, rfl⟩
  rw [hdemote]
  exact ⟨rfl, rfl, rfl⟩

theorem enqueue_estimates : SameEstimates s (enqueue t s) := ⟨rfl, rfl, rfl⟩

theorem reseeded_estimates (random : WyRand) :
    SameEstimates s { s with random } := ⟨rfl, rfl, rfl⟩

theorem popMaxPriority_estimates {r : Except String ThreadId}
    (h : popMaxPriority s = .ok (r, s')) : SameEstimates s s' := by
  unfold popMaxPriority at h
  split at h
  · cases h
    exact ⟨rfl, rfl, rfl⟩
  · cases h

theorem preempt_estimates {active : ThreadId} {answer : Bool}
    (h : preempt view active s = (answer, s')) : SameEstimates s s' := by
  unfold preempt at h
  split at h
  · cases h
    exact ⟨rfl, rfl, rfl⟩
  · dsimp only at h
    split at h
    · cases h
      exact ⟨rfl, rfl, rfl⟩
    · split at h
      · cases h
        exact ⟨rfl, rfl, rfl⟩
      · cases h
        exact ⟨rfl, rfl, rfl⟩

theorem pickNext_estimates {r : Except String ThreadId}
    (hsteps : s.iter + 1 ≤ s.estimates.steps)
    (h : pickNext view s = .ok (r, s')) : SameEstimates s s' := by
  unfold pickNext at h
  rw [Nat.max_eq_left (Nat.le_trans (Nat.mod_le _ _) hsteps)] at h
  dsimp only at h
  split at h
  · have hsame := popMaxPriority_estimates h
    exact ⟨hsame.1, hsame.2.1, hsame.2.2⟩
  · split at h
    · rename_i hpreempt
      cases h
      have hsame := preempt_estimates hpreempt
      exact ⟨hsame.1, hsame.2.1, hsame.2.2⟩
    · rename_i hpreempt
      have hsame := preempt_estimates hpreempt
      have hpop := popMaxPriority_estimates h
      exact ⟨hpop.1.trans hsame.1, hpop.2.1.trans hsame.2.1,
        hpop.2.2.trans hsame.2.2⟩

theorem exec_estimates {call : Call} {r : call.Reply} (hsteady : Steady s call)
    (h : (scheduler params fuel).exec call s = .ok (r, s')) :
    SameEstimates s s' := by
  obtain ⟨view, q⟩ := call
  cases q with
  | start =>
      obtain ⟨s₁, hstart, heq⟩ := map_eq_ok h
      cases heq
      exact (start_empty hstart).2
  | yield t =>
      cases h
      exact demote_estimates.trans enqueue_estimates
  | spawn t =>
      cases h
      exact spawn_estimates hsteady
  | pickNext => exact pickNext_estimates hsteady h
  | queuePush q t =>
      obtain ⟨lists, _, heq⟩ := map_eq_ok h
      cases heq
      exact ⟨rfl, rfl, rfl⟩
  | randomNumber =>
      have hs' : (randomNumber s).2 = s' := congrArg Prod.snd (Except.ok.inj h)
      subst hs'
      exact reseeded_estimates _
  | randomChoice alts =>
      have hs' : (randomNumber s).2 = s' := congrArg Prod.snd (Except.ok.inj h)
      subst hs'
      exact reseeded_estimates _
  | switchTo t next => cases h
  | _ =>
      cases h
      exact ⟨rfl, rfl, rfl⟩

theorem saysModelChecker (params : Params) (fuel : Nat) :
    (scheduler params fuel).SaysModelChecker fun _ => false :=
  fun _ _ => rfl

/-- `Start` takes its priorities and change points from the estimates. -/
theorem repeats (params : Params) (fuel : Nat) :
    Repeats (scheduler params fuel) false Steady := by
  intro U program n space sim s s₁ outcome hsteady h
  refine repeated_of_start (saysModelChecker params fuel) h fun view => ?_
  have hstep : ∀ call s₂ r s₃, Steady s₂ call → SameEstimates s s₂ →
      (scheduler params fuel).answer call s₂ = .ok (r, s₃) →
      SameEstimates s s₃ := by
    intro call s₂ r s₃ hcall hsame hanswer
    exact hsame.trans (exec_estimates hcall (IScheduler.answer_ok_iff.mp hanswer).1)
  have hkeep := hsteady.interp_keeps hstep ⟨rfl, rfl, rfl⟩ h.1
  have hempty : s.runQueue = [] := by
    obtain ⟨view, r, s₂, hexec⟩ := start_answers h
    obtain ⟨s₂, hstart, _⟩ := map_eq_ok hexec
    exact (start_empty hstart).1
  have hidle : s₁.runQueue = [] := by
    refine @run_ends_idle _ _ _ (fun s => s.runQueue = []) ?_ ?_ _ _ _ _ _ _ _ h
    · intro view s₂ s₃ hanswer
      have hexec := (IScheduler.answer_ok_iff.mp hanswer).1
      simp only [scheduler, Except.ok.injEq, Prod.mk.injEq] at hexec
      have hboth := Bool.and_eq_true_iff.mp hexec.1
      exact hexec.2 ▸ List.isEmpty_iff.mp hboth.1
    · intro view q s₂ r s₃ hanswer hnone
      cases (IScheduler.answer_ok_iff.mp hanswer).1
      exact hnone
  simp only [IScheduler.answer, scheduler, start_eq hkeep (hidle.trans hempty.symm)]

end Pct

namespace Coop

variable {s s' : State} {t : ThreadId}

/-- The call draws no random number. -/
def Steady (_ : State) : Call → Prop
  | (_, .randomNumber) | (_, .randomChoice _) => False
  | _ => True

theorem withLists_random {r : Unit}
    {lists : Except Panic (IntrusiveLists (Option QueueId) ThreadId)}
    (h : s.withLists lists = .ok (r, s')) : s'.random = s.random := by
  obtain ⟨lists, _, heq⟩ := map_eq_ok h
  cases heq
  rfl

theorem pickNext_random {r : Except String ThreadId}
    (h : pickNext s = .ok (r, s')) : s'.random = s.random := by
  unfold pickNext at h
  split at h
  · split at h
    · cases h
      rfl
    · cases h
  · split at h
    · cases h
      rfl
    · cases h

theorem start_empty {r : Unit} (h : start s = .ok (r, s')) :
    s.lists.isEmpty none = true ∧ s'.random = s.random := by
  unfold start at h
  split at h
  · rename_i hempty
    cases h
    exact ⟨hempty, rfl⟩
  · cases h

theorem exec_random {call : Call} {r : call.Reply} (hsteady : Steady s call)
    (h : scheduler.exec call s = .ok (r, s')) : s'.random = s.random := by
  obtain ⟨view, q⟩ := call
  cases q with
  | start => exact (start_empty h).2
  | interrupt t => exact withLists_random h
  | switchTo t next =>
      obtain ⟨⟨_, s₁⟩, hpush, heq⟩ := map_eq_ok h
      cases heq
      exact @withLists_random s s₁ _ _ hpush
  | yield t => exact withLists_random h
  | wake t => exact withLists_random h
  | spawn t => exact withLists_random h
  | pickNext => exact pickNext_random h
  | queuePush q t => exact withLists_random h
  | randomNumber => exact absurd hsteady id
  | randomChoice alts => exact absurd hsteady id
  | _ =>
      cases h
      rfl

/-- `Start` leaves the generator where the last run left it. -/
theorem repeats : Repeats scheduler false Steady := by
  intro U program fuel space sim s s₁ outcome hsteady h
  refine repeated_of_start saysModelChecker h fun view => ?_
  have hstep : ∀ call s₂ r s₃, Steady s₂ call → s₂.random = s.random →
      scheduler.answer call s₂ = .ok (r, s₃) → s₃.random = s.random := by
    intro call s₂ r s₃ hcall hsame hanswer
    exact (exec_random hcall (IScheduler.answer_ok_iff.mp hanswer).1).trans hsame
  have hkeep := hsteady.interp_keeps hstep rfl h.1
  have hempty : s.lists.isEmpty none = true := by
    obtain ⟨view, r, s₂, hexec⟩ := start_answers h
    exact (start_empty hexec).1
  have hidle : s₁.lists.isEmpty none = true := by
    refine @run_ends_idle _ _ _ (fun s => s.lists.isEmpty none = true) ?_ ?_
      _ _ _ _ _ _ _ h
    · intro view s₂ s₃ hanswer
      have hexec := (IScheduler.answer_ok_iff.mp hanswer).1
      simp only [scheduler, Except.ok.injEq, Prod.mk.injEq] at hexec
      exact hexec.2 ▸ hexec.1
    · intro view q s₂ r s₃ hanswer hnone
      cases (IScheduler.answer_ok_iff.mp hanswer).1
      exact hnone
  have hstart : start s₁ = start s := by
    simp only [start, hempty, hidle, if_true, hkeep]
  simp only [IScheduler.answer, scheduler, hstart]

end Coop

namespace Dfs

variable {params : Params} {full : Schedule}

/-- Two cursors at the same position; the second one has the full schedule, of
which the first one knows a prefix. -/
structure Follows (full : Schedule) (c c' : Cursor) : Prop where
  inside : c.branchIndex ≤ c.schedule.length
  index : c'.branchIndex = c.branchIndex
  schedule : c'.schedule = full

/-- What `Choose` answered when it grew the schedule, it answers again. -/
theorem choose_follows :
    LockstepOn choose choose (fun _ _ => True)
      (fun c => List.IsPrefix c.schedule full) (Follows full) := by
  intro q c c' i c₁ _ hfollows hchoose hwithin
  obtain ⟨hinside, hindex, hschedule⟩ := hfollows
  unfold choose at hchoose
  cases hbranch : c.schedule[c.branchIndex]? with
  | some branch =>
      simp only [hbranch] at hchoose
      split at hchoose
      · rename_i htype
        cases hchoose
        obtain ⟨hlt, -⟩ := List.getElem?_eq_some_iff.mp hbranch
        have hfull : c'.schedule[c'.branchIndex]? = some branch := by
          obtain ⟨rest, rfl⟩ := hwithin
          rw [hschedule, hindex, ← hbranch]
          exact List.getElem?_append_left hlt
        refine ⟨{ c' with branchIndex := c'.branchIndex + 1 }, ?_, hlt, ?_, hschedule⟩
        · simp only [choose, hfull, htype, if_true]
        · simp only [hindex]
      · cases hchoose
  | none =>
      simp only [hbranch] at hchoose
      cases hchoose
      have hlength : c.branchIndex = c.schedule.length :=
        Nat.le_antisymm hinside (List.getElem?_eq_none_iff.mp hbranch)
      have hfull : c'.schedule[c'.branchIndex]? = some { q with index := 0 } := by
        rw [hschedule, hindex, hlength]
        obtain ⟨rest, rfl⟩ := hwithin
        simp
      refine ⟨{ c' with branchIndex := c'.branchIndex + 1 }, ?_, ?_, ?_, hschedule⟩
      · simp only [choose, hfull, if_true]
      · simp [hlength]
      · simp only [hindex]

theorem choose_grows :
    ReflectedBy choose (fun c => List.IsPrefix c.schedule full) := by
  intro q c i c' hchoose hwithin
  unfold choose at hchoose
  split at hchoose
  · split at hchoose
    · cases hchoose
      exact hwithin
    · cases hchoose
  · cases hchoose
    exact (List.prefix_append _ _).trans hwithin

/-- The same for whole methods. -/
def FollowsRun (full : Schedule) (s s' : Scheduler) : Prop :=
  s'.state = s.state ∧ Follows full s.cursor s'.cursor

theorem along_true {σ : Type} {handle : (q : Question) → σ → Except Panic (Nat × σ)}
    {α : Type} {t : Choosing α} {s : σ} : t.Along handle (fun _ _ => True) s :=
  Along.of_forall fun _ _ => trivial

theorem runMethod_ok {α : Type} {t : Choosing (Except Panic (α × State))}
    {c : Cursor} {r : α} {s : Scheduler} (h : runMethod t c = .ok (r, s)) :
    t.interp choose c = .ok (.ok (r, s.state), s.cursor) := by
  unfold runMethod at h
  split at h
  · cases h
  · cases h
  · rename_i hinterp
    cases h
    exact hinterp

theorem exec_method {call : Call} (hcall : call.2 ≠ .start) (s : Scheduler) :
    (scheduler params).exec call s =
      runMethod (method params call s.state) s.cursor := by
  obtain ⟨view, q⟩ := call
  cases q with
  | start => exact absurd rfl hcall
  | _ => rfl

theorem exec_follows {call : Call} {s s' s₁ : Scheduler} {r : call.Reply}
    (hfollows : FollowsRun full s s')
    (h : (scheduler params).exec call s = .ok (r, s₁))
    (hwithin : List.IsPrefix s₁.cursor.schedule full) :
    ∃ s₁', (scheduler params).exec call s' = .ok (r, s₁') ∧
      FollowsRun full s₁ s₁' := by
  obtain ⟨hstate, hcursor⟩ := hfollows
  by_cases hcall : call.2 = .start
  · obtain ⟨view, q⟩ := call
    cases hcall
    cases h
    exact ⟨start s', rfl, rfl, Nat.zero_le _, rfl, hcursor.schedule⟩
  · rw [exec_method hcall] at h
    obtain ⟨c', hinterp, hcursor'⟩ :=
      choose_follows.interp choose_grows along_true hcursor (runMethod_ok h) hwithin
    refine ⟨⟨c', s₁.state⟩, ?_, rfl, hcursor'⟩
    rw [exec_method hcall, hstate, runMethod, hinterp]

theorem exec_grows {call : Call} {s s' : Scheduler} {r : call.Reply}
    (h : (scheduler params).exec call s = .ok (r, s'))
    (hwithin : List.IsPrefix s'.cursor.schedule full) :
    List.IsPrefix s.cursor.schedule full := by
  by_cases hcall : call.2 = .start
  · obtain ⟨view, q⟩ := call
    cases hcall
    cases h
    exact hwithin
  · rw [exec_method hcall] at h
    exact choose_grows.interp (runMethod_ok h) hwithin

theorem answer_follows :
    LockstepOn (scheduler params).answer (scheduler params).answer
      (fun _ _ => True) (fun s => List.IsPrefix s.cursor.schedule full)
      (FollowsRun full) := by
  intro call s s' r s₁ _ hfollows hanswer hwithin
  obtain ⟨hexec, husable⟩ := IScheduler.answer_ok_iff.mp hanswer
  obtain ⟨s₁', hexec', hfollows'⟩ := exec_follows hfollows hexec hwithin
  exact ⟨s₁', IScheduler.answer_ok_iff.mpr ⟨hexec', husable⟩, hfollows'⟩

theorem answer_grows :
    ReflectedBy (scheduler params).answer
      (fun s => List.IsPrefix s.cursor.schedule full) :=
  fun _ _ _ _ hanswer => exec_grows (IScheduler.answer_ok_iff.mp hanswer).1

/-- Without `NextSchedule` the schedule is only read. -/
theorem repeats (params : Params) :
    Repeats (scheduler params) true fun _ _ => True := by
  intro U program fuel space sim s s₁ outcome _ h
  obtain ⟨view, next, htree⟩ := run_starts h
  obtain ⟨hrun, -⟩ := h
  rw [htree] at hrun ⊢
  have hstart : ∀ s : Scheduler, (scheduler params).answer (view, .start) s =
      .ok ((), start s) := fun s => rfl
  rw [interp_ask, hstart] at hrun
  have hfollows : FollowsRun s₁.cursor.schedule (start s) (start s₁) :=
    ⟨rfl, Nat.zero_le _, rfl, rfl⟩
  have hrefl : List.IsPrefix s₁.cursor.schedule s₁.cursor.schedule :=
    List.prefix_refl _
  obtain ⟨s₂, hagain, -⟩ := answer_follows.interp answer_grows
    (Along.of_forall fun _ _ => trivial) hfollows hrun hrefl
  have hasked := answer_follows.transcript answer_grows
    (Along.of_forall fun _ _ => trivial) hfollows hrun hrefl
  refine @repeated_of_again _ _ _ _ (saysModelChecker params) _ _ _ s₂ _ ?_ ?_
  · rw [transcript_ask, transcript_ask, hstart, hstart]
    exact congrArg _ hasked
  · rw [interp_ask, hstart]
    exact hagain

end Dfs

/-! ### Every scheduler that explores -/

/-- A scheduler that is started again repeats every completed run: the random
and the depth-first scheduler always, the cooperative one if the run draws no
random number, and the scheduler of probabilistic concurrency testing if the run
stays within its estimates. -/
theorem restart_repeats (random : Random.Params) (dfs : Dfs.Params) (pct : Pct.Params)
    (fuel : Nat) :
    (Repeats (Random.scheduler random) false fun _ _ => True) ∧
      (Repeats (Dfs.scheduler dfs) true fun _ _ => True) ∧
      Repeats Coop.scheduler false Coop.Steady ∧
      Repeats (Pct.scheduler pct fuel) false Pct.Steady :=
  ⟨Random.repeats random, Dfs.repeats dfs, Coop.repeats, Pct.repeats pct fuel⟩

/-- The iterations of a run, and of the run after a restart. -/
def restarted (S : IScheduler σ) (t : Scheduled (Outcome U)) (s : σ) :
    Option Nat × Option Nat :=
  (Recorder.itersOf (t.interp S.answer s),
    match t.interp S.answer s with
    | .ok (_, s₁) => Recorder.itersOf (t.interp S.answer s₁)
    | .error _ => none)

theorem completes_of_restarted {t : Scheduled (Outcome U)} {s : σ} {m : Nat}
    {again : Option Nat} (h : restarted S t s = (some m, again)) :
    ∃ outcome s₁, Completes S t s outcome s₁ ∧
      Recorder.itersOf (.ok (outcome, s₁)) = some m ∧
      Recorder.itersOf (t.interp S.answer s₁) = again := by
  rw [restarted, Prod.mk.injEq] at h
  obtain ⟨hfirst, hsecond⟩ := h
  rcases hrun : t.interp S.answer s with p | ⟨⟨⟨e⟩ | ⟨_ | result, space⟩, sim⟩, s₁⟩
  · rw [hrun] at hfirst
    cases hfirst
  · rw [hrun] at hfirst
    cases hfirst
  · rw [hrun] at hfirst
    cases hfirst
  · rw [hrun] at hfirst hsecond
    exact ⟨_, s₁, ⟨hrun, result, space, sim, rfl⟩, hfirst, hsecond⟩

theorem not_repeated_of_restarted {t : Scheduled (Outcome U)} {s : σ} {m n : Nat}
    (h : restarted S t s = (some m, some n)) (hmn : m ≠ n) (isModelChecker : Bool) :
    ∃ outcome s₁, Completes S t s outcome s₁ ∧
      ¬ Repeated S isModelChecker t s outcome s₁ := by
  obtain ⟨outcome, s₁, hcompletes, hfirst, hsecond⟩ := completes_of_restarted h
  refine ⟨outcome, s₁, hcompletes, fun hrepeated => hmn ?_⟩
  obtain ⟨s₂, hends⟩ := hrepeated.ends
  rw [hends] at hsecond
  have hsame := Recorder.itersOf_map (fun _ => s₂) (.ok (outcome, s₁))
  rw [Except.map, hsecond, hfirst] at hsame
  exact (Option.some.inj hsame).symm

/-- A thread that yields if it draws a one. -/
def gamble : Program Nat where
  resume _ resumption asked :=
    match asked, resumption with
    | 0, _ => (.sys (.randomChoice 2), 1)
    | 1, .answer (.value 1) => (.sys .yield, 2)
    | _, _ => (.sys .threadExit, 2)
  heapStat _ := ⟨0, 0, 0, 0⟩

/-- A thread that starts another one, stops at a fence, and waits for it. -/
def fork : Program Nat where
  resume thread _ progress :=
    match thread, progress with
    | 1, 0 => (.sys .spawn, 1)
    | 1, 1 =>
        (.sys (.sync ⟨0, 0, .atomicThreadFence, 0, .acqRel, "fence", ⟨"", "", 0⟩⟩), 2)
    | 1, 2 => (.sys .yield, 2)
    | 1, _ => (.sys .threadExit, 3)
    | _, _ => (.sys .threadExit, 3)
  heapStat _ := ⟨0, 0, 0, 0⟩

/-- The simulation of a program without variables. -/
def simulate (program : Program Nat) (fuel : Nat) : Scheduled (Outcome Nat) :=
  Kernel.run program fuel ⟨0, ⟨fun _ => ⟨0, 0, 0⟩, [], true, [], fun _ => false⟩⟩
    (Sim.init {} false)

def steadyCoop : Coop.State → Call → Bool
  | _, (_, .randomNumber) | _, (_, .randomChoice _) => false
  | _, _ => true

/-- Without a draw the cooperative scheduler repeats a run. -/
theorem fork_repeated :
    ∃ outcome s₁,
      Completes Coop.scheduler (simulate fork 40) (Coop.State.new ⟨0⟩) outcome s₁ ∧
      Repeated Coop.scheduler false (simulate fork 40) (Coop.State.new ⟨0⟩)
        outcome s₁ := by
  have hrun : restarted Coop.scheduler (simulate fork 40) (Coop.State.new ⟨0⟩) =
      (some 4, some 4) := by decide +kernel
  have hsteady : (simulate fork 40).holdsAlong Coop.scheduler.answer steadyCoop
      (Coop.State.new ⟨0⟩) = true := by decide +kernel
  obtain ⟨outcome, s₁, hcompletes, -⟩ := completes_of_restarted hrun
  refine ⟨outcome, s₁, hcompletes, ?_⟩
  refine (restart_repeats { seed := 0 } {} { depth := 2 } 100).2.2.1 Nat fork 40 _ _ _ _ _
    (Along.of_holds (fun s call hcall => ?_) hsteady) hcompletes
  obtain ⟨view, q⟩ := call
  cases q with
  | randomNumber => cases hcall
  | randomChoice alts => cases hcall
  | _ => trivial

/-- A draw is not repeated by the cooperative scheduler, and the estimates of the
first run change the priorities of the second one. -/
theorem restart_diverges :
    (∃ outcome s₁,
      Completes Coop.scheduler (simulate gamble 20) (Coop.State.new ⟨0⟩) outcome s₁ ∧
      ¬ Repeated Coop.scheduler false (simulate gamble 20) (Coop.State.new ⟨0⟩)
        outcome s₁) ∧
    ∃ outcome s₁,
      Completes (Pct.scheduler ⟨2, none⟩ 100) (simulate fork 40) (Pct.State.new 7)
        outcome s₁ ∧
      ¬ Repeated (Pct.scheduler ⟨2, none⟩ 100) false (simulate fork 40)
        (Pct.State.new 7) outcome s₁ := by
  have hcoop : restarted Coop.scheduler (simulate gamble 20) (Coop.State.new ⟨0⟩) =
      (some 1, some 2) := by decide +kernel
  have hpct : restarted (Pct.scheduler ⟨2, none⟩ 100) (simulate fork 40)
      (Pct.State.new 7) = (some 4, some 3) := by decide +kernel
  exact ⟨not_repeated_of_restarted hcoop (by decide) false,
    not_repeated_of_restarted hpct (by decide) false⟩

end TwistSim
