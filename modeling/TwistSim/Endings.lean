/-
How a simulation ends: when the loop runs out of work nobody is left and nothing is left in
the queues, so that `StopLoop` finds everything in order and there is a result.
-/
import TwistSim.Dangling
import TwistSim.DebugSessions

namespace TwistSim

open Effect
open Kernel (Heads Takes Exited bornNext left taken_threads performed_threads)
open Replay (LetsGo)

variable {U σ : Type} {S : IScheduler σ} {WF : σ → Prop} {holdings : σ → Holdings}
  {links : Links} {C : σ → Call → Prop} {idle : σ → Bool} {sim sim' : Sim} {s s' : σ}

/-! ### The main thread outlives the others -/

/-- The main thread is alive.  Once it has gone nobody is, and there is a status. -/
def Sim.Led (sim : Sim) : Prop :=
  (∃ t ∈ sim.alive, (sim.threads t).main = true) ∨ sim.alive = [] ∧ sim.status ≠ none

theorem Sim.Led.of_crew (h : sim.Led) (hcrew : sim'.alive = sim.alive)
    (hmain : ∀ t, (sim'.threads t).main = (sim.threads t).main)
    (hstatus : sim'.status = sim.status) : sim'.Led := by
  rw [Sim.Led, hcrew, hstatus]
  rcases h with ⟨t, ht, hled⟩ | hgone
  · exact Or.inl ⟨t, ht, (hmain t).trans hled⟩
  · exact Or.inr hgone

theorem Sim.SameCrew.led (h : sim.SameCrew sim') (hled : sim.Led) : sim'.Led :=
  hled.of_crew h.crew h.main h.status

namespace Kernel

theorem Takes.led {next : ThreadId} (h : Takes sim next sim') (hled : sim.Led) : sim'.Led := by
  cases h with
  | plain haction => exact hled.of_crew rfl (Sim.sameField_setThread rfl) rfl
  | action haction hload => exact hled.of_crew rfl (Sim.sameField_setThread rfl) rfl

theorem Heads.led {budget : Nat} {control : Control}
    (h : Heads S budget sim s control sim' s') (hled : sim.Led) : sim'.Led := by
  cases h with
  | picks hidle hupkeep hpick htakes =>
      have hiter : (nextIter sim).Led := hled
      have hsame := quiet_upkeep (Kernel.allows_sameCrew).quiet _ _ _ _ _ _ hupkeep
      exact htakes.led (Sim.SameCrew.led hsame hiter)
  | waits hidle hwait =>
      exact Sim.SameCrew.led (crew_idle allows_sameCrew _ _ _ _ _ hwait) hled
  | stops hidle hbudget => exact hled

/-- A call of another kind than `ThreadExit` lets nobody go. -/
theorem led_handleSystemCall {me : ThreadId} {stat : HeapStat} {call : SysCall}
    {r : Option Answer} (hstays : call ≠ .threadExit)
    (hknown : ∀ t ∈ sim.alive, t ≤ sim.memory.threadCount)
    (hled : ∃ t ∈ sim.alive, (sim.threads t).main = true)
    (h : (handleSystemCall me stat call sim).interp S.answer s = .ok ((.ok r, sim'), s')) :
    sim'.Led := by
  obtain ⟨t, ht, hmain⟩ := hled
  refine Or.inl ⟨t, ?_⟩
  rcases hands_handleSystemCall hstays h with hsame | hsame
  · rw [hsame.crew, hsame.main]
    exact ⟨ht, hmain⟩
  · have hold : (bornNext sim).threads t = sim.threads t := by
      refine (Sim.threads_setThread sim _ t _).trans (if_neg fun heq => ?_)
      exact Nat.not_succ_le_self _ (heq ▸ hknown t ht)
    rw [hsame.crew, hsame.main, hold]
    exact ⟨List.mem_append_left _ ht, hmain⟩

theorem Exited.led {t : ThreadId} (h : Exited S sim s t sim' s')
    (hled : ∃ u ∈ sim.alive, (sim.threads u).main = true) : sim'.Led := by
  cases h with
  | child hexit hmain =>
      obtain ⟨u, hu, hled⟩ := hled
      have hne : u ≠ t := fun heq => by
        rw [heq, hmain] at hled
        cases hled
      exact Or.inl ⟨u, (List.mem_erase_of_ne hne).mpr hu, hled⟩
  | main hexit hdeserted => exact Or.inr ⟨hdeserted.2, nofun⟩

end Kernel

section Step

variable {program : Program U} {control : Control} {space : UserSpace U}

theorem step_led (hplaced : sim.Placed control.running none (holdings s)) (hled : sim.Led)
    {result : Control × UserSpace U}
    (h : (Kernel.step program control space sim).interp S.answer s =
      .ok ((.ok result, sim'), s')) : sim'.Led := by
  cases control with
  | head budget =>
      obtain ⟨control₁, sim₁, s₁, hhead, ⟨⟩⟩ := interp_bind_ok h
      exact (Kernel.heads_of_stepHead hhead).led hled
  | run t resumption budget =>
      have halive : ∃ u ∈ sim.alive, (sim.threads u).main = true := by
        refine hled.resolve_right fun hgone => ?_
        have hmem := (hplaced.runs t rfl).alive
        rw [hgone.1] at hmem
        cases hmem
      cases hresume : program.resume t resumption space.user with
      | mk request user =>
          simp only [Kernel.step, hresume] at h
          cases request with
          | sys call =>
              obtain ⟨control₁, sim₁, s₁, hsys, ⟨⟩⟩ := interp_bind_ok h
              by_cases hexit : call = .threadExit
              · subst hexit
                obtain ⟨answer, sim₂, s₂, hcall, hthen⟩ := interp_bind_ok hsys
                obtain ⟨_, sim₃, s₃, hgone, ⟨⟩⟩ := interp_bind_ok hcall
                cases hthen
                exact (Kernel.sysThreadExit_ok hgone).led halive
              · have hknown : ∀ u ∈ sim.alive, u ≤ sim.memory.threadCount :=
                  fun u hu => (hplaced.known u hu).2
                cases Kernel.serves_of_stepSys hsys with
                | answers hcall =>
                    have hcalled := Kernel.led_handleSystemCall hexit hknown halive hcall
                    exact hcalled.of_crew rfl (Sim.sameField_setThread rfl) rfl
                | suspends hcall => exact Kernel.led_handleSystemCall hexit hknown halive hcall
          | statics op =>
              obtain ⟨reply, sim₁, s₁, hop, ⟨⟩⟩ := interp_bind_ok h
              cases hexec : Statics.exec space.statics op with
              | error p =>
                  rw [hexec] at hop
                  cases hop
              | ok value =>
                  rw [hexec] at hop
                  cases hop
                  exact hled
  | finished =>
      cases h
      exact hled

end Step

namespace Machine

variable {program : Program U} {m m' : Machine U σ}

theorem launch_led {params : Params} {space : UserSpace U} (h : launch S params space s = some m) :
    m.sim.Led := by
  obtain ⟨-, -, -, halive, hmain⟩ := launch_ok h
  refine Or.inl ⟨1, ?_, hmain⟩
  rw [halive]
  exact List.mem_singleton_self 1

/-- What an abort leaves in a state that is kept in order. -/
theorem aborted_led (hS : Parting S WF holdings) (h : m.Kempt WF holdings) {sim₁ : Sim} {s₁ : σ}
    {statics : Statics.Manager}
    (hraise : (Kernel.step program m.control m.space m.sim).interp S.answer m.scheduler =
      .ok ((.error .sysAbortEx, sim₁), s₁))
    (hburn : (Kernel.burn m.space.statics sim₁).interp S.answer s₁ =
      .ok ((.ok statics, sim'), s')) : sim'.alive = [] ∧ sim'.status ≠ none := by
  obtain ⟨hWF₁, hburnable, hstatus⟩ := hS.step_broken h.wf h.placed h.manned hraise
  obtain ⟨-, -, hempty, hsame⟩ := hS.ensured hWF₁ (Kernel.ensures_burn hburnable.linked) hburn
  exact ⟨hempty.alive, hsame ▸ hstatus⟩

theorem next_led (hS : Parting S WF holdings) {e : LoopEvent} (h : m.Kempt WF holdings)
    (hled : m.sim.Led) (hnext : m.next S program e = some m') : m'.sim.Led := by
  cases e with
  | turn =>
      rcases steps_or_burns hnext with hstep | ⟨sim₁, s₁, statics, hraise, hburn, -⟩
      · exact step_led h.placed hled hstep
      · exact Or.inr (aborted_led hS h hraise hburn)
  | runFor budget =>
      rw [next] at hnext
      split at hnext
      · cases hnext
        exact hled
      · cases hnext

/-- By induction on the run. -/
theorem reached_led (hS : Parting S WF holdings) {C : Machine U σ → LoopEvent → Prop}
    (h : Reached S program (Fresh WF holdings) C m) :
    m.Kempt WF holdings ∧ m.sim.Led := by
  obtain ⟨params, space, s, m₀, hfresh, hlaunch, hreach⟩ := h
  have hstart : m₀.Kempt WF holdings ∧ m₀.sim.Led :=
    ⟨launch_kempt hS hfresh hlaunch, launch_led hlaunch⟩
  exact hreach.invariant (I := fun m => m.Kempt WF holdings ∧ m.sim.Led) hstart
    fun m e m' h _ hnext => ⟨next_kempt hS h.1 hnext, next_led hS h.1 h.2 hnext⟩

end Machine

/-! ### The last turn -/

/-- The scheduler says so where it has no thread that could run, or none that waits, and it
can be started again once it has none at all. -/
structure Answering (S : IScheduler σ) (WF : σ → Prop) (holdings : σ → Holdings)
    (idle : σ → Bool) : Prop where
  isIdle : S.SaysIdle idle
  idle : ∀ s, (holdings s).held = 0 → idle s = true
  isEmpty : ∀ view q s, (holdings s).waiters q = 0 →
    S.answer (view, .queueIsEmpty q) s = .ok (true, s)
  nextSchedule : ∀ s, WF s → WF (S.nextSchedule s).2 ∧ holdings (S.nextSchedule s).2 = holdings s
  /-- `Start` checks that nothing is left. -/
  start : ∀ view s p, (holdings s).owned = 0 → S.answer (view, .start) s = .error p →
    p ≠ .verify "Inconsistent state"

/-- The turn is one for which there is budget. -/
def Control.Busy : Control → Prop
  | .head budget => 0 < budget
  | .run _ _ _ => True
  | .finished => False

/-- Nobody is left, neither with the scheduler nor in a queue, and there is a status. -/
structure Machine.Cleared (holdings : σ → Holdings) (m : Machine U σ) : Prop where
  alive : m.sim.alive = []
  threads : (holdings m.scheduler).owned = 0
  waiters : ∀ key, m.sim.waiters (holdings m.scheduler) key = 0
  timers : ∀ t, ¬ m.sim.Armed t
  status : m.sim.status ≠ none

namespace Machine

variable {program : Program U} {m m' : Machine U σ}

theorem deserted_of_heads (hS : S.SaysIdle idle) {budget : Nat} {control : Control}
    (hbudget : 0 < budget) (h : Heads S budget sim s control sim' s')
    (hends : control = .finished) : sim'.alive = [] := by
  cases h with
  | picks hidle hupkeep hpick htakes => cases hends
  | waits hidle hwait =>
      rename_i s₁ again
      rw [hS] at hidle
      injection hidle with hidle
      injection hidle with hidle hs
      subst hs
      cases again with
      | true => cases hends
      | false =>
          obtain ⟨rfl, rfl, -, halive⟩ := Kernel.idle_stops hS hidle hwait
          exact halive
  | stops hidle hzero => exact absurd hzero (Nat.ne_of_gt hbudget)

/-- User code goes on, or the loop does. -/
theorem step_run_ne {t : ThreadId} {resumption : Resumption} {budget : Nat}
    {space : UserSpace U} {result : Control × UserSpace U}
    (h : (Kernel.step program (.run t resumption budget) space sim).interp S.answer s =
      .ok ((.ok result, sim'), s')) : result.1 ≠ .finished := by
  cases hresume : program.resume t resumption space.user with
  | mk request user =>
      simp only [Kernel.step, hresume] at h
      cases request with
      | sys call =>
          obtain ⟨control₁, sim₁, s₁, hsys, ⟨⟩⟩ := interp_bind_ok h
          intro hends
          rw [show control₁ = .finished from hends] at hsys
          rcases Kernel.stepSys_ok hsys with ⟨r, hcontrol⟩ | hcontrol
          · cases hcontrol
          · cases hcontrol
      | statics op =>
          obtain ⟨reply, sim₁, s₁, hop, ⟨⟩⟩ := interp_bind_ok h
          intro hends
          cases hends

/-- The loop ends with nobody alive. -/
theorem deserted_of_next (hS : Parting S WF holdings) (hidle : S.SaysIdle idle)
    (h : m.Kempt WF holdings) (hbusy : m.control.Busy)
    (hnext : m.next S program .turn = some m') (hends : m'.control = .finished) :
    m'.sim.alive = [] := by
  rcases steps_or_burns hnext with hstep | ⟨sim₁, s₁, statics, hraise, hburn, -⟩
  · cases hcontrol : m.control with
    | head budget =>
        rw [hcontrol] at hstep hbusy
        obtain ⟨control₁, sim₁, s₁, hhead, hpure⟩ := interp_bind_ok hstep
        have hcontrol₁ : control₁ = .finished ∧ m'.sim = sim₁ := by
          obtain ⟨control', space', sim', s'⟩ := m'
          cases hpure
          exact ⟨hends, rfl⟩
        rw [hcontrol₁.2]
        exact deserted_of_heads hidle hbusy (Kernel.heads_of_stepHead hhead) hcontrol₁.1
    | run t resumption budget =>
        rw [hcontrol] at hstep
        exact (step_run_ne hstep hends).elim
    | finished =>
        rw [hcontrol] at hbusy
        exact hbusy.elim
  · exact (aborted_led hS h hraise hburn).1

theorem cleared_of_kempt (h : m.Kempt WF holdings) (hled : m.sim.Led)
    (halive : m.sim.alive = []) : m.Cleared holdings := by
  have hnobody : ∀ t, t ∉ m.sim.alive := fun t ht => by
    rw [halive] at ht
    cases ht
  refine ⟨halive, ?_, fun key => ?_, fun t => (h.placed.gone t (hnobody t)).2, ?_⟩
  · exact Multiset.eq_zero_of_forall_notMem fun t ht => hnobody t (h.manned t ht)
  · exact Multiset.eq_zero_of_forall_notMem fun t => (h.placed.gone t (hnobody t)).1 key
  · rcases hled with ⟨t, ht, -⟩ | hgone
    · exact absurd ht (hnobody t)
    · exact hgone.2

end Machine

/-! ### `StopLoop` -/

namespace Kernel

/-- What `StopLoop` says of a futex that nobody waits on. -/
theorem clearFutexes_ok (hS : Answering S WF holdings idle) (keys : List FutexKey)
    (hempty : ∀ key, sim.waiters (holdings s) key = 0) :
    ∃ sim', (clearFutexes keys sim).interp S.answer s = .ok ((.ok (), sim'), s) ∧
      sim'.status = sim.status := by
  induction keys generalizing sim with
  | nil => exact ⟨sim, rfl, rfl⟩
  | cons key rest ih =>
      have hafter : ∀ key', (sim.setFutex key ⟨none, none⟩).waiters (holdings s) key' = 0 := by
        intro key'
        have hold := hempty key'
        simp only [Sim.waiters, contents, Sim.setFutex] at hold ⊢
        by_cases hkey : key' = key
        · rw [hkey, Function.update_self]
          rfl
        · rw [Function.update_of_ne hkey]
          exact hold
      obtain ⟨sim', hrest, hstatus⟩ := ih hafter
      refine ⟨sim', ?_, hstatus⟩
      have hkey := hempty key
      unfold clearFutexes
      refine (interp_then rfl).trans ?_
      dsimp only
      simp only [Sim.waiters, contents] at hkey
      cases hqueue : (sim.futex key).waiters with
      | none =>
          rw [hqueue] at hkey
          have hnone : (sim.futex key).singleton = none := by
            cases hsingleton : (sim.futex key).singleton with
            | none => rfl
            | some t =>
                rw [hsingleton] at hkey
                exact absurd ((Multiset.coe_eq_zero _).mp hkey) (List.cons_ne_nil t [])
          refine (interp_then rfl).trans ?_
          rw [hnone]
          exact (interp_then rfl).trans ((interp_then rfl).trans hrest)
      | some id =>
          rw [hqueue] at hkey
          have hanswer := hS.isEmpty sim.view id s hkey
          refine (interp_then (query_eq hanswer)).trans ?_
          exact (interp_then rfl).trans ((interp_then rfl).trans hrest)

theorem stopLoop_ok (hS : Answering S WF holdings idle) (hheld : (holdings s).held = 0)
    (htimers : sim.timerQueue.isEmpty = true)
    (hempty : ∀ key, sim.waiters (holdings s) key = 0) :
    ∃ sim', (stopLoop sim).interp S.answer s = .ok ((.ok (), sim'), s) ∧
      sim'.status = sim.status := by
  obtain ⟨sim', hclear, hstatus⟩ :=
    @clearFutexes_ok _ S WF holdings idle { resetMemoryModel sim with done := true } s hS
      sim.futexKeys hempty
  refine ⟨{ sim' with futexKeys := [], current := false }, ?_, hstatus⟩
  refine (interp_then (isIdle_eq hS.isIdle)).trans ?_
  rw [hS.idle s hheld]
  refine (interp_then rfl).trans ((interp_then rfl).trans ?_)
  rw [htimers]
  refine (interp_then rfl).trans ((interp_then rfl).trans ?_)
  exact (interp_then hclear).trans rfl

end Kernel

/-! ### A simulation from its start to its end -/

/-- A simulation that was started with scheduler `s` has come to its end, by an abort or
because there was nothing left to do, before its budget did. -/
inductive Machine.Session (S : IScheduler σ) (C : σ → Call → Prop) (program : Program U) (s : σ)
    (m' : Machine U σ) : Prop where
  | ends {params : Params} {space : UserSpace U} {m₀ m : Machine U σ}
      (hlaunch : Machine.launch S params space s = some m₀)
      (hreach : Reach (Machine.next S program) (fun m e => m.Heeds S program C e) m₀ m)
      (hheeds : m.Heeds S program C .turn) (hbusy : m.control.Busy)
      (hnext : m.next S program .turn = some m') (hends : m'.control = .finished) :
      Machine.Session S C program s m'

theorem held_of_owned {a : Holdings} (h : a.owned = 0) : a.held = 0 := by
  refine Multiset.eq_zero_of_forall_notMem fun t ht => ?_
  have howned : t ∈ a.owned := Multiset.mem_add.mpr (Or.inl ht)
  rw [h] at howned
  exact Multiset.notMem_zero t howned

/-- Whatever way a simulation ends, nobody is left. -/
theorem Dismissing.cleared {program : Program U} {m' : Machine U σ}
    (h : Dismissing S WF holdings links C) (hS : Answering S WF holdings idle)
    (hfresh : Machine.Fresh WF holdings s) (hsession : m'.Session S C program s) :
    m'.Kempt WF holdings ∧ m'.Cleared holdings := by
  obtain ⟨hlaunch, hreach, hheeds, hbusy, hnext, hends⟩ := hsession
  have hreached := Machine.reached_restrict h.free ⟨_, _, s, _, hfresh, hlaunch, hreach⟩
  obtain ⟨hkempt, hled⟩ := Machine.reached_led h.parting hreached
  have hunder := (Machine.next_restrict hheeds).trans hnext
  have hidle : (S.restrict C).SaysIdle idle := fun view s =>
    (IScheduler.restrict_answer (h.free s (view, .isIdle) fun t => nofun)).trans
      (hS.isIdle view s)
  have hkempt' := Machine.next_kempt h.parting hkempt hunder
  exact ⟨hkempt', Machine.cleared_of_kempt hkempt'
    (Machine.next_led h.parting hkempt hled hunder)
    (Machine.deserted_of_next h.parting hidle hkempt hbusy hunder hends)⟩

/-- `StopLoop` finds everything in order, and there is a result. -/
theorem Kernel.finish_ok {m : Machine U σ} (hS : Answering S WF holdings idle)
    (h : m.Kempt WF holdings) (hcleared : m.Cleared holdings) :
    ∃ result sim', (finish m.space m.sim).interp S.answer m.scheduler =
        .ok ((.ok (some result, m.space), sim'), m.scheduler) ∧
      m.sim.status = some result.status := by
  obtain ⟨sim', hstop, hsame⟩ := stopLoop_ok hS (held_of_owned hcleared.threads)
    (isEmpty_of_unarmed h.placed.indexed hcleared.timers) hcleared.waiters
  obtain ⟨status, hstatus⟩ := Option.ne_none_iff_exists'.mp hcleared.status
  rw [hstatus] at hsame
  have hresult : (result sim').interp S.answer m.scheduler =
      .ok ((.ok ⟨status, sim'.stdout, sim'.stderr, sim'.memory.threadCount, sim'.iter,
        sim'.digest⟩, sim'), m.scheduler) := by
    refine (interp_then rfl).trans ?_
    rw [hsame]
    rfl
  exact ⟨_, sim', (interp_then hstop).trans ((interp_then hresult).trans rfl), hstatus⟩

/-! ### One simulation after another -/

/-- The schedulers that simulations start with, one after another, of whatever programs: with
the same schedule again, or with the next one. -/
inductive Sessions (S : IScheduler σ) (WF : σ → Prop) (holdings : σ → Holdings)
    (C : σ → Call → Prop) : σ → Prop where
  | first {s : σ} (hfresh : Machine.Fresh WF holdings s) : Sessions S WF holdings C s
  | again {U : Type} {program : Program U} {s : σ} {m : Machine U σ}
      (hsessions : Sessions S WF holdings C s) (hsession : m.Session S C program s) :
      Sessions S WF holdings C m.scheduler
  | next {U : Type} {program : Program U} {s : σ} {m : Machine U σ}
      (hsessions : Sessions S WF holdings C s) (hsession : m.Session S C program s) :
      Sessions S WF holdings C (S.nextSchedule m.scheduler).2

/-- By induction on the simulations. -/
theorem Sessions.fresh (h : Dismissing S WF holdings links C) (hS : Answering S WF holdings idle)
    (hsessions : Sessions S WF holdings C s) : Machine.Fresh WF holdings s := by
  induction hsessions with
  | first hfresh => exact hfresh
  | again _ hsession ih =>
      obtain ⟨hkempt, hcleared⟩ := h.cleared hS ih hsession
      exact ⟨hkempt.wf, hkempt.placed.filed.sound, hcleared.threads⟩
  | next _ hsession ih =>
      obtain ⟨hkempt, hcleared⟩ := h.cleared hS ih hsession
      obtain ⟨hWF, hsame⟩ := hS.nextSchedule _ hkempt.wf
      refine ⟨hWF, ?_, ?_⟩
      · rw [hsame]
        exact hkempt.placed.filed.sound
      · rw [hsame]
        exact hcleared.threads

/-! ### The four schedulers -/

theorem isEmpty_of_held {next : Option ThreadId} {queue : List ThreadId}
    (h : (↑(next.toList ++ queue) : Multiset ThreadId) = 0) :
    (queue.isEmpty && next.isNone) = true := by
  have hnil := (Multiset.coe_eq_zero _).mp h
  obtain ⟨hnext, rfl⟩ := List.append_eq_nil_iff.mp hnil
  cases next with
  | none => rfl
  | some t => cases hnext

/-- `Start` gives no pointer that could dangle. -/
theorem start_fails {view : KernelView} {p : Panic}
    (h : S.answer (view, .start) s = .error p) : S.exec (view, .start) s = .error p := by
  cases hexec : S.exec (view, .start) s with
  | error p' =>
      rw [IScheduler.answer, hexec] at h
      exact h
  | ok result =>
      obtain ⟨r, s'⟩ := result
      have hanswer : S.answer (view, .start) s = .ok (r, s') :=
        IScheduler.answer_ok_iff.mpr ⟨hexec, rfl⟩
      rw [hanswer] at h
      cases h

theorem Pct.start_error {params : Pct.Params} {fuel : Nat} {s : Pct.State} {p : Panic}
    (hqueue : s.runQueue.isEmpty = true) (h : Pct.start params fuel s = .error p) :
    p = .undefined "no more change points" := by
  unfold Pct.start at h
  dsimp only at h
  split at h
  · cases h
    rfl
  · rw [if_pos hqueue] at h
    cases h

theorem Coop.answering :
    Answering Coop.scheduler Coop.State.WF Coop.State.holdings
      fun s => s.lists.isEmpty none where
  isIdle _ _ := rfl
  idle _ h := (Coop.isEmpty_iff none).mpr h
  isEmpty _ q s h := congrArg (fun r => Except.ok (r, s)) ((Coop.isEmpty_iff (some q)).mpr h)
  nextSchedule _ hWF := ⟨hWF, rfl⟩
  start view s p hnobody hanswer := by
    have hqueue : s.lists.isEmpty none = true :=
      (Coop.isEmpty_iff none).mpr (held_of_owned hnobody)
    have hstart : Coop.start s = .error p := start_fails hanswer
    rw [Coop.start, if_pos hqueue] at hstart
    cases hstart

theorem Random.answering (params : Random.Params) :
    Answering (Random.scheduler params) Random.State.WF Random.State.holdings
      fun s => s.runQueue.isEmpty && s.next.isNone where
  isIdle _ _ := rfl
  idle _ h := isEmpty_of_held h
  isEmpty _ _ s h := congrArg (fun r => Except.ok (r, s))
    (List.isEmpty_iff.mpr ((Multiset.coe_eq_zero _).mp h))
  nextSchedule s hWF := by
    simp only [Random.scheduler, Random.nextSchedule]
    split
    · split
      · exact ⟨hWF, rfl⟩
      · exact ⟨hWF, rfl⟩
    · exact ⟨hWF, rfl⟩
  start view s p hnobody hanswer := by
    cases start_fails hanswer

theorem Pct.answering (params : Pct.Params) (fuel : Nat) :
    Answering (Pct.scheduler params fuel) Pct.State.WF Pct.State.holdings
      fun s => s.runQueue.isEmpty && s.active.isNone where
  isIdle _ _ := rfl
  idle _ h := isEmpty_of_held h
  isEmpty _ _ s h := congrArg (fun r => Except.ok (r, s))
    (List.isEmpty_iff.mpr ((Multiset.coe_eq_zero _).mp h))
  nextSchedule s hWF := by
    simp only [Pct.scheduler, Pct.nextSchedule]
    split
    · exact ⟨hWF, rfl⟩
    · exact ⟨⟨hWF.consistent, hWF.unused⟩, rfl⟩
  start view s p hnobody hanswer := by
    have hqueue : s.runQueue.isEmpty = true :=
      (Bool.and_eq_true_iff.mp (isEmpty_of_held (held_of_owned hnobody))).1
    have hmap := start_fails hanswer
    have hstart : Pct.start params fuel s = .error p := by
      simp only [Pct.scheduler] at hmap
      cases heq : Pct.start params fuel s with
      | error p' =>
          rw [heq] at hmap
          cases hmap
          rfl
      | ok s' =>
          rw [heq] at hmap
          cases hmap
    rw [Pct.start_error hqueue hstart]
    intro heq
    cases heq

theorem Dfs.answering (params : Dfs.Params) (answers : Nat → Nat) :
    Answering (Dfs.guided params answers) (Dfs.GuidedWF params) (Dfs.guidedHoldings params)
      fun s => s.2.runQueue.isEmpty && s.2.active.isNone where
  isIdle _ _ := rfl
  idle _ h := isEmpty_of_held h
  isEmpty _ _ s h := congrArg (fun r => Except.ok (r, s)) (Dfs.queueIsEmpty_iff.mpr h)
  nextSchedule _ hWF := ⟨hWF, rfl⟩
  start view s p hnobody hanswer := by
    cases start_fails hanswer

/-- Where a simulation has come to its end nobody and nothing is left, and `StopLoop` and
`Result` succeed. -/
def EndsClean (S : IScheduler σ) (WF : σ → Prop) (holdings : σ → Holdings)
    (C : σ → Call → Prop) : Prop :=
  ∀ {U : Type} (program : Program U) (s : σ) (m : Machine U σ), Machine.Fresh WF holdings s →
    m.Session S C program s →
      m.Cleared holdings ∧ ∃ result sim',
        (Kernel.finish m.space m.sim).interp S.answer m.scheduler =
          .ok ((.ok (some result, m.space), sim'), m.scheduler) ∧
        m.sim.status = some result.status

theorem Dismissing.ends_clean (h : Dismissing S WF holdings links C)
    (hS : Answering S WF holdings idle) : EndsClean S WF holdings C := by
  intro U program s m hfresh hsession
  obtain ⟨hkempt, hcleared⟩ := h.cleared hS hfresh hsession
  exact ⟨hcleared, Kernel.finish_ok hS hkempt hcleared⟩

/-- A simulation that ends leaves nothing behind, under the conditions of
`nothing_dangles`. -/
theorem simulations_end_clean :
    EndsClean Coop.scheduler Coop.State.WF Coop.State.holdings
      (fun s call => s.holdings.allowed true call) ∧
    (∀ params, EndsClean (Random.scheduler params) Random.State.WF Random.State.holdings
      fun _ _ => True) ∧
    (∀ params fuel, EndsClean (Pct.scheduler params fuel) Pct.State.WF Pct.State.holdings
      Pct.Absent) ∧
    ∀ params answers, EndsClean (Dfs.guided params answers) (Dfs.GuidedWF params)
      (Dfs.guidedHoldings params) fun _ _ => True :=
  ⟨Coop.dismissing.ends_clean Coop.answering,
    fun params => (Random.dismissing params).ends_clean (Random.answering params),
    fun params fuel => (Pct.dismissing params fuel).ends_clean (Pct.answering params fuel),
    fun params answers => (Dfs.dismissing params answers).ends_clean (Dfs.answering params answers)⟩

/-- The two detached threads are burnt before the simulation ends. -/
theorem session_deserted :
    ∃ (s : Random.State) (m : Machine Nat Random.State),
      Machine.Fresh Random.State.WF Random.State.holdings s ∧
      m.Session preempting (fun _ _ => True) deserted s ∧ m.sim.burntThreads = 2 := by
  obtain ⟨m, ⟨params, space, s, m₀, hfresh, hlaunch, hreach⟩, hcontrol, hends⟩ :=
    Machine.reached_preempting deserted 10
      (fun m => m.control = .head 97 ∧
        ((m.next preempting deserted .turn).any fun m' =>
          decide (m'.control = .finished ∧ m'.sim.burntThreads = 2)) = true) (by decide +kernel)
  obtain ⟨m', hnext, hends⟩ := Option.any_eq_true _ _ |>.mp hends
  obtain ⟨hfinished, hburnt⟩ := of_decide_eq_true hends
  have hbusy : m.control.Busy := by
    rw [hcontrol]
    exact Nat.succ_pos 96
  exact ⟨s, m', hfresh, Machine.Session.ends hlaunch hreach
    (Machine.heeds_of_forall fun _ _ => trivial) hbusy hnext hfinished, hburnt⟩

theorem simulations_end_clean_deserted :
    ∃ m : Machine Nat Random.State, m.sim.burntThreads = 2 ∧
      m.Cleared Random.State.holdings ∧ ∃ result sim',
        (Kernel.finish m.space m.sim).interp preempting.answer m.scheduler =
          .ok ((.ok (some result, m.space), sim'), m.scheduler) ∧
        m.sim.status = some result.status := by
  obtain ⟨s, m, hfresh, hsession, hburnt⟩ := session_deserted
  exact ⟨m, hburnt, simulations_end_clean.2.1 { seed := 1, timeSlice := 2 } deserted s m hfresh
    hsession⟩

end TwistSim
