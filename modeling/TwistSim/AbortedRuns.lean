/-
What an abort leaves can always be burnt: `Burn` finds every thread where it looks for it, so
that an abort ends the simulation and nothing else.
-/
import TwistSim.Endings

namespace TwistSim

open Effect
open Interaction (Along returns_bind interp_returns wp_sound)
open Kernel (impossible)

variable {U σ : Type} {S : IScheduler σ} {WF : σ → Prop} {holdings : σ → Holdings}
  {links : Links} {C : σ → Call → Prop} {sim sim' : Sim} {s s' : σ}

namespace Kernel

variable {α β : Type}

/-! ### Only with isolation -/

theorem step_isolated {program : Program U} {control : Control} {space : UserSpace U}
    (h : (step program control space sim).interp S.answer s =
      .ok ((.error .sysAbortEx, sim'), s')) : sim'.params.isolation = true := by
  cases control with
  | head budget =>
      cases breaks_of_stepHead (throws_first (fun _ => unbroken_pure _) h) with
      | deadlock hidle hcheck => exact (checkDeadlock_throws hcheck).2.isolated
      | picks hidle hupkeep hpick hhalts => exact hhalts.isolated
  | run t resumption budget =>
      cases hresume : program.resume t resumption space.user with
      | mk request user =>
          simp only [step, hresume] at h
          cases request with
          | sys call =>
              have hcall := stepSys_throws (throws_first (fun _ => unbroken_pure _) h)
              by_cases hexit : call = .threadExit
              · subst hexit
                rcases sysThreadExit_throws (throws_first (fun _ => unbroken_pure _) hcall) with
                  ⟨why, hanswer, hhalts⟩ | ⟨s₁, sim₁, hanswer, hdeserted, hhalts⟩
                · exact hhalts.isolated
                · exact hhalts.isolated
              · exact (handleSystemCall_throws hexit hcall).1.isolated
          | statics op =>
              rcases interp_bind_error h with hchecked | ⟨_, _, _, -, hthen⟩
              · exact ((unbroken_checked _).elim hchecked).elim
              · cases hthen
  | finished => cases h

/-! ### What burning can find amiss -/

/-- Whatever the scheduler answers, the operation fails only where a thread is not where it
should be. -/
def Strict (m : KernelM α) : Prop :=
  ∀ sim e sim', (m sim).Returns (.error e, sim') → ∃ p ∈ impossible, e = .panic p

theorem strict_pure (x : α) : Strict (pure x) := by
  rintro sim e sim' ⟨⟩

theorem strict_modify (f : Sim → Sim) : Strict (modify f) := by
  rintro sim e sim' ⟨⟩

theorem strict_query (q : Query) : Strict (query q) := by
  rintro sim e sim' ⟨reply, ⟨⟩⟩

theorem strict_panic {p : Panic} (h : p ∈ impossible) : Strict (panic p : KernelM α) := by
  rintro sim e sim' ⟨⟩
  exact ⟨p, h, rfl⟩

theorem strict_bind {m : KernelM α} {f : α → KernelM β} (hm : Strict m)
    (hf : ∀ x, Strict (f x)) : Strict (m >>= f) := by
  intro sim e sim' h
  obtain ⟨⟨x | x, sim₁⟩, hfirst, hthen⟩ := returns_bind.mp h
  · obtain ⟨heq, rfl⟩ := Prod.mk.inj hthen
    cases heq
    exact hm sim e sim' hfirst
  · exact hf x sim₁ e sim' hthen

theorem strict_read {f : Sim → KernelM β} (hf : ∀ sim, Strict (f sim)) :
    Strict (get >>= f) :=
  fun sim => hf sim sim

theorem strict_verify (cond : Bool) {error : String} (h : .verify error ∈ impossible) :
    Strict (verify cond error) := by
  unfold verify
  split
  · exact strict_pure ()
  · exact strict_panic h

theorem strict_checked {x : Except Panic α} (h : ∀ p, x = .error p → p ∈ impossible) :
    Strict (checked x) := by
  cases x with
  | ok value => exact strict_pure value
  | error p => exact strict_panic (h p rfl)

theorem impossible_of_remove {queue : TimerQueue ThreadId} {t : ThreadId} {p : Panic}
    (h : queue.remove t = .error p) : p ∈ impossible := by
  unfold TimerQueue.remove TimerHeap.remove at h
  split at h
  · dsimp only at h
    split at h
    · split at h
      · cases h
        decide
      · cases h
    · cases h
      decide
  · cases h

theorem strict_removeTimer (t : ThreadId) : Strict (removeTimer t) :=
  strict_read fun _ => strict_bind (strict_checked fun _ => impossible_of_remove) fun _ =>
    strict_bind (strict_modify _) fun _ => strict_pure _

theorem strict_waitQueueRemove (key : FutexKey) (waiter : ThreadId) :
    Strict (waitQueueRemove key waiter) := by
  have hverify : ∀ removed, Strict (verify removed "Waiter not found in WaitQueue") :=
    fun removed => strict_verify removed (by decide)
  refine strict_read fun sim => ?_
  dsimp only
  split
  · exact strict_bind (strict_query _) hverify
  · exact strict_bind (strict_modify _) fun _ => hverify _

theorem strict_burnThread (t : ThreadId) : Strict (burnThread t) := by
  have hend : Strict (do
      modify fun sim => { sim with burntThreads := sim.burntThreads + 1 }
      destroyThread t : KernelM Unit) :=
    strict_bind (strict_modify _) fun _ => strict_modify _
  refine strict_bind (strict_query _) fun _ => strict_read fun sim => ?_
  dsimp only
  split
  · refine strict_bind (strict_removeTimer t) fun _ => ?_
    split
    · exact strict_bind (strict_waitQueueRemove _ _) fun _ => hend
    · exact hend
  · split
    · exact strict_bind (strict_waitQueueRemove _ _) fun _ => hend
    · exact hend

theorem strict_burnThreads (threads : List ThreadId) : Strict (burnThreads threads) := by
  induction threads with
  | nil => exact strict_pure ()
  | cons t rest ih => exact strict_bind (strict_burnThread t) fun _ => ih

end Kernel

/-! ### Burning what is left -/

namespace Parting

/-- No operation fails because of a thread that is not where it should be. -/
theorem possible (hS : Parting S WF holdings) {α : Type} {m : KernelM α}
    {post : α → Sim → Holdings → Prop} {p : Panic} (hWF : WF s)
    (h : Kernel.Ensures .apart True m post sim (holdings s))
    (hrun : (m sim).interp S.answer s = .ok ((.error (.panic p), sim'), s')) :
    p ∉ impossible := by
  have hsound := wp_sound hS.keeps hWF (assumes s) h
  rw [hrun] at hsound
  intro hp
  cases hsound.2 hp

/-- Nothing that `Burn` checks is amiss. -/
theorem burns (hS : Parting S WF holdings) {statics : Statics.Manager} {e : Thrown}
    (hWF : WF s) (h : sim.Linked none (holdings s)) (hisolated : sim.params.isolation = true)
    (hrun : (Kernel.burn statics sim).interp S.answer s = .ok ((.error e, sim'), s')) :
    False := by
  have hens : Kernel.Ensures .apart True (Kernel.burnThreads sim.alive)
      (fun _ sim' a' => Kernel.Burns sim (holdings s) sim.alive sim' a') sim (holdings s) :=
    Kernel.ensures_burnThreads h h.nodup fun _ ht => ht
  rcases interp_bind_error hrun with hget | ⟨_, _, _, ⟨⟩, hthen⟩
  · cases hget
  rw [if_pos hisolated] at hthen
  rcases interp_bind_error hthen with hburn | ⟨_, sim₁, s₁, hburn, hthen⟩
  · obtain ⟨p, hp, rfl⟩ := Kernel.strict_burnThreads _ _ _ _ (interp_returns hburn)
    exact hS.possible hWF hens hburn hp
  · obtain ⟨-, hburns⟩ := hS.ensured hWF hens hburn
    have hempty : sim₁.timerQueue.isEmpty = true := by
      refine Kernel.isEmpty_of_unarmed hburns.linked.indexed fun t => ?_
      have hgone : t ∉ sim₁.alive := fun ht =>
        ((hburns.alive t).mp ht).2 ((hburns.alive t).mp ht).1
      exact (hburns.linked.gone t hgone).2
    rcases interp_bind_error hthen with hget | ⟨_, _, _, ⟨⟩, hthen⟩
    · cases hget
    rcases interp_bind_error hthen with hreset | ⟨queue, sim₂, s₂, hreset, hthen⟩
    · rw [TimerQueue.reset, if_pos hempty] at hreset
      cases hreset
    · rcases interp_bind_error hthen with hmodify | ⟨_, _, _, ⟨⟩, hpure⟩
      · cases hmodify
      · cases hpure

end Parting

/-- The scheduler takes away whatever thread it is asked to. -/
structure IScheduler.Yields (S : IScheduler σ) : Prop where
  remove : ∀ view t s, ∃ s', S.answer (view, .remove t) s = .ok ((), s')
  queueRemove : ∀ view q t s, ∃ removed s', S.answer (view, .queueRemove q t) s = .ok (removed, s')

/-- That is all that is asked of it to burn a thread. -/
theorem IScheduler.Yields.answers (h : S.Yields) (call : Call) (s : σ)
    (hburning : call.2.Burning) : ∃ r s', S.answer call s = .ok (r, s') := by
  obtain ⟨view, q⟩ := call
  cases q with
  | remove t =>
      obtain ⟨s', hanswer⟩ := h.remove view t s
      exact ⟨(), s', hanswer⟩
  | queueRemove q t => exact h.queueRemove view q t s
  | _ => exact absurd hburning id

/-- Whatever is in its place can be burnt. -/
theorem Dismissing.burn_ok (h : Dismissing S WF holdings links C) (hyields : S.Yields)
    {statics : Statics.Manager} (hWF : WF s) (hlinked : sim.Linked none (holdings s))
    (hisolated : sim.params.isolation = true)
    (halong : (Kernel.burn statics sim).Along S.answer C s) :
    ∃ sim' s', (Kernel.burn statics sim).interp S.answer s =
        .ok ((.ok statics.burnVars, sim'), s') ∧
      Kernel.Empty sim' (holdings s') ∧ sim'.status = sim.status := by
  obtain ⟨⟨result, sim'⟩, s', hburn⟩ := (Kernel.asks_burn statics sim).answered hyields.answers s
  have hunder := (IScheduler.interp_restrict halong).trans hburn
  cases result with
  | error e => exact (h.parting.burns hWF hlinked hisolated hunder).elim
  | ok statics' =>
      obtain ⟨-, rfl, hempty, hstatus⟩ :=
        h.parting.ensured hWF (Kernel.ensures_burn hlinked) hunder
      exact ⟨sim', s', hburn, hempty, hstatus⟩

/-- Where a turn throws an abort, in whatever state, the simulation comes to its end: the rest
of it is burnt, and nothing of that fails. -/
def AbortsEnd (S : IScheduler σ) (WF : σ → Prop) (holdings : σ → Holdings)
    (C : σ → Call → Prop) : Prop :=
  ∀ {U : Type} (program : Program U) (m : Machine U σ),
    Machine.Reached S program (Machine.Fresh WF holdings) (fun m e => m.Heeds S program C e) m →
      m.Heeds S program C .turn → ∀ sim' s',
        (Kernel.step program m.control m.space m.sim).interp S.answer m.scheduler =
            .ok ((.error .sysAbortEx, sim'), s') →
          ∃ m', m.next S program .turn = some m' ∧ m'.control = .finished ∧
            m'.Cleared holdings ∧ m'.sim.status = sim'.status

theorem Dismissing.abort_ends (h : Dismissing S WF holdings links C) (hyields : S.Yields) :
    AbortsEnd S WF holdings C := by
  intro U program m hreached hheeds sim' s' habort
  have hkempt := Machine.reached_kempt_of h hreached
  have hstep : (Kernel.step program m.control m.space m.sim).Along S.answer C m.scheduler :=
    Machine.along_step hheeds
  obtain ⟨hWF, hburnable, hstatus⟩ := h.parting.step_broken hkempt.wf hkempt.placed
    hkempt.manned ((IScheduler.interp_restrict hstep).trans habort)
  -- What the handler of the abort asks meets the condition as well.
  have hrest : ((Kernel.burn m.space.statics >>= fun statics =>
      pure (Control.finished, { m.space with statics }) :
        KernelM (Control × UserSpace U)) sim').Along S.answer C s' := by
    rw [Machine.Heeds, Kernel.guardedStep, Effect.handle] at hheeds
    exact hheeds.after habort
  have hburning : (Kernel.burn m.space.statics sim').Along S.answer C s' := Along.of_bind hrest
  obtain ⟨sim₁, s₁, hburn, hempty, hstatus₁⟩ :=
    h.burn_ok hyields hWF hburnable.linked (Kernel.step_isolated habort) hburning
  have hnobody : (holdings s₁).owned = 0 :=
    h.parting.burnt hWF hburnable ((IScheduler.interp_restrict hburning).trans hburn)
  have hturn : (Kernel.guardedStep program m.control m.space m.sim).interp S.answer
      m.scheduler =
        .ok ((.ok (.finished, { m.space with statics := m.space.statics.burnVars }), sim₁),
          s₁) := by
    rw [Kernel.guardedStep, Effect.handle, Interaction.interp_bind, habort]
    exact interp_then hburn
  refine ⟨⟨.finished, { m.space with statics := m.space.statics.burnVars }, sim₁, s₁⟩, ?_, rfl,
    ⟨hempty.alive, hnobody, hempty.waiters, hempty.timers, hstatus₁ ▸ hstatus⟩, hstatus₁⟩
  unfold Machine.next
  dsimp only
  rw [hturn]

/-! ### The four schedulers -/

theorem Coop.yields : Coop.scheduler.Yields where
  remove _ _ _ := ⟨_, rfl⟩
  queueRemove _ _ _ _ := ⟨_, _, rfl⟩

theorem Random.yields (params : Random.Params) : (Random.scheduler params).Yields where
  remove _ _ _ := ⟨_, rfl⟩
  queueRemove _ _ _ _ := ⟨_, _, rfl⟩

theorem Pct.yields (params : Pct.Params) (fuel : Nat) : (Pct.scheduler params fuel).Yields where
  remove _ _ _ := ⟨_, rfl⟩
  queueRemove _ _ _ _ := ⟨_, _, rfl⟩

theorem Dfs.yields (params : Dfs.Params) (answers : Nat → Nat) :
    (Dfs.guided params answers).Yields where
  remove _ _ _ := ⟨_, rfl⟩
  queueRemove _ _ _ _ := ⟨_, _, rfl⟩

/-- Two threads wait on one futex, and nobody wakes them. -/
def stranded : Program Nat where
  resume thread _ progress :=
    match thread, progress with
    | 1, 0 =>
        (.sys (.sync ⟨8, 4, .atomicInit, 0, .relaxed, "init", ⟨"", "", 0⟩⟩), 1)
    | 1, 1 => (.sys .spawn, 2)
    | _, _ =>
        (.sys (.futexWait ⟨8, 4, .whole, .uint32⟩ 0 ⟨.futex, "wait", ⟨"", "", 0⟩, none⟩),
          progress)
  heapStat _ := ⟨0, 0, 0, 0⟩

/-- What the next turn leaves if it throws an abort. -/
def Machine.abort? (S : IScheduler σ) (program : Program U) (m : Machine U σ) :
    Option (Sim × σ) :=
  match (Kernel.step program m.control m.space m.sim).interp S.answer m.scheduler with
  | .ok ((.error .sysAbortEx, sim'), s') => some (sim', s')
  | _ => none

theorem Machine.step_of_abort {program : Program U} {m : Machine U σ}
    (h : m.abort? S program = some (sim', s')) :
    (Kernel.step program m.control m.space m.sim).interp S.answer m.scheduler =
      .ok ((.error .sysAbortEx, sim'), s') := by
  unfold Machine.abort? at h
  split at h
  · rename_i heq
    cases h
    exact heq
  · cases h

/-- An abort is never lost: it ends the simulation with its status, and leaves nothing. -/
theorem aborts_end :
    AbortsEnd Coop.scheduler Coop.State.WF Coop.State.holdings
      (fun s call => s.holdings.allowed true call) ∧
    (∀ params, AbortsEnd (Random.scheduler params) Random.State.WF Random.State.holdings
      fun _ _ => True) ∧
    (∀ params fuel, AbortsEnd (Pct.scheduler params fuel) Pct.State.WF Pct.State.holdings
      Pct.Absent) ∧
    ∀ params answers, AbortsEnd (Dfs.guided params answers) (Dfs.GuidedWF params)
      (Dfs.guidedHoldings params) fun _ _ => True :=
  ⟨Coop.dismissing.abort_ends Coop.yields,
    fun params => (Random.dismissing params).abort_ends (Random.yields params),
    fun params fuel => (Pct.dismissing params fuel).abort_ends (Pct.yields params fuel),
    fun params answers => (Dfs.dismissing params answers).abort_ends (Dfs.yields params answers)⟩

/-- Both threads are burnt where they wait. -/
theorem aborts_end_stranded :
    ∃ m m' : Machine Nat Random.State, m.sim.alive = [1, 2] ∧
      m.next preempting stranded .turn = some m' ∧ m'.control = .finished ∧
      m'.Cleared Random.State.holdings ∧ m'.sim.status = some .deadlock := by
  obtain ⟨m, hreached, halive, habort⟩ := Machine.reached_preempting stranded 7
    (fun m => m.sim.alive = [1, 2] ∧
      ((m.abort? preempting stranded).any fun x => decide (x.1.status = some .deadlock)) = true)
    (by decide +kernel)
  obtain ⟨⟨sim', s'⟩, hleft, hstatus⟩ := Option.any_eq_true _ _ |>.mp habort
  obtain ⟨m', hnext, hfinished, hcleared, hsame⟩ :=
    aborts_end.2.1 { seed := 1, timeSlice := 2 } stranded m hreached
      (Machine.heeds_of_forall fun _ _ => trivial) sim' s' (Machine.step_of_abort hleft)
  exact ⟨m, m', halive, hnext, hfinished, hcleared, hsame.trans (of_decide_eq_true hstatus)⟩

end TwistSim
