/-
No pointer of the scheduler dangles: the thread that `PickNext` returns has neither exited
nor been burnt.
-/
import TwistSim.Departures
import TwistSim.Replaying
import TwistSim.Whereabouts

namespace TwistSim

open Effect
open Interaction (Along wp_sound)
open Kernel (Ensures Asks)
open Replay (LetsGo)

variable {U σ : Type} {S : IScheduler σ} {WF : σ → Prop} {holdings : σ → Holdings}
  {links : Links} {C : σ → Call → Prop} {s s' : σ} {call : Call}

/-! ### A scheduler under a condition -/

namespace IScheduler

/-- The scheduler, as far as the condition holds. -/
noncomputable def restrict (S : IScheduler σ) (C : σ → Call → Prop) : IScheduler σ where
  nextSchedule := S.nextSchedule
  exec call s :=
    haveI := Classical.propDecidable (C s call)
    if C s call then S.exec call s else .error (.unreachable "The condition is not met")

theorem restrict_answer (hC : C s call) : (S.restrict C).answer call s = S.answer call s := by
  have hexec : (S.restrict C).exec call s = S.exec call s := if_pos hC
  rw [answer, hexec, answer]

theorem interp_restrict {α : Type} {t : Scheduled α} (h : t.Along S.answer C s) :
    t.interp (S.restrict C).answer s = t.interp S.answer s := by
  have hsame : ∀ (call : Call) s, C s call → (S.restrict C).answer call s = S.answer call s :=
    fun _ _ hC => restrict_answer hC
  exact h.interp_congr hsame

theorem answer_of_restrict {result : call.Reply × σ}
    (h : (S.restrict C).answer call s = .ok result) :
    C s call ∧ S.answer call s = .ok result := by
  by_cases hC : C s call
  · exact ⟨hC, restrict_answer hC ▸ h⟩
  · have hexec : (S.restrict C).exec call s = .error (.unreachable "The condition is not met") :=
      if_neg hC
    rw [answer, hexec] at h
    cases h

theorem exec_of_restrict {result : call.Reply × σ}
    (h : (S.restrict C).exec call s = .ok result) : S.exec call s = .ok result := by
  by_cases hC : C s call
  · have hexec : (S.restrict C).exec call s = S.exec call s := if_pos hC
    rwa [hexec] at h
  · have hexec : (S.restrict C).exec call s = .error (.unreachable "The condition is not met") :=
      if_neg hC
    rw [hexec] at h
    cases h

end IScheduler

/-- A scheduler that gives up the threads that are taken away from it, under a condition on
the calls of `Remove`. -/
structure Dismissing (S : IScheduler σ) (WF : σ → Prop) (holdings : σ → Holdings)
    (links : Links) (C : σ → Call → Prop) : Prop where
  keeps : Keeps S WF holdings links
  unshared : links ≠ .shared
  free : ∀ s call, (∀ t, call.2 ≠ .remove t) → C s call
  allowed : links = .spared → ∀ s call, C s call → (holdings s).allowed true call
  letsGo : ∀ s call, WF s → C s call → LetsGo S holdings s call
  aside : ∀ s, WF s → (holdings s).held = 0 → (holdings s).slot = false
  pruned : ∀ view s why s', WF s → S.answer (view, .pickNext) s = .ok (.error why, s') →
    (holdings s').slot = false
  picks : ∀ view s t s', WF s → S.exec (view, .pickNext) s = .ok (.ok t, s') →
    t ∈ (holdings s).owned

namespace Dismissing

theorem keeps_restrict (h : Dismissing S WF holdings links C) :
    Keeps (S.restrict C) WF holdings .apart := by
  intro call s hWF _ hpre
  have hmisses : ∀ l : Links, l ≠ .shared → ¬ (holdings s).Misses l call := by
    intro l hl
    obtain ⟨view, q⟩ := call
    cases q with
    | queueRemove q t => exact fun h => hl h.1
    | _ => exact id
  cases hanswer : (S.restrict C).answer call s with
  | error p => trivial
  | ok result =>
      obtain ⟨hC, hunder⟩ := IScheduler.answer_of_restrict hanswer
      have hstep := h.keeps call s hWF (fun hlinks => h.allowed hlinks s call hC)
        ⟨hpre.1, fun _ => hpre.2 (hmisses .apart nofun)⟩
      rw [hunder] at hstep
      have hgrants := hstep.2.1 (fun h' => h.unshared h'.1) (hmisses links h.unshared)
      have hsnatches : ¬ (holdings s).Snatches .apart call := fun h => nomatch h.1
      exact ⟨hstep.1, fun _ _ => hgrants, fun h' => absurd h' hsnatches,
        fun h' => absurd h' (hmisses .apart nofun)⟩

theorem parting (h : Dismissing S WF holdings links C) : Parting (S.restrict C) WF holdings where
  keeps := h.keeps_restrict
  aside := h.aside
  pruned view s why s' hWF hanswer :=
    h.pruned view s why s' hWF (IScheduler.answer_of_restrict hanswer).2
  letsGo s call hWF := by
    obtain ⟨view, q⟩ := call
    cases q with
    | remove t =>
        intro hslot hnodup s' hanswer
        obtain ⟨hC, hunder⟩ := IScheduler.answer_of_restrict hanswer
        exact h.letsGo s (view, .remove t) hWF hC hslot hnodup s' hunder
    | _ => trivial
  picks view s t s' hWF hexec := h.picks view s t s' hWF (IScheduler.exec_of_restrict hexec)

end Dismissing

/-! ### Runs under the condition -/

namespace Machine

variable {program : Program U} {m m' : Machine U σ}

/-- All calls of a turn meet the condition. -/
def Heeds (S : IScheduler σ) (program : Program U) (C : σ → Call → Prop) (m : Machine U σ) :
    LoopEvent → Prop
  | .turn =>
      (Kernel.guardedStep program m.control m.space m.sim).Along S.answer C m.scheduler
  | .runFor _ => True

theorem heeds_of_forall {e : LoopEvent} (h : ∀ s call, C s call) : m.Heeds S program C e := by
  cases e with
  | turn => exact Along.of_forall h
  | runFor budget => trivial

theorem next_restrict {e : LoopEvent} (h : m.Heeds S program C e) :
    m.next (S.restrict C) program e = m.next S program e := by
  cases e with
  | turn => rw [next, next, IScheduler.interp_restrict h]
  | runFor budget => rfl

theorem launch_restrict {params : Params} {space : UserSpace U}
    (hfree : ∀ s call, (∀ t, call.2 ≠ .remove t) → C s call) :
    launch (S.restrict C) params space s = launch S params space s := by
  have halong : (Kernel.startLoop (Sim.init params false)).Along S.answer C s := by
    rw [Kernel.startLoop_eq]
    refine ⟨hfree _ _ fun t => nofun, fun r s' _ => ?_⟩
    refine (Kernel.asks_spawnMainThread _).along.mono fun s call hspawn => hfree s call ?_
    obtain ⟨t, ht⟩ := hspawn
    rw [ht]
    exact fun u => nofun
  rw [launch, launch, IScheduler.interp_restrict halong]

/-- A run that meets the condition is one of the scheduler under the condition. -/
theorem reached_restrict {initial : σ → Prop}
    (hfree : ∀ s call, (∀ t, call.2 ≠ .remove t) → C s call)
    (h : Reached S program initial (fun m e => m.Heeds S program C e) m) :
    Reached (S.restrict C) program initial (fun _ _ => True) m := by
  obtain ⟨params, space, s, m₀, hs, hlaunch, hreach⟩ := h
  refine ⟨params, space, s, m₀, hs, (launch_restrict hfree).trans hlaunch, ?_⟩
  induction hreach with
  | start => exact Reach.start
  | step _ hheeds hnext ih => exact ih.step trivial ((next_restrict hheeds).trans hnext)

theorem reached_kempt_of (h : Dismissing S WF holdings links C)
    (hreached : Reached S program (Fresh WF holdings) (fun m e => m.Heeds S program C e) m) :
    m.Kempt WF holdings :=
  reached_kempt h.parting (reached_restrict h.free hreached)

end Machine

/-! ### What `PickNext` returns -/

theorem Query.Steady.ne_pickNext {q : Query} (h : q.Steady) : q ≠ .pickNext := by
  rintro rfl
  exact h

theorem Query.Ending.ne_pickNext {q : Query} (h : q.Ending) : q ≠ .pickNext := by
  rintro rfl
  exact h

namespace Kernel

variable {α β : Type} {sim sim' : Sim}

theorem along_bind {m : KernelM α} {f : α → KernelM β} (hm : (m sim).Along S.answer C s)
    (hf : ∀ x sim₁ s₁, (m sim).interp S.answer s = .ok ((.ok x, sim₁), s₁) →
      (f x sim₁).Along S.answer C s₁) : ((m >>= f) sim).Along S.answer C s := by
  refine Along.bind hm fun r s₁ hrun => ?_
  obtain ⟨e | x, sim₁⟩ := r
  · trivial
  · exact hf x sim₁ s₁ hrun

theorem usable_of_ne (h : call.2 ≠ .pickNext) : S.Usable s call := by
  intro r s' _
  obtain ⟨view, q⟩ := call
  cases q with
  | pickNext => exact absurd rfl h
  | _ => rfl

theorem usable_of_asks {A : Query → Prop} {m : KernelM α} (h : Asks A m)
    (hA : ∀ q, A q → q ≠ .pickNext) : (m sim).Along S.answer S.Usable s :=
  (h sim).along.mono fun _ call hq => usable_of_ne (hA call.2 hq)

/-- What an operation ensures that takes no thread away. -/
theorem moved (hS : Keeps S WF holdings links) {m : KernelM α} {x : α}
    {post : α → Sim → Holdings → Prop} (hWF : WF s) (hasks : Asks Query.Moving m)
    (h : Ensures links True m post sim (holdings s))
    (hrun : (m sim).interp S.answer s = .ok ((.ok x, sim'), s')) :
    WF s' ∧ post x sim' (holdings s') := by
  have hassume : (m sim).Along S.answer
      (fun s call => (keeperSpec links).assume (holdings s) call) s :=
    (hasks sim).along.mono fun _ _ hmoving _ => Replay.allowed_of_moving hmoving
  have hsound := wp_sound hS hWF hassume h
  rw [hrun] at hsound
  exact hsound

variable (hS : Keeps S WF holdings links)
  (hpicks : ∀ view s t s', WF s → S.exec (view, .pickNext) s = .ok (.ok t, s') →
    t ∈ (holdings s).owned)
include hS hpicks

omit hS in
theorem usable_runPicked (hWF : WF s) (hmanned : sim.Manned (holdings s)) :
    (runPicked sim).Along S.answer S.Usable s := by
  refine along_bind ⟨?_, fun _ _ _ => trivial⟩ fun picked sim₁ s₁ _ => ?_
  · intro r s' hexec
    cases r with
    | error why => rfl
    | ok t => exact List.elem_iff.mpr (hmanned t (hpicks _ _ _ _ hWF hexec))
  · cases picked with
    | error why =>
        have hrest : Asks (fun _ => False) (prune why : KernelM ThreadId) := asks_abortIter _ _
        exact usable_of_asks hrest fun _ => False.elim
    | ok next =>
        have hrest : Asks (fun _ => False) (do
            feedDigest (UInt64.ofNat next)
            completeSync next
            switchTo next
            pure next) :=
          asks_bind (asks_modify _) fun _ => asks_bind (asks_completeSync next) fun _ =>
            asks_bind (asks_modify _) fun _ => asks_pure _
        exact usable_of_asks hrest fun _ => False.elim

theorem usable_stepHead {budget : Nat} (hWF : WF s)
    (hplaced : sim.Placed none none (holdings s)) (hmanned : sim.Manned (holdings s)) :
    (stepHead budget sim).Along S.answer S.Usable s := by
  refine along_bind ⟨usable_of_ne nofun, fun _ _ _ => trivial⟩ fun isIdle sim₁ s₁ hquery => ?_
  have hens : Ensures links True (query .isIdle)
      (fun _ sim' a' => sim' = sim ∧ a' = holdings s) sim (holdings s) :=
    ensures_query hplaced.filed.sound trivial rfl trivial fun _ _ hgrants =>
      ⟨rfl, hgrants.post.2⟩
  have hasks : Asks Query.Moving (query .isIdle) := asks_query trivial
  obtain ⟨hWF₁, rfl, hsame⟩ := moved hS hWF hasks hens hquery
  rw [← hsame] at hplaced hmanned
  split
  · refine along_bind ?_ fun _ _ _ _ => trivial
    refine along_bind trivial fun _ sim₂ s₂ hiter => ?_
    cases hiter
    have hupkeep : ∀ sim₃ s₃, (upkeep (nextIter sim₁) (nextIter sim₁)).interp S.answer s₁ =
        .ok ((.ok (), sim₃), s₃) → (runPicked sim₃).Along S.answer S.Usable s₃ := by
      intro sim₃ s₃ hrun
      have hasks : Asks Query.Moving (upkeep (nextIter sim₁)) := by
        unfold upkeep
        split
        · exact asks_maintenance.mono fun _ => Query.Steady.moving
        · exact asks_pure ()
      obtain ⟨hWF₃, hlater⟩ := moved hS hWF₁ hasks (Parting.ensures_upkeep hplaced) hrun
      exact usable_runPicked hpicks hWF₃ (hlater.passes.manned hplaced.toLinked hmanned)
    refine along_bind trivial fun sim' sim₂ s₂ hget => ?_
    cases hget
    dsimp only
    split
    · rename_i hdue
      have hduty : upkeep (nextIter sim₁) = maintenance := if_pos hdue
      refine along_bind (usable_of_asks asks_maintenance fun _ => Query.Steady.ne_pickNext)
        fun _ sim₃ s₃ hrun => hupkeep sim₃ s₃ (hduty ▸ hrun)
    · rename_i hdue
      have hduty : upkeep (nextIter sim₁) = pure () := if_neg hdue
      exact hupkeep _ _ (hduty ▸ rfl)
  · split
    · exact along_bind (usable_of_asks asks_idle fun _ => Query.Steady.ne_pickNext)
        fun _ _ _ _ => trivial
    · trivial

section Step

variable {program : Program U} {control : Control} {space : UserSpace U}

theorem usable_step (hWF : WF s) (hplaced : sim.Placed control.running none (holdings s))
    (hmanned : sim.Manned (holdings s)) :
    (step program control space sim).Along S.answer S.Usable s := by
  cases control with
  | head budget =>
      exact along_bind (usable_stepHead hS hpicks hWF hplaced hmanned) fun _ _ _ _ => trivial
  | run t resumption budget =>
      by_cases hexit : (program.resume t resumption space.user).1 = .sys .threadExit
      · exact usable_of_asks (asks_step_exit hexit) fun _ => Query.Ending.ne_pickNext
      · exact usable_of_asks (asks_step_run hexit) fun _ h => h.steady.ne_pickNext
  | finished => trivial

theorem usable_guardedStep (hWF : WF s)
    (hplaced : sim.Placed control.running none (holdings s)) (hmanned : sim.Manned (holdings s)) :
    (guardedStep program control space sim).Along S.answer S.Usable s := by
  refine Along.bind (usable_step hS hpicks hWF hplaced hmanned) fun r s₁ _ => ?_
  obtain ⟨e | x, sim₁⟩ := r
  · cases e with
    | sysAbortEx =>
        exact usable_of_asks (asks_bind (asks_burn _) fun _ => asks_pure _)
          fun _ h => h.ending.ne_pickNext
    | panic p => trivial
  · trivial

end Step

end Kernel

/-- Every pointer to a thread is to a thread that is alive: those of the scheduler, of the
queues of the futexes and of the timers.  So is the one that `PickNext` returns in the next
turn. -/
structure Machine.Current (S : IScheduler σ) (holdings : σ → Holdings) (program : Program U)
    (m : Machine U σ) : Prop where
  threads : ∀ t ∈ (holdings m.scheduler).owned, t ∈ m.sim.alive
  waiters : ∀ key, ∀ t ∈ m.sim.waiters (holdings m.scheduler) key, t ∈ m.sim.alive
  timers : ∀ t, m.sim.Armed t → t ∈ m.sim.alive
  picks : (Kernel.guardedStep program m.control m.space m.sim).Along S.answer S.Usable
    m.scheduler

theorem Dismissing.current {program : Program U} {m : Machine U σ}
    (h : Dismissing S WF holdings links C)
    (hreached : Machine.Reached S program (Machine.Fresh WF holdings)
      (fun m e => m.Heeds S program C e) m) : m.Current S holdings program := by
  have hkempt := Machine.reached_kempt_of h hreached
  have hgone := hkempt.placed.gone
  refine ⟨hkempt.manned, fun key t ht => ?_, fun t harmed => ?_, ?_⟩
  · by_contra hdead
    exact (hgone t hdead).1 key ht
  · by_contra hdead
    exact (hgone t hdead).2 harmed
  · exact Kernel.usable_guardedStep h.keeps h.picks hkempt.wf hkempt.placed hkempt.manned

/-! ### The four schedulers -/

theorem mem_owned_of_picks {a a' : Holdings} {t : ThreadId} (h : a.held = t ::ₘ a'.held) :
    t ∈ a.owned := by
  rw [Holdings.owned, h]
  exact Multiset.mem_add.mpr (Or.inl (Multiset.mem_cons_self t _))

theorem isSome_eq_false {next : Option ThreadId} {queue : List ThreadId}
    (h : (↑(next.toList ++ queue) : Multiset ThreadId) = 0) : next.isSome = false := by
  cases next with
  | none => rfl
  | some t => exact absurd ((Multiset.coe_eq_zero _).mp h) (List.cons_ne_nil t queue)

theorem Coop.dismissing :
    Dismissing Coop.scheduler Coop.State.WF Coop.State.holdings .spared
      fun s call => s.holdings.allowed true call where
  keeps := keeps nofun
  unshared := nofun
  free s call hcall := by
    obtain ⟨view, q⟩ := call
    cases q with
    | remove t => exact absurd rfl (hcall t)
    | _ => trivial
  allowed _ _ _ h := h
  letsGo _ _ hWF _ := Coop.letsGo hWF
  aside _ _ _ := rfl
  pruned _ _ _ _ _ _ := rfl
  picks view s t s' hWF hexec := by
    obtain ⟨u, hu, -, hheld, -⟩ := Coop.pickNext_picks hWF hexec
    cases hu
    exact mem_owned_of_picks hheld

theorem Random.dismissing (params : Random.Params) :
    Dismissing (Random.scheduler params) Random.State.WF Random.State.holdings .apart
      fun _ _ => True where
  keeps := Random.keeps params
  unshared := nofun
  free _ _ _ := trivial
  allowed := nofun
  letsGo _ _ _ _ := Random.letsGo
  aside _ _ h := isSome_eq_false h
  pruned view s why s' hWF hanswer := by
    obtain ⟨u, hu, -⟩ := Random.pickNext_spec (answer_exec hanswer)
    cases hu
  picks view s t s' hWF hexec := by
    obtain ⟨u, hu, hheld, -⟩ := Random.pickNext_spec hexec
    cases hu
    exact mem_owned_of_picks hheld

/-- `Remove` does nothing: the thread is not in the run queue that it should take it from. -/
def Pct.Absent (s : Pct.State) : Call → Prop
  | (_, .remove t) => t ∉ s.runQueue
  | _ => True

theorem Pct.letsGo {params : Pct.Params} {fuel : Nat} {s : Pct.State} {call : Call}
    (h : Pct.Absent s call) : LetsGo (Pct.scheduler params fuel) Pct.State.holdings s call := by
  obtain ⟨view, q⟩ := call
  cases q with
  | remove t =>
      intro hslot _ s' hanswer
      cases answer_exec hanswer
      have hnone : s.active = none :=
        Option.isNone_iff_eq_none.mp (Option.isSome_eq_false_iff.mp hslot)
      refine ⟨?_, hslot⟩
      rw [Holdings.owned, Pct.State.holdings, hnone, Option.toList_none, List.nil_append,
        add_zero, Multiset.mem_coe]
      exact h
  | _ => trivial

theorem Pct.dismissing (params : Pct.Params) (fuel : Nat) :
    Dismissing (Pct.scheduler params fuel) Pct.State.WF Pct.State.holdings .apart
      Pct.Absent where
  keeps := Pct.keeps params fuel
  unshared := nofun
  free s call hcall := by
    obtain ⟨view, q⟩ := call
    cases q with
    | remove t => exact absurd rfl (hcall t)
    | _ => trivial
  allowed := nofun
  letsGo _ _ _ h := Pct.letsGo h
  aside _ _ h := isSome_eq_false h
  pruned view s why s' hWF hanswer := by
    obtain ⟨u, hu, -⟩ := Pct.pickNext_picks (answer_exec hanswer)
    cases hu
  picks view s t s' hWF hexec := by
    obtain ⟨u, hu, hheld, -⟩ := Pct.pickNext_picks hexec
    cases hu
    exact mem_owned_of_picks hheld

theorem Dfs.dismissing (params : Dfs.Params) (answers : Nat → Nat) :
    Dismissing (Dfs.guided params answers) (Dfs.GuidedWF params) (Dfs.guidedHoldings params)
      .apart fun _ _ => True where
  keeps := Dfs.keeps params answers
  unshared := nofun
  free _ _ _ := trivial
  allowed := nofun
  letsGo _ _ _ _ := Dfs.letsGo
  aside _ _ h := isSome_eq_false h
  pruned view s why s' hWF hanswer := by
    have hcall : ((view, .pickNext) : Call).2 ≠ .start := nofun
    obtain ⟨-, hnone⟩ := Dfs.pickNext_prunes (Dfs.guided_returns hcall (answer_exec hanswer))
    exact congrArg Option.isSome hnone
  picks view s t s' hWF hexec := by
    have hcall : ((view, .pickNext) : Call).2 ≠ .start := nofun
    obtain ⟨-, hpicks⟩ := Dfs.pickNext_returns (Dfs.guided_returns hcall hexec)
    exact mem_owned_of_picks (hpicks t rfl).1

/-- In every state that a run reaches whose calls all meet the condition nothing dangles. -/
def NothingDangles (S : IScheduler σ) (WF : σ → Prop) (holdings : σ → Holdings)
    (C : σ → Call → Prop) : Prop :=
  ∀ {U : Type} (program : Program U) (m : Machine U σ),
    Machine.Reached S program (Machine.Fresh WF holdings) (fun m e => m.Heeds S program C e) m →
      m.Current S holdings program

/-- No pointer to a thread outlives the thread: under the coop scheduler, if no thread is
removed that waits on the links of the run queue, under the random and the depth-first
scheduler, and under the PCT scheduler, if no thread is removed that is in its run queue. -/
theorem nothing_dangles :
    NothingDangles Coop.scheduler Coop.State.WF Coop.State.holdings
      (fun s call => s.holdings.allowed true call) ∧
    (∀ params, NothingDangles (Random.scheduler params) Random.State.WF Random.State.holdings
      fun _ _ => True) ∧
    (∀ params fuel, NothingDangles (Pct.scheduler params fuel) Pct.State.WF Pct.State.holdings
      Pct.Absent) ∧
    ∀ params answers, NothingDangles (Dfs.guided params answers) (Dfs.GuidedWF params)
      (Dfs.guidedHoldings params) fun _ _ => True := by
  exact ⟨fun program m => Coop.dismissing.current,
    fun params U program m => (Random.dismissing params).current,
    fun params fuel U program m => (Pct.dismissing params fuel).current,
    fun params answers U program m => (Dfs.dismissing params answers).current⟩

/-- A run of the random scheduler that can be computed. -/
theorem Machine.reached_preempting (program : Program Nat) (turns : Nat)
    (P : Machine Nat Random.State → Prop) [DecidablePred P]
    (h : ((launch preempting {} noVariables (Random.State.new { seed := 1 })).bind
      (runEvents (next preempting program) (fun _ _ => True)
        (.runFor 100 :: List.replicate turns .turn))).any (fun m => decide (P m)) = true) :
    ∃ m, Reached preempting program (Fresh Random.State.WF Random.State.holdings)
      (fun m e => m.Heeds preempting program (fun _ _ => True) e) m ∧ P m := by
  have hfresh : Fresh Random.State.WF Random.State.holdings (Random.State.new { seed := 1 }) :=
    ⟨fun _ _ => rfl, Agrees.start.sound, rfl⟩
  obtain ⟨m, ⟨params, space, s, m₀, hs, hlaunch, hreach⟩, hP⟩ := exists_reached hfresh h
  refine ⟨m, ⟨params, space, s, m₀, hs, hlaunch, ?_⟩, hP⟩
  exact hreach.mono fun m e _ => heeds_of_forall fun _ _ => trivial

/-- The main thread ends with two detached threads in the run queue, and they are burnt. -/
theorem nothing_dangles_deserted :
    ∃ m : Machine Nat Random.State, m.sim.burntThreads = 2 ∧
      m.Current preempting Random.State.holdings deserted := by
  obtain ⟨m, hreached, hburnt⟩ := Machine.reached_preempting deserted 10
    (fun m => m.sim.burntThreads = 2) (by decide +kernel)
  exact ⟨m, hburnt, nothing_dangles.2.1 { seed := 1, timeSlice := 2 } deserted m hreached⟩

/-- The main thread detaches a thread that has not run yet, and ends. -/
def abandoned : Program Nat where
  resume thread _ progress :=
    match thread, progress with
    | 1, 0 => (.sys .spawn, 1)
    | 1, 1 => (.sys (.detach 2), 2)
    | _, _ => (.sys .threadExit, progress)
  heapStat _ := ⟨0, 0, 0, 0⟩

/-- The PCT scheduler keeps a thread in its run queue that has been burnt. -/
theorem dangles_abandoned :
    ∃ m : Machine Nat Pct.State,
      Machine.Reached (Pct.scheduler { depth := 1 } 20) abandoned
        (Machine.Fresh Pct.State.WF Pct.State.holdings) (fun _ _ => True) m ∧
      ¬ m.Current (Pct.scheduler { depth := 1 } 20) Pct.State.holdings abandoned := by
  have hfresh : Machine.Fresh Pct.State.WF Pct.State.holdings (Pct.State.new 1) :=
    ⟨⟨IntrusiveLists.empty_consistent, fun _ _ => rfl⟩, Agrees.start.sound, rfl⟩
  obtain ⟨m, hreached, hqueue, halive⟩ :=
    @Machine.exists_reached _ _ (Pct.scheduler { depth := 1 } 20) abandoned
      (Machine.Fresh Pct.State.WF Pct.State.holdings) (fun _ _ => True) _ {}
      Machine.noVariables (Pct.State.new 1) (.runFor 100 :: List.replicate 4 .turn)
      (fun m => m.scheduler.runQueue = [2] ∧ m.sim.alive = []) _ hfresh (by decide +kernel)
  refine ⟨m, hreached, fun hcurrent => ?_⟩
  have howned : 2 ∈ m.scheduler.holdings.owned := by
    refine Multiset.mem_add.mpr (Or.inl (Multiset.mem_coe.mpr ?_))
    rw [hqueue]
    exact List.mem_append_right _ (List.mem_singleton_self 2)
  have hmem := hcurrent.threads 2 howned
  rw [halive] at hmem
  cases hmem

end TwistSim
