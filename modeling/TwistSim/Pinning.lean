/-
A thread that may not be preempted goes on first: what the schedulers promise about it,
and why the maintenance between two iterations cannot break the promise.
-/
import TwistSim.Inversion
import TwistSim.Idling

namespace TwistSim

open Effect
open Interaction (interp_bind)

/-! ### The promise -/

/-- The attributes of the threads that are pinned by an interrupt: all of them, or the
non-preemptive ones. -/
def Guarded (always : Bool) (attrs : ThreadAttrs) : Prop :=
  always = true ∨ attrs.preemptive = false

/-- A thread that is interrupted while the scheduler is `calm` is `pinned`: it is the next
one to be picked, whatever is woken or taken out of a wait queue before. -/
structure IScheduler.Pins {σ : Type} (S : IScheduler σ) (always : Bool) (calm : σ → Prop)
    (pinned : σ → ThreadId → Prop) : Prop where
  calm_picked : ∀ {view s next s'},
    S.answer (view, .pickNext) s = .ok (.ok next, s') → calm s'
  calm_plain : ∀ {view} {q : Query} {s r s'}, q.plain = true → calm s →
    S.answer (view, q) s = .ok (r, s') → calm s'
  interrupt : ∀ {view t s s'}, Guarded always (view.attrs t) → calm s →
    S.answer (view, .interrupt t) s = .ok ((), s') → pinned s' t
  isIdle : ∀ {view t s idle s'}, pinned s t →
    S.answer (view, .isIdle) s = .ok (idle, s') → idle = false ∧ pinned s' t
  wake : ∀ {view t u s s'}, u ≠ t → pinned s t →
    S.answer (view, .wake u) s = .ok ((), s') → pinned s' t
  queueRemove : ∀ {view t q u s removed s'}, u ≠ t → pinned s t →
    S.answer (view, .queueRemove q u) s = .ok (removed, s') → pinned s' t
  pickNext : ∀ {view t s next s'}, Guarded always (view.attrs t) → pinned s t →
    S.answer (view, .pickNext) s = .ok (.ok next, s') → next = t

/-! ### Schedulers that keep it -/

theorem IntrusiveLists.remove_first {κ α : Type} [DecidableEq κ] [DecidableEq α]
    {l : IntrusiveLists κ α} {k : κ} {x y : α} {rest : List α} (hne : x ≠ y)
    (h : l.lists k = y :: rest) : ∃ rest, (l.remove x).2.lists k = y :: rest := by
  unfold remove
  split
  · unfold unlink
    split
    · exact ⟨rest, h⟩
    · rename_i k' _
      by_cases hk : k = k'
      · subst hk
        refine ⟨rest.erase x, ?_⟩
        simp only [Function.update_self, h]
        exact List.erase_cons_tail (by simpa using Ne.symm hne)
      · exact ⟨rest, by simp only [Function.update_of_ne hk, h]⟩
  · exact ⟨rest, h⟩

namespace Coop

variable {s s' : State} {view : KernelView} {t u : ThreadId}

/-- Only `SwitchTo` and `PickNext` have to do with the target. -/
theorem plain_next {q : Query} {r : q.Reply} (hq : q.plain = true) (hnext : s.next = none)
    (h : scheduler.exec (view, q) s = .ok (r, s')) : s'.next = none := by
  have hlists : ∀ {lists}, s.withLists lists = .ok ((), s') → s'.next = none := by
    intro lists hlists
    obtain ⟨_, -, heq⟩ := map_eq_ok hlists
    cases heq
    exact hnext
  have hrandom : (nextRandom s).2 = s' → s'.next = none := by
    intro hs'
    have hreseed : { s with random := (WyRand.next s.random).2 } = s' := hs'
    rw [← hreseed]
    exact hnext
  cases q with
  | start => cases hq
  | interrupt t => cases hq
  | switchTo t next => cases hq
  | pickNext => cases hq
  | yield t => exact hlists h
  | wake t => exact hlists h
  | spawn t => exact hlists h
  | queuePush q t => exact hlists h
  | randomNumber => exact hrandom (congrArg Prod.snd (Except.ok.inj h))
  | randomChoice alts => exact hrandom (congrArg Prod.snd (Except.ok.inj h))
  | _ =>
      cases h
      exact hnext

/-- Whom the coop scheduler interrupts, preemptive or not, it puts first. -/
theorem pins : scheduler.Pins true (fun s => s.next = none)
    fun s t => s.next = none ∧ ∃ rest, s.lists.lists none = t :: rest where
  calm_picked {view s next s'} h := by
    have hpick : pickNext s = .ok (.ok next, s') := answer_exec h
    unfold pickNext at hpick
    split at hpick
    · split at hpick
      · cases hpick
        rfl
      · cases hpick
    · rename_i hnone
      split at hpick
      · cases hpick
        exact hnone
      · cases hpick
  calm_plain hq hcalm h := plain_next hq hcalm (answer_exec h)
  interrupt {view t s s'} _ hcalm h := by
    obtain ⟨lists, hpush, heq⟩ := map_eq_ok (answer_exec h)
    cases heq
    unfold IntrusiveLists.pushFront at hpush
    split at hpush
    · cases hpush
    · cases hpush
      exact ⟨hcalm, s.lists.lists none, by simp only [IntrusiveLists.link, Function.update_self]⟩
  isIdle {view t s idle s'} hpinned h := by
    cases answer_exec h
    obtain ⟨hnext, rest, hfirst⟩ := hpinned
    exact ⟨by rw [IntrusiveLists.isEmpty, hfirst]; rfl, hnext, rest, hfirst⟩
  wake {view t u s s'} _ hpinned h := by
    obtain ⟨hnext, rest, hfirst⟩ := hpinned
    obtain ⟨lists, hpush, heq⟩ := map_eq_ok (answer_exec h)
    cases heq
    unfold IntrusiveLists.pushBack at hpush
    split at hpush
    · cases hpush
    · cases hpush
      refine ⟨hnext, rest ++ [u], ?_⟩
      simp only [IntrusiveLists.link, Function.update_self, hfirst, List.cons_append]
  queueRemove {view t q u s removed s'} hne hpinned h := by
    obtain ⟨hnext, rest, hfirst⟩ := hpinned
    have hs' : { s with lists := (s.lists.remove u).2 } = s' :=
      congrArg Prod.snd (Except.ok.inj (answer_exec h))
    subst hs'
    exact ⟨hnext, IntrusiveLists.remove_first hne hfirst⟩
  pickNext {view t s next s'} _ hpinned h := by
    obtain ⟨hnext, rest, hfirst⟩ := hpinned
    have hpick : pickNext s = .ok (.ok next, s') := answer_exec h
    simp only [pickNext, hnext, IntrusiveLists.popFront, hfirst] at hpick
    cases hpick
    rfl

end Coop

namespace Random

variable {s s' : State} {view : KernelView} {t : ThreadId}

/-- A non-preemptive thread is neither preempted nor suspended. -/
theorem interrupt_guarded {params : Params} (h : (view.attrs t).preemptive = false) :
    interrupt params view t s = .ok { s with next := some t } := by
  have hpreempt : toPreempt view t s = false := by
    rw [toPreempt, h, Bool.false_and]
  have hsuspend : lfCandidate params view t s = .ok false := by
    unfold lfCandidate
    split
    · rfl
    · simp [h]
  simp [interrupt, hpreempt, toLfSuspend, hsuspend, Except.map]

theorem pins (params : Params) :
    (scheduler params).Pins false (fun _ => True) fun s t => s.next = some t where
  calm_picked _ := trivial
  calm_plain _ _ _ := trivial
  interrupt {view t s s'} hguarded _ h := by
    have hinterrupt : done (interrupt params view t s) = .ok ((), s') := answer_exec h
    rw [interrupt_guarded (hguarded.resolve_left Bool.false_ne_true)] at hinterrupt
    cases hinterrupt
    rfl
  isIdle {view t s idle s'} hpinned h := by
    cases answer_exec h
    exact ⟨by simp [hpinned], hpinned⟩
  wake {view t u s s'} _ hpinned h := by
    obtain ⟨s₁, henqueue, heq⟩ := map_eq_ok (answer_exec h)
    cases heq
    obtain ⟨_, -, rfl⟩ := map_eq_ok henqueue
    exact hpinned
  queueRemove {view t q u s removed s'} _ hpinned h := by
    cases answer_exec h
    exact hpinned
  pickNext {view t s next s'} _ hpinned h := by
    have hpick : pickNext params view s = .ok (.ok next, s') := answer_exec h
    simp only [pickNext, hpinned] at hpick
    cases hpick
    rfl

end Random

namespace Pct

variable {s s' : State} {view : KernelView} {t : ThreadId}

theorem pins (params : Params) (fuel : Nat) :
    (scheduler params fuel).Pins false (fun _ => True) fun s t => s.active = some t where
  calm_picked _ := trivial
  calm_plain _ _ _ := trivial
  interrupt {view t s s'} _ _ h := by
    cases answer_exec h
    rfl
  isIdle {view t s idle s'} hpinned h := by
    cases answer_exec h
    exact ⟨by simp [hpinned], hpinned⟩
  wake {view t u s s'} _ hpinned h := by
    cases answer_exec h
    exact hpinned
  queueRemove {view t q u s removed s'} _ hpinned h := by
    cases answer_exec h
    exact hpinned
  pickNext {view t s next s'} hguarded hpinned h := by
    have hpick : pickNext view s = .ok (.ok next, s') := answer_exec h
    have hattrs : (view.attrs t).preemptive = false :=
      hguarded.resolve_left Bool.false_ne_true
    simp only [pickNext, hpinned, preempt, hattrs] at hpick
    cases hpick
    rfl

end Pct

namespace Dfs

variable {s s' : Scheduler} {view : KernelView} {t : ThreadId}

theorem pins (params : Params) :
    (scheduler params).Pins false (fun _ => True) fun s t => s.state.active = some t where
  calm_picked _ := trivial
  calm_plain _ _ _ := trivial
  interrupt {view t s s'} _ _ h := by
    cases answer_exec h
    rfl
  isIdle {view t s idle s'} hpinned h := by
    cases answer_exec h
    exact ⟨by simp [hpinned], hpinned⟩
  wake {view t u s s'} _ hpinned h := by
    cases answer_exec h
    exact hpinned
  queueRemove {view t q u s removed s'} _ hpinned h := by
    have hmethod := runMethod_returns
      (show runMethod (method params (view, .queueRemove q u) s.state) s.cursor =
        .ok (removed, s') from answer_exec h)
    have hstate : s'.state = (queueRemove params q u s.state).2 :=
      congrArg Prod.snd (Except.ok.inj hmethod)
    rw [hstate, queueRemove]
    split
    · exact hpinned
    · exact hpinned
  pickNext {view t s next s'} hguarded hpinned h := by
    have hattrs : (view.attrs t).preemptive = false :=
      hguarded.resolve_left Bool.false_ne_true
    have hmethod := runMethod_returns
      (show runMethod (pickNext params view s.state) s.cursor = .ok (.ok next, s') from
        answer_exec h)
    simp only [pickNext, hpinned] at hmethod
    split at hmethod
    · cases hmethod
    · simp only [preempt, hattrs] at hmethod
      have hreply := congrArg Prod.fst (Except.ok.inj hmethod)
      exact Except.ok.inj hreply

end Dfs

namespace Replay

/-- A recorder keeps the promise of the scheduler that it records. -/
theorem Recorder.pins {σ : Type} {S : IScheduler σ} {always : Bool} {calm : σ → Prop}
    {pinned : σ → ThreadId → Prop} (hS : S.Pins always calm pinned) :
    (Recorder.scheduler S).Pins always (fun r => calm r.underlying)
      fun r t => pinned r.underlying t := by
  have hforward : ∀ (call : Call) {r r' : Recorder σ} {reply : call.Reply},
      call.2 ≠ .isModelChecker → (Recorder.scheduler S).answer call r = .ok (reply, r') →
      S.answer call r.underlying = .ok (reply, r'.underlying) := by
    intro call r r' reply hcall h
    rw [Recorder.recorder_answer hcall] at h
    obtain ⟨⟨_, s⟩, hanswer, heq⟩ := map_eq_ok h
    cases heq
    exact hanswer
  exact {
    calm_picked := fun h => hS.calm_picked (hforward _ (by simp) h)
    calm_plain := fun {view q r reply r'} hq hcalm h => by
      by_cases hcall : q = .isModelChecker
      · subst hcall
        cases h
        exact hcalm
      · exact hS.calm_plain hq hcalm (hforward (view, q) hcall h)
    interrupt := fun hguarded hcalm h => hS.interrupt hguarded hcalm (hforward _ (by simp) h)
    isIdle := fun hpinned h => hS.isIdle hpinned (hforward _ (by simp) h)
    wake := fun hne hpinned h => hS.wake hne hpinned (hforward _ (by simp) h)
    queueRemove := fun hne hpinned h => hS.queueRemove hne hpinned (hforward _ (by simp) h)
    pickNext := fun hguarded hpinned h => hS.pickNext hguarded hpinned (hforward _ (by simp) h) }

end Replay

/-- The schedulers that there are, except the one that replays the decisions of others. -/
inductive IScheduler.Shipped : {σ : Type} → IScheduler σ → Prop where
  | coop : Shipped Coop.scheduler
  | random (params : Random.Params) : Shipped (Random.scheduler params)
  | pct (params : Pct.Params) (fuel : Nat) : Shipped (Pct.scheduler params fuel)
  | dfs (params : Dfs.Params) : Shipped (Dfs.scheduler params)
  | recorder {σ : Type} {S : IScheduler σ} (hS : Shipped S) :
      Shipped (Replay.Recorder.scheduler S)

/-- All of them pin the threads that may not be preempted. -/
theorem IScheduler.Shipped.pins {σ : Type} {S : IScheduler σ} (hS : S.Shipped) :
    ∃ always calm pinned, S.Pins always calm pinned := by
  induction hS with
  | coop => exact ⟨_, _, _, Coop.pins⟩
  | random params => exact ⟨_, _, _, Random.pins params⟩
  | pct params fuel => exact ⟨_, _, _, Pct.pins params fuel⟩
  | dfs params => exact ⟨_, _, _, Dfs.pins params⟩
  | recorder _ ih =>
      obtain ⟨always, calm, pinned, hpins⟩ := ih
      exact ⟨_, _, _, Replay.Recorder.pins hpins⟩

/-! ### The maintenance keeps it -/

namespace Kernel

variable {α σ : Type} {S : IScheduler σ} {always : Bool} {calm : σ → Prop}
  {pinned : σ → ThreadId → Prop} {t : ThreadId}

/-- Thread `t` is pinned, in the middle of its run. -/
def Holds (pinned : σ → ThreadId → Prop) (t : ThreadId) (p : Sim × σ) : Prop :=
  pinned p.2 t ∧ (p.1.threads t).state = .running

def KeepsHold (pinned : σ → ThreadId → Prop) (t : ThreadId) (p p' : Sim × σ) : Prop :=
  Holds pinned t p → Holds pinned t p'

/-- Thread `t` goes on running. -/
def GoesOn (t : ThreadId) (sim sim' : Sim) : Prop :=
  (sim.threads t).state = .running → (sim'.threads t).state = .running

theorem allows_keepsHold (hS : S.Pins always calm pinned) :
    Allows S (GoesOn t) (· = .isIdle) (KeepsHold pinned t) where
  refl _ := id
  trans h h' := h' ∘ h
  edit hedit s hholds := ⟨hholds.1, hedit hholds.2⟩
  ask := by
    rintro sim s q r s' rfl hanswer hholds
    exact ⟨(hS.isIdle hholds.1 hanswer).2, hholds.2⟩

section Upkeep

variable (hS : S.Pins always calm pinned)
include hS

theorem hold_fields {f : Sim → Sim} (hf : ∀ sim, (f sim).threads = sim.threads) :
    Within S (KeepsHold pinned t) (modify f) :=
  within_modify (allows_keepsHold hS) fun sim hrun => by rw [hf, hrun]

theorem hold_modifyThread {u : ThreadId} (hne : u ≠ t) (f : Thread → Thread) :
    Within S (KeepsHold pinned t) (modifyThread u f) := by
  refine within_modifyThread (allows_keepsHold hS) fun sim hrun => ?_
  rw [Sim.threads_setThread, if_neg (Ne.symm hne), hrun]

theorem hold_waitQueueRemove {u : ThreadId} (hne : u ≠ t) (key : FutexKey) :
    Within S (KeepsHold pinned t) (waitQueueRemove key u) := by
  have hR := allows_keepsHold (t := t) hS
  refine within_read hR fun sim => ?_
  dsimp only
  split
  · refine within_bind hR ?_ fun _ => within_verify hR _ _
    intro sim s removed sim' s' h hholds
    obtain ⟨hanswer, rfl⟩ := query_ok h
    exact ⟨hS.queueRemove hne hholds.1 hanswer, hholds.2⟩
  · exact within_bind hR (hold_fields hS fun _ => rfl) fun _ =>
      within_bind hR (within_pure hR _) fun _ => within_verify hR _ _

theorem hold_cancelTimer (u : ThreadId) :
    Within S (KeepsHold pinned t) (cancelTimer u) := by
  have hR := allows_keepsHold (t := t) hS
  refine within_bind hR ?_ fun _ => within_verify hR _ _
  refine within_read hR fun _ => within_bind hR (within_checked hR _) fun _ => ?_
  refine within_bind hR (hold_fields hS fun _ => ?_) fun _ => within_pure hR _
  rfl

/-- An alarm has no waker. -/
theorem hold_wakeReason {u : ThreadId} (hne : u ≠ t) (type : WakeType) :
    Within S (KeepsHold pinned t) (wakeReason none u type) := by
  have hR := allows_keepsHold (t := t) hS
  have hcancel : ∀ status, Within S (KeepsHold pinned t) (do
      let sim ← get
      if (sim.threads u).timer then cancelTimer u
      pure status : KernelM CallStatus) := by
    intro status
    refine within_read hR fun sim => ?_
    dsimp only
    split
    · exact within_bind hR (hold_cancelTimer hS _) fun _ => within_pure hR _
    · exact within_pure hR _
  cases type with
  | sleepTimer => exact within_pure hR _
  | futexWake => exact within_bind hR (within_panic _) fun _ => hcancel _
  | futexTimer =>
      refine within_read hR fun sim => ?_
      dsimp only
      split
      · exact within_bind hR (hold_waitQueueRemove hS hne _) fun _ => within_pure hR _
      · exact within_bind hR (within_panic _) fun _ => within_pure hR _
  | spurious =>
      refine within_read hR fun sim => ?_
      dsimp only
      split
      · exact within_bind hR (hold_waitQueueRemove hS hne _) fun _ => hcancel _
      · exact hcancel _

/-- The thread that is woken is not the one that runs. -/
theorem hold_wake (u : ThreadId) (type : WakeType) :
    Within S (KeepsHold pinned t) (wake none u type) := by
  have hR := allows_keepsHold (t := t) hS
  intro sim s x sim' s' h hholds
  obtain ⟨_, _, _, ⟨⟩, h⟩ := interp_bind_ok h
  dsimp only at h
  split at h
  · cases h
  · rename_i hstate
    have hne : u ≠ t := by
      rintro rfl
      have hrun : (sim.threads u).state = .running := hholds.2
      rw [hrun] at hstate
      exact hstate ⟨nofun, nofun⟩
    refine within_bind hR (hold_wakeReason hS hne type) (fun status => ?_) _ _ _ _ _ h hholds
    refine within_bind hR (hold_modifyThread hS hne _) fun _ => ?_
    refine within_bind hR (hold_modifyThread hS hne _) fun _ => ?_
    intro sim s x sim' s' h hholds
    obtain ⟨hanswer, rfl⟩ := query_ok h
    exact ⟨hS.wake hne hholds.1 hanswer, hholds.2⟩

theorem hold_pollTimersLoop (fuel : Nat) :
    Within S (KeepsHold pinned t) (pollTimersLoop fuel) := by
  have hR := allows_keepsHold (t := t) hS
  induction fuel with
  | zero => exact within_pure hR _
  | succ fuel ih =>
      refine within_read hR fun sim => ?_
      split
      · exact within_pure hR _
      · refine within_bind hR (hold_fields hS fun _ => rfl) fun _ => ?_
        exact within_bind hR (hold_wake hS _ _) fun _ =>
          within_bind hR ih fun _ => within_pure hR _

theorem hold_upkeep (sim : Sim) : Within S (KeepsHold pinned t) (upkeep sim) := by
  have hR := allows_keepsHold (t := t) hS
  have hquiet : Within S (KeepsHold pinned t) (do
      let _ ← isDeadlock
      pure () : KernelM Unit) :=
    within_bind hR (within_bind hR (within_query hR rfl) fun _ =>
      within_read hR fun _ => within_pure hR _) fun _ => within_pure hR ()
  unfold upkeep
  split
  · refine within_read hR fun sim => ?_
    dsimp only
    split
    · exact within_bind hR (within_read hR fun _ => hold_pollTimersLoop hS _) fun _ => hquiet
    · exact hquiet
  · exact within_pure hR ()

end Upkeep

end Kernel

end TwistSim
