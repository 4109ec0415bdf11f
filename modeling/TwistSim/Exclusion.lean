/-
Non-preemptive sections.  A running thread that may not be preempted has the simulation to
itself until it leaves: its Sync calls go through the scheduler, but nobody else runs and no
other action is performed in between.
-/
import TwistSim.Pinning
import TwistSim.SyncHistories

namespace TwistSim

open Effect
open Kernel (Within Allows Holds)

variable {U σ : Type}

/-- The calls that end a section: the thread waits for something, or may be preempted
again. -/
def SysCall.leaves (always : Bool) : SysCall → Bool
  | .yield | .switchTo _ | .sleepFor _ | .sleepUntil _ | .threadExit => true
  | .futexWait _ _ _ | .futexWaitTimed _ _ _ _ => true
  | .setThreadAttrPreemptive on => on && !always
  | _ => false

/-- What a call makes of the attributes of its thread. -/
def SysCall.setAttrs (call : SysCall) (attrs : ThreadAttrs) : ThreadAttrs :=
  match call with
  | .setThreadAttrPreemptive on => { attrs with preemptive := on }
  | .setThreadAttrLockFree on => { attrs with lockFree := on }
  | _ => attrs

def SyncLabel.thread : SyncLabel → ThreadId
  | .calls thread _ | .performs thread _ _ => thread

/-! ### The calls of a running thread -/

namespace Kernel

variable {S : IScheduler σ} {always : Bool} {calm : σ → Prop}
  {pinned : σ → ThreadId → Prop} {me : ThreadId} {stat : HeapStat} {call : SysCall}
  {sim sim' : Sim} {s s' : σ}

/-- Edits of the simulator do not concern a calm scheduler. -/
theorem allows_calm (hS : S.Pins always calm pinned) (E : Sim → Sim → Prop) :
    Allows S E Query.Plain fun p p' => calm p.2 → calm p'.2 where
  refl _ := id
  trans h h' := h' ∘ h
  edit _ _ := id
  ask hq hanswer hcalm := hS.calm_plain hq hcalm hanswer

theorem calm_query (hS : S.Pins always calm pinned) {q : Query} {r : q.Reply}
    (hq : q.plain = true) (hcalm : calm s)
    (h : (query q sim).interp S.answer s = .ok ((.ok r, sim'), s')) : calm s' :=
  hS.calm_plain hq hcalm (query_ok h).1

/-- A thread that is answered at once leaves a calm scheduler calm. -/
theorem calm_answered (hS : S.Pins always calm pinned) {answer : Answer} (hcalm : calm s)
    (h : (handleSystemCall me stat call sim).interp S.answer s =
      .ok ((.ok (some answer), sim'), s')) : calm s' := by
  have hR := allows_calm hS Sim.SameCells
  have hplain : special call = false → calm s' := fun hcall =>
    cells_handleSystemCall hR hcall _ _ _ _ _ h hcalm
  cases call with
  | sync action =>
      obtain ⟨_, _, _, -, ⟨⟩⟩ := interp_bind_ok h
  | switchTo target =>
      obtain ⟨_, _, _, -, ⟨⟩⟩ := interp_bind_ok h
  | spawn =>
      obtain ⟨id, sim₁, s₁, hspawn, hresume⟩ := interp_bind_ok h
      obtain ⟨child, sim₂, s₂, hcreate, hrest⟩ := interp_bind_ok hspawn
      obtain ⟨rfl, rfl, -⟩ := createThread_ok hcreate
      exact quiet_resume hR.crew.quiet me _ _ _ _ _ _ hresume
        (crew_spawned hR.crew _ _ _ _ _ _ _ hrest hcalm)
  | setThreadAttrPreemptive on =>
      obtain ⟨_, _, _, ⟨⟩, h⟩ := interp_bind_ok h
      obtain ⟨_, _, _, ⟨⟩, ⟨⟩⟩ := interp_bind_ok h
      exact hcalm
  | setThreadAttrLockFree on =>
      obtain ⟨_, _, _, ⟨⟩, h⟩ := interp_bind_ok h
      obtain ⟨_, _, _, ⟨⟩, h⟩ := interp_bind_ok h
      obtain ⟨_, _, _, hquery, hresume⟩ := interp_bind_ok h
      exact quiet_resume hR.crew.quiet me _ _ _ _ _ _ hresume (calm_query hS rfl hcalm hquery)
  | _ => exact hplain rfl

/-- The attributes of the threads after a call: only the thread itself changes its own. -/
theorem CellsAfter.attrs (h : CellsAfter me call sim sim') {t : ThreadId}
    (ht : t ≤ sim.memory.threadCount) :
    (sim'.threads t).attrs =
      if t = me then call.setAttrs (sim.threads t).attrs else (sim.threads t).attrs := by
  have hplain : (sim'.threads t).attrs = (sim.threads t).attrs →
      (sim'.threads t).attrs = if t = me then (sim.threads t).attrs
        else (sim.threads t).attrs := by
    intro hsame
    rw [hsame, ite_self]
  cases call with
  | sync action =>
      refine hplain ((Sim.SameCells.attrs h t).trans ?_)
      rw [Sim.threads_setThread]
      split
      · rename_i ht
        rw [ht]
      · rfl
  | spawn =>
      refine hplain ((Sim.SameCells.attrs h t).trans ?_)
      have hne : t ≠ sim.memory.threadCount + 1 := Nat.ne_of_lt (Nat.lt_succ_of_le ht)
      exact congrArg Thread.attrs ((Sim.threads_setThread _ _ _ _).trans (if_neg hne))
  | setThreadAttrPreemptive on =>
      refine (Sim.SameCells.attrs h t).trans ?_
      rw [Sim.threads_setThread]
      split
      · rename_i ht
        rw [ht]
        rfl
      · rfl
  | setThreadAttrLockFree on =>
      refine (Sim.SameCells.attrs h t).trans ?_
      rw [Sim.threads_setThread]
      split
      · rename_i ht
        rw [ht]
        rfl
      · rfl
  | _ => exact hplain (Sim.SameCells.attrs h t)

/-- Whoever does not leave stays guarded. -/
theorem CellsAfter.guarded (h : CellsAfter me call sim sim')
    (hme : me ≤ sim.memory.threadCount) (hstays : call.leaves always = false)
    (hguarded : Guarded always (sim.threads me).attrs) :
    Guarded always (sim'.threads me).attrs := by
  rw [h.attrs hme, if_pos rfl]
  cases call with
  | setThreadAttrPreemptive on =>
      simp only [SysCall.leaves, Bool.and_eq_false_iff, Bool.not_eq_false'] at hstays
      rcases hstays with rfl | rfl
      · exact Or.inr rfl
      · exact Or.inl rfl
  | setThreadAttrLockFree on => exact hguarded.imp id id
  | _ => exact hguarded

/-- A call that neither answers nor leaves is `Sync`. -/
theorem sync_of_suspended (hstays : call.leaves always = false)
    (h : (handleSystemCall me stat call sim).interp S.answer s = .ok ((.ok none, sim'), s')) :
    ∃ action, call = .sync action := by
  have hresumed : ∀ {α : Type} {m : KernelM α} {v : α → Int} {sim₀ : Sim} {s₀ : σ},
      ((m >>= fun x => resume me (v x)) sim₀).interp S.answer s₀ = .ok ((.ok none, sim'), s') →
      False := by
    intro α m v sim₀ s₀ h
    obtain ⟨x, _, _, -, h⟩ := interp_bind_ok h
    obtain ⟨_, _, _, -, ⟨⟩⟩ := interp_bind_ok h
  cases call with
  | sync action => exact ⟨action, rfl⟩
  | yield => cases hstays
  | switchTo target => cases hstays
  | sleepFor delay => cases hstays
  | sleepUntil deadline => cases hstays
  | futexWait loc old ctx => cases hstays
  | futexWaitTimed loc old deadline ctx => cases hstays
  | threadExit => cases hstays
  | noop =>
      obtain ⟨_, _, _, -, ⟨⟩⟩ := interp_bind_ok h
  | spawn => exact (hresumed h).elim
  | getId => cases h
  | detach id => exact (hresumed h).elim
  | accessNonAtomicVar access => exact (hresumed h).elim
  | futexWake loc count => exact (hresumed h).elim
  | malloc addr size scope => exact (hresumed h).elim
  | free addr => exact (hresumed h).elim
  | now =>
      obtain ⟨_, _, _, -, ⟨⟩⟩ := interp_bind_ok h
  | randomNumber => exact (hresumed h).elim
  | randomChoice alts =>
      dsimp only [handleSystemCall] at h
      split at h
      · cases h
      · split at h
        · cases h
        · exact (hresumed h).elim
  | spuriousTryFailure => exact (hresumed h).elim
  | write fd buf => exact (hresumed h).elim
  | abort status => exact (within_sysAbort (R := fun _ _ => False) _ _ _ _ _ _ h).elim
  | setThreadAttrPreemptive on =>
      obtain ⟨_, _, _, ⟨⟩, h⟩ := interp_bind_ok h
      obtain ⟨_, _, _, ⟨⟩, ⟨⟩⟩ := interp_bind_ok h
  | setThreadAttrLockFree on =>
      obtain ⟨_, _, _, ⟨⟩, h⟩ := interp_bind_ok h
      obtain ⟨_, _, _, ⟨⟩, h⟩ := interp_bind_ok h
      exact (hresumed h).elim
  | schedHintProgress => exact (hresumed h).elim
  | schedHintNewIter =>
      obtain ⟨_, _, _, ⟨⟩, h⟩ := interp_bind_ok h
      exact (hresumed h).elim
  | isModelChecker =>
      obtain ⟨_, _, _, -, ⟨⟩⟩ := interp_bind_ok h

end Kernel

/-! ### Sections -/

namespace Machine

variable {S : IScheduler σ} {program : Program U} {always : Bool} {calm : σ → Prop}
  {pinned : σ → ThreadId → Prop} {m m' m₀ : Machine U σ} {t : ThreadId}
  {labels labels' : List SyncLabel}

/-- The scheduler is calm whenever a thread runs. -/
def Calm (calm : σ → Prop) (m : Machine U σ) : Prop :=
  ∀ t r budget, m.control = .run t r budget → calm m.scheduler

theorem calm_next {e : LoopEvent} (hS : S.Pins always calm pinned) (hcalm : m.Calm calm)
    (hnext : m.next S program e = some m') : m'.Calm calm := by
  intro t r budget hrun
  cases goes_of_next hnext with
  | aborts _ hcontrol _ =>
      rw [hcontrol] at hrun
      cases hrun
  | rests hcontrol heq =>
      rw [heq, hcontrol] at hrun
      cases hrun
  | reopens _ _ heq =>
      rw [heq] at hrun
      cases hrun
  | heads hcontrol _ hheads =>
      obtain ⟨control', space', sim', s'⟩ := m'
      dsimp only at hrun hheads
      cases hheads with
      | picks _ _ hpick _ => exact hS.calm_picked hpick
      | @waits _ _ _ again _ _ =>
          cases again with
          | true => cases hrun
          | false => cases hrun
      | stops _ _ => cases hrun
  | serves hcontrol _ _ hserves =>
      obtain ⟨control', space', sim', s'⟩ := m'
      dsimp only at hrun hserves
      cases hserves with
      | answers hcall => exact Kernel.calm_answered hS (hcalm _ _ _ hcontrol) hcall
      | suspends _ => cases hrun
  | visits hcontrol _ _ _ _ hscheduler =>
      rw [hscheduler]
      exact hcalm _ _ _ hcontrol

/-- Thread `t` has the simulation to itself: it runs, or it is the next one to run. -/
structure Exclusive (always : Bool) (calm : σ → Prop) (pinned : σ → ThreadId → Prop)
    (t : ThreadId) (m : Machine U σ) : Prop where
  guarded : Guarded always (m.sim.threads t).attrs
  runs : ∀ u r budget, m.control = .run u r budget → u = t ∧ calm m.scheduler
  holds : (∀ u r budget, m.control ≠ .run u r budget) →
    Holds pinned t (m.sim, m.scheduler)

/-- The running thread is about to leave its section. -/
def Leaving (program : Program U) (always : Bool) (m : Machine U σ) : Prop :=
  ∃ t r budget call user, m.control = .run t r budget ∧
    program.resume t r m.space.user = (.sys call, user) ∧ call.leaves always = true

/-- What happens in the section is the doing of its thread. -/
theorem Exclusive.label (h : m.Exclusive always calm pinned t) {label : SyncLabel}
    (hpicked : ∀ u r budget, m'.control = .run u r budget → u = t)
    (hlabel : Machine.label program m m' = some label) : label.thread = t := by
  unfold Machine.label at hlabel
  split at hlabel
  · rename_i hrun
    split at hlabel
    · obtain ⟨action, -, rfl⟩ := Option.map_eq_some_iff.mp hlabel
      exact (h.runs _ _ _ hrun).1
    · cases hlabel
  · rename_i hrun
    obtain ⟨action, -, rfl⟩ := Option.map_eq_some_iff.mp hlabel
    exact hpicked _ _ _ hrun
  · cases hlabel

/-- The thread that is pinned is picked. -/
theorem Exclusive.heads {budget : Nat} (hS : S.Pins always calm pinned)
    (h : m.Exclusive always calm pinned t) (hcontrol : m.control = .head budget)
    (hheads : Kernel.Heads S budget m.sim m.scheduler m'.control m'.sim m'.scheduler) :
    m'.Exclusive always calm pinned t := by
  have hholds := h.holds fun u r budget hrun => by
    rw [hcontrol] at hrun
    cases hrun
  obtain ⟨control', space', sim', s'⟩ := m'
  dsimp only at hheads
  cases hheads with
  | @picks sim₁ _ s₁ s₂ _ next hidle hupkeep hpick htakes =>
      have hattrs : (sim₁.threads t).attrs = (m.sim.threads t).attrs :=
        (Kernel.sameCells_upkeep hupkeep).attrs t
      have hpinned : pinned s₂ t := by
        have hholds₁ : Holds pinned t (Kernel.nextIter m.sim, s₁) :=
          ⟨(hS.isIdle hholds.1 hidle).2, hholds.2⟩
        exact (Kernel.hold_upkeep hS _ _ _ _ _ _ hupkeep hholds₁).1
      have hguarded : Guarded always (sim₁.threads t).attrs := by
        rw [hattrs]
        exact h.guarded
      obtain rfl := hS.pickNext hguarded hpinned hpick
      refine ⟨?_, ?_, fun hrun => absurd rfl (hrun _ _ _)⟩
      · dsimp only
        rw [htakes.attrs]
        exact hguarded
      · rintro u r budget ⟨⟩
        exact ⟨rfl, hS.calm_picked hpick⟩
  | waits hidle hwait =>
      have hbusy := (hS.isIdle hholds.1 hidle).1
      cases hbusy
  | stops hidle hbudget =>
      exact ⟨h.guarded, nofun, fun _ => ⟨(hS.isIdle hholds.1 hidle).2, hholds.2⟩⟩

/-- A call that is answered, or that goes through the scheduler to be performed. -/
theorem Exclusive.serves {thread : ThreadId} {resumption : Resumption} {budget : Nat}
    {stat : HeapStat} {call : SysCall} (hS : S.Pins always calm pinned)
    (h : m.Exclusive always calm pinned t) (htidy : m.Tidy)
    (hcontrol : m.control = .run thread resumption budget)
    (hstays : call.leaves always = false)
    (hserves : Kernel.Serves S thread stat call budget m.sim m.scheduler m'.control m'.sim
      m'.scheduler) : m'.Exclusive always calm pinned t := by
  obtain ⟨rfl, hcalm⟩ := h.runs _ _ _ hcontrol
  obtain ⟨hthread, -, hrunning⟩ := htidy.running _ _ _ hcontrol
  obtain ⟨control', space', sim', s'⟩ := m'
  dsimp only at hserves
  cases hserves with
  | @answers sim₁ _ answer hcall =>
      have hguarded := (Kernel.cellsAfter hcall).guarded hthread hstays h.guarded
      refine ⟨?_, ?_, fun hrun => absurd rfl (hrun _ _ _)⟩
      · dsimp only
        rw [Sim.threads_setThread, if_pos rfl]
        exact hguarded
      · rintro u r budget ⟨⟩
        exact ⟨rfl, Kernel.calm_answered hS hcalm hcall⟩
  | suspends hcall =>
      have hguarded := (Kernel.cellsAfter hcall).guarded hthread hstays h.guarded
      refine ⟨hguarded, nofun, fun _ => ?_⟩
      obtain ⟨action, rfl⟩ := Kernel.sync_of_suspended hstays hcall
      obtain ⟨_, _, _, hsync, ⟨⟩⟩ := interp_bind_ok hcall
      obtain ⟨rfl, hanswer⟩ := Kernel.cells_sysSync hsync
      refine ⟨hS.interrupt hguarded hcalm hanswer, ?_⟩
      dsimp only
      rw [Sim.threads_setThread, if_pos rfl]
      exact hrunning

/-- A step of a section that its thread does not leave. -/
theorem Exclusive.next {e : LoopEvent} (hS : S.Pins always calm pinned)
    (h : m.Exclusive always calm pinned t) (htidy : m.Tidy)
    (hstays : ¬ m.Leaving program always) (hnext : m.next S program e = some m') :
    m'.Over ∨ m'.Exclusive always calm pinned t := by
  cases goes_of_next hnext with
  | aborts _ hcontrol hdone => exact Or.inl ⟨hcontrol, hdone⟩
  | rests hcontrol heq => exact Or.inr (heq ▸ h)
  | reopens hcontrol _ heq =>
      subst heq
      refine Or.inr ⟨h.guarded, nofun, fun _ => h.holds fun u r budget hrun => ?_⟩
      rw [hcontrol] at hrun
      cases hrun
  | heads hcontrol _ hheads => exact Or.inr (h.heads hS hcontrol hheads)
  | @serves thread resumption budget call hcontrol hrequest _ hserves =>
      refine Or.inr (h.serves hS htidy hcontrol ?_ hserves)
      rw [Bool.eq_false_iff]
      exact fun hleaves => hstays ⟨_, _, _, _, _, hcontrol, hrequest, hleaves⟩
  | visits hcontrol _ _ hcontrol' hsim hscheduler =>
      refine Or.inr ⟨hsim ▸ h.guarded, fun u r budget hrun => ?_, fun hrun => ?_⟩
      · rw [hcontrol'] at hrun
        cases hrun
        rw [hscheduler]
        exact h.runs _ _ _ hcontrol
      · exact absurd hcontrol' (hrun _ _ _)

/-- A label of a step of the section. -/
theorem Exclusive.labelled {label : SyncLabel}
    (h : m.Exclusive always calm pinned t)
    (hthen : m'.Over ∨ m'.Exclusive always calm pinned t)
    (hlabel : Machine.label program m m' = some label) : label.thread = t := by
  refine h.label (fun u r budget hrun => ?_) hlabel
  rcases hthen with hover | hexclusive
  · rw [hover.1] at hrun
    cases hrun
  · exact (hexclusive.runs _ _ _ hrun).1

/-- What is known of every machine of a run that is not over. -/
theorem History.tidy {params : Params} {space : UserSpace U} {s : σ}
    (hlaunch : launch S params space s = some m₀) (h : History S program m₀ labels m) :
    m.Over ∨ m.Tidy :=
  (h.recorded hlaunch).2.imp id And.left

theorem History.calmed {params : Params} {space : UserSpace U} {s : σ}
    (hS : S.Pins always calm pinned) (hlaunch : launch S params space s = some m₀)
    (h : History S program m₀ labels m) : m.Calm calm := by
  induction h with
  | start =>
      intro t r budget hrun
      rw [(launch_cells hlaunch).1] at hrun
      cases hrun
  | step _ hnext ih => exact calm_next hS ih hnext

theorem History.trans (h : History S program m₀ labels m)
    (h' : History S program m labels' m') : History S program m₀ (labels ++ labels') m' := by
  induction h' with
  | start => rwa [List.append_nil]
  | step _ hnext ih => exact List.append_assoc _ _ _ ▸ ih.step hnext

/-- A section lasts until its thread leaves it or the simulation is aborted. -/
theorem Exclusive.history {params : Params} {space : UserSpace U} {s : σ}
    (hS : S.Pins always calm pinned) (hlaunch : launch S params space s = some m₀)
    (hreached : History S program m₀ labels m) (h : m.Exclusive always calm pinned t)
    (hrest : History S program m labels' m') :
    ((∀ label ∈ labels', label.thread = t) ∧
        (m'.Over ∨ m'.Exclusive always calm pinned t)) ∨
      ∃ left labels₁ labels₂, labels' = labels₁ ++ labels₂ ∧
        History S program m labels₁ left ∧ History S program left labels₂ m' ∧
        left.Exclusive always calm pinned t ∧ left.Leaving program always ∧
        ∀ label ∈ labels₁, label.thread = t := by
  induction hrest with
  | start => exact Or.inl ⟨nofun, Or.inr h⟩
  | @step labels' m₁ m₂ e hrest hnext ih =>
      rcases ih with ⟨hlabels, hover | hexclusive⟩ | ⟨left, labels₁, labels₂, rfl, hsplit⟩
      · obtain rfl := over_next hover hnext
        have hnone : Machine.label program m₂ m₂ = none := by
          simp only [Machine.label, hover.1]
        rw [hnone, Option.toList_none, List.append_nil]
        exact Or.inl ⟨hlabels, Or.inl hover⟩
      · by_cases hleaving : m₁.Leaving program always
        · exact Or.inr ⟨m₁, labels', _, rfl, hrest, History.start.step hnext, hexclusive,
            hleaving, hlabels⟩
        · have htidy : m₁.Over ∨ m₁.Tidy := (hreached.trans hrest).tidy hlaunch
          have hthen : m₂.Over ∨ m₂.Exclusive always calm pinned t := by
            rcases htidy with hover | htidy
            · exact Or.inl (over_next hover hnext ▸ hover)
            · exact hexclusive.next hS htidy hleaving hnext
          refine Or.inl ⟨fun label hlabel => ?_, hthen⟩
          rcases List.mem_append.mp hlabel with hlabel | hlabel
          · exact hlabels label hlabel
          · exact hexclusive.labelled hthen (Option.mem_toList.mp hlabel)
      · obtain ⟨hhead, htail, hrest⟩ := hsplit
        exact Or.inr ⟨left, labels₁, _, List.append_assoc _ _ _, hhead, htail.step hnext, hrest⟩

/-- From the moment a guarded thread runs, every Sync call that is made and every action that
is performed is its own, and no other thread runs, until it leaves the section. -/
def Undisturbed (S : IScheduler σ) (always : Bool) : Prop :=
  ∀ {U : Type} {program : Program U} {params : Params} {space : UserSpace U} {s : σ}
    {m₀ m m' : Machine U σ} {labels labels' : List SyncLabel} {t : ThreadId} {r : Resumption}
    {budget : Nat},
    launch S params space s = some m₀ → History S program m₀ labels m →
    m.control = .run t r budget → Guarded always (m.sim.threads t).attrs →
    History S program m labels' m' →
    ((∀ label ∈ labels', label.thread = t) ∧
        ∀ u r budget, m'.control = .run u r budget → u = t) ∨
      ∃ left labels₁ labels₂ r budget call user, labels' = labels₁ ++ labels₂ ∧
        History S program m labels₁ left ∧ History S program left labels₂ m' ∧
        (∀ label ∈ labels₁, label.thread = t) ∧ left.control = .run t r budget ∧
        program.resume t r left.space.user = (.sys call, user) ∧ call.leaves always = true

theorem undisturbed_of_pins {S : IScheduler σ} (hS : S.Pins always calm pinned) :
    Undisturbed S always := by
  intro U program params space s m₀ m m' labels labels' t r budget hlaunch hreached hcontrol
    hguarded hrest
  have hexclusive : m.Exclusive always calm pinned t := by
    refine ⟨hguarded, fun u r budget hrun => ?_, fun hrun => absurd hcontrol (hrun _ _ _)⟩
    rw [hcontrol] at hrun
    cases hrun
    exact ⟨rfl, hreached.calmed hS hlaunch _ _ _ hcontrol⟩
  rcases hexclusive.history hS hlaunch hreached hrest with
    ⟨hlabels, hthen⟩ | ⟨left, labels₁, labels₂, hsplit, hhead, htail, hleft, hleaving, hlabels⟩
  · refine Or.inl ⟨hlabels, fun u r budget hrun => ?_⟩
    rcases hthen with hover | hthen
    · rw [hover.1] at hrun
      cases hrun
    · exact (hthen.runs _ _ _ hrun).1
  · obtain ⟨u, r, budget, call, user, hrun, hrequest, hleaves⟩ := hleaving
    obtain ⟨rfl, -⟩ := hleft.runs _ _ _ hrun
    exact Or.inr ⟨left, labels₁, labels₂, r, budget, call, user, hsplit, hhead, htail, hlabels,
      hrun, hrequest, hleaves⟩

/-- A thread that may not be preempted is not disturbed under any scheduler; under the coop
scheduler no thread is. -/
theorem sections_undisturbed :
    Undisturbed Coop.scheduler true ∧ (∀ params, Undisturbed (Random.scheduler params) false) ∧
      (∀ params fuel, Undisturbed (Pct.scheduler params fuel) false) ∧
      (∀ params, Undisturbed (Dfs.scheduler params) false) ∧
      Undisturbed (Replay.Recorder.scheduler Coop.scheduler) true ∧
      (∀ params, Undisturbed (Replay.Recorder.scheduler (Random.scheduler params)) false) ∧
      (∀ params fuel, Undisturbed (Replay.Recorder.scheduler (Pct.scheduler params fuel)) false) ∧
      ∀ params, Undisturbed (Replay.Recorder.scheduler (Dfs.scheduler params)) false :=
  ⟨undisturbed_of_pins Coop.pins, fun params => undisturbed_of_pins (Random.pins params),
    fun params fuel => undisturbed_of_pins (Pct.pins params fuel),
    fun params => undisturbed_of_pins (Dfs.pins params),
    undisturbed_of_pins (Replay.Recorder.pins Coop.pins),
    fun params => undisturbed_of_pins (Replay.Recorder.pins (Random.pins params)),
    fun params fuel => undisturbed_of_pins (Replay.Recorder.pins (Pct.pins params fuel)),
    fun params => undisturbed_of_pins (Replay.Recorder.pins (Dfs.pins params))⟩

end Machine

end TwistSim
