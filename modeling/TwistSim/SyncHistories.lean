/-
The Sync calls of a run.  Each is performed once, before its thread runs again and in the
order in which the thread made them, and together they are a history of a sequential memory.
-/
import TwistSim.SequentialMemory
import TwistSim.Inversion
import TwistSim.Protocols
import TwistSim.CoopScheduler

namespace TwistSim

open Effect
open SequentialMemory (Event Legal replay lastWrite)

/-- The action of a call of `Sync`. -/
def SysCall.syncAction : SysCall → Option Action
  | .sync action => some action
  | _ => none

/-! ### What an action does to the words -/

/-- The access to the words that an action is when it is performed. -/
def Action.event (action : Action) (load : Nat) : Option (Event Addr Nat) :=
  match action.type with
  | .atomicInit => some (.init action.loc action.value)
  | .atomicLoad | .atomicDebugLoad | .atomicRmwLoad => some (.read action.loc load)
  | .atomicStore | .atomicRmwCommit => some (.write action.loc action.value)
  | .atomicDestroy => some (.destroy action.loc)
  | .atomicThreadFence => none

namespace Memory

variable {m m' : Memory} {t : ThreadId} {action : Action} {load : Nat} {loc : Addr}

theorem word_live {atomic : AtomicVar} (hatomic : m.atomics loc = some atomic)
    (hdtor : atomic.dtor = false) : m.word loc = some atomic.lastStore.value :=
  word_iff.mpr ⟨atomic, hatomic, hdtor, rfl⟩

theorem word_congr (h : m'.atomics = m.atomics) : m'.word = m.word := by
  funext loc
  rw [word, word, h]

theorem word_setAtomic (m : Memory) (loc : Addr) (atomic : AtomicVar) :
    (m.setAtomic loc atomic).word = Function.update m.word loc
      (if atomic.dtor then none else some atomic.lastStore.value) := by
  funext other
  by_cases hother : other = loc
  · subst hother
    rw [Function.update_self, word, setAtomic_atomics_self]
  · rw [Function.update_of_ne hother, word, word, setAtomic_atomics,
      Function.update_of_ne hother]

theorem loadThenFence_event (h : m.loadThenFence t action = .ok (load, m')) :
    (Event.read action.loc load).apply m.word = some m'.word := by
  obtain ⟨atomic, hatomic, hdtor, rfl, -⟩ := loadThenFence_ok h
  rw [Event.apply, if_pos (word_live hatomic hdtor), word_congr (loadThenFence_atomics h)]

theorem fenceThenWrite_event {write : Memory → AtomicVar → Memory}
    (hwrite : ∀ m atomic, ∃ clock, write m atomic = m.setAtomic action.loc
      { atomic with lastStore := ⟨clock, action.value⟩ })
    (h : m.fenceThenWrite t action write = .ok m') :
    (Event.write action.loc action.value).apply m.word = some m'.word := by
  obtain ⟨atomic, hatomic, hdtor, rfl⟩ := fenceThenWrite_ok h
  have hlive : (m.word action.loc).isSome = true := by
    rw [word_live hatomic hdtor]
    rfl
  obtain ⟨clock, hclock⟩ :=
    hwrite (if action.mo.isReleaseOrder then m.fenceRelease t else m) atomic
  have hsame : (if action.mo.isReleaseOrder then m.fenceRelease t else m).word = m.word := by
    refine word_congr ?_
    split
    · rfl
    · rfl
  rw [Event.apply, if_pos hlive, hclock, word_setAtomic, hsame]
  simp only [hdtor, Bool.false_eq_true, if_false]

/-- A sync call is one access to the words. -/
theorem syncCall_event (h : m.syncCall t action = .ok (load, m')) :
    match action.event load with
    | some e => e.apply m.word = some m'.word
    | none => m'.word = m.word := by
  obtain ⟨-, h⟩ := syncCall_ok h
  have hticked : (m.ticked t).word = m.word := word_congr rfl
  unfold syncAction at h
  rw [← hticked]
  cases htype : action.type <;> simp only [htype] at h <;> simp only [Action.event, htype]
  case atomicInit =>
      cases h
      rw [atomicInit, word_setAtomic]
      rfl
  case atomicLoad =>
      unfold atomicLoad at h
      split at h
      · exact loadThenFence_event h
      · cases h
  case atomicDebugLoad =>
      obtain ⟨atomic, hshadow, heq⟩ := map_eq_ok h
      cases heq
      obtain ⟨hatomic, hdtor⟩ := getShadowAtomicVar_live hshadow
      rw [Event.apply, if_pos (word_live hatomic hdtor)]
  case atomicStore =>
      obtain ⟨_, hstore, heq⟩ := map_eq_ok h
      cases heq
      unfold atomicStore at hstore
      split at hstore
      · exact fenceThenWrite_event (fun _ _ => ⟨_, rfl⟩) hstore
      · cases hstore
  case atomicRmwLoad => exact loadThenFence_event h
  case atomicRmwCommit =>
      obtain ⟨_, hcommit, heq⟩ := map_eq_ok h
      cases heq
      exact fenceThenWrite_event (fun _ _ => ⟨_, rfl⟩) hcommit
  case atomicDestroy =>
      obtain ⟨_, hdestroy, heq⟩ := map_eq_ok h
      cases heq
      obtain ⟨atomic, hshadow, rfl⟩ := map_eq_ok hdestroy
      obtain ⟨hatomic, hdtor⟩ := getShadowAtomicVar_live hshadow
      rw [Event.apply, word_live hatomic hdtor, word_setAtomic]
      rfl
  case atomicThreadFence =>
      obtain ⟨_, hfence, heq⟩ := map_eq_ok h
      cases heq
      exact word_congr (atomicThreadFence_grows hfence).2

end Memory

/-! ### The threads that there are -/

namespace Sim

/-- The ids of the threads are those handed out. -/
structure Counted (sim : Sim) : Prop where
  numbered : ∀ t ∈ sim.alive, t ≤ sim.memory.threadCount
  unborn : ∀ t, sim.memory.threadCount < t → (sim.threads t).action = none

variable {sim sim' : Sim} {t : ThreadId} {thread : Thread}

theorem Counted.sameCells (h : sim.Counted) (hcells : sim.SameCells sim') : sim'.Counted where
  numbered t ht := by
    rw [hcells.count]
    exact h.numbered t (hcells.alive t ht)
  unborn t ht := by
    rw [hcells.count] at ht
    rw [hcells.action, h.unborn t ht]

theorem Counted.setThread (h : sim.Counted) (ht : t ≤ sim.memory.threadCount) :
    (sim.setThread t thread).Counted where
  numbered := h.numbered
  unborn u hu := by
    have hne : u ≠ t := by
      rintro rfl
      exact Nat.not_lt.mpr ht hu
    rw [threads_setThread, if_neg hne]
    exact h.unborn u hu

theorem Counted.bornNext (h : sim.Counted) : (Kernel.bornNext sim).Counted where
  numbered u hu := by
    rcases List.mem_append.mp hu with hu | hu
    · exact Nat.le_succ_of_le (h.numbered u hu)
    · exact Nat.le_of_eq (List.mem_singleton.mp hu)
  unborn u hu := by
    have hne : u ≠ sim.memory.threadCount + 1 := Nat.ne_of_gt hu
    rw [Kernel.bornNext]
    dsimp only
    rw [threads_setThread, if_neg hne]
    exact h.unborn u (Nat.lt_of_succ_lt hu)

end Sim

namespace Kernel

variable {me t next : ThreadId} {call : SysCall} {sim sim' : Sim}

theorem CellsAfter.counted (h : CellsAfter me call sim sim') (hsim : sim.Counted)
    (hme : me ≤ sim.memory.threadCount) : sim'.Counted := by
  cases call with
  | spawn => exact hsim.bornNext.sameCells h
  | sync action => exact (hsim.setThread hme).sameCells h
  | setThreadAttrPreemptive on => exact (hsim.setThread hme).sameCells h
  | setThreadAttrLockFree on => exact (hsim.setThread hme).sameCells h
  | _ => exact hsim.sameCells h

theorem CellsAfter.atomics (h : CellsAfter me call sim sim') :
    sim'.memory.atomics = sim.memory.atomics := by
  cases call with
  | spawn => exact (h : Sim.SameCells _ _).atomics
  | sync action => exact (h : Sim.SameCells _ _).atomics
  | setThreadAttrPreemptive on => exact (h : Sim.SameCells _ _).atomics
  | setThreadAttrLockFree on => exact (h : Sim.SameCells _ _).atomics
  | _ => exact Sim.SameCells.atomics h

theorem CellsAfter.count_le (h : CellsAfter me call sim sim') :
    sim.memory.threadCount ≤ sim'.memory.threadCount := by
  cases call with
  | spawn => exact Nat.le_of_lt (Nat.lt_of_lt_of_eq (Nat.lt_succ_self _)
      (h : Sim.SameCells _ _).count.symm)
  | sync action => exact Nat.le_of_eq (h : Sim.SameCells _ _).count.symm
  | setThreadAttrPreemptive on => exact Nat.le_of_eq (h : Sim.SameCells _ _).count.symm
  | setThreadAttrLockFree on => exact Nat.le_of_eq (h : Sim.SameCells _ _).count.symm
  | _ => exact Nat.le_of_eq (Sim.SameCells.count h).symm

/-- Only Sync gives a thread an action to perform. -/
theorem CellsAfter.action (h : CellsAfter me call sim sim') (hsim : sim.Counted)
    (t : ThreadId) :
    (sim'.threads t).action =
      if t = me then call.syncAction.or (sim.threads t).action
      else (sim.threads t).action := by
  have hset : ∀ {u thread}, thread.action = (sim.threads u).action →
      ((sim.setThread u thread).threads t).action = (sim.threads t).action := by
    intro u thread hthread
    rw [Sim.threads_setThread]
    split
    · rename_i hu
      rw [hthread, hu]
    · rfl
  have hplain : (sim'.threads t).action = (sim.threads t).action → call.syncAction = none →
      (sim'.threads t).action = if t = me then call.syncAction.or (sim.threads t).action
        else (sim.threads t).action := by
    intro hsame hcall
    rw [hsame, hcall, Option.none_or, ite_self]
  cases call with
  | sync action =>
      refine (Sim.SameCells.action h t).trans ?_
      rw [Sim.threads_setThread]
      split
      · rfl
      · rfl
  | spawn =>
      refine hplain ((Sim.SameCells.action h t).trans (hset ?_)) rfl
      exact (hsim.unborn _ (Nat.lt_succ_self _)).symm
  | setThreadAttrPreemptive on => exact hplain ((Sim.SameCells.action h t).trans (hset rfl)) rfl
  | setThreadAttrLockFree on => exact hplain ((Sim.SameCells.action h t).trans (hset rfl)) rfl
  | _ => exact hplain (Sim.SameCells.action h t) rfl

theorem Takes.pending (h : Takes sim next sim') (t : ThreadId) :
    (sim'.threads t).action = if t = next then none else (sim.threads t).action := by
  cases h with
  | plain haction =>
      rw [taken_threads]
      split
      · exact haction
      · rfl
  | action haction hload =>
      rw [performed_threads]
      split
      · rfl
      · rfl

theorem Takes.count (h : Takes sim next sim') :
    sim'.memory.threadCount = sim.memory.threadCount := by
  cases h with
  | plain haction => rfl
  | action haction hload => exact Memory.syncCall_threadCount hload

theorem Takes.state (h : Takes sim next sim') : (sim'.threads next).state = .running := by
  cases h with
  | plain haction => rw [taken_threads, if_pos rfl]
  | action haction hload => rw [performed_threads, if_pos rfl]

theorem Takes.attrs (h : Takes sim next sim') (t : ThreadId) :
    (sim'.threads t).attrs = (sim.threads t).attrs := by
  cases h with
  | plain haction =>
      rw [taken_threads]
      split
      · rename_i ht
        rw [ht]
      · rfl
  | action haction hload =>
      rw [performed_threads]
      split
      · rename_i ht
        rw [ht]
      · rfl

theorem Takes.counted (h : Takes sim next sim') (hsim : sim.Counted) : sim'.Counted := by
  have hcount := h.count
  have halive : sim'.alive = sim.alive := by
    cases h with
    | plain haction => rfl
    | action haction hload => rfl
  constructor
  · intro t ht
    rw [hcount]
    exact hsim.numbered t (halive ▸ ht)
  · intro t ht
    rw [hcount] at ht
    rw [h.pending, hsim.unborn t ht]
    split
    · rfl
    · rfl

end Kernel

/-! ### The labels of a run -/

/-- A Sync call, or its completion. -/
inductive SyncLabel where
  | calls (thread : ThreadId) (action : Action)
  | performs (thread : ThreadId) (action : Action) (load : Nat)
  deriving DecidableEq, Repr

namespace SyncLabel

/-- The access to the words of a label. -/
def event : SyncLabel → Option (Event Addr Nat)
  | calls _ _ => none
  | performs _ action load => action.event load

/-- The actions that a thread has called for, in order. -/
def called (t : ThreadId) (labels : List SyncLabel) : List Action :=
  labels.filterMap fun label =>
    match label with
    | calls thread action => if thread = t then some action else none
    | performs _ _ _ => none

/-- The actions of a thread that were performed, in order. -/
def performed (t : ThreadId) (labels : List SyncLabel) : List Action :=
  labels.filterMap fun label =>
    match label with
    | calls _ _ => none
    | performs thread action _ => if thread = t then some action else none

def events (labels : List SyncLabel) : List (Event Addr Nat) := labels.filterMap event

variable {labels : List SyncLabel} {t u : ThreadId} {action : Action} {load : Nat}

theorem events_append (labels labels' : List SyncLabel) :
    events (labels ++ labels') = events labels ++ events labels' :=
  List.filterMap_append

@[simp] theorem events_calls : events [calls t action] = [] := rfl

theorem events_performs : events [performs t action load] = (action.event load).toList := by
  rw [events, List.filterMap_cons, event]
  cases action.event load with
  | none => rfl
  | some e => rfl

theorem events_silent {label : Option SyncLabel}
    (h : ∀ label', label = some label' → label'.event = none) :
    events (labels ++ label.toList) = events labels := by
  cases label with
  | none => rw [Option.toList_none, List.append_nil]
  | some label' =>
      rw [events_append, Option.toList_some, events, events, List.filterMap_cons, h label' rfl]
      exact List.append_nil _

theorem called_calls :
    called u (labels ++ [calls t action]) =
      called u labels ++ if t = u then [action] else [] := by
  rw [called, List.filterMap_append, ← called]
  by_cases hu : t = u
  · simp [called, hu]
  · simp [called, hu]

theorem called_performs : called u (labels ++ [performs t action load]) = called u labels := by
  simp [called]

theorem performed_calls : performed u (labels ++ [calls t action]) = performed u labels := by
  simp [performed]

theorem performed_performs :
    performed u (labels ++ [performs t action load]) =
      performed u labels ++ if t = u then [action] else [] := by
  rw [performed, List.filterMap_append, ← performed]
  by_cases hu : t = u
  · simp [performed, hu]
  · simp [performed, hu]

end SyncLabel

namespace Machine

variable {U σ : Type}

/-- What happens to the Sync calls from one machine to the next.  The load of an action is
what its thread is resumed with. -/
def label (program : Program U) (m m' : Machine U σ) : Option SyncLabel :=
  match m.control, m'.control with
  | .run thread resumption _, _ =>
      match (program.resume thread resumption m.space.user).1 with
      | .sys call => call.syncAction.map (.calls thread)
      | .statics _ => none
  | .head _, .run thread (.answer (.resumed _ load)) _ =>
      (m.sim.threads thread).action.map fun action => .performs thread action load
  | _, _ => none

/-- A run with its labels. -/
inductive History (S : IScheduler σ) (program : Program U) (m₀ : Machine U σ) :
    List SyncLabel → Machine U σ → Prop where
  | start : History S program m₀ [] m₀
  | step {labels : List SyncLabel} {m m' : Machine U σ} {e : LoopEvent}
      (h : History S program m₀ labels m) (hnext : m.next S program e = some m') :
      History S program m₀ (labels ++ (label program m m').toList) m'

/-- The simulation has been aborted. -/
def Over (m : Machine U σ) : Prop := m.control = .finished ∧ m.sim.done = true

/-- A running thread has no action left to perform. -/
structure Tidy (m : Machine U σ) : Prop where
  counted : m.sim.Counted
  running : ∀ t r budget, m.control = .run t r budget →
    t ≤ m.sim.memory.threadCount ∧ (m.sim.threads t).action = none ∧
      (m.sim.threads t).state = .running

variable {S : IScheduler σ} {program : Program U} {m m' : Machine U σ}

theorem over_next {e : LoopEvent} (h : m.Over) (hnext : m.next S program e = some m') :
    m' = m := by
  obtain ⟨hcontrol, hdone⟩ := h
  cases goes_of_next hnext with
  | aborts hbusy _ _ => exact absurd hcontrol hbusy
  | rests _ heq => exact heq
  | reopens _ hdone' _ =>
      rw [hdone] at hdone'
      cases hdone'
  | heads hcontrol' _ _ =>
      rw [hcontrol] at hcontrol'
      cases hcontrol'
  | serves hcontrol' _ _ _ =>
      rw [hcontrol] at hcontrol'
      cases hcontrol'
  | visits hcontrol' _ _ _ _ _ =>
      rw [hcontrol] at hcontrol'
      cases hcontrol'

/-- `Sync` suspends its caller. -/
theorem sync_suspends {me : ThreadId} {stat : HeapStat} {action : Action} {sim sim' : Sim}
    {s s' : σ} {answer : Option Answer}
    (h : (Kernel.handleSystemCall me stat (.sync action) sim).interp S.answer s =
      .ok ((.ok answer, sim'), s')) : answer = none := by
  obtain ⟨_, _, _, -, ⟨⟩⟩ := interp_bind_ok h
  rfl

/-- What the labels say of a machine. -/
structure Recorded (labels : List SyncLabel) (m : Machine U σ) : Prop where
  replays : replay (SyncLabel.events labels) (fun _ => none) = some m.sim.memory.word
  order : ∀ t, SyncLabel.called t labels =
    SyncLabel.performed t labels ++ (m.sim.threads t).action.toList

theorem Recorded.quiet {labels : List SyncLabel} (h : Recorded labels m)
    (hatomics : m'.sim.memory.atomics = m.sim.memory.atomics)
    (haction : ∀ t, (m'.sim.threads t).action = (m.sim.threads t).action) :
    Recorded labels m' where
  replays := by rw [h.replays, Memory.word_congr hatomics]
  order t := by rw [h.order, haction]

theorem Recorded.calls {labels : List SyncLabel} {t : ThreadId} {action : Action}
    (h : Recorded labels m) (hidle : (m.sim.threads t).action = none)
    (hatomics : m'.sim.memory.atomics = m.sim.memory.atomics)
    (haction : ∀ u, (m'.sim.threads u).action =
      if u = t then some action else (m.sim.threads u).action) :
    Recorded (labels ++ [.calls t action]) m' where
  replays := by
    rw [SyncLabel.events_append, SyncLabel.events_calls, List.append_nil, h.replays,
      Memory.word_congr hatomics]
  order u := by
    rw [SyncLabel.called_calls, SyncLabel.performed_calls, h.order, haction]
    by_cases hu : u = t
    · subst hu
      simp [hidle]
    · simp [hu, Ne.symm hu]

theorem Recorded.performs {labels : List SyncLabel} {t : ThreadId} {action : Action}
    {load : Nat} (h : Recorded labels m) (hpending : (m.sim.threads t).action = some action)
    (hevent : match action.event load with
      | some e => e.apply m.sim.memory.word = some m'.sim.memory.word
      | none => m'.sim.memory.word = m.sim.memory.word)
    (haction : ∀ u, (m'.sim.threads u).action =
      if u = t then none else (m.sim.threads u).action) :
    Recorded (labels ++ [.performs t action load]) m' where
  replays := by
    rw [SyncLabel.events_append, SyncLabel.events_performs, SequentialMemory.replay_append,
      h.replays, Option.bind_some]
    cases he : action.event load with
    | none =>
        rw [he] at hevent
        rw [hevent]
        rfl
    | some e =>
        rw [he] at hevent
        simp only [Option.toList_some, replay, hevent, Option.bind_some]
  order u := by
    rw [SyncLabel.called_performs, SyncLabel.performed_performs, h.order, haction]
    by_cases hu : u = t
    · subst hu
      simp [hpending]
    · simp [hu, Ne.symm hu]

/-- Before a thread is picked nothing happens to the words; the action of the thread that is
picked is performed. -/
theorem heads_recorded {budget : Nat} (htidy : m.Tidy) (hcontrol : m.control = .head budget)
    (hheads : Kernel.Heads S budget m.sim m.scheduler m'.control m'.sim m'.scheduler) :
    m'.Tidy ∧ ∀ labels, Recorded labels m →
      Recorded (labels ++ (label program m m').toList) m' := by
  obtain ⟨control', space', sim', s'⟩ := m'
  dsimp only at hheads
  cases hheads with
  | @picks sim₁ _ s₁ s₂ _ next hidle hupkeep hpick htakes =>
      have hcells := Kernel.sameCells_upkeep hupkeep
      have hcounted := htidy.counted.sameCells hcells
      have hnext : next ≤ sim₁.memory.threadCount := by
        have husable := (IScheduler.answer_ok_iff.mp hpick).2
        exact hcounted.numbered next (List.elem_iff.mp husable)
      have htidy' : Tidy (⟨.run next (.answer (.resumed (sim'.threads next).status
          (sim'.threads next).load)) budget, space', sim', s'⟩ : Machine U σ) := by
        refine ⟨htakes.counted hcounted, ?_⟩
        rintro t r b ⟨⟩
        exact ⟨htakes.count ▸ hnext, (htakes.pending _).trans (if_pos rfl), htakes.state⟩
      refine ⟨htidy', fun labels h => ?_⟩
      have haction : ∀ t, (sim'.threads t).action =
          if t = next then none else (m.sim.threads t).action := by
        intro t
        rw [htakes.pending, hcells.action]
      cases hpending : (m.sim.threads next).action with
      | none =>
          simp only [label, hcontrol, hpending, Option.map_none, Option.toList_none,
            List.append_nil]
          refine h.quiet ?_ fun t => ?_
          · cases htakes with
            | plain _ => exact hcells.atomics
            | action hsome _ =>
                rw [hcells.action, hpending] at hsome
                cases hsome
          · dsimp only
            rw [haction]
            split
            · rename_i ht
              rw [ht, hpending]
            · rfl
      | some action =>
          simp only [label, hcontrol, hpending, Option.map_some, Option.toList_some]
          refine h.performs hpending ?_ haction
          cases htakes with
          | plain hnone =>
              rw [hcells.action, hpending] at hnone
              cases hnone
          | action hsome hload =>
              rw [hcells.action, hpending] at hsome
              cases hsome
              have hevent := Memory.syncCall_event hload
              rw [Memory.word_congr hcells.atomics] at hevent
              rw [Kernel.performed_threads, if_pos rfl]
              exact hevent
  | @waits _ s₁ _ again hidle hwait =>
      have hcells := (Kernel.crew_idle Kernel.allows_sameCrew _ _ _ _ _ hwait).toSameCells
      refine ⟨⟨htidy.counted.sameCells hcells, ?_⟩, fun labels h => ?_⟩
      · intro t r b hrun
        cases again with
        | true => cases hrun
        | false => cases hrun
      · have hlabel : label program m
            ⟨if again then .head budget else .finished, space', sim', s'⟩ = none := by
          cases again with
          | true => simp only [label, hcontrol, if_true]
          | false => simp only [label, hcontrol, Bool.false_eq_true, if_false]
        rw [hlabel, Option.toList_none, List.append_nil]
        exact h.quiet hcells.atomics hcells.action
  | stops hidle hbudget =>
      refine ⟨⟨htidy.counted, nofun⟩, fun labels h => ?_⟩
      simp only [label, hcontrol, Option.toList_none, List.append_nil]
      exact h.quiet rfl fun _ => rfl

theorem label_serves {thread : ThreadId} {resumption : Resumption} {budget : Nat}
    {call : SysCall} {user : U} (hcontrol : m.control = .run thread resumption budget)
    (hrequest : program.resume thread resumption m.space.user = (.sys call, user)) :
    label program m m' = call.syncAction.map (.calls thread) := by
  simp only [label, hcontrol, hrequest]

/-- A call that is answered leaves the actions and the words alone; one that suspends the
caller is `Sync` or does too. -/
theorem serves_recorded {thread : ThreadId} {resumption : Resumption} {budget : Nat}
    {call : SysCall} {stat : HeapStat} {user : U} (htidy : m.Tidy)
    (hcontrol : m.control = .run thread resumption budget)
    (hrequest : program.resume thread resumption m.space.user = (.sys call, user))
    (hserves : Kernel.Serves S thread stat call budget m.sim m.scheduler m'.control m'.sim
      m'.scheduler) :
    m'.Tidy ∧ ∀ labels, Recorded labels m →
      Recorded (labels ++ (label program m m').toList) m' := by
  obtain ⟨hthread, hidle, -⟩ := htidy.running _ _ _ hcontrol
  rw [label_serves hcontrol hrequest]
  obtain ⟨control', space', sim', s'⟩ := m'
  dsimp only at hserves
  cases hserves with
  | @answers sim₁ _ answer hcall =>
      have hafter := Kernel.cellsAfter hcall
      have hcounted := hafter.counted htidy.counted hthread
      have hthread₁ := Nat.le_trans hthread hafter.count_le
      have hpending := hafter.action htidy.counted
      have hsync : call.syncAction = none := by
        cases call with
        | sync action => cases sync_suspends hcall
        | _ => rfl
      have hsame : ∀ t, (sim₁.threads t).action = (m.sim.threads t).action := by
        intro t
        rw [hpending t, hsync, Option.none_or, ite_self]
      have hset : sim₁.SameCells (sim₁.setThread thread
          { sim₁.threads thread with
            state := .running
            runs := (sim₁.threads thread).runs + 1 }) :=
        Sim.sameCells_setThread rfl rfl rfl
      simp only [hsync, Option.map_none, Option.toList_none, List.append_nil]
      refine ⟨⟨hcounted.sameCells hset, ?_⟩, fun labels h =>
        h.quiet (hset.atomics.trans hafter.atomics) ?_⟩
      · rintro t r b ⟨⟩
        refine ⟨hthread₁, ?_, ?_⟩
        · rw [hset.action, hsame, hidle]
        · rw [Sim.threads_setThread, if_pos rfl]
      · intro t
        exact (hset.action t).trans (hsame t)
  | suspends hcall =>
      have hafter := Kernel.cellsAfter hcall
      refine ⟨⟨hafter.counted htidy.counted hthread, nofun⟩, fun labels h => ?_⟩
      have hpending := hafter.action htidy.counted
      cases hsync : call.syncAction with
      | some action =>
          exact h.calls hidle hafter.atomics fun t => by rw [hpending t, hsync, Option.some_or]
      | none =>
          rw [Option.map_none, Option.toList_none, List.append_nil]
          refine h.quiet hafter.atomics fun t => (hpending t).trans ?_
          rw [hsync, Option.none_or, ite_self]

theorem next_recorded {e : LoopEvent} (htidy : m.Tidy)
    (hnext : m.next S program e = some m') :
    m'.Over ∨ m'.Tidy ∧ ∀ labels, Recorded labels m →
      Recorded (labels ++ (label program m m').toList) m' := by
  cases goes_of_next hnext with
  | aborts _ hcontrol hdone => exact Or.inl ⟨hcontrol, hdone⟩
  | rests hcontrol heq =>
      subst heq
      simp only [label, hcontrol, Option.toList_none, List.append_nil]
      exact Or.inr ⟨htidy, fun _ h => h⟩
  | reopens hcontrol _ heq =>
      subst heq
      simp only [label, hcontrol, Option.toList_none, List.append_nil]
      exact Or.inr ⟨⟨htidy.counted, nofun⟩, fun _ h => h.quiet rfl fun _ => rfl⟩
  | heads hcontrol _ hheads => exact Or.inr (heads_recorded htidy hcontrol hheads)
  | serves hcontrol hrequest _ hserves =>
      exact Or.inr (serves_recorded htidy hcontrol hrequest hserves)
  | visits hcontrol hrequest _ hcontrol' hsim _ =>
      have hlabel : label program m m' = none := by
        simp only [label, hcontrol, hrequest]
      rw [hlabel]
      refine Or.inr ⟨⟨hsim ▸ htidy.counted, ?_⟩, fun labels h => ?_⟩
      · intro t r b hrun
        rw [hcontrol'] at hrun
        cases hrun
        rw [hsim]
        exact htidy.running _ _ _ hcontrol
      · rw [Option.toList_none, List.append_nil]
        exact h.quiet (by rw [hsim]) fun t => by rw [hsim]

/-- An abort performs nothing. -/
theorem label_aborts {label' : SyncLabel} (hover : m'.Over)
    (h : label program m m' = some label') : label'.event = none := by
  unfold label at h
  rw [hover.1] at h
  split at h
  · split at h
    · obtain ⟨action, -, rfl⟩ := Option.map_eq_some_iff.mp h
      rfl
    · cases h
  · rename_i heq
    cases heq
  · cases h

theorem launch_cells {params : Params} {space : UserSpace U} {s : σ}
    (h : launch S params space s = some m) :
    m.control = .finished ∧ (Kernel.bornNext (Sim.init params false)).SameCells m.sim := by
  unfold launch at h
  split at h
  · rename_i sim scheduler hstart
    cases h
    refine ⟨rfl, ?_⟩
    obtain ⟨_, _, _, ⟨⟩, hcurrent⟩ := interp_bind_ok hstart
    obtain ⟨_, _, _, ⟨⟩, hcurrent⟩ := interp_bind_ok hcurrent
    obtain ⟨_, _, _, ⟨⟩, hcurrent⟩ := interp_bind_ok hcurrent
    obtain ⟨_, _, _, hquery, hmain⟩ := interp_bind_ok hcurrent
    obtain ⟨-, rfl⟩ := Kernel.query_ok hquery
    obtain ⟨id, sim₁, s₁, hcreate, hmain⟩ := interp_bind_ok hmain
    obtain ⟨rfl, rfl, memory, hmemory, rfl⟩ := Kernel.createThread_ok hcreate
    obtain ⟨_, _, _, ⟨⟩, hspawn⟩ := interp_bind_ok hmain
    obtain ⟨-, rfl⟩ := Kernel.query_ok hspawn
    obtain ⟨hatomics, hcount⟩ := Kernel.createThread_frame hmemory
    refine Sim.SameCells.trans ?_ (Sim.sameCells_setThread rfl rfl rfl)
    exact Sim.sameCells_of_fields rfl hatomics hcount fun _ ht => ht
  · cases h

theorem launch_tidy {params : Params} {space : UserSpace U} {s : σ}
    (h : launch S params space s = some m) : m.Tidy ∧ Recorded [] m := by
  obtain ⟨hcontrol, hcells⟩ := launch_cells h
  have hinit : (Sim.init params false).Counted := ⟨nofun, fun _ _ => rfl⟩
  have haction : ∀ t, (m.sim.threads t).action = none := by
    intro t
    rw [hcells.action, Kernel.bornNext]
    dsimp only
    rw [Sim.threads_setThread]
    split
    · rfl
    · rfl
  refine ⟨⟨hinit.bornNext.sameCells hcells, ?_⟩, ⟨?_, fun t => ?_⟩⟩
  · intro t r b hrun
    rw [hcontrol] at hrun
    cases hrun
  · rw [Memory.word_congr hcells.atomics]
    rfl
  · rw [haction]
    rfl

/-- The labels of a run are a history of a sequential memory. -/
theorem History.recorded {params : Params} {space : UserSpace U} {s : σ}
    {m₀ : Machine U σ} {labels : List SyncLabel} (hlaunch : launch S params space s = some m₀)
    (h : History S program m₀ labels m) :
    Legal (SyncLabel.events labels) ∧ (m.Over ∨ m.Tidy ∧ Recorded labels m) := by
  induction h with
  | start =>
      obtain ⟨htidy, hrecorded⟩ := launch_tidy hlaunch
      exact ⟨SequentialMemory.legal_iff.mpr rfl, Or.inr ⟨htidy, hrecorded⟩⟩
  | @step labels m m' e h hnext ih =>
      obtain ⟨hlegal, hover | ⟨htidy, hrecorded⟩⟩ := ih
      · obtain rfl := over_next hover hnext
        rw [SyncLabel.events_silent fun _ => label_aborts hover]
        exact ⟨hlegal, Or.inl hover⟩
      · rcases next_recorded htidy hnext with hover | ⟨htidy', hrecords⟩
        · rw [SyncLabel.events_silent fun _ => label_aborts hover]
          exact ⟨hlegal, Or.inl hover⟩
        · have hrecorded' := hrecords labels hrecorded
          refine ⟨?_, Or.inr ⟨htidy', hrecorded'⟩⟩
          rw [SequentialMemory.legal_iff, hrecorded'.replays]
          rfl

/-- In every run, whatever the program and the scheduler do and wherever the run is cut, the
actions performed are a history of a sequential memory: each load finds the last write, and
so does whoever looks now.  Every thread performs the actions it called for, in its order and
once each, but for the one that it waits for. -/
theorem sequentially_consistent {params : Params} {space : UserSpace U} {s : σ}
    {m₀ : Machine U σ} {labels : List SyncLabel} (hlaunch : launch S params space s = some m₀)
    (h : History S program m₀ labels m) :
    Legal (SyncLabel.events labels) ∧
      (m.sim.done = false →
        (∀ loc, m.sim.memory.word loc = lastWrite loc (SyncLabel.events labels)) ∧
        ∀ t, SyncLabel.called t labels =
          SyncLabel.performed t labels ++ (m.sim.threads t).action.toList) := by
  obtain ⟨hlegal, hrest⟩ := h.recorded hlaunch
  refine ⟨hlegal, fun hdone => ?_⟩
  rcases hrest with hover | ⟨-, hrecorded⟩
  · rw [hover.2] at hdone
    cases hdone
  · exact ⟨SequentialMemory.replay_lastWrite hrecorded.replays, hrecorded.order⟩

/-- A run that can be computed, with its labels. -/
def follow (S : IScheduler σ) (program : Program U) :
    List LoopEvent → Machine U σ → Option (List SyncLabel × Machine U σ)
  | [], m => some ([], m)
  | e :: rest, m => do
      let m' ← m.next S program e
      let (labels, m'') ← follow S program rest m'
      some ((label program m m').toList ++ labels, m'')

theorem history_of_follow {events : List LoopEvent} {labels labels' : List SyncLabel}
    {m₀ m m' : Machine U σ} (h : History S program m₀ labels m)
    (hfollow : follow S program events m = some (labels', m')) :
    History S program m₀ (labels ++ labels') m' := by
  induction events generalizing m labels labels' with
  | nil =>
      cases hfollow
      rwa [List.append_nil]
  | cons e rest ih =>
      obtain ⟨m₁, hnext, hrest⟩ := Option.bind_eq_some_iff.mp hfollow
      obtain ⟨⟨labels₁, m₂⟩, hrest, heq⟩ := Option.bind_eq_some_iff.mp hrest
      cases heq
      rw [← List.append_assoc]
      exact ih (h.step hnext) hrest

/-- A launch and a run that can be computed. -/
theorem exists_history {params : Params} {space : UserSpace U} {s : σ}
    {events : List LoopEvent} {P : List SyncLabel → Machine U σ → Prop}
    [∀ labels m, Decidable (P labels m)]
    (h : ((launch S params space s).bind (follow S program events)).any
      (fun r => decide (P r.1 r.2)) = true) :
    ∃ m₀ labels m, launch S params space s = some m₀ ∧ History S program m₀ labels m ∧
      P labels m := by
  obtain ⟨⟨labels, m⟩, hrun, hP⟩ := Option.any_eq_true _ _ |>.mp h
  obtain ⟨m₀, hlaunch, hfollow⟩ := Option.bind_eq_some_iff.mp hrun
  exact ⟨m₀, labels, m, hlaunch, history_of_follow History.start hfollow, of_decide_eq_true hP⟩

end Machine

/-! ### Two threads and an atomic -/

/-- A variable of the main function. -/
def relayCell : SyncVar := ⟨64, ⟨"main.cpp", "main", 1⟩⟩

/-- The main thread exchanges the variable and steps aside for a child that loads it. -/
def relay : Program (Nat × Nat) where
  resume t _ := fun (main, child) =>
    if t = 1 then
      match main with
      | 0 => (.sys (.sync (relayCell.init 1)), (1, child))
      | 1 => (.sys .spawn, (2, child))
      | 2 => (.sys (.sync (relayCell.rmwLoad .seqCst "atomic::exchange")), (3, child))
      | 3 => (.sys (.setThreadAttrPreemptive false), (4, child))
      | 4 => (.sys (.sync (relayCell.rmwCommit 2 .seqCst "atomic::exchange")), (5, child))
      | 5 => (.sys (.setThreadAttrPreemptive true), (6, child))
      | 6 => (.sys .yield, (7, child))
      | _ => (.sys .threadExit, (8, child))
    else
      match child with
      | 0 => (.sys (.sync (relayCell.load .seqCst)), (main, 1))
      | _ => (.sys .threadExit, (main, 2))
  heapStat _ := ⟨0, 0, 0, 0⟩

def relaySpace : UserSpace (Nat × Nat) :=
  ⟨(0, 0), ⟨fun _ => ⟨0, 0, 0⟩, [], true, [], fun _ => false⟩⟩

namespace Machine

theorem sequentially_consistent_relay :
    ∃ m₀ labels m, History Coop.scheduler relay m₀ labels m ∧
      SyncLabel.events labels = [.init 64 1, .read 64 1, .write 64 2, .read 64 2] ∧
      Legal (SyncLabel.events labels) ∧
      (m.sim.done = false →
        (∀ loc, m.sim.memory.word loc = lastWrite loc (SyncLabel.events labels)) ∧
        ∀ t, SyncLabel.called t labels =
          SyncLabel.performed t labels ++ (m.sim.threads t).action.toList) := by
  obtain ⟨m₀, labels, m, hlaunch, hhistory, hevents⟩ :=
    @exists_history _ _ Coop.scheduler relay {} relaySpace (Coop.State.new ⟨0⟩)
      (.runFor 20 :: List.replicate 17 .turn)
      (fun labels _ => SyncLabel.events labels =
        [.init 64 1, .read 64 1, .write 64 2, .read 64 2]) _ (by decide +kernel)
  exact ⟨m₀, labels, m, hhistory, hevents, sequentially_consistent hlaunch hhistory⟩

end Machine

end TwistSim
