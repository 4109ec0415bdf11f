/-
What the shadow variables know of the lifetimes of objects: which accesses are
accepted, over every run of the memory model in which no race is reported.
-/
import TwistSim.RaceDetection
import TwistSim.Lifetimes

namespace TwistSim

open Lifetimes

variable {tr : List Op} {m m' : Memory} {t : ThreadId} {a : Access} {loc : Addr}

def accessKind : AccessType → Kind
  | .init => .opens
  | .read | .write => .uses
  | .destroy => .closes

def actionKind : ActionType → Kind
  | .atomicInit => .opens
  | .atomicDestroy => .closes
  | _ => .uses

def accessType (loc : Addr) : Op → Option AccessType
  | .access _ a => if a.loc = loc then some a.type else none
  | _ => none

def actionType (loc : Addr) : Op → Option ActionType
  | .sync _ act => if act.loc = loc then some act.type else none
  | _ => none

/-- The accesses to an address, in order. -/
def accessesAt (tr : List Op) (loc : Addr) : List AccessType :=
  tr.filterMap (accessType loc)

/-- The operations on an atomic, in order. -/
def actionsAt (tr : List Op) (loc : Addr) : List ActionType :=
  tr.filterMap (actionType loc)

/-- A read, a write or a destruction, when the last that was heard of the object is its
destruction. -/
def DeadAccess (tr : List Op) : Op → Prop
  | .access _ a =>
      a.type ≠ .init ∧ lastEvent accessKind (accessesAt tr a.loc) = some .closes
  | _ => False

theorem filterMap_snoc {α β : Type} (f : α → Option β) (xs : List α) (x : α) :
    (xs ++ [x]).filterMap f = xs.filterMap f ++ (f x).toList := by
  rw [List.filterMap_append, List.filterMap_cons]
  cases f x <;> rfl

theorem accessesAt_snoc (tr : List Op) (op : Op) (loc : Addr) :
    accessesAt (tr ++ [op]) loc = accessesAt tr loc ++ (accessType loc op).toList :=
  filterMap_snoc _ _ _

theorem actionsAt_snoc (tr : List Op) (op : Op) (loc : Addr) :
    actionsAt (tr ++ [op]) loc = actionsAt tr loc ++ (actionType loc op).toList :=
  filterMap_snoc _ _ _

/-! ### Non-atomics -/

/-- Whether a shadow variable says that an object is alive. -/
def alive (m : Memory) (loc : Addr) : Bool :=
  (m.nonAtomics loc).any fun var => var.dtor.isNone

/-- The shadow variables know which objects are alive. -/
structure Knows (tr : List Op) (m : Memory) : Prop where
  known : ∀ loc, accessesAt tr loc = [] ↔ m.nonAtomics loc = none
  scans : ∀ loc, scan accessKind (accessesAt tr loc) = some (alive m loc)

/-- Whether the model accepts an access, when there is no race. -/
def accepts (m : Memory) (a : Access) : Bool :=
  match m.nonAtomics a.loc with
  | none => a.type = .init
  | some var => a.type ≠ .init ∨ var.dtor.isSome

theorem log_dtor (var : NonAtomicVar) (old : OldAccess) : (var.log old).dtor = var.dtor := by
  unfold NonAtomicVar.log
  split <;> rfl

/-- An access that reports no race is accepted or rejected. -/
theorem access_cases (hle : t ≤ m.threadCount)
    (hrace : ∀ r m', m.accessNonAtomicVar t a ≠ .ok (some r, m')) :
    (accepts m a = true ∧ ∃ var : NonAtomicVar,
        var.dtor.isNone = (accessKind a.type).leaves (alive m a.loc) ∧
        m.accessNonAtomicVar t a = .ok (none, (m.ticked t).setNonAtomic a.loc var)) ∨
      (accepts m a = false ∧ ∃ err, m.accessNonAtomicVar t a =
        .error (.abort .invalidMemoryAccess err)) := by
  have hvars : (m.ticked t).nonAtomics = m.nonAtomics := rfl
  have hticked : m.accessNonAtomicVar t a =
      if a.type = .init then (m.ticked t).initNonAtomicVar t a
      else (m.ticked t).accessLiveNonAtomicVar t a := by
    rw [Memory.accessNonAtomicVar, Memory.tick_eq hle]
  rw [hticked] at hrace ⊢
  by_cases hinit : a.type = .init
  · simp only [if_pos hinit] at hrace ⊢
    unfold Memory.initNonAtomicVar at hrace ⊢
    unfold accepts alive
    simp only [hvars, hinit] at hrace ⊢
    cases hvar : m.nonAtomics a.loc with
    | none =>
        exact Or.inl ⟨rfl, _, congrArg Option.isNone (log_dtor _ _), rfl⟩
    | some var =>
        simp only [hvar] at hrace ⊢
        cases hdtor : var.dtor with
        | none => exact Or.inr ⟨by simp, _, rfl⟩
        | some old =>
            simp only [hdtor] at hrace ⊢
            cases hcheck : (m.ticked t).checkDataRaces t var a with
            | some r =>
                simp only [hcheck] at hrace
                exact absurd rfl (hrace r _)
            | none =>
                exact Or.inl ⟨by simp, _, congrArg Option.isNone (log_dtor _ _), rfl⟩
  · simp only [if_neg hinit] at hrace ⊢
    unfold Memory.accessLiveNonAtomicVar at hrace ⊢
    unfold accepts alive
    simp only [hvars] at hrace ⊢
    cases hvar : m.nonAtomics a.loc with
    | none => exact Or.inr ⟨by simp [hinit], _, rfl⟩
    | some var =>
        simp only [hvar] at hrace ⊢
        cases hcheck : (m.ticked t).checkDataRaces t var a with
        | some r =>
            simp only [hcheck] at hrace
            exact absurd rfl (hrace r _)
        | none =>
            refine Or.inl ⟨by simp [hinit], _, ?_, rfl⟩
            rw [log_dtor]
            cases htype : a.type with
            | init => exact absurd htype hinit
            | destroy => simp [accessKind, Kind.leaves]
            | read => simp [accessKind, Kind.leaves]
            | write => simp [accessKind, Kind.leaves]

/-- While no dead object has been accessed, the model accepts an access exactly if it
continues the lives at the address, unless the access is to a dead object itself. -/
theorem Knows.accepts_iff (h : Knows tr m) (t : ThreadId) (a : Access) :
    (accepts m a = true ↔
        (scan accessKind (accessesAt tr a.loc ++ [a.type])).isSome = true) ↔
      ¬ DeadAccess tr (.access t a) := by
  have hscan := h.scans a.loc
  have hknown := h.known a.loc
  have hdead : DeadAccess tr (.access t a) ↔
      a.type ≠ .init ∧ lastEvent accessKind (accessesAt tr a.loc) = some .closes := Iff.rfl
  rw [hdead, scan_snoc, accepts]
  cases hvar : m.nonAtomics a.loc with
  | none =>
      rw [hknown.mpr hvar]
      cases htype : a.type <;> simp [scan, lastEvent, accessKind, advance]
  | some var =>
      have hne : accessesAt tr a.loc ≠ [] := fun hnil =>
        Option.some_ne_none var (hvar.symm.trans (hknown.mp hnil))
      rw [lastEvent_of_scan hscan hne, hscan, alive, hvar]
      cases hdtor : var.dtor <;> cases htype : a.type <;> simp [accessKind, advance, hdtor]

theorem Knows.step_access (h : Knows tr m) (hexec : m.exec (.access t a) = .ok (none, m'))
    (hlive : ¬ DeadAccess tr (.access t a)) : Knows (tr ++ [.access t a]) m' := by
  have hscoped := exec_wellScoped hexec
  have hle : t ≤ m.threadCount := (of_decide_eq_true hscoped).2
  rw [Memory.exec, if_pos hscoped] at hexec
  have hrace : ∀ r m'', m.accessNonAtomicVar t a ≠ .ok (some r, m'') := fun r m'' heq => by
    rw [heq] at hexec
    cases hexec
  obtain ⟨haccept, var, hdtor, hok⟩ | ⟨-, err, herror⟩ := access_cases hle hrace
  · rw [hok] at hexec
    cases hexec
    have hvalid := ((h.accepts_iff t a).mpr hlive).mp haccept
    rw [scan_snoc, h.scans] at hvalid
    refine ⟨fun loc => ?_, fun loc => ?_⟩
    · rw [Memory.setNonAtomic_nonAtomics, accessesAt_snoc, accessType]
      by_cases hloc : a.loc = loc
      · rw [if_pos hloc, hloc, Function.update_self]
        simp
      · rw [if_neg hloc, Function.update_of_ne (Ne.symm hloc), Option.toList_none,
          List.append_nil]
        exact h.known loc
    · rw [alive, Memory.setNonAtomic_nonAtomics, accessesAt_snoc, accessType]
      by_cases hloc : a.loc = loc
      · subst hloc
        rw [if_pos rfl, Function.update_self, Option.toList_some, scan_snoc, h.scans,
          advance_of_isSome hvalid, ← hdtor]
        rfl
      · rw [if_neg hloc, Function.update_of_ne (Ne.symm hloc), Option.toList_none,
          List.append_nil]
        exact h.scans loc
  · rw [herror] at hexec
    cases hexec

/-! ### Atomics -/

/-- What last opened or closed an atomic, as its shadow says. -/
def atomicLife (m : Memory) (loc : Addr) : Option Kind :=
  (m.atomics loc).map fun atomic => if atomic.dtor then .closes else .opens

/-- The operations that need an atomic: all but `AtomicInit` and fences. -/
def touches : ActionType → Bool
  | .atomicInit | .atomicThreadFence => false
  | _ => true

/-- The memory order is one that the operation asserts. -/
def orderOk (act : Action) : Bool :=
  match act.type with
  | .atomicLoad => act.mo.isLoadOrder
  | .atomicStore => act.mo.isStoreOrder
  | _ => true

section Atomics

variable {act : Action}

theorem getShadowAtomicVar_cases (m : Memory) (act : Action) :
    (atomicLife m act.loc = some .opens ∧ ∃ atomic, m.getShadowAtomicVar act = .ok atomic) ∨
      (atomicLife m act.loc ≠ some .opens ∧ ∃ err, m.getShadowAtomicVar act =
        .error (.abort .invalidMemoryAccess err)) := by
  unfold atomicLife Memory.getShadowAtomicVar
  cases hatomic : m.atomics act.loc with
  | none => exact Or.inr ⟨nofun, _, rfl⟩
  | some atomic =>
      cases hdtor : atomic.dtor with
      | true => exact Or.inr ⟨by simp [hdtor], _, by simp [hdtor]; rfl⟩
      | false => exact Or.inl ⟨by simp [hdtor], atomic, by simp [hdtor]⟩

theorem futexAtomic_cases (m : Memory) (loc : Addr) :
    (atomicLife m loc = some .opens ∧ ∃ atomic, m.futexAtomic loc = .ok atomic) ∨
      (atomicLife m loc ≠ some .opens ∧ ∃ err, m.futexAtomic loc =
        .error (.abort .invalidMemoryAccess err)) := by
  unfold atomicLife Memory.futexAtomic
  cases hatomic : m.atomics loc with
  | none => exact Or.inr ⟨nofun, _, rfl⟩
  | some atomic =>
      cases hdtor : atomic.dtor with
      | true => exact Or.inr ⟨by simp [hdtor], _, by simp [hdtor]; rfl⟩
      | false => exact Or.inl ⟨by simp [hdtor], atomic, by simp [hdtor]⟩

/-- An operation that needs an atomic fails exactly if there is none. -/
theorem syncAction_cases (htouches : touches act.type = true) (horder : orderOk act = true) :
    (atomicLife m act.loc = some .opens ∧ ∃ reply, m.syncAction t act = .ok reply) ∨
      (atomicLife m act.loc ≠ some .opens ∧ ∃ err, m.syncAction t act =
        .error (.abort .invalidMemoryAccess err)) := by
  unfold orderOk at horder
  unfold Memory.syncAction
  obtain ⟨hlife, atomic, hget⟩ | ⟨hlife, err, hget⟩ := getShadowAtomicVar_cases m act
  · refine Or.inl ⟨hlife, ?_⟩
    cases htype : act.type with
    | atomicInit => rw [htype] at htouches; cases htouches
    | atomicThreadFence => rw [htype] at htouches; cases htouches
    | atomicDestroy => exact ⟨_, by simp only [Memory.atomicDestroy, hget]; rfl⟩
    | atomicLoad =>
        rw [htype] at horder
        exact ⟨_, by simp only [Memory.atomicLoad, horder, if_true, Memory.loadThenFence, hget]; rfl⟩
    | atomicDebugLoad => exact ⟨_, by simp only [Memory.atomicDebugLoad, hget]; rfl⟩
    | atomicStore =>
        rw [htype] at horder
        exact ⟨_, by
          simp only [Memory.atomicStore, horder, if_true, Memory.fenceThenWrite, hget]; rfl⟩
    | atomicRmwLoad =>
        exact ⟨_, by simp only [Memory.atomicRmwLoad, Memory.loadThenFence, hget]; rfl⟩
    | atomicRmwCommit =>
        exact ⟨_, by simp only [Memory.atomicRmwCommit, Memory.fenceThenWrite, hget]; rfl⟩
  · refine Or.inr ⟨hlife, err, ?_⟩
    cases htype : act.type with
    | atomicInit => rw [htype] at htouches; cases htouches
    | atomicThreadFence => rw [htype] at htouches; cases htouches
    | atomicDestroy => simp only [Memory.atomicDestroy, hget]; rfl
    | atomicLoad =>
        rw [htype] at horder
        simp only [Memory.atomicLoad, horder, if_true, Memory.loadThenFence, hget]
    | atomicDebugLoad => simp only [Memory.atomicDebugLoad, hget]; rfl
    | atomicStore =>
        rw [htype] at horder
        simp only [Memory.atomicStore, horder, if_true, Memory.fenceThenWrite, hget]; rfl
    | atomicRmwLoad => simp only [Memory.atomicRmwLoad, Memory.loadThenFence, hget]
    | atomicRmwCommit => simp only [Memory.atomicRmwCommit, Memory.fenceThenWrite, hget]; rfl

/-- Which atomics are alive after an operation. -/
def LivesAs (act : Action) (m m' : Memory) : Prop :=
  ∀ loc, atomicLife m' loc =
    if act.loc = loc ∧ actionKind act.type ≠ .uses then some (actionKind act.type)
    else atomicLife m loc

theorem LivesAs.uses (hkind : actionKind act.type = .uses)
    (h : ∀ loc, atomicLife m' loc = atomicLife m loc) : LivesAs act m m' := by
  intro loc
  rw [if_neg fun hboth => hboth.2 hkind]
  exact h loc

theorem setAtomic_life {atomic atomic' : AtomicVar} (hatomic : m.atomics loc = some atomic)
    (hdtor : atomic'.dtor = atomic.dtor) (hatomics : m'.atomics = m.atomics) (loc' : Addr) :
    atomicLife (m'.setAtomic loc atomic') loc' = atomicLife m loc' := by
  unfold atomicLife
  rw [Memory.setAtomic_atomics, hatomics]
  by_cases hloc : loc' = loc
  · rw [hloc, Function.update_self, hatomic, Option.map_some, Option.map_some, hdtor]
  · rw [Function.update_of_ne hloc]

theorem loadThenFence_atomics {value : Nat}
    (h : m.loadThenFence t act = .ok (value, m')) : m'.atomics = m.atomics := by
  unfold Memory.loadThenFence at h
  cases hget : m.getShadowAtomicVar act with
  | error e => rw [hget] at h; cases h
  | ok atomic =>
      rw [hget] at h
      cases h
      cases act.mo.isAcquireOrder <;> rfl

theorem fenceThenWrite_life {write : Memory → AtomicVar → Memory}
    (h : m.fenceThenWrite t act write = .ok m')
    (hwrite : ∀ m atomic, ∃ atomic', write m atomic = m.setAtomic act.loc atomic' ∧
      atomic'.dtor = atomic.dtor) (loc : Addr) : atomicLife m' loc = atomicLife m loc := by
  obtain ⟨atomic, hget, heq⟩ := map_eq_ok h
  obtain ⟨atomic', hset, hdtor⟩ :=
    hwrite (if act.mo.isReleaseOrder then m.fenceRelease t else m) atomic
  rw [hset] at heq
  rw [← heq]
  refine setAtomic_life (Memory.getShadowAtomicVar_ok hget) hdtor ?_ loc
  cases act.mo.isReleaseOrder <;> rfl

theorem atomicLife_of_atomics (h : m'.atomics = m.atomics) (loc : Addr) :
    atomicLife m' loc = atomicLife m loc := by
  rw [atomicLife, atomicLife, h]

theorem setAtomic_livesAs {atomic : AtomicVar} (hkind : actionKind act.type ≠ .uses)
    (hdtor : (if atomic.dtor then Kind.closes else .opens) = actionKind act.type) :
    LivesAs act m (m.setAtomic act.loc atomic) := by
  intro loc
  rw [atomicLife, Memory.setAtomic_atomics]
  by_cases hloc : act.loc = loc
  · rw [if_pos ⟨hloc, hkind⟩, hloc, Function.update_self, Option.map_some, hdtor]
  · rw [if_neg fun hboth => hloc hboth.1, Function.update_of_ne (Ne.symm hloc)]
    rfl

theorem syncAction_livesAs {value : Nat} (h : m.syncAction t act = .ok (value, m')) :
    LivesAs act m m' := by
  unfold Memory.syncAction at h
  cases htype : act.type with
  | atomicInit =>
      rw [htype] at h
      cases h
      exact setAtomic_livesAs (by rw [htype]; nofun) (by rw [htype]; rfl)
  | atomicDestroy =>
      rw [htype] at h
      obtain ⟨_, h, heq⟩ := map_eq_ok h
      cases heq
      obtain ⟨atomic, _, rfl⟩ := map_eq_ok h
      exact setAtomic_livesAs (by rw [htype]; nofun) (by rw [htype]; rfl)
  | atomicLoad =>
      simp only [htype, Memory.atomicLoad] at h
      split at h
      · exact LivesAs.uses (by rw [htype]; rfl)
          (atomicLife_of_atomics (loadThenFence_atomics h))
      · cases h
  | atomicDebugLoad =>
      rw [htype] at h
      obtain ⟨atomic, _, heq⟩ := map_eq_ok h
      cases heq
      exact LivesAs.uses (by rw [htype]; rfl) fun _ => rfl
  | atomicStore =>
      rw [htype] at h
      obtain ⟨_, h, heq⟩ := map_eq_ok h
      cases heq
      unfold Memory.atomicStore at h
      split at h
      · exact LivesAs.uses (by rw [htype]; rfl)
          (fenceThenWrite_life h fun _ _ => ⟨_, rfl, rfl⟩)
      · cases h
  | atomicRmwLoad =>
      rw [htype] at h
      exact LivesAs.uses (by rw [htype]; rfl)
        (atomicLife_of_atomics (loadThenFence_atomics h))
  | atomicRmwCommit =>
      rw [htype] at h
      obtain ⟨_, h, heq⟩ := map_eq_ok h
      cases heq
      exact LivesAs.uses (by rw [htype]; rfl)
        (fenceThenWrite_life h fun _ _ => ⟨_, rfl, rfl⟩)
  | atomicThreadFence =>
      rw [htype] at h
      obtain ⟨_, h, heq⟩ := map_eq_ok h
      cases heq
      refine LivesAs.uses (by rw [htype]; rfl) (atomicLife_of_atomics ?_)
      unfold Memory.atomicThreadFence at h
      cases hmo : act.mo <;> rw [hmo] at h <;> cases h <;> rfl

end Atomics

/-! ### Runs -/

theorem tick_atomics (h : m.tick t = .ok m') : m'.atomics = m.atomics := by
  unfold Memory.tick at h
  split at h
  · cases h
  · cases h
    rfl

theorem exec_atomics {op : Op} {race : Option OldAccess} (hop : ∀ t act, op ≠ .sync t act)
    (h : m.exec op = .ok (race, m')) : m'.atomics = m.atomics := by
  have hscoped := exec_wellScoped h
  unfold Memory.exec at h
  rw [if_pos hscoped] at h
  cases op with
  | spawn p c =>
      cases hcreate : m.createThread with
      | error e =>
          simp only [hcreate] at h
          cases h
      | ok created =>
          simp only [hcreate] at h
          obtain ⟨_, hspawn, heq⟩ := map_eq_ok h
          cases heq
          refine (tick_atomics hspawn).trans ?_
          unfold Memory.createThread at hcreate
          split at hcreate <;> cases hcreate
          rfl
  | wake w t =>
      obtain ⟨_, hwake, heq⟩ := map_eq_ok h
      cases heq
      unfold Memory.wake at hwake
      exact (tick_atomics hwake).trans rfl
  | sync t act => exact absurd rfl (hop t act)
  | access t a =>
      obtain ⟨m₁, hticked, -, hatomics, -, -⟩ := accessNonAtomicVar_frame h
      exact hatomics.trans (tick_atomics hticked)
  | malloc t addr size scope =>
      cases h
      rfl
  | free t addr =>
      cases h
      rfl

/-- The shadows know which atomics are alive. -/
def KnowsAtomics (tr : List Op) (m : Memory) : Prop :=
  ∀ loc, lastEvent actionKind (actionsAt tr loc) = atomicLife m loc

theorem KnowsAtomics.step {op : Op} {race : Option OldAccess} (h : KnowsAtomics tr m)
    (hexec : m.exec op = .ok (race, m')) : KnowsAtomics (tr ++ [op]) m' := by
  intro loc
  rw [actionsAt_snoc]
  by_cases hsync : ∃ t act, op = .sync t act
  · obtain ⟨t, act, rfl⟩ := hsync
    have hscoped := exec_wellScoped hexec
    have hle : t ≤ m.threadCount := (of_decide_eq_true hscoped).2
    rw [Memory.exec, if_pos hscoped] at hexec
    obtain ⟨⟨value, _⟩, hcall, heq⟩ := map_eq_ok hexec
    cases heq
    rw [Memory.syncCall, Memory.tick_eq hle] at hcall
    have hlife := syncAction_livesAs hcall loc
    rw [hlife, actionType]
    by_cases hloc : act.loc = loc
    · rw [if_pos hloc, Option.toList_some, lastEvent_snoc, h loc]
      by_cases hkind : actionKind act.type = .uses
      · rw [if_pos hkind, if_neg fun hboth => hboth.2 hkind]
        rfl
      · rw [if_neg hkind, if_pos ⟨hloc, hkind⟩]
    · rw [if_neg hloc, if_neg fun hboth => hloc hboth.1, Option.toList_none, List.append_nil,
        h loc]
      rfl
  · have hother : ∀ t act, op ≠ .sync t act := fun t act heq => hsync ⟨t, act, heq⟩
    have hnone : actionType loc op = none := by
      cases op with
      | sync t act => exact absurd rfl (hother t act)
      | _ => rfl
    rw [hnone, Option.toList_none, List.append_nil, h loc,
      atomicLife_of_atomics (exec_atomics hother hexec)]

theorem Knows.step {op : Op} (h : Knows tr m) (hexec : m.exec op = .ok (none, m'))
    (hlive : ¬ DeadAccess tr op) : Knows (tr ++ [op]) m' := by
  by_cases haccess : ∃ t a, op = .access t a
  · obtain ⟨t, a, rfl⟩ := haccess
    exact h.step_access hexec hlive
  · have hother : ∀ t a, op ≠ .access t a := fun t a heq => haccess ⟨t, a, heq⟩
    have hvars := (exec_nonAtomics hother hexec).2
    have hnone : ∀ loc, accessesAt (tr ++ [op]) loc = accessesAt tr loc := fun loc => by
      have hnone : accessType loc op = none := by
        cases op with
        | access t a => exact absurd rfl (hother t a)
        | _ => rfl
      rw [accessesAt_snoc, hnone, Option.toList_none, List.append_nil]
    refine ⟨fun loc => ?_, fun loc => ?_⟩
    · rw [hnone, hvars]
      exact h.known loc
    · rw [hnone, alive, hvars]
      exact h.scans loc

/-- What is kept by every operation that reports no race holds after the run. -/
theorem run_prefixes {m₀ final : Memory} {races : List (Option OldAccess)}
    {P : List Op → Memory → Prop} (hrun : Memory.run tr m₀ = .ok (races, final))
    (hnone : ∀ race ∈ races, race = none) (hinit : P [] m₀)
    (hstep : ∀ before op after m m', tr = before ++ op :: after → P before m →
      m.exec op = .ok (none, m') → P (before ++ [op]) m') : P tr final := by
  induction tr generalizing m₀ races P with
  | nil =>
      cases hrun
      exact hinit
  | cons op ops ih =>
      rw [Memory.run] at hrun
      cases hexec : m₀.exec op with
      | error e =>
          rw [hexec] at hrun
          cases hrun
      | ok first =>
          obtain ⟨race, m₁⟩ := first
          rw [hexec] at hrun
          obtain ⟨⟨rest, last⟩, hrest, heq⟩ := map_eq_ok hrun
          cases heq
          obtain rfl : race = none := hnone race List.mem_cons_self
          refine @ih m₁ rest (fun before m => P (op :: before) m) hrest
            (fun race hrace => hnone race (List.mem_cons_of_mem _ hrace))
            (hstep [] op ops m₀ m₁ rfl hinit hexec) ?_
          intro before op' after m m' htr hP hexec'
          exact hstep (op :: before) op' after m m' (by rw [htr]; rfl) hP hexec'

/-- No operation of the run is an access to a dead object. -/
def NoDeadAccess (tr : List Op) : Prop :=
  ∀ before op after, tr = before ++ op :: after → ¬ DeadAccess before op

theorem run_knows {races : List (Option OldAccess)}
    (hrun : Memory.run tr Memory.start = .ok (races, m))
    (hnone : ∀ race ∈ races, race = none) (hlive : NoDeadAccess tr) : Knows tr m :=
  @run_prefixes tr Memory.start m races Knows hrun hnone
    ⟨fun _ => Iff.intro (fun _ => rfl) fun _ => rfl, fun _ => rfl⟩
    fun before op after _ _ htr hknows hexec =>
      hknows.step hexec (hlive before op after htr)

theorem run_knowsAtomics {races : List (Option OldAccess)}
    (hrun : Memory.run tr Memory.start = .ok (races, m))
    (hnone : ∀ race ∈ races, race = none) : KnowsAtomics tr m :=
  @run_prefixes tr Memory.start m races KnowsAtomics hrun hnone (fun _ => rfl)
    fun _ _ _ _ _ _ hknows hexec => hknows.step hexec

/-- An access is accepted exactly if the accesses to the address, followed by this one,
can be continued to a sequence of lives; otherwise the run is aborted. -/
def Enforced (tr : List Op) (m : Memory) (t : ThreadId) (a : Access) : Prop :=
  ((∃ m', m.exec (.access t a) = .ok (none, m')) ↔
      ∃ rest, accessesAt tr a.loc ++ [a.type] ++ rest ∈ lives accessKind) ∧
    ((∃ m', m.exec (.access t a) = .ok (none, m')) ∨
      ∃ err, m.exec (.access t a) = .error (.abort .invalidMemoryAccess err))

theorem enforced_iff (h : Knows tr m)
    (hscoped : (Op.access t a).wellScoped m.threadCount = true)
    (hrace : ∀ race m', m.exec (.access t a) ≠ .ok (some race, m')) :
    Enforced tr m t a ↔ ¬ DeadAccess tr (.access t a) := by
  have hexec : m.exec (.access t a) = m.accessNonAtomicVar t a := by
    rw [Memory.exec, if_pos hscoped]
  have hle : t ≤ m.threadCount := (of_decide_eq_true hscoped).2
  have hcloses : accessKind .destroy = .closes := rfl
  rw [Enforced, ← scan_isSome_iff hcloses, ← h.accepts_iff t a]
  rw [hexec] at hrace ⊢
  obtain ⟨haccept, var, -, hok⟩ | ⟨haccept, err, herror⟩ := access_cases hle hrace
  · rw [haccept]
    exact ⟨fun hboth => ⟨fun _ => hboth.1.mp ⟨_, hok⟩, fun _ => rfl⟩,
      fun hiff => ⟨⟨fun _ => hiff.mp rfl, fun _ => ⟨_, hok⟩⟩, Or.inl ⟨_, hok⟩⟩⟩
  · have hrejected : ¬ ∃ m', m.accessNonAtomicVar t a = .ok (none, m') := by
      rintro ⟨m', hok⟩
      rw [herror] at hok
      cases hok
    rw [haccept]
    constructor
    · intro hboth
      exact ⟨fun hfalse => Bool.noConfusion hfalse,
        fun hvalid => absurd (hboth.1.mpr hvalid) hrejected⟩
    · intro hiff
      exact ⟨⟨fun hok => absurd hok hrejected, fun hvalid => Bool.noConfusion (hiff.mpr hvalid)⟩,
        Or.inr ⟨err, herror⟩⟩

/-- As long as no dead object is accessed, the lifetimes of non-atomics are enforced,
and they are not enforced by the first access to a dead object; those of atomics
always are. -/
theorem lifetimes_enforced {races : List (Option OldAccess)}
    (hrun : Memory.run tr Memory.start = .ok (races, m))
    (hnone : ∀ race ∈ races, race = none) :
    (NoDeadAccess tr → ∀ t a, (Op.access t a).wellScoped m.threadCount = true →
        (∀ race m', m.exec (.access t a) ≠ .ok (some race, m')) →
        (Enforced tr m t a ↔ ¬ DeadAccess tr (.access t a))) ∧
      (∀ t act, (Op.sync t act).wellScoped m.threadCount = true →
        touches act.type = true → orderOk act = true →
        (lastEvent actionKind (actionsAt tr act.loc) = some .opens ∧
            ∃ reply, m.exec (.sync t act) = .ok reply) ∨
          (lastEvent actionKind (actionsAt tr act.loc) ≠ some .opens ∧
            ∃ err, m.exec (.sync t act) = .error (.abort .invalidMemoryAccess err))) ∧
      ∀ loc, (lastEvent actionKind (actionsAt tr loc) = some .opens ∧
          ∃ atomic, m.futexAtomic loc = .ok atomic) ∨
        (lastEvent actionKind (actionsAt tr loc) ≠ some .opens ∧
          ∃ err, m.futexAtomic loc = .error (.abort .invalidMemoryAccess err)) := by
  have hatomics := run_knowsAtomics hrun hnone
  refine ⟨fun hlive t a hscoped hrace =>
    enforced_iff (run_knows hrun hnone hlive) hscoped hrace, fun t act hscoped htouches horder => ?_,
    fun loc => ?_⟩
  · have hle : t ≤ m.threadCount := (of_decide_eq_true hscoped).2
    have hexec : m.exec (.sync t act) =
        ((m.ticked t).syncAction t act).map fun reply => (none, reply.2) := by
      rw [Memory.exec, if_pos hscoped]
      rw [Memory.syncCall, Memory.tick_eq hle]
    rw [hatomics act.loc, hexec]
    obtain ⟨hlife, reply, hok⟩ | ⟨hlife, err, herror⟩ :=
      @syncAction_cases (m.ticked t) t act htouches horder
    · exact Or.inl ⟨hlife, _, by rw [hok]; rfl⟩
    · exact Or.inr ⟨hlife, err, by rw [herror]; rfl⟩
  · rw [hatomics loc]
    exact futexAtomic_cases m loc

/-- A place in the program under test. -/
def somewhere : SourceLocation := ⟨"main.cpp", "main", 1⟩

/-- An object is constructed and destroyed. -/
def destroyed : List Op :=
  [.access 1 ⟨32, .init, somewhere⟩, .access 1 ⟨32, .destroy, somewhere⟩]

instance (tr : List Op) (op : Op) : Decidable (DeadAccess tr op) := by
  unfold DeadAccess
  split <;> infer_instance

theorem destroyed_noDeadAccess : NoDeadAccess destroyed := by
  intro before op after htr
  match before, htr with
  | [], htr =>
      cases htr
      decide
  | [_], htr =>
      cases htr
      decide
  | _ :: _ :: before, htr =>
      have hlength := congrArg List.length htr
      simp [destroyed] at hlength

theorem destroyed_run : ∃ m, Memory.run destroyed Memory.start = .ok ([none, none], m) ∧
    m.threadCount = 1 ∧ ∃ m', m.exec (.access 1 ⟨32, .read, somewhere⟩) = .ok (none, m') :=
  ⟨_, rfl, rfl, _, rfl⟩

theorem lifetimes_enforced_destroyed : ∃ m,
    Memory.run destroyed Memory.start = .ok ([none, none], m) ∧
      ¬ Enforced destroyed m 1 ⟨32, .read, somewhere⟩ := by
  obtain ⟨m, hrun, hcount, m', hread⟩ := destroyed_run
  have hscoped : (Op.access 1 ⟨32, .read, somewhere⟩).wellScoped m.threadCount = true := by
    rw [hcount]
    decide
  have hrace : ∀ race m', m.exec (.access 1 ⟨32, .read, somewhere⟩) ≠ .ok (some race, m') := by
    intro race m'' heq
    rw [hread] at heq
    cases heq
  have hiff := (lifetimes_enforced hrun (by decide)).1 destroyed_noDeadAccess 1
    ⟨32, .read, somewhere⟩ hscoped hrace
  exact ⟨m, hrun, fun henforced => hiff.mp henforced (by decide)⟩

/-- A read after the destruction is accepted. -/
theorem read_after_destroy : ¬ ∀ (tr : List Op) (races : List (Option OldAccess)) (m : Memory)
    (t : ThreadId) (a : Access), Memory.run tr Memory.start = .ok (races, m) →
    (∀ race ∈ races, race = none) → (Op.access t a).wellScoped m.threadCount = true →
    (∀ race m', m.exec (.access t a) ≠ .ok (some race, m')) → Enforced tr m t a := by
  intro hclaim
  obtain ⟨m, hrun, hcount, m', hread⟩ := destroyed_run
  have henforced := hclaim destroyed _ m 1 ⟨32, .read, somewhere⟩ hrun (by decide)
    (by rw [hcount]; decide) fun race m'' heq => by
      rw [hread] at heq
      cases heq
  have hcloses : accessKind .destroy = .closes := rfl
  have hscan := (scan_isSome_iff hcloses).mpr (henforced.1.mp ⟨m', hread⟩)
  revert hscan
  decide

end TwistSim
