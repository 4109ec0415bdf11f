/-
The race detector is exact for the happens-before relation in which release and
acquire operations also act as fences, as long as no epoch overflows; the runs
at the end of each section show that both provisos are needed.
-/
import TwistSim.RaceDetection

namespace TwistSim

variable {tr : List Op}

/-! ### No race is missed -/

/-- No race is missed: of two conflicting accesses that are not ordered, the
later one is reported, unless something was reported before. -/
theorem race_detected {races : List (Option OldAccess)} {final : Memory}
    (hrun : Memory.run tr Memory.start = .ok (races, final))
    (hroom : NoOverflow tr) {i j : Nat} (hij : i < j) (hj : j < tr.length)
    (hconflict : Conflicting tr i j)
    (hunordered : ¬ HappensBefore .folded tr i j) :
    ∃ k ≤ j, ∃ race, races[k]? = some (some race) := by
  by_contra hmissed
  have hlen : ∀ k ≤ j, races[k]? = some none := by
    intro k hk
    obtain ⟨_, race, _, _, _, hrace⟩ :=
      run_detector hrun hroom (Nat.lt_of_le_of_lt hk hj)
    cases race with
    | none => exact hrace
    | some r => exact absurd ⟨k, hk, r, hrace⟩ hmissed
  obtain ⟨m, race, m', hdet, hexec, hrace⟩ := run_detector hrun hroom hj
  rw [hlen j (Nat.le_refl j), Option.some.injEq] at hrace
  subst hrace
  unfold Conflicting at hconflict
  cases hopi : opAt tr i with
  | access u b =>
    cases hopj : opAt tr j with
    | access t a =>
        simp only [hopi, hopj] at hconflict
        obtain ⟨_, hloc, hkind⟩ := hconflict
        obtain ⟨m₁, hacc, hvars, hok, hticked⟩ :=
          hdet.accessing (hroom.room hrun hj) hopj hexec
        obtain ⟨var, hvar, hcovers⟩ :=
          hdet.coverage (fun k hk => hlen k (Nat.le_of_lt hk)) i hij u b hopi
        rw [hloc] at hvar
        obtain ⟨m₂, hticked₂, ⟨_, _, _, hr, _⟩ | ⟨_, _, _, hcheck, _⟩⟩ :=
          accessNonAtomicVar_cases hok
        · cases hr
        · rw [hticked] at hticked₂
          cases hticked₂
          have hwrite : isWrite a.type = true ∨ isWrite b.type = true := by
            rw [Memory.conflict, Bool.or_eq_true] at hkind
            exact hkind.symm
          have hpast := hacc.past_of_no_race (hdet.histories a.loc var hvar)
            hcovers (hcheck var (hvars ▸ hvar)) hwrite
          rcases mem_hbPast_singleton.mp hpast with heq | hhb
          · exact absurd heq (Nat.ne_of_lt hij)
          · exact hunordered hhb
    | _ => simp only [hopi, hopj] at hconflict
  | _ => simp only [hopi] at hconflict

/-- A place in the user's program. -/
def here : SourceLocation := ⟨"main.cpp", "main", 1⟩

def atomicAction (type : ActionType) (loc : Addr) (mo : MemoryOrder) : Action :=
  ⟨loc, 8, type, 0, mo, "atomic", here⟩

/-- Two threads touch one variable and nothing orders them. -/
def unorderedAccesses : List Op :=
  [.spawn 1 2, .access 1 ⟨32, .init, here⟩, .access 2 ⟨32, .read, here⟩]

theorem noOverflow_of_length (h : tr.length < epochSize) : NoOverflow tr :=
  fun _ => Nat.lt_of_le_of_lt List.countP_le_length h

theorem not_happensBefore_of_closed {rules : FenceRules} (S : List Nat)
    {i j : Nat}
    (hclosed : ∀ j ∈ S, ∀ i < j, Direct rules tr i j → i ∈ S) (hj : j ∈ S)
    (hi : i ∉ S) : ¬ HappensBefore rules tr i j :=
  fun h => hi (@HappensBefore.mem_of_closed _ _ {x | x ∈ S} hclosed _ _ h hj)

theorem unorderedAccesses_detected :
    ∃ races final,
      Memory.run unorderedAccesses Memory.start = .ok (races, final) ∧
      ∃ k ≤ 2, ∃ race, races[k]? = some (some race) := by
  have hlen : unorderedAccesses.length < epochSize := by decide
  have hunordered : ¬ HappensBefore .folded unorderedAccesses 1 2 :=
    not_happensBefore_of_closed [0, 2] (by decide) (by decide) (by decide)
  exact ⟨_, _, rfl, @race_detected unorderedAccesses _ _ rfl
    (noOverflow_of_length hlen) 1 2 (by decide) (by decide) (by decide) hunordered⟩

/-- A release store of one atomic, a relaxed store of another, and an acquire
load of the second. -/
def leakThroughRelaxedStore : List Op :=
  [.spawn 1 2,
   .sync 1 (atomicAction .atomicInit 16 .relaxed),
   .sync 1 (atomicAction .atomicInit 24 .relaxed),
   .access 1 ⟨32, .init, here⟩,
   .sync 1 (atomicAction .atomicStore 16 .release),
   .sync 1 (atomicAction .atomicStore 24 .relaxed),
   .sync 2 (atomicAction .atomicLoad 24 .acquire),
   .access 2 ⟨32, .read, here⟩]

/-- The variable is initialized a second time while it is alive. -/
def secondInit : List Op :=
  [.spawn 1 2, .access 1 ⟨32, .init, here⟩, .access 2 ⟨32, .init, here⟩]

def releaseFence : Op := .sync 1 (atomicAction .atomicThreadFence 0 .release)

section Fences

theorem exec_releaseFence {m : Memory} (hm : 0 < m.threadCount) :
    m.exec releaseFence = .ok (none, (m.ticked 1).fenceRelease 1) := by
  have hone : 1 ≤ m.threadCount := hm
  simp only [Memory.exec, releaseFence, Op.wellScoped, Op.thread, atomicAction,
    Memory.syncCall, Memory.tick_eq hone, Memory.syncAction,
    Memory.atomicThreadFence, Except.map, Nat.one_pos, hone, and_self,
    decide_true, if_true]

/-- Fences count up the epoch of their thread, modulo its size. -/
theorem run_fences (count : Nat) {m : Memory} (hm : 0 < m.threadCount) :
    ∃ m', Memory.run (List.replicate count releaseFence) m =
        .ok (List.replicate count none, m') ∧
      m'.threadCount = m.threadCount ∧ m'.nonAtomics = m.nonAtomics ∧
      (∀ u, u ≠ 1 → m'.sync u = m.sync u) ∧
      (m'.sync 1).current 0 % epochSize =
        ((m.sync 1).current 0 + count) % epochSize ∧
      (m'.sync 1).epoch % epochSize = ((m.sync 1).epoch + count) % epochSize := by
  induction count generalizing m with
  | zero => exact ⟨m, rfl, rfl, rfl, fun _ _ => rfl, rfl, rfl⟩
  | succ count ih =>
      have hothers : ∀ u, u ≠ 1 →
          ((m.ticked 1).fenceRelease 1).sync u = m.sync u := by
        intro u hu
        simp [Memory.fenceRelease, Memory.ticked, hu]
      have hclock : (((m.ticked 1).fenceRelease 1).sync 1).current 0 =
          ((m.sync 1).current 0 + 1) % epochSize := by
        simp [Memory.fenceRelease, Memory.ticked]
      have hepoch : (((m.ticked 1).fenceRelease 1).sync 1).epoch =
          ((m.sync 1).epoch + 1) % epochSize := by
        simp [Memory.fenceRelease, Memory.ticked]
      obtain ⟨m', hrun, hcount', hvars', hothers', hclock', hepoch'⟩ :=
        ih (m := (m.ticked 1).fenceRelease 1) hm
      refine ⟨m', ?_, hcount', hvars',
        fun u hu => (hothers' u hu).trans (hothers u hu), ?_, ?_⟩
      · simp [List.replicate_succ, Memory.run, exec_releaseFence hm, hrun,
          Except.map]
      · rw [hclock', hclock, Nat.mod_add_mod, Nat.add_assoc, Nat.add_comm 1]
      · rw [hepoch', hepoch, Nat.mod_add_mod, Nat.add_assoc, Nat.add_comm 1]

end Fences

section Positions

theorem opAt_append_left {xs ys : List Op} {i : Nat} (h : i < xs.length) :
    opAt (xs ++ ys) i = opAt xs i := by
  simp [opAt, List.getD_eq_getElem?_getD, List.getElem?_append_left h]

theorem opAt_append_right (xs ys : List Op) (i : Nat) :
    opAt (xs ++ ys) (xs.length + i) = opAt ys i := by
  simp [opAt, List.getD_eq_getElem?_getD,
    List.getElem?_append_right (Nat.le_add_right xs.length i)]

theorem opAt_replicate {count i : Nat} (h : i < count) (op : Op) :
    opAt (List.replicate count op) i = op := by
  simp [opAt, List.getD_eq_getElem?_getD, h]

end Positions

section Executions

variable {m m₁ m₂ : Memory}

theorem run_cons {op : Op} {ops : List Op} {race : Option OldAccess}
    {races : List (Option OldAccess)} (hexec : m.exec op = .ok (race, m₁))
    (hrun : Memory.run ops m₁ = .ok (races, m₂)) :
    Memory.run (op :: ops) m = .ok (race :: races, m₂) := by
  simp [Memory.run, hexec, hrun, Except.map]

theorem run_append {ops rest : List Op} {races races' : List (Option OldAccess)}
    (hrun : Memory.run ops m = .ok (races, m₁))
    (hrest : Memory.run rest m₁ = .ok (races', m₂)) :
    Memory.run (ops ++ rest) m = .ok (races ++ races', m₂) := by
  induction ops generalizing m races with
  | nil =>
      cases hrun
      exact hrest
  | cons op ops ih =>
      rw [Memory.run] at hrun
      cases hexec : m.exec op with
      | error e =>
          rw [hexec] at hrun
          cases hrun
      | ok first =>
          rw [hexec] at hrun
          obtain ⟨⟨races₂, last⟩, hops, heq⟩ := map_eq_ok hrun
          cases heq
          exact run_cons hexec (ih hops)

/-- The first access to a location initializes its shadow variable. -/
theorem exec_init {t : Nat} (ht : 0 < t) (hle : t ≤ m.threadCount) {loc : Addr}
    (hvar : m.nonAtomics loc = none) :
    m.exec (.access t ⟨loc, .init, here⟩) =
      .ok (none, (m.ticked t).setNonAtomic loc
        ((NonAtomicVar.init here).log
          ((m.ticked t).currAccess t ⟨loc, .init, here⟩))) := by
  have hvar' : (m.ticked t).nonAtomics loc = none := hvar
  simp [Memory.exec, Op.wellScoped, Op.thread, ht, hle, Memory.accessNonAtomicVar,
    Memory.tick_eq hle, Memory.initNonAtomicVar, hvar']

/-- A read by thread 2 is checked against the last write of thread 1. -/
theorem exec_read {loc : Addr} {var : NonAtomicVar} {old : OldAccess}
    (hle : 2 ≤ m.threadCount) (hvar : m.nonAtomics loc = some var)
    (hwrite : var.lastWrite = some old) (hthread : old.thread = 1) :
    ∃ m', m.exec (.access 2 ⟨loc, .read, here⟩) =
      .ok (if old.epoch ≤ (m.sync 2).current 0 then none else some old, m') := by
  have hvar' : (m.ticked 2).nonAtomics loc = some var := hvar
  have hclock : ((m.ticked 2).sync 2).current.get 1 = (m.sync 2).current 0 := by
    simp [Memory.ticked, VectorClock.get]
  have hcheck : (m.ticked 2).checkDataRaces 2 var ⟨loc, .read, here⟩ =
      if old.epoch ≤ (m.sync 2).current 0 then none else some old := by
    by_cases hepoch : old.epoch ≤ (m.sync 2).current 0 <;>
      simp [Memory.checkDataRaces, Memory.isRace, hwrite, hthread,
        Memory.happensBefore, hclock, hepoch, isWrite, isRead, Option.filter]
  simp only [Memory.exec, Op.wellScoped, Op.thread, Memory.accessNonAtomicVar,
    Memory.tick_eq hle, Memory.accessLiveNonAtomicVar, hvar', hcheck, hle]
  by_cases hepoch : old.epoch ≤ (m.sync 2).current 0
  · exact ⟨_, by simp [hepoch]; rfl⟩
  · exact ⟨_, by simp [hepoch]; rfl⟩

end Executions

/-- Fences of thread 1, an access of it, and an access of thread 2. -/
def missedAfter (count : Nat) : List Op :=
  .spawn 1 2 :: (List.replicate count releaseFence ++
    [.access 1 ⟨32, .init, here⟩, .access 2 ⟨32, .read, here⟩])

section MissedAfter

variable {count : Nat}

theorem missedAfter_fence {i : Nat} (h : i < count) :
    opAt (missedAfter count) (i + 1) = releaseFence := by
  have hlen : i < (List.replicate count releaseFence).length := by simpa using h
  change opAt (List.replicate count releaseFence ++ _) i = releaseFence
  rw [opAt_append_left hlen, opAt_replicate h]

theorem missedAfter_access (i : Nat) :
    opAt (missedAfter count) (count + i + 1) =
      opAt [.access 1 ⟨32, .init, here⟩, .access 2 ⟨32, .read, here⟩] i := by
  have hpos := opAt_append_right (List.replicate count releaseFence)
    [.access 1 ⟨32, .init, here⟩, .access 2 ⟨32, .read, here⟩] i
  rw [List.length_replicate] at hpos
  exact hpos

/-- Only the spawn happens before the access of thread 2. -/
theorem missedAfter_unordered (rules : FenceRules) :
    ¬ HappensBefore rules (missedAfter count) (count + 1) (count + 2) := by
  apply not_happensBefore_of_closed [0, count + 2]
  · intro j hj i hij hdirect
    simp only [List.mem_cons, List.not_mem_nil, or_false] at hj ⊢
    rcases hj with rfl | rfl
    · exact absurd hij (Nat.not_lt_zero i)
    · have hread : opAt (missedAfter count) (count + 2) =
          .access 2 ⟨32, .read, here⟩ := missedAfter_access 1
      obtain ⟨_, hsame | hspecial | ⟨y, _, x, _, _, _, hobs⟩⟩ := hdirect
      · cases i with
        | zero => exact Or.inl rfl
        | succ i =>
            unfold SameThread at hsame
            rw [hread] at hsame
            by_cases hi : i < count
            · rw [missedAfter_fence hi] at hsame
              cases hsame
            · have heq : i + 1 = count + 0 + 1 := by omega
              rw [heq, missedAfter_access 0] at hsame
              cases hsame
      · rw [SpecialEdge, hread] at hspecial
        cases hspecial
      · rcases hobs with ⟨_, hacq⟩ | ⟨_, _, hacq⟩
        · rw [hread] at hacq
          cases hacq
        · rw [hread] at hacq
          cases rules <;> cases hacq
  · simp
  · simp

theorem missedAfter_conflicting :
    Conflicting (missedAfter count) (count + 1) (count + 2) := by
  have hwrite : opAt (missedAfter count) (count + 1) =
      .access 1 ⟨32, .init, here⟩ := missedAfter_access 0
  have hread : opAt (missedAfter count) (count + 2) =
      .access 2 ⟨32, .read, here⟩ := missedAfter_access 1
  simp only [Conflicting, hwrite, hread]
  decide

/-- If the access of thread 1 gets epoch 0, the race is missed. -/
theorem missedAfter_run (hwrap : (count + 1) % epochSize = 0) :
    ∃ races final,
      Memory.run (missedAfter count) Memory.start = .ok (races, final) ∧
      ∀ race ∈ races, race = none := by
  obtain ⟨m₁, hspawn, hcount, hvars, hepoch⟩ : ∃ m₁,
      Memory.start.exec (.spawn 1 2) = .ok (none, m₁) ∧ m₁.threadCount = 2 ∧
        m₁.nonAtomics 32 = none ∧ (m₁.sync 1).epoch = 0 :=
    ⟨_, rfl, rfl, rfl, rfl⟩
  obtain ⟨m₂, hfences, hcount₂, hvars₂, _, _, hepoch₂⟩ :=
    run_fences count (m := m₁) (by omega)
  rw [hepoch, Nat.zero_add] at hepoch₂
  have hcount₂' : m₂.threadCount = 2 := hcount₂.trans hcount
  have hinit := @exec_init m₂ 1 Nat.one_pos (by omega) 32 (by rw [hvars₂, hvars])
  have hzero : ((m₂.ticked 1).sync 1).epoch = 0 := by
    have hmod : ((m₂.sync 1).epoch + 1) % epochSize = (count + 1) % epochSize := by
      rw [← Nat.mod_add_mod, hepoch₂, Nat.mod_add_mod]
    simp [Memory.ticked, hmod, hwrap]
  obtain ⟨m₄, hread⟩ := @exec_read ((m₂.ticked 1).setNonAtomic 32
      ((NonAtomicVar.init here).log ((m₂.ticked 1).currAccess 1 ⟨32, .init, here⟩)))
    32 _ _ (Nat.le_of_eq hcount₂'.symm) rfl rfl rfl
  rw [if_pos (by rw [Memory.currAccess, hzero]; exact Nat.zero_le _)] at hread
  have haccesses := run_cons hinit (run_cons hread (@rfl _ (Memory.run [] m₄)))
  refine ⟨_, m₄, run_cons hspawn (run_append hfences haccesses), ?_⟩
  intro race hmem
  simp only [List.mem_cons, List.mem_append, List.mem_replicate,
    List.not_mem_nil, or_false] at hmem
  rcases hmem with hnone | ⟨_, hnone⟩ | hnone | hnone <;> exact hnone

theorem missedAfter_missed (hwrap : (count + 1) % epochSize = 0) :
    ∃ races final,
      Memory.run (missedAfter count) Memory.start = .ok (races, final) ∧
      Conflicting (missedAfter count) (count + 1) (count + 2) ∧
      ¬ HappensBefore .standard (missedAfter count) (count + 1) (count + 2) ∧
      ∀ race ∈ races, race = none := by
  obtain ⟨races, final, hrun, hnone⟩ := missedAfter_run hwrap
  exact ⟨races, final, hrun, missedAfter_conflicting,
    missedAfter_unordered .standard, hnone⟩

end MissedAfter

/-- So many fences that the next epoch is 0. -/
def fencesToOverflow : Nat := epochSize - 1

/-- Races that are missed: one hidden by the fence that a release store brings
along, one hidden by an overflow of the epoch, and one in an access that is
rejected for another reason. -/
theorem race_missed :
    (∃ races final,
      Memory.run leakThroughRelaxedStore Memory.start = .ok (races, final) ∧
      Conflicting leakThroughRelaxedStore 3 7 ∧
      ¬ HappensBefore .standard leakThroughRelaxedStore 3 7 ∧
      ∀ race ∈ races, race = none) ∧
    (∃ races final,
      Memory.run (missedAfter fencesToOverflow) Memory.start =
        .ok (races, final) ∧
      Conflicting (missedAfter fencesToOverflow)
        (fencesToOverflow + 1) (fencesToOverflow + 2) ∧
      ¬ HappensBefore .standard (missedAfter fencesToOverflow)
        (fencesToOverflow + 1) (fencesToOverflow + 2) ∧
      ∀ race ∈ races, race = none) ∧
    (∃ err, Memory.run secondInit Memory.start =
        .error (.abort .invalidMemoryAccess err) ∧
      Conflicting secondInit 1 2 ∧ ¬ HappensBefore .standard secondInit 1 2) := by
  have hwrap : (fencesToOverflow + 1) % epochSize = 0 := by decide
  refine ⟨⟨_, _, rfl, by decide, ?_, by decide⟩, missedAfter_missed hwrap,
    ⟨_, rfl, by decide, ?_⟩⟩
  · exact not_happensBefore_of_closed [0, 6, 7] (by decide) (by decide) (by decide)
  · exact not_happensBefore_of_closed [0, 2] (by decide) (by decide) (by decide)

/-! ### No false alarms -/

/-- No false alarms: a reported access is a real earlier access that conflicts
with the current one and does not happen before it. -/
theorem race_report_sound {races : List (Option OldAccess)} {final : Memory}
    (hrun : Memory.run tr Memory.start = .ok (races, final))
    (hroom : NoOverflow tr) {j : Nat} {race : OldAccess}
    (hrace : races[j]? = some (some race)) :
    ∃ i < j, ∃ a, opAt tr i = .access race.thread a ∧ a.loc = race.loc ∧
      a.type = race.type ∧ a.sourceLoc = race.sourceLoc ∧
      Conflicting tr i j ∧ ¬ HappensBefore .standard tr i j := by
  have hj : j < tr.length := by
    have hlen := run_length hrun
    have hsome := (List.getElem?_eq_some_iff.mp hrace).1
    omega
  obtain ⟨m, race', m', hdet, hexec, hrace'⟩ := run_detector hrun hroom hj
  rw [hrace, Option.some.injEq] at hrace'
  subst hrace'
  by_cases haccess : ∃ t a, opAt tr j = .access t a
  · obtain ⟨t, a, hop⟩ := haccess
    obtain ⟨m₁, hacc, hvars, hok, hticked⟩ :=
      hdet.accessing (hroom.room hrun hj) hop hexec
    obtain ⟨m₂, hticked₂, ⟨_, var, r, hr, hvar, hcheck⟩ | ⟨_, hr, _⟩⟩ :=
      accessNonAtomicVar_cases hok
    · cases hr
      rw [hticked] at hticked₂
      cases hticked₂
      rw [hvars] at hvar
      have hhist := hdet.histories a.loc var hvar
      obtain ⟨hunordered, hwhich⟩ := checkDataRaces_some hcheck
      -- The report is the last write, or a last read and the access writes.
      obtain ⟨hloc, hne, hkind, i, hrec⟩ : race.loc = a.loc ∧ race.thread ≠ t ∧
          (isWrite race.type = true ∨ isWrite a.type = true) ∧
          ∃ i, Recorded tr j race i := by
        rcases hwhich with ⟨hlast, hne⟩ | ⟨hwrite, u, hne, hlast⟩
        · obtain ⟨hloc, hwrite, hrec⟩ := hhist.lastWrite race hlast
          exact ⟨hloc, hne, Or.inl hwrite, hrec⟩
        · obtain ⟨hloc, hthread, hrec⟩ := hhist.lastRead u race hlast
          exact ⟨hloc, hthread ▸ hne, Or.inr hwrite, hrec⟩
      have hiff := hacc.happensBefore_iff hrec
      obtain ⟨hi, b, hopi, hbloc, hbtype, hbsrc, _⟩ := hrec
      refine ⟨i, hi, b, hopi, hbloc, hbtype, hbsrc, ?_, ?_⟩
      · simp only [Conflicting, hopi, hop]
        refine ⟨hne, hbloc.trans hloc, ?_⟩
        rw [Memory.conflict, hbtype, Bool.or_eq_true]
        exact hkind
      · intro hhb
        rw [hiff.mpr hhb.mono] at hunordered
        cases hunordered
    · cases hr
  · obtain ⟨hr, _⟩ := exec_nonAtomics (fun t a hop => haccess ⟨t, a, hop⟩) hexec
    cases hr

theorem unorderedAccesses_report :
    ∃ races final, ∃ race : OldAccess,
      Memory.run unorderedAccesses Memory.start = .ok (races, final) ∧
      races[2]? = some (some race) ∧
      ∃ i < 2, ∃ a, opAt unorderedAccesses i = .access race.thread a ∧
        a.loc = race.loc ∧ a.type = race.type ∧ a.sourceLoc = race.sourceLoc ∧
        Conflicting unorderedAccesses i 2 ∧
        ¬ HappensBefore .standard unorderedAccesses i 2 := by
  have hlen : unorderedAccesses.length < epochSize := by decide
  exact ⟨_, _, ⟨32, .init, 1, 1, here⟩, rfl, rfl,
    @race_report_sound unorderedAccesses _ _ rfl (noOverflow_of_length hlen) 2 _ rfl⟩

/-- Fences of thread 1, an access of it with the last epoch, a fence with epoch
0, and an access of a thread that is spawned only then. -/
def alarmAfter (count : Nat) : List Op :=
  List.replicate count releaseFence ++
    [.access 1 ⟨32, .init, here⟩, releaseFence, .spawn 1 2,
      .access 2 ⟨32, .read, here⟩]

section AlarmAfter

variable {count : Nat}

theorem alarmAfter_tail (i : Nat) :
    opAt (alarmAfter count) (count + i) =
      opAt [.access 1 ⟨32, .init, here⟩, releaseFence, .spawn 1 2,
        .access 2 ⟨32, .read, here⟩] i := by
  have hpos := opAt_append_right (List.replicate count releaseFence)
    [.access 1 ⟨32, .init, here⟩, releaseFence, .spawn 1 2,
      .access 2 ⟨32, .read, here⟩] i
  rw [List.length_replicate] at hpos
  exact hpos

/-- The access of thread 1 happens before the access of its child. -/
theorem alarmAfter_ordered :
    HappensBefore .standard (alarmAfter count) count (count + 3) := by
  have hinit : opAt (alarmAfter count) count = .access 1 ⟨32, .init, here⟩ :=
    alarmAfter_tail 0
  have hspawn : opAt (alarmAfter count) (count + 2) = .spawn 1 2 :=
    alarmAfter_tail 2
  have hread : opAt (alarmAfter count) (count + 3) =
      .access 2 ⟨32, .read, here⟩ := alarmAfter_tail 3
  have hedge : Direct .standard (alarmAfter count) count (count + 2) := by
    refine ⟨by omega, Or.inr (Or.inl ?_)⟩
    rw [SpecialEdge, hspawn]
    simp [hinit, Op.thread]
  have hstep : Direct .standard (alarmAfter count) (count + 2) (count + 3) := by
    refine ⟨by omega, Or.inl ?_⟩
    rw [SameThread, hspawn, hread]
    rfl
  exact (Relation.TransGen.single hedge).tail hstep

theorem exec_spawn_second {m : Memory} (hcount : m.threadCount = 1) :
    ∃ m', m.exec (.spawn 1 2) = .ok (none, m') ∧ m'.threadCount = 2 ∧
      m'.nonAtomics = m.nonAtomics ∧
      (m'.sync 2).current 0 = (m.sync 1).current 0 := by
  obtain ⟨atomics, nonAtomics, allocs, sync, threadCount⟩ := m
  simp only at hcount
  subst hcount
  exact ⟨_, rfl, rfl, rfl, rfl⟩

/-- If the clock of thread 1 is back at 0 when it spawns, its child is reported
to race with it. -/
theorem alarmAfter_run (hwrap : (count + 2) % epochSize = 0) :
    ∃ races final race,
      Memory.run (alarmAfter count) Memory.start = .ok (races, final) ∧
      races[count + 3]? = some (some race) ∧
      race = ⟨32, .init, 1, (count + 1) % epochSize, here⟩ ∧
      opAt (alarmAfter count) count = .access 1 ⟨32, .init, here⟩ ∧
      HappensBefore .standard (alarmAfter count) count (count + 3) := by
  obtain ⟨m₁, hfences, hcount₁, hvars₁, _, hclock₁, hepoch₁⟩ :=
    @run_fences count Memory.start (by decide)
  have hcount₁' : m₁.threadCount = 1 := hcount₁
  have hclock₁' : (m₁.sync 1).current 0 % epochSize = count % epochSize := by
    rw [hclock₁]
    exact congrArg (· % epochSize) (Nat.zero_add count)
  have hepoch₁' : (m₁.sync 1).epoch % epochSize = count % epochSize := by
    rw [hepoch₁]
    exact congrArg (· % epochSize) (Nat.zero_add count)
  -- The access of thread 1, with the epoch before the overflow.
  have hinit := @exec_init m₁ 1 Nat.one_pos (Nat.le_of_eq hcount₁'.symm) 32
    (by rw [hvars₁]; rfl)
  generalize hm₂ : (m₁.ticked 1).setNonAtomic 32 ((NonAtomicVar.init here).log
    ((m₁.ticked 1).currAccess 1 ⟨32, .init, here⟩)) = m₂ at hinit
  have hcount₂ : m₂.threadCount = 1 := by
    rw [← hm₂]
    exact hcount₁'
  have hold : (m₁.ticked 1).currAccess 1 ⟨32, .init, here⟩ =
      ⟨32, .init, 1, (count + 1) % epochSize, here⟩ := by
    have hmod : ((m₁.sync 1).epoch + 1) % epochSize = (count + 1) % epochSize := by
      rw [← Nat.mod_add_mod, hepoch₁', Nat.mod_add_mod]
    simp [Memory.currAccess, Memory.ticked, hmod]
  have hvar₂ : m₂.nonAtomics 32 = some ((NonAtomicVar.init here).log
      ⟨32, .init, 1, (count + 1) % epochSize, here⟩) := by
    rw [← hm₂, ← hold]
    rfl
  -- The fence that overflows, and the spawn that copies the clock.
  have hfence := exec_releaseFence (m := m₂) (by omega)
  obtain ⟨m₄, hspawn, hcount₄, hvars₄, hclock₄⟩ :=
    @exec_spawn_second ((m₂.ticked 1).fenceRelease 1) hcount₂
  have hzero : (m₄.sync 2).current 0 = 0 := by
    have hclock₂ : (m₂.sync 1).current 0 =
        ((m₁.sync 1).current 0 + 1) % epochSize := by
      rw [← hm₂]
      simp [Memory.setNonAtomic, Memory.ticked]
    have hclock₃ : (((m₂.ticked 1).fenceRelease 1).sync 1).current 0 =
        ((m₂.sync 1).current 0 + 1) % epochSize := by
      simp [Memory.fenceRelease, Memory.ticked]
    rw [hclock₄, hclock₃, hclock₂, Nat.mod_add_mod, Nat.add_assoc,
      ← Nat.mod_add_mod, hclock₁', Nat.mod_add_mod]
    exact hwrap
  have hvar₄ : m₄.nonAtomics 32 = some ((NonAtomicVar.init here).log
      ⟨32, .init, 1, (count + 1) % epochSize, here⟩) := by
    rw [hvars₄]
    exact hvar₂
  obtain ⟨m₅, hread⟩ := exec_read (Nat.le_of_eq hcount₄.symm) hvar₄ rfl rfl
  have hlate : ¬ (count + 1) % epochSize ≤ (m₄.sync 2).current 0 := by
    rw [hzero]
    intro hle
    have hone : (count + 2) % epochSize = 1 := by
      have hsucc : count + 2 = count + 1 + 1 := rfl
      rw [hsucc, ← Nat.mod_add_mod, Nat.le_zero.mp hle]
      rfl
    rw [hwrap] at hone
    cases hone
  rw [if_neg hlate] at hread
  have htail := run_cons hinit (run_cons hfence
    (run_cons hspawn (run_cons hread (@rfl _ (Memory.run [] m₅)))))
  refine ⟨_, m₅, _, run_append hfences htail, ?_, rfl, alarmAfter_tail 0,
    alarmAfter_ordered⟩
  have hlen : (List.replicate count (none : Option OldAccess)).length ≤ count + 3 := by
    simp
  rw [List.getElem?_append_right hlen]
  simp

end AlarmAfter

/-- So many fences that the next epoch is the last one. -/
def fencesToLastEpoch : Nat := epochSize - 2

/-- A false alarm after an overflow: the child is reported to race with an
access of its parent that precedes the spawn. -/
theorem race_false_alarm :
    ∃ races final race,
      Memory.run (alarmAfter fencesToLastEpoch) Memory.start =
        .ok (races, final) ∧
      races[fencesToLastEpoch + 3]? = some (some race) ∧
      race = ⟨32, .init, 1, (fencesToLastEpoch + 1) % epochSize, here⟩ ∧
      opAt (alarmAfter fencesToLastEpoch) fencesToLastEpoch =
        .access 1 ⟨32, .init, here⟩ ∧
      HappensBefore .standard (alarmAfter fencesToLastEpoch)
        fencesToLastEpoch (fencesToLastEpoch + 3) := by
  have hwrap : (fencesToLastEpoch + 2) % epochSize = 0 := by decide
  exact alarmAfter_run hwrap

end TwistSim
