/-
The race detector against happens-before: what the shadow variables remember of
a run, and the two directions of its correctness.
-/
import TwistSim.ClockRuns

namespace TwistSim

variable {tr : List Op} {n t : Nat} {m m' : Memory}

/-- `old` is the record of the access at position `i < n`. -/
def Recorded (tr : List Op) (n : Nat) (old : OldAccess) (i : Nat) : Prop :=
  i < n ∧ ∃ a, opAt tr i = .access old.thread a ∧ a.loc = old.loc ∧
    a.type = old.type ∧ a.sourceLoc = old.sourceLoc ∧
    old.epoch = (timeline tr).epoch i

/-- What a shadow variable remembers is true. -/
structure History (tr : List Op) (n : Nat) (loc : Addr) (var : NonAtomicVar) :
    Prop where
  lastWrite : ∀ old, var.lastWrite = some old →
    old.loc = loc ∧ isWrite old.type = true ∧ ∃ i, Recorded tr n old i
  lastRead : ∀ u old, var.lastRead u = some old →
    old.loc = loc ∧ old.thread = u ∧ ∃ i, Recorded tr n old i

/-- The access `a` of thread `u` at position `i` happened before the last
write, or is a read that happened before the last read of `u`. -/
def Covers (tr : List Op) (n : Nat) (var : NonAtomicVar) (i u : Nat)
    (a : Access) : Prop :=
  (∃ old w, var.lastWrite = some old ∧ Recorded tr n old w ∧
    i ∈ hbPast tr {w}) ∨
  (isRead a.type = true ∧ ∃ old r, var.lastRead u = some old ∧
    Recorded tr n old r ∧ i ∈ hbPast tr {r})

theorem mem_hbPast_singleton {i j : Nat} :
    i ∈ hbPast tr {j} ↔ i = j ∨ HappensBefore .folded tr i j := by
  constructor
  · rintro ⟨_, rfl, hpath⟩
    rcases Relation.reflTransGen_iff_eq_or_transGen.mp hpath with heq | htrans
    · exact Or.inl heq.symm
    · exact Or.inr htrans
  · rintro (rfl | hhb)
    · exact subset_past _ rfl
    · exact ⟨j, rfl, hhb.to_reflTransGen⟩

theorem hbPast_trans {i j k : Nat} (hij : i ∈ hbPast tr {j})
    (hjk : j ∈ hbPast tr {k}) : i ∈ hbPast tr {k} := by
  apply past_subset_past _ hij
  rintro _ rfl
  exact hjk

theorem Recorded.mono {old : OldAccess} {i n' : Nat} (h : Recorded tr n old i)
    (hn : n ≤ n') : Recorded tr n' old i :=
  ⟨Nat.lt_of_lt_of_le h.1 hn, h.2⟩

/-! ### The check of one access -/

/-- The comparison of epochs decides happens-before. -/
theorem happensBefore_iff {old : OldAccess} {i : Nat} {access : Access}
    (h : Recorded tr n old i) (hop : opAt tr n = .access t access)
    (hcur : (timeline tr).Represents (n + 1) (m.sync t).current
      (hbPast tr (ownEvents tr (n + 1) t))) :
    m.happensBefore old t = true ↔ HappensBefore .folded tr i n := by
  obtain ⟨hi, a, hopi, _, _, _, hepoch⟩ := h
  have hthread : (opAt tr n).thread = t := by rw [hop, Op.thread]
  have hticks : (timeline tr).ticks i = true := by
    simp [timeline, hopi, Op.ticks]
  have hslot : (timeline tr).thread i = old.thread - 1 := by
    simp [timeline, hopi, Op.thread]
  have hmem := hcur.mem_iff i (Nat.lt_succ_of_lt hi) hticks
  rw [hslot, ← hepoch] at hmem
  have hown := @hbPast_singleton tr n
  rw [hthread] at hown
  rw [← hown, mem_hbPast_singleton] at hmem
  have hcheck : m.happensBefore old t = true ↔
      old.epoch ≤ (m.sync t).current (old.thread - 1) := decide_eq_true_iff
  rw [hcheck, ← hmem]
  constructor
  · rintro (rfl | hhb)
    · exact absurd hi (Nat.lt_irrefl _)
    · exact hhb
  · exact Or.inr

theorem checkDataRaces_none {var : NonAtomicVar} {access : Access}
    (h : m.checkDataRaces t var access = none) :
    (∀ old, var.lastWrite = some old → old.thread ≠ t →
      m.happensBefore old t = true) ∧
    (isWrite access.type = true → ∀ u old, 0 < u → u ≤ m.threadCount → u ≠ t →
      var.lastRead u = some old → m.happensBefore old t = true) := by
  unfold Memory.checkDataRaces at h
  cases hwrite : m.isRace t var.lastWrite with
  | some r =>
      rw [hwrite] at h
      cases h
  | none =>
      rw [hwrite] at h
      constructor
      · intro old hold hne
        rw [Memory.isRace, hold] at hwrite
        simpa [Option.filter, hne] using hwrite
      · intro hkind u old hpos hle hne hold
        simp only [hkind, if_true, Memory.raceWithReads] at h
        rw [List.findSome?_eq_none_iff] at h
        have hu := h u (List.mem_range'_1.mpr ⟨hpos, by omega⟩)
        simpa [hne, hold, Option.filter] using hu

theorem checkDataRaces_some {var : NonAtomicVar} {access : Access}
    {race : OldAccess} (h : m.checkDataRaces t var access = some race) :
    m.happensBefore race t = false ∧
      ((var.lastWrite = some race ∧ race.thread ≠ t) ∨
        (isWrite access.type = true ∧ ∃ u, u ≠ t ∧ var.lastRead u = some race)) := by
  unfold Memory.checkDataRaces at h
  cases hwrite : m.isRace t var.lastWrite with
  | some r =>
      rw [hwrite] at h
      cases h
      rw [Memory.isRace, Option.filter_eq_some_iff] at hwrite
      obtain ⟨hlast, hcond⟩ := hwrite
      simp only [Bool.and_eq_true, decide_eq_true_eq, Bool.not_eq_true'] at hcond
      exact ⟨hcond.2, Or.inl ⟨hlast, hcond.1⟩⟩
  | none =>
      rw [hwrite] at h
      by_cases hkind : isWrite access.type = true
      · simp only [hkind, if_true, Memory.raceWithReads] at h
        obtain ⟨u, _, hu⟩ := List.exists_of_findSome?_eq_some h
        by_cases hne : u = t
        · simp [hne] at hu
        · rw [if_pos hne, Option.filter_eq_some_iff] at hu
          exact ⟨by simpa using hu.2, Or.inr ⟨hkind, u, hne, hu.1⟩⟩
      · simp [hkind] at h

/-! ### What an access leaves behind -/

/-- The state in which an access compares clocks: after its tick. -/
structure Accessing (tr : List Op) (n t : Nat) (a : Access) (m : Memory) :
    Prop where
  op : opAt tr n = .access t a
  pos : 0 < t
  tracks : Tracks tr (n + 1) m

theorem Accessing.recorded {a : Access} (h : Accessing tr n t a m) :
    Recorded tr (n + 1) (m.currAccess t a) n := by
  refine ⟨Nat.lt_succ_self n, a, h.op, rfl, rfl, rfl, ?_⟩
  have hepoch := (h.tracks.threads t h.pos).epoch
  have hslot : (timeline tr).thread n = t - 1 := by
    simp [timeline, h.op, Op.thread]
  rw [Timeline.epoch, hslot]
  exact hepoch

theorem Accessing.happensBefore_iff {a : Access} (h : Accessing tr n t a m)
    {old : OldAccess} {i : Nat} (hold : Recorded tr n old i) :
    m.happensBefore old t = true ↔ HappensBefore .folded tr i n :=
  TwistSim.happensBefore_iff hold h.op (h.tracks.threads t h.pos).current

theorem History.mono {loc : Addr} {var : NonAtomicVar}
    (h : History tr n loc var) : History tr (n + 1) loc var where
  lastWrite old hold := by
    obtain ⟨hloc, hwrite, i, hi⟩ := h.lastWrite old hold
    exact ⟨hloc, hwrite, i, hi.mono (Nat.le_succ n)⟩
  lastRead u old hold := by
    obtain ⟨hloc, hthread, i, hi⟩ := h.lastRead u old hold
    exact ⟨hloc, hthread, i, hi.mono (Nat.le_succ n)⟩

/-- Logging the record of the newest operation keeps the history true. -/
theorem History.log {loc : Addr} {var : NonAtomicVar} {old : OldAccess}
    (h : History tr (n + 1) loc var) (hloc : old.loc = loc)
    (hold : Recorded tr (n + 1) old n) : History tr (n + 1) loc (var.log old) := by
  unfold NonAtomicVar.log
  by_cases hread : isRead old.type = true
  · rw [if_pos hread]
    refine ⟨h.lastWrite, fun u old' hold' => ?_⟩
    by_cases hu : u = old.thread
    · subst hu
      simp only [Function.update_self, Option.some.injEq] at hold'
      subst hold'
      exact ⟨hloc, rfl, n, hold⟩
    · simp only [Function.update_of_ne hu] at hold'
      exact h.lastRead u old' hold'
  · rw [if_neg hread]
    refine ⟨fun old' hold' => ?_, h.lastRead⟩
    simp only [Option.some.injEq] at hold'
    subst hold'
    exact ⟨hloc, by simpa [isWrite] using hread, n, hold⟩

theorem History.init {loc : Addr} {src : SourceLocation} :
    History tr n loc (NonAtomicVar.init src) where
  lastWrite old hold := by cases hold
  lastRead u old hold := by cases hold

/-- The shadow variables remember true things of the run so far. -/
def Histories (tr : List Op) (n : Nat) (m : Memory) : Prop :=
  ∀ loc var, m.nonAtomics loc = some var → History tr n loc var

/-- Every access so far is covered by what the shadow variables remember. -/
def Coverage (tr : List Op) (n : Nat) (m : Memory) : Prop :=
  ∀ i < n, ∀ u a, opAt tr i = .access u a →
    ∃ var, m.nonAtomics a.loc = some var ∧ Covers tr n var i u a

theorem Covers.mono {var : NonAtomicVar} {i u : Nat} {a : Access}
    (h : Covers tr n var i u a) : Covers tr (n + 1) var i u a := by
  rcases h with ⟨old, w, hlast, hrec, hpast⟩ | ⟨hread, old, r, hlast, hrec, hpast⟩
  · exact Or.inl ⟨old, w, hlast, hrec.mono (Nat.le_succ n), hpast⟩
  · exact Or.inr ⟨hread, old, r, hlast, hrec.mono (Nat.le_succ n), hpast⟩

/-- Operations of one thread are ordered by the program. -/
theorem Recorded.program_order {old : OldAccess} {i : Nat} {a : Access}
    (h : Recorded tr n old i) (hop : opAt tr n = .access t a)
    (hthread : old.thread = t) : i ∈ hbPast tr {n} := by
  obtain ⟨hi, b, hopi, _⟩ := h
  refine mem_hbPast_singleton.mpr (Or.inr (Relation.TransGen.single ⟨hi, Or.inl ?_⟩))
  simp [SameThread, hopi, hop, Op.thread, hthread]

/-- A remembered access that passes the check is in the past. -/
theorem Accessing.passed {a : Access} (h : Accessing tr n t a m)
    {old : OldAccess} {i : Nat} (hold : Recorded tr n old i)
    (hcheck : old.thread ≠ t → m.happensBefore old t = true) :
    i ∈ hbPast tr {n} := by
  by_cases hthread : old.thread = t
  · exact hold.program_order h.op hthread
  · exact mem_hbPast_singleton.mpr
      (Or.inr ((h.happensBefore_iff hold).mp (hcheck hthread)))

/-- If no race is found, the accesses that conflict with the current one are
in its past. -/
theorem Accessing.past_of_no_race {a b : Access} {var : NonAtomicVar} {i u : Nat}
    (h : Accessing tr n t a m) (hhist : History tr n a.loc var)
    (hcovers : Covers tr n var i u b)
    (hcheck : m.checkDataRaces t var a = none)
    (hwrite : isWrite a.type = true ∨ isWrite b.type = true) :
    i ∈ hbPast tr {n} := by
  obtain ⟨hlastWrite, hlastRead⟩ := checkDataRaces_none hcheck
  rcases hcovers with ⟨old, w, hlast, hrec, hpast⟩ | ⟨hread, old, r, hlast, hrec, hpast⟩
  · exact hbPast_trans hpast (h.passed hrec (hlastWrite old hlast))
  · have hkind : isWrite a.type = true := by
      rcases hwrite with hwrite | hwrite
      · exact hwrite
      · rw [isWrite, hread] at hwrite
        cases hwrite
    obtain ⟨_, hthread, _⟩ := hhist.lastRead u old hlast
    apply hbPast_trans hpast (h.passed hrec _)
    intro hne
    have hbounds := h.tracks.wellScoped r (Nat.lt_succ_of_lt hrec.1)
    obtain ⟨_, c, hopr, _⟩ := hrec
    rw [hopr, Op.thread, hthread] at hbounds
    exact hlastRead hkind u old hbounds.1 hbounds.2 (hthread ▸ hne) hlast

theorem log_lastWrite {var : NonAtomicVar} {old : OldAccess}
    (h : isWrite old.type = true) : (var.log old).lastWrite = some old := by
  have hread : isRead old.type = false := by simpa [isWrite] using h
  simp [NonAtomicVar.log, hread]

theorem log_lastRead {var : NonAtomicVar} {old : OldAccess}
    (h : isRead old.type = true) :
    (var.log old).lastRead = Function.update var.lastRead old.thread (some old) ∧
      (var.log old).lastWrite = var.lastWrite := by
  simp [NonAtomicVar.log, h]

/-- The access that was logged is covered. -/
theorem Accessing.covers_self {a : Access} (h : Accessing tr n t a m)
    (var : NonAtomicVar) :
    Covers tr (n + 1) (var.log (m.currAccess t a)) n t a := by
  have hself : n ∈ hbPast tr {n} := subset_past _ rfl
  by_cases hread : isRead a.type = true
  · refine Or.inr ⟨hread, m.currAccess t a, n, ?_, h.recorded, hself⟩
    rw [(log_lastRead hread).1]
    exact Function.update_self _ _ _
  · refine Or.inl ⟨m.currAccess t a, n, ?_, h.recorded, hself⟩
    exact log_lastWrite (by simpa [isWrite, Memory.currAccess] using hread)

/-- What was covered before an access that passes the check is covered after
it has been logged. -/
theorem Accessing.covers_log {a b : Access} {var : NonAtomicVar} {i u : Nat}
    (h : Accessing tr n t a m) (hhist : History tr n a.loc var)
    (hcovers : Covers tr n var i u b)
    (hcheck : m.checkDataRaces t var a = none) {var' : NonAtomicVar}
    (hkeep : isWrite a.type = true ∨
      (var'.lastRead = var.lastRead ∧ var'.lastWrite = var.lastWrite)) :
    Covers tr (n + 1) (var'.log (m.currAccess t a)) i u b := by
  by_cases hread : isRead a.type = true
  · have hsame : var'.lastRead = var.lastRead ∧ var'.lastWrite = var.lastWrite := by
      rcases hkeep with hwrite | hsame
      · rw [isWrite, hread] at hwrite
        cases hwrite
      · exact hsame
    obtain ⟨hlogRead, hlogWrite⟩ := @log_lastRead var' (m.currAccess t a) hread
    rw [hsame.2] at hlogWrite
    rw [hsame.1] at hlogRead
    rcases hcovers with ⟨old, w, hlast, hrec, hpast⟩ | ⟨hb, old, r, hlast, hrec, hpast⟩
    · exact Or.inl ⟨old, w, hlogWrite.trans hlast, hrec.mono (Nat.le_succ n), hpast⟩
    · by_cases hu : u = t
      · -- The new read of the same thread takes the place of the last one.
        subst hu
        obtain ⟨_, hthread, _⟩ := hhist.lastRead u old hlast
        refine Or.inr ⟨hb, m.currAccess u a, n, ?_, h.recorded, ?_⟩
        · rw [hlogRead]
          exact Function.update_self _ _ _
        · exact hbPast_trans hpast (hrec.program_order h.op hthread)
      · refine Or.inr ⟨hb, old, r, ?_, hrec.mono (Nat.le_succ n), hpast⟩
        rw [hlogRead]
        exact (Function.update_of_ne hu _ _).trans hlast
  · have hwrite : isWrite a.type = true := by simpa [isWrite] using hread
    exact Or.inl ⟨m.currAccess t a, n, log_lastWrite hwrite, h.recorded,
      h.past_of_no_race hhist hcovers hcheck (Or.inl hwrite)⟩

end TwistSim
