/-
The invariant of the race detector along a run: meaningful clocks, true
histories, and coverage of every access as long as nothing was reported.
-/
import TwistSim.DataRaces
import Mathlib.Data.List.Count

namespace TwistSim

variable {tr : List Op} {n : Nat} {m m' : Memory}

/-! ### Operations that leave the shadow variables alone -/

theorem tick_nonAtomics {t : Nat} (h : m.tick t = .ok m') :
    m'.nonAtomics = m.nonAtomics := by
  unfold Memory.tick at h
  cases hclock : (m.sync t).current.tick m.threadCount t with
  | error p =>
      rw [hclock] at h
      cases h
  | ok current =>
      rw [hclock] at h
      cases h
      rfl

theorem loadThenFence_nonAtomics {t value : Nat} {a : Action}
    (h : m.loadThenFence t a = .ok (value, m')) :
    m'.nonAtomics = m.nonAtomics := by
  unfold Memory.loadThenFence at h
  cases hatomic : m.getShadowAtomicVar a with
  | error e =>
      rw [hatomic] at h
      cases h
  | ok atomic =>
      rw [hatomic] at h
      cases h
      cases a.mo.isAcquireOrder <;> rfl

theorem fenceThenWrite_nonAtomics {t : Nat} {a : Action}
    {write : Memory → AtomicVar → Memory}
    (h : m.fenceThenWrite t a write = .ok m')
    (hwrite : ∀ m atomic, (write m atomic).nonAtomics = m.nonAtomics) :
    m'.nonAtomics = m.nonAtomics := by
  obtain ⟨atomic, _, rfl⟩ := map_eq_ok h
  rw [hwrite]
  cases a.mo.isReleaseOrder <;> rfl

theorem syncAction_nonAtomics {t value : Nat} {a : Action}
    (h : m.syncAction t a = .ok (value, m')) : m'.nonAtomics = m.nonAtomics := by
  unfold Memory.syncAction at h
  cases htype : a.type with
  | atomicInit =>
      rw [htype] at h
      cases h
      rfl
  | atomicDestroy =>
      rw [htype] at h
      obtain ⟨_, h, heq⟩ := map_eq_ok h
      cases heq
      obtain ⟨atomic, _, rfl⟩ := map_eq_ok h
      rfl
  | atomicLoad =>
      simp only [htype, Memory.atomicLoad] at h
      by_cases horder : a.mo.isLoadOrder = true
      · rw [if_pos horder] at h
        exact loadThenFence_nonAtomics h
      · rw [if_neg horder] at h
        cases h
  | atomicDebugLoad =>
      rw [htype] at h
      obtain ⟨atomic, _, heq⟩ := map_eq_ok h
      cases heq
      rfl
  | atomicStore =>
      rw [htype] at h
      obtain ⟨_, h, heq⟩ := map_eq_ok h
      cases heq
      unfold Memory.atomicStore at h
      by_cases horder : a.mo.isStoreOrder = true
      · rw [if_pos horder] at h
        exact fenceThenWrite_nonAtomics h fun _ _ => rfl
      · rw [if_neg horder] at h
        cases h
  | atomicRmwLoad =>
      rw [htype] at h
      exact loadThenFence_nonAtomics h
  | atomicRmwCommit =>
      rw [htype] at h
      obtain ⟨_, h, heq⟩ := map_eq_ok h
      cases heq
      exact fenceThenWrite_nonAtomics h fun _ _ => rfl
  | atomicThreadFence =>
      rw [htype] at h
      obtain ⟨_, h, heq⟩ := map_eq_ok h
      cases heq
      unfold Memory.atomicThreadFence at h
      cases hmo : a.mo <;> rw [hmo] at h <;> cases h <;> rfl

theorem exec_nonAtomics {op : Op} {race : Option OldAccess}
    (hop : ∀ t a, op ≠ .access t a) (h : m.exec op = .ok (race, m')) :
    race = none ∧ m'.nonAtomics = m.nonAtomics := by
  unfold Memory.exec at h
  by_cases hscoped : op.wellScoped m.threadCount = true
  · rw [if_pos hscoped] at h
    cases op with
    | spawn p c =>
        cases hcreate : m.createThread with
        | error e =>
            simp only [hcreate] at h
            cases h
        | ok created =>
            simp only [hcreate] at h
            obtain ⟨_, hspawn, heq⟩ := map_eq_ok h
            cases heq
            unfold Memory.spawn at hspawn
            refine ⟨rfl, (tick_nonAtomics hspawn).trans ?_⟩
            unfold Memory.createThread at hcreate
            split at hcreate <;> cases hcreate
            rfl
    | wake w t =>
        obtain ⟨_, hwake, heq⟩ := map_eq_ok h
        cases heq
        unfold Memory.wake at hwake
        exact ⟨rfl, (tick_nonAtomics hwake).trans rfl⟩
    | sync t a =>
        obtain ⟨⟨value, _⟩, hsync, heq⟩ := map_eq_ok h
        cases heq
        refine ⟨rfl, ?_⟩
        unfold Memory.syncCall at hsync
        cases hticked : m.tick t with
        | error e =>
            rw [hticked] at hsync
            cases hsync
        | ok m₁ =>
            rw [hticked] at hsync
            exact (syncAction_nonAtomics hsync).trans (tick_nonAtomics hticked)
    | access t a => exact absurd rfl (hop t a)
    | malloc t addr size scope =>
        cases h
        exact ⟨rfl, rfl⟩
    | free t addr =>
        cases h
        exact ⟨rfl, rfl⟩
  · rw [if_neg hscoped] at h
    cases h

theorem exec_wellScoped {op : Op} {race : Option OldAccess}
    (h : m.exec op = .ok (race, m')) : op.wellScoped m.threadCount = true := by
  by_cases hscoped : op.wellScoped m.threadCount = true
  · exact hscoped
  · unfold Memory.exec at h
    rw [if_neg hscoped] at h
    cases h

/-! ### The invariant of the detector -/

/-- After `n` operations the clocks are meaningful, the shadow variables
remember true things, and unless a race was reported they cover everything. -/
structure Detector (tr : List Op) (races : List (Option OldAccess)) (n : Nat)
    (m : Memory) : Prop where
  tracks : Tracks tr n m
  histories : Histories tr n m
  coverage : (∀ k < n, races[k]? = some none) → Coverage tr n m

theorem Detector.start {races : List (Option OldAccess)} :
    Detector tr races 0 Memory.start := by
  refine ⟨Tracks.start, fun loc var hvar => ?_, fun _ i hi => ?_⟩
  · cases hvar
  · exact absurd hi (Nat.not_lt_zero i)

/-- The state in which an access checks for races. -/
theorem Detector.accessing {races : List (Option OldAccess)} {t : Nat}
    {a : Access} {race : Option OldAccess} (h : Detector tr races n m)
    (hroom : ∀ i, (timeline tr).tickCount (n + 1) i < epochSize)
    (hop : opAt tr n = .access t a) (hexec : m.exec (opAt tr n) = .ok (race, m')) :
    ∃ m₁, Accessing tr n t a m₁ ∧ m₁.nonAtomics = m.nonAtomics ∧
      m.accessNonAtomicVar t a = .ok (race, m') ∧ m.tick t = .ok m₁ := by
  have htracks := h.tracks.exec hroom hexec
  have hscoped := exec_wellScoped hexec
  unfold Memory.exec at hexec
  rw [if_pos hscoped] at hexec
  simp only [hop] at hexec
  obtain ⟨m₁, hticked, hsync, hatomics, hallocs, hcount⟩ :=
    accessNonAtomicVar_frame hexec
  refine ⟨m₁, ⟨hop, ?_, ?_⟩, tick_nonAtomics hticked, hexec, hticked⟩
  · simp only [hop, Op.wellScoped, Op.thread] at hscoped
    exact (of_decide_eq_true hscoped).1
  · obtain ⟨hwell, hthreads, hatom, halloc⟩ := htracks
    refine ⟨hcount ▸ hwell, hsync ▸ hthreads, ?_, ?_⟩
    · intro loc atomic hloc
      exact hatom loc atomic (hatomics ▸ hloc)
    · intro addr
      have hold := halloc addr
      simp only [Memory.getShadowAllocation, hallocs] at hold
      exact hold

theorem Detector.exec_access {races : List (Option OldAccess)} {t : Nat}
    {a : Access} {race : Option OldAccess} (h : Detector tr races n m)
    (hroom : ∀ i, (timeline tr).tickCount (n + 1) i < epochSize)
    (hop : opAt tr n = .access t a) (hexec : m.exec (opAt tr n) = .ok (race, m'))
    (hrace : races[n]? = some race) : Detector tr races (n + 1) m' := by
  have htracks := h.tracks.exec hroom hexec
  obtain ⟨m₁, hacc, hvars, hok, hticked⟩ := h.accessing hroom hop hexec
  obtain ⟨m₂, hticked₂, hcases⟩ := accessNonAtomicVar_cases hok
  rw [hticked] at hticked₂
  cases hticked₂
  rcases hcases with ⟨rfl, var, r, rfl, _, _⟩ | ⟨var', rfl, rfl, hcheck, hkind⟩
  · -- A race is reported: nothing is logged, and nothing has to be covered.
    refine ⟨htracks, fun loc var hvar => ?_, fun hnone => ?_⟩
    · rw [hvars] at hvar
      exact (h.histories loc var hvar).mono
    · have hn := hnone n (Nat.lt_succ_self n)
      rw [hrace] at hn
      cases hn
  · obtain ⟨base, rfl, hbase, hkeep⟩ : ∃ base,
        var' = base.log (m₁.currAccess t a) ∧ History tr (n + 1) a.loc base ∧
          ∀ var, m.nonAtomics a.loc = some var → isWrite a.type = true ∨
            (base.lastRead = var.lastRead ∧ base.lastWrite = var.lastWrite) := by
      rcases hkind with ⟨hinit, hvar'⟩ | ⟨var, dtor, hfound, hvar'⟩
      · exact ⟨_, hvar', History.init,
          fun _ _ => Or.inl (by rw [hinit]; rfl)⟩
      · rw [hvars] at hfound
        have hold := (h.histories a.loc var hfound).mono
        refine ⟨_, hvar', ⟨hold.lastWrite, hold.lastRead⟩, ?_⟩
        intro var₂ hvar₂
        rw [hfound] at hvar₂
        cases hvar₂
        exact Or.inr ⟨rfl, rfl⟩
    have hlogged := @History.log _ _ _ base (m₁.currAccess t a) hbase rfl
      hacc.recorded
    refine ⟨htracks, fun loc var hvar => ?_, fun hnone => ?_⟩
    · rw [Memory.setNonAtomic_nonAtomics, hvars] at hvar
      by_cases hloc : loc = a.loc
      · subst hloc
        rw [Function.update_self, Option.some.injEq] at hvar
        subst hvar
        exact hlogged
      · rw [Function.update_of_ne hloc] at hvar
        exact (h.histories loc var hvar).mono
    · have hcoverage := h.coverage fun k hk => hnone k (Nat.lt_succ_of_lt hk)
      intro i hi u b hopi
      rw [Memory.setNonAtomic_nonAtomics, hvars]
      rcases Nat.lt_succ_iff_lt_or_eq.mp hi with hlt | rfl
      · obtain ⟨var, hvar, hcovers⟩ := hcoverage i hlt u b hopi
        by_cases hloc : b.loc = a.loc
        · rw [hloc] at hvar ⊢
          refine ⟨_, Function.update_self _ _ _, ?_⟩
          exact hacc.covers_log (h.histories a.loc var hvar) hcovers
            (hcheck var (hvars ▸ hvar)) (hkeep var hvar)
        · refine ⟨var, ?_, hcovers.mono⟩
          rw [Function.update_of_ne hloc]
          exact hvar
      · rw [hop] at hopi
        cases hopi
        exact ⟨_, Function.update_self _ _ _, hacc.covers_self base⟩

theorem Detector.exec {races : List (Option OldAccess)}
    {race : Option OldAccess} (h : Detector tr races n m)
    (hroom : ∀ i, (timeline tr).tickCount (n + 1) i < epochSize)
    (hexec : m.exec (opAt tr n) = .ok (race, m'))
    (hrace : races[n]? = some race) : Detector tr races (n + 1) m' := by
  by_cases haccess : ∃ t a, opAt tr n = .access t a
  · obtain ⟨t, a, hop⟩ := haccess
    exact h.exec_access hroom hop hexec hrace
  · have hother : ∀ t a, opAt tr n ≠ .access t a :=
      fun t a hop => haccess ⟨t, a, hop⟩
    obtain ⟨_, hvars⟩ := exec_nonAtomics hother hexec
    refine ⟨h.tracks.exec hroom hexec, fun loc var hvar => ?_, fun hnone => ?_⟩
    · rw [hvars] at hvar
      exact (h.histories loc var hvar).mono
    · have hcoverage := h.coverage fun k hk => hnone k (Nat.lt_succ_of_lt hk)
      intro i hi u b hopi
      rcases Nat.lt_succ_iff_lt_or_eq.mp hi with hlt | rfl
      · obtain ⟨var, hvar, hcovers⟩ := hcoverage i hlt u b hopi
        exact ⟨var, hvars ▸ hvar, hcovers.mono⟩
      · exact absurd hopi (hother u b)

/-! ### Runs in which no epoch overflows -/

/-- No thread ticks `2 ^ 32` times. -/
def NoOverflow (tr : List Op) : Prop :=
  ∀ t, tr.countP (fun op => op.ticks && op.thread == t) < epochSize

theorem run_thread_pos {m₀ final : Memory} {races : List (Option OldAccess)}
    (hrun : Memory.run tr m₀ = .ok (races, final)) (hn : n < tr.length) :
    0 < (opAt tr n).thread := by
  obtain ⟨m, race, m', _, hexec, _⟩ := @Memory.run_invariant _ _ _ _
    (fun _ _ => True) hrun trivial (fun _ _ _ _ _ _ _ _ => trivial) n hn
  have hscoped := exec_wellScoped hexec
  cases hop : opAt tr n with
  | spawn p c =>
      simp only [hop, Op.wellScoped] at hscoped
      have hchild := (of_decide_eq_true hscoped).2.2
      rw [Op.thread, hchild]
      exact Nat.succ_pos _
  | wake w t =>
      simp only [hop, Op.wellScoped] at hscoped
      exact (of_decide_eq_true hscoped).2.2.1
  | _ =>
      simp only [hop, Op.wellScoped] at hscoped
      exact (of_decide_eq_true hscoped).1

theorem run_length {m₀ final : Memory} {races : List (Option OldAccess)}
    (hrun : Memory.run tr m₀ = .ok (races, final)) : races.length = tr.length := by
  induction tr generalizing m₀ races with
  | nil =>
      cases hrun
      rfl
  | cons op ops ih =>
      rw [Memory.run] at hrun
      cases hexec : m₀.exec op with
      | error e =>
          rw [hexec] at hrun
          cases hrun
      | ok first =>
          rw [hexec] at hrun
          obtain ⟨⟨rest, last⟩, hrest, heq⟩ := map_eq_ok hrun
          cases heq
          simp [ih hrest]

theorem tickCount_eq_countP (hpos : ∀ k < n, 0 < (opAt tr k).thread)
    (hn : n ≤ tr.length) (i : Nat) :
    (timeline tr).tickCount n i =
      (tr.take n).countP (fun op => op.ticks && op.thread == i + 1) := by
  induction n with
  | zero => simp [Timeline.tickCount]
  | succ n ih =>
      have hpos' := hpos n (Nat.lt_succ_self n)
      have hget : opAt tr n = tr[n] := by
        simp [opAt, List.getD_eq_getElem?_getD, List.getElem?_eq_getElem hn]
      rw [Timeline.tickCount, ih (fun k hk => hpos k (Nat.lt_succ_of_lt hk))
        (Nat.le_of_succ_le hn), List.take_succ_eq_append_getElem hn,
        List.countP_append, List.countP_singleton, ← hget]
      have hiff : ((timeline tr).ticks n = true ∧ (timeline tr).thread n = i) ↔
          ((opAt tr n).ticks && (opAt tr n).thread == i + 1) = true := by
        simp only [timeline, Bool.and_eq_true, beq_iff_eq]
        constructor
        · rintro ⟨hticks, hthread⟩
          exact ⟨hticks, by omega⟩
        · rintro ⟨hticks, hthread⟩
          exact ⟨hticks, by omega⟩
      simp only [hiff]

theorem NoOverflow.room {m₀ final : Memory} {races : List (Option OldAccess)}
    (h : NoOverflow tr) (hrun : Memory.run tr m₀ = .ok (races, final))
    (hn : n ≤ tr.length) (i : Nat) : (timeline tr).tickCount n i < epochSize := by
  have hpos : ∀ k < n, 0 < (opAt tr k).thread :=
    fun k hk => run_thread_pos hrun (Nat.lt_of_lt_of_le hk hn)
  rw [tickCount_eq_countP hpos hn]
  exact Nat.lt_of_le_of_lt (List.take_sublist n tr).countP_le (h (i + 1))

/-- The detector invariant holds around every operation of a run. -/
theorem run_detector {races : List (Option OldAccess)} {final : Memory}
    (hrun : Memory.run tr Memory.start = .ok (races, final))
    (hroom : NoOverflow tr) {j : Nat} (hj : j < tr.length) :
    ∃ m race m', Detector tr races j m ∧
      m.exec (opAt tr j) = .ok (race, m') ∧ races[j]? = some race := by
  apply Memory.run_invariant hrun Detector.start _ hj
  intro n m race m' hn hdet hexec hrace
  exact hdet.exec (hroom.room hrun hn) hexec hrace

end TwistSim
