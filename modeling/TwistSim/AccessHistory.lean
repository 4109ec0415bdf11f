/-
The shadow variables against a detector that keeps every access: the last write and
the last reads give the same answers as the whole history, while no epoch overflows.
-/
import TwistSim.RaceReports

namespace TwistSim

variable {tr : List Op} {n t : Nat} {m m' : Memory} {a : Access}

namespace Memory

/-- The record of an access, as it is made after the tick. -/
def recorded (m : Memory) : Op → List OldAccess
  | .access t a => [(m.ticked t).currAccess t a]
  | _ => []

/-- The records of all accesses of a run. -/
def history : List Op → Memory → List OldAccess
  | [], _ => []
  | op :: ops, m =>
      match m.exec op with
      | .error _ => []
      | .ok (_, m') => m.recorded op ++ history ops m'

/-- In the complete list there is a conflicting access of another thread whose epoch
exceeds what the current thread knows of it. -/
def FullRace (m : Memory) (log : List OldAccess) (t : ThreadId) (a : Access) : Prop :=
  ∃ old ∈ log, old.loc = a.loc ∧ old.thread ≠ t ∧ conflict old.type a.type = true ∧
    (m.sync t).current.get old.thread < old.epoch

/-- What is kept by every operation and its record holds after the run. -/
theorem run_logged {m₀ final : Memory} {races : List (Option OldAccess)}
    {P : Nat → Memory → List OldAccess → Prop}
    (hrun : Memory.run tr m₀ = .ok (races, final)) (hinit : P 0 m₀ [])
    (hstep : ∀ n m log race m', n < tr.length → P n m log →
      m.exec (opAt tr n) = .ok (race, m') → races[n]? = some race →
      P (n + 1) m' (log ++ m.recorded (opAt tr n))) :
    P tr.length final (history tr m₀) := by
  induction tr generalizing m₀ races P with
  | nil =>
      cases hrun
      exact hinit
  | cons op ops ih =>
      rw [Memory.run] at hrun
      rw [history]
      cases hexec : m₀.exec op with
      | error e =>
          rw [hexec] at hrun
          cases hrun
      | ok first =>
          obtain ⟨race, m₁⟩ := first
          rw [hexec] at hrun
          obtain ⟨⟨rest, last⟩, hrest, heq⟩ := map_eq_ok hrun
          cases heq
          refine @ih m₁ rest (fun n m log => P (n + 1) m (m₀.recorded op ++ log)) hrest ?_ ?_
          · rw [List.append_nil]
            exact hstep 0 m₀ [] race m₁ (Nat.succ_pos _) hinit hexec rfl
          · intro n m log race' m' hn hP hexec' hrace
            rw [← List.append_assoc]
            exact hstep (n + 1) m _ race' m' (Nat.succ_lt_succ hn) hP hexec' hrace

end Memory

/-- The list has a record of every access so far, and no others. -/
structure Logged (tr : List Op) (n : Nat) (log : List OldAccess) : Prop where
  sound : ∀ old ∈ log, ∃ i, Recorded tr n old i
  complete : ∀ i < n, ∀ u a, opAt tr i = .access u a → ∃ old ∈ log, Recorded tr n old i

theorem Logged.nil : Logged tr 0 [] where
  sound old hold := by cases hold
  complete i hi := absurd hi (Nat.not_lt_zero i)

theorem Recorded.unique {old old' : OldAccess} {i : Nat} (h : Recorded tr n old i)
    (h' : Recorded tr n old' i) : old = old' := by
  obtain ⟨loc, type, thread, epoch, src⟩ := old
  obtain ⟨loc', type', thread', epoch', src'⟩ := old'
  obtain ⟨-, b, hop, rfl, rfl, rfl, rfl⟩ := h
  obtain ⟨-, b', hop', rfl, rfl, rfl, rfl⟩ := h'
  rw [hop] at hop'
  cases hop'
  rfl

theorem Logged.idle {log : List OldAccess} (h : Logged tr n log)
    (hop : ∀ u a, opAt tr n ≠ .access u a) : Logged tr (n + 1) log where
  sound old hold := by
    obtain ⟨i, hi⟩ := h.sound old hold
    exact ⟨i, hi.mono (Nat.le_succ n)⟩
  complete i hi u a hopi := by
    rcases Nat.lt_succ_iff_lt_or_eq.mp hi with hlt | rfl
    · obtain ⟨old, hmem, hold⟩ := h.complete i hlt u a hopi
      exact ⟨old, hmem, hold.mono (Nat.le_succ n)⟩
    · exact absurd hopi (hop u a)

theorem Logged.access {log : List OldAccess} {old : OldAccess} (h : Logged tr n log)
    (hold : Recorded tr (n + 1) old n) : Logged tr (n + 1) (log ++ [old]) where
  sound old' hmem := by
    rcases List.mem_append.mp hmem with hmem | hmem
    · obtain ⟨i, hi⟩ := h.sound old' hmem
      exact ⟨i, hi.mono (Nat.le_succ n)⟩
    · rw [List.mem_singleton.mp hmem]
      exact ⟨n, hold⟩
  complete i hi u a hopi := by
    rcases Nat.lt_succ_iff_lt_or_eq.mp hi with hlt | rfl
    · obtain ⟨old', hmem, hold'⟩ := h.complete i hlt u a hopi
      exact ⟨old', List.mem_append_left _ hmem, hold'.mono (Nat.le_succ n)⟩
    · exact ⟨old, List.mem_append_right _ (List.mem_singleton_self old), hold⟩

theorem Logged.exec {races : List (Option OldAccess)} {race : Option OldAccess}
    {log : List OldAccess} (h : Logged tr n log) (hdet : Detector tr races n m)
    (hroom : ∀ i, (timeline tr).tickCount (n + 1) i < epochSize)
    (hexec : m.exec (opAt tr n) = .ok (race, m')) :
    Logged tr (n + 1) (log ++ m.recorded (opAt tr n)) := by
  by_cases haccess : ∃ t a, opAt tr n = .access t a
  · obtain ⟨t, a, hop⟩ := haccess
    obtain ⟨m₁, hacc, -, -, hticked⟩ := hdet.accessing hroom hop hexec
    have hscoped := exec_wellScoped hexec
    rw [hop] at hscoped
    have heq : m.ticked t = m₁ := by
      have hle : t ≤ m.threadCount := (of_decide_eq_true hscoped).2
      rw [Memory.tick_eq hle] at hticked
      exact Except.ok.inj hticked
    rw [hop, Memory.recorded, heq]
    exact h.access hacc.recorded
  · have hother : ∀ t a, opAt tr n ≠ .access t a := fun t a hop => haccess ⟨t, a, hop⟩
    have hnone : m.recorded (opAt tr n) = [] := by
      unfold Memory.recorded
      split
      · rename_i t a hop
        exact absurd hop (hother t a)
      · rfl
    rw [hnone, List.append_nil]
    exact h.idle hother

/-- What is reported was recorded, and conflicts. -/
theorem History.of_reported {var : NonAtomicVar} {race : OldAccess}
    (h : History tr n a.loc var) (hcheck : m.checkDataRaces t var a = some race) :
    race.loc = a.loc ∧ race.thread ≠ t ∧ Memory.conflict race.type a.type = true ∧
      ∃ i, Recorded tr n race i := by
  obtain ⟨-, ⟨hlast, hne⟩ | ⟨hwrite, u, hne, hlast⟩⟩ := checkDataRaces_some hcheck
  · obtain ⟨hloc, hwrite, hrec⟩ := h.lastWrite race hlast
    exact ⟨hloc, hne, by rw [Memory.conflict, hwrite, Bool.true_or], hrec⟩
  · obtain ⟨hloc, hthread, hrec⟩ := h.lastRead u race hlast
    exact ⟨hloc, hthread ▸ hne, by rw [Memory.conflict, hwrite, Bool.or_true], hrec⟩

/-- While no epoch overflows and nothing was reported, an access is reported exactly if
the complete list of accesses shows a race. -/
theorem history_compressed {races : List (Option OldAccess)} {race : Option OldAccess}
    (hrun : Memory.run tr Memory.start = .ok (races, m))
    (hnone : ∀ race ∈ races, race = none)
    (hexec : m.exec (.access t a) = .ok (race, m'))
    (hroom : NoOverflow (tr ++ [Op.access t a])) :
    race.isSome = true ↔
      (m.ticked t).FullRace (Memory.history tr Memory.start) t a := by
  have hrun' : Memory.run (tr ++ [Op.access t a]) Memory.start = .ok (races ++ [race], m') :=
    run_append hrun (run_cons hexec rfl)
  have hlength := run_length hrun
  have hlen : tr.length < (tr ++ [Op.access t a]).length := by
    rw [List.length_append]
    exact Nat.lt_succ_self _
  have hop : opAt (tr ++ [Op.access t a]) tr.length = .access t a :=
    opAt_append_right tr [Op.access t a] 0
  obtain ⟨hdet, hlogged⟩ : Detector (tr ++ [Op.access t a]) (races ++ [race]) tr.length m ∧
      Logged (tr ++ [Op.access t a]) tr.length (Memory.history tr Memory.start) := by
    refine @Memory.run_logged _ _ _ _ (fun n m log =>
      Detector (tr ++ [Op.access t a]) (races ++ [race]) n m ∧
        Logged (tr ++ [Op.access t a]) n log) hrun ⟨Detector.start, Logged.nil⟩ ?_
    · rintro n m log race' m' hn ⟨hdet, hlogged⟩ hexec' hrace
      rw [← @opAt_append_left tr [Op.access t a] n hn] at hexec' ⊢
      have hroom' := hroom.room hrun' (Nat.lt_trans hn hlen)
      refine ⟨hdet.exec hroom' hexec' ?_, hlogged.exec hdet hroom' hexec'⟩
      rw [List.getElem?_append_left (by rw [hlength]; exact hn)]
      exact hrace
  have hscoped := exec_wellScoped hexec
  rw [← hop] at hexec
  obtain ⟨m₁, hacc, hvars, hok, hticked⟩ :=
    hdet.accessing (hroom.room hrun' hlen) hop hexec
  have heq : m.ticked t = m₁ := by
    have hle : t ≤ m.threadCount := (of_decide_eq_true hscoped).2
    rw [Memory.tick_eq hle] at hticked
    exact Except.ok.inj hticked
  rw [heq]
  constructor
  · intro hsome
    obtain ⟨r, rfl⟩ := Option.isSome_iff_exists.mp hsome
    obtain ⟨m₂, hticked₂, ⟨_, var, r', hr, hvar, hcheck⟩ | ⟨_, hr, _⟩⟩ :=
      accessNonAtomicVar_cases hok
    · cases hr
      rw [hticked] at hticked₂
      cases hticked₂
      obtain ⟨hloc, hne, hconflict, i, hrec⟩ :=
        (hdet.histories a.loc var (hvars ▸ hvar)).of_reported hcheck
      -- The record that the shadow variable has is in the list.
      obtain ⟨hi, b, hopi, -⟩ := id hrec
      obtain ⟨old, hmem, hold⟩ := hlogged.complete i hi _ _ hopi
      have hlate := (checkDataRaces_some hcheck).1
      rw [Memory.happensBefore, decide_eq_false_iff_not, Nat.not_le] at hlate
      exact ⟨r, hold.unique hrec ▸ hmem, hloc, hne, hconflict, hlate⟩
    · cases hr
  · rintro ⟨old, hmem, hloc, hne, hconflict, hlate⟩
    obtain ⟨i, hrec⟩ := hlogged.sound old hmem
    have hunordered : ¬ HappensBefore .folded (tr ++ [Op.access t a]) i tr.length := by
      rw [← hacc.happensBefore_iff hrec, Memory.happensBefore, decide_eq_true_eq, Nat.not_le]
      exact hlate
    obtain ⟨hi, b, hopi, hbloc, hbtype, -⟩ := hrec
    have hconflicting : Conflicting (tr ++ [Op.access t a]) i tr.length := by
      simp only [Conflicting, hopi, hop]
      exact ⟨hne, hbloc.trans hloc, hbtype ▸ hconflict⟩
    obtain ⟨k, hk, r, hr⟩ := race_detected hrun' hroom hi hlen hconflicting hunordered
    rcases Nat.lt_or_eq_of_le hk with hlt | rfl
    · rw [List.getElem?_append_left (by rw [hlength]; exact hlt)] at hr
      cases hnone _ (List.mem_of_getElem? hr)
    · rw [← hlength, List.getElem?_concat_length, Option.some.injEq] at hr
      rw [hr]
      rfl

theorem history_compressed_unordered :
    ∃ races race m m',
      Memory.run [.spawn 1 2, .access 1 ⟨32, .init, here⟩] Memory.start = .ok (races, m) ∧
      m.exec (.access 2 ⟨32, .read, here⟩) = .ok (some race, m') ∧
      (m.ticked 2).FullRace (Memory.history
        [.spawn 1 2, .access 1 ⟨32, .init, here⟩] Memory.start) 2 ⟨32, .read, here⟩ := by
  have hlen : ([Op.spawn 1 2, Op.access 1 ⟨32, .init, here⟩] ++
      [Op.access 2 ⟨32, .read, here⟩]).length < epochSize := by decide
  have hnone : ∀ race ∈ [none, none], race = (none : Option OldAccess) := by decide
  refine ⟨[none, none], ⟨32, .init, 1, 1, here⟩, _, _, rfl, rfl, ?_⟩
  exact (history_compressed rfl hnone rfl (noOverflow_of_length hlen)).mp rfl

/-! ### A write that is forgotten -/

/-- Fences of thread 1, an access of it with the last epoch, a fence with epoch 0, a
write with epoch 1, and the spawn of thread 2. -/
def forgottenAfter (count : Nat) : List Op :=
  List.replicate count releaseFence ++
    [.access 1 ⟨32, .init, here⟩, releaseFence, .access 1 ⟨32, .write, here⟩, .spawn 1 2]

/-- Thread 1 is alone, and its clock has ticked `k` times. -/
structure Solo (k : Nat) (m : Memory) : Prop where
  count : m.threadCount = 1
  clock : (m.sync 1).current 0 % epochSize = k % epochSize
  epoch : (m.sync 1).epoch % epochSize = k % epochSize

section Solo

variable {k count : Nat} {var : NonAtomicVar} {old : OldAccess}

theorem Solo.ticked (h : Solo k m) : Solo (k + 1) (m.ticked 1) ∧
    ((m.ticked 1).sync 1).epoch = (k + 1) % epochSize ∧
    ((m.ticked 1).sync 1).current 0 = (k + 1) % epochSize := by
  have hclock : ((m.sync 1).current 0 + 1) % epochSize = (k + 1) % epochSize := by
    rw [← Nat.mod_add_mod, h.clock, Nat.mod_add_mod]
  have hepoch : ((m.sync 1).epoch + 1) % epochSize = (k + 1) % epochSize := by
    rw [← Nat.mod_add_mod, h.epoch, Nat.mod_add_mod]
  have hclock' : ((m.ticked 1).sync 1).current 0 = (k + 1) % epochSize := by
    simp [Memory.ticked, hclock]
  have hepoch' : ((m.ticked 1).sync 1).epoch = (k + 1) % epochSize := by
    simp [Memory.ticked, hepoch]
  refine ⟨⟨h.count, ?_, ?_⟩, hepoch', hclock'⟩
  · rw [hclock', Nat.mod_mod]
  · rw [hepoch', Nat.mod_mod]

theorem Solo.fences (count : Nat) : ∃ m,
    Memory.run (List.replicate count releaseFence) Memory.start =
      .ok (List.replicate count none, m) ∧
    Solo count m ∧ m.nonAtomics 32 = none := by
  obtain ⟨m, hrun, hcount, hvars, -, hclock, hepoch⟩ :=
    @run_fences count Memory.start (by decide)
  refine ⟨m, hrun, ⟨hcount, ?_, ?_⟩, by rw [hvars]; rfl⟩
  · rw [hclock]
    exact congrArg (· % epochSize) (Nat.zero_add count)
  · rw [hepoch]
    exact congrArg (· % epochSize) (Nat.zero_add count)

theorem Solo.fence (h : Solo k m) : ∃ m', m.exec releaseFence = .ok (none, m') ∧
    Solo (k + 1) m' ∧ m'.nonAtomics = m.nonAtomics := by
  have hexec := @exec_releaseFence m (by rw [h.count]; exact Nat.one_pos)
  have hticked := h.ticked.1
  refine ⟨_, hexec, ⟨hticked.count, ?_, ?_⟩, rfl⟩
  · simpa [Memory.fenceRelease] using hticked.clock
  · simpa [Memory.fenceRelease] using hticked.epoch

theorem Solo.recorded (h : Solo k m) (type : AccessType) :
    (m.ticked 1).currAccess 1 ⟨32, type, here⟩ =
      ⟨32, type, 1, (k + 1) % epochSize, here⟩ := by
  rw [Memory.currAccess, h.ticked.2.1]

theorem Solo.init (h : Solo k m) (hvar : m.nonAtomics 32 = none) : ∃ m',
    m.exec (.access 1 ⟨32, .init, here⟩) = .ok (none, m') ∧ Solo (k + 1) m' ∧
      m'.nonAtomics 32 = some ((NonAtomicVar.init here).log
        ⟨32, .init, 1, (k + 1) % epochSize, here⟩) := by
  have hexec := exec_init Nat.one_pos (Nat.le_of_eq h.count.symm) hvar
  have hticked := h.ticked.1
  refine ⟨_, hexec, ⟨hticked.count, hticked.clock, hticked.epoch⟩, ?_⟩
  rw [h.recorded, Memory.setNonAtomic_nonAtomics, Function.update_self]

set_option linter.unusedSimpArgs false in
/-- A write, where only thread 1 has written and nobody has read. -/
theorem Solo.write (h : Solo k m) (hvar : m.nonAtomics 32 = some var)
    (hwrite : var.lastWrite = some old) (hthread : old.thread = 1) : ∃ m',
    m.exec (.access 1 ⟨32, .write, here⟩) = .ok (none, m') ∧ Solo (k + 1) m' ∧
      m'.nonAtomics 32 = some (var.log ⟨32, .write, 1, (k + 1) % epochSize, here⟩) ∧
      (m'.sync 1).current 0 = (k + 1) % epochSize := by
  have hvar' : (m.ticked 1).nonAtomics 32 = some var := hvar
  have hcount : (m.ticked 1).threadCount = 1 := h.count
  have hcheck : (m.ticked 1).checkDataRaces 1 var ⟨32, .write, here⟩ = none := by
    simp [Memory.checkDataRaces, Memory.isRace, Memory.raceWithReads, hwrite, hthread,
      hcount, h.count, Option.filter]
  have hexec : m.exec (.access 1 ⟨32, .write, here⟩) =
      .ok (none, (m.ticked 1).setNonAtomic 32
        (var.log ((m.ticked 1).currAccess 1 ⟨32, .write, here⟩))) := by
    simp [Memory.exec, Op.wellScoped, Op.thread, Memory.accessNonAtomicVar,
      Memory.tick_eq (Nat.le_of_eq h.count.symm), Memory.accessLiveNonAtomicVar, hvar',
      hcheck, h.count]
  have hticked := h.ticked.1
  refine ⟨_, hexec, ⟨hticked.count, hticked.clock, hticked.epoch⟩, ?_, h.ticked.2.2⟩
  rw [h.recorded, Memory.setNonAtomic_nonAtomics, Function.update_self]

theorem history_cons {op : Op} {ops : List Op} {race : Option OldAccess}
    (h : m.exec op = .ok (race, m')) :
    Memory.history (op :: ops) m = m.recorded op ++ Memory.history ops m' := by
  rw [Memory.history, h]

theorem mem_history_append {ops rest : List Op} {races : List (Option OldAccess)}
    (hrun : Memory.run ops m = .ok (races, m')) (hold : old ∈ Memory.history rest m') :
    old ∈ Memory.history (ops ++ rest) m := by
  induction ops generalizing m races with
  | nil =>
      cases hrun
      exact hold
  | cons op ops ih =>
      rw [Memory.run] at hrun
      cases hexec : m.exec op with
      | error e =>
          rw [hexec] at hrun
          cases hrun
      | ok first =>
          rw [hexec] at hrun
          obtain ⟨⟨races₂, last⟩, hops, heq⟩ := map_eq_ok hrun
          cases heq
          rw [List.cons_append, history_cons hexec]
          exact List.mem_append_right _ (ih hops)

/-- If the clock of thread 1 is back at 0 after its first access, thread 2 is compared
with the write only, and not reported. -/
theorem forgottenAfter_run (hwrap : (count + 2) % epochSize = 0) :
    ∃ races m m',
      Memory.run (forgottenAfter count) Memory.start = .ok (races, m) ∧
      (∀ race ∈ races, race = none) ∧
      m.exec (.access 2 ⟨32, .read, here⟩) = .ok (none, m') ∧
      (m.ticked 2).FullRace (Memory.history (forgottenAfter count) Memory.start) 2
        ⟨32, .read, here⟩ := by
  have hlast : (count + 1) % epochSize = epochSize - 1 := by
    unfold epochSize at *
    omega
  have hfirst : (count + 3) % epochSize = 1 := by
    unfold epochSize at *
    omega
  obtain ⟨m₁, hfences, hsolo₁, hvar₁⟩ := Solo.fences count
  obtain ⟨m₂, hinit, hsolo₂, hvar₂⟩ := hsolo₁.init hvar₁
  obtain ⟨m₃, hfence, hsolo₃, hvars₃⟩ := hsolo₂.fence
  rw [← hvars₃] at hvar₂
  obtain ⟨m₄, hwrite, hsolo₄, hvar₄, hclock₄⟩ := hsolo₃.write hvar₂ rfl rfl
  obtain ⟨m₅, hspawn, hcount₅, hvars₅, hclock₅⟩ := exec_spawn_second hsolo₄.count
  rw [← hvars₅] at hvar₄
  obtain ⟨m₆, hread⟩ := exec_read (Nat.le_of_eq hcount₅.symm) hvar₄ rfl rfl
  -- What thread 2 knows of thread 1 is the last tick of its clock.
  have hknown : (m₅.sync 2).current 0 = 1 := (hclock₅.trans hclock₄).trans hfirst
  rw [hknown, if_pos (Nat.le_of_eq hfirst)] at hread
  have htail := run_cons hinit (run_cons hfence (run_cons hwrite
    (run_cons hspawn (@rfl _ (Memory.run [] m₅)))))
  refine ⟨_, m₅, m₆, run_append hfences htail, ?_, hread,
    ⟨32, .init, 1, (count + 1) % epochSize, here⟩, ?_, rfl, Nat.ne_of_lt (Nat.lt_succ_self 1), rfl, ?_⟩
  · intro race hmem
    rcases List.mem_append.mp hmem with hmem | hmem
    · exact List.eq_of_mem_replicate hmem
    · simpa using hmem
  · refine mem_history_append hfences ?_
    rw [history_cons hinit, Memory.recorded, hsolo₁.recorded]
    exact List.mem_append_left _ (List.mem_singleton_self _)
  · have hclock : ((m₅.ticked 2).sync 2).current.get 1 = (m₅.sync 2).current 0 := by
      simp [Memory.ticked, VectorClock.get]
    change ((m₅.ticked 2).sync 2).current.get 1 < (count + 1) % epochSize
    rw [hclock, hknown, hlast]
    decide

end Solo

/-- After an overflow the complete list shows a race that is not reported. -/
theorem history_forgotten : ¬ ∀ (tr : List Op) (races : List (Option OldAccess))
    (m m' : Memory) (t : ThreadId) (a : Access) (race : Option OldAccess),
    Memory.run tr Memory.start = .ok (races, m) → (∀ race ∈ races, race = none) →
    m.exec (.access t a) = .ok (race, m') →
    (race.isSome = true ↔
      (m.ticked t).FullRace (Memory.history tr Memory.start) t a) := by
  intro hclaim
  have hwrap : (fencesToLastEpoch + 2) % epochSize = 0 := by decide
  obtain ⟨races, m, m', hrun, hnone, hexec, hrace⟩ := forgottenAfter_run hwrap
  exact Bool.noConfusion ((hclaim _ _ _ _ _ _ _ hrun hnone hexec).mpr hrace)

end TwistSim
