/-
What the threads know of the accesses made so far, by their vector clocks, and
what the operations of the memory model pass on.  As long as no clock overflows,
nothing that is known is forgotten.
-/
import TwistSim.RaceDetection

namespace TwistSim

namespace Memory

/-- No component of a thread's clocks is about to overflow. -/
def Roomy (m : Memory) : Prop :=
  ∀ t < m.threadCount + 1, ∀ i < m.threadCount + 1,
    (m.sync t).current i + 1 < epochSize ∧ (m.sync t).release i + 1 < epochSize

instance (m : Memory) : Decidable m.Roomy := by
  unfold Roomy
  infer_instance

/-- The access happens before what thread `t` does next. -/
def Knows (m : Memory) (t : ThreadId) (a : OldAccess) : Prop :=
  a.epoch ≤ (m.sync t).current.get a.thread

/-- Thread `t` will know of the access after an acquire fence. -/
def Observed (m : Memory) (t : ThreadId) (a : OldAccess) : Prop :=
  a.epoch ≤ (m.sync t).acquire.get a.thread

/-- Who acquires from the last store of `loc` will know of the access. -/
def Carries (m : Memory) (loc : Addr) (a : OldAccess) : Prop :=
  ∃ atomic, m.atomics loc = some atomic ∧
    a.epoch ≤ atomic.lastStore.clock.get a.thread

/-- The access is one of a thread that exists. -/
def Attributed (m : Memory) (a : OldAccess) : Prop :=
  0 < a.thread ∧ a.thread ≤ m.threadCount

/-- The live atomic at `loc` has the value. -/
def Word (m : Memory) (loc : Addr) (value : Nat) : Prop :=
  ∃ atomic, m.atomics loc = some atomic ∧ atomic.dtor = false ∧
    atomic.lastStore.value = value

/-- Every thread knows of what it did itself. -/
def OwnEpochs (m : Memory) : Prop :=
  ∀ t ≤ m.threadCount, (m.sync t).epoch ≤ (m.sync t).current (t - 1)

/-- Threads never forget. -/
structure Grows (m m' : Memory) : Prop where
  threadCount : m.threadCount ≤ m'.threadCount
  current : ∀ t ≤ m.threadCount, ∀ i, (m.sync t).current i ≤ (m'.sync t).current i
  acquire : ∀ t ≤ m.threadCount, ∀ i, (m.sync t).acquire i ≤ (m'.sync t).acquire i
  own : m.OwnEpochs → m'.OwnEpochs

variable {m m' m'' : Memory} {t u : ThreadId} {loc : Addr} {a : OldAccess}
  {value : Nat} {action : Action}

theorem happensBefore_iff : m.happensBefore a t = true ↔ m.Knows t a := by
  rw [happensBefore, decide_eq_true_iff, Knows]

/-- The value of the live atomic at `loc`. -/
def word (m : Memory) (loc : Addr) : Option Nat :=
  match m.atomics loc with
  | some atomic => if atomic.dtor then none else some atomic.lastStore.value
  | none => none

theorem word_iff : m.word loc = some value ↔ m.Word loc value := by
  constructor
  · intro h
    unfold word at h
    cases hatomic : m.atomics loc with
    | none => simp only [hatomic, reduceCtorEq] at h
    | some atomic =>
        by_cases hdtor : atomic.dtor = true
        · simp only [hatomic, hdtor, if_true, reduceCtorEq] at h
        · simp only [hatomic, hdtor, Bool.false_eq_true, if_false,
            Option.some.injEq] at h
          exact ⟨atomic, hatomic, Bool.eq_false_of_not_eq_true hdtor, h⟩
  · rintro ⟨atomic, hatomic, hdtor, rfl⟩
    simp only [word, hatomic, hdtor, Bool.false_eq_true, if_false]

instance (m : Memory) (loc : Addr) (value : Nat) : Decidable (m.Word loc value) :=
  decidable_of_iff (m.word loc = some value) word_iff

theorem Word.unique {value' : Nat} (h : m.Word loc value) (h' : m.Word loc value') :
    value = value' := by
  obtain ⟨atomic, hatomic, -, rfl⟩ := h
  obtain ⟨atomic', hatomic', -, rfl⟩ := h'
  rw [hatomic] at hatomic'
  cases hatomic'
  rfl

theorem Word.congr (h : m.Word loc value) (hsame : m'.atomics loc = m.atomics loc) :
    m'.Word loc value := by
  obtain ⟨atomic, hatomic, hrest⟩ := h
  exact ⟨atomic, hsame.trans hatomic, hrest⟩

theorem Carries.congr (h : m.Carries loc a) (hsame : m'.atomics loc = m.atomics loc) :
    m'.Carries loc a := by
  obtain ⟨atomic, hatomic, hrest⟩ := h
  exact ⟨atomic, hsame.trans hatomic, hrest⟩

theorem Grows.refl (m : Memory) : m.Grows m :=
  ⟨Nat.le_refl _, fun _ _ _ => Nat.le_refl _, fun _ _ _ => Nat.le_refl _, id⟩

theorem Grows.trans (h : m.Grows m') (h' : m'.Grows m'') : m.Grows m'' where
  threadCount := h.threadCount.trans h'.threadCount
  current t ht i := (h.current t ht i).trans (h'.current t (ht.trans h.threadCount) i)
  acquire t ht i := (h.acquire t ht i).trans (h'.acquire t (ht.trans h.threadCount) i)
  own hown := h'.own (h.own hown)

theorem Grows.knows (h : m.Grows m') (ht : t ≤ m.threadCount) (hknows : m.Knows t a) :
    m'.Knows t a :=
  Nat.le_trans hknows (h.current t ht _)

theorem Grows.observed (h : m.Grows m') (ht : t ≤ m.threadCount)
    (hobserved : m.Observed t a) : m'.Observed t a :=
  Nat.le_trans hobserved (h.acquire t ht _)

theorem Grows.attributed (h : m.Grows m') (ha : m.Attributed a) : m'.Attributed a :=
  ⟨ha.1, ha.2.trans h.threadCount⟩

theorem Grows.of_sync (hcount : m'.threadCount = m.threadCount)
    (hsync : m'.sync = m.sync) : m.Grows m' where
  threadCount := Nat.le_of_eq hcount.symm
  current t _ i := by rw [hsync]
  acquire t _ i := by rw [hsync]
  own hown := by
    intro t ht
    rw [hsync]
    exact hown t (hcount ▸ ht)

/-- One thread has learnt something. -/
theorem Grows.setSync {ctx : ThreadContext}
    (hcurrent : ∀ i, (m.sync t).current i ≤ ctx.current i)
    (hacquire : ∀ i, (m.sync t).acquire i ≤ ctx.acquire i)
    (hown : (m.sync t).epoch ≤ (m.sync t).current (t - 1) →
      ctx.epoch ≤ ctx.current (t - 1)) :
    m.Grows (m.setSync t ctx) where
  threadCount := Nat.le_refl _
  current u _ i := by
    by_cases hu : u = t
    · subst hu
      rw [setSync_sync_self]
      exact hcurrent i
    · rw [setSync_sync_of_ne _ _ _ hu]
  acquire u _ i := by
    by_cases hu : u = t
    · subst hu
      rw [setSync_sync_self]
      exact hacquire i
    · rw [setSync_sync_of_ne _ _ _ hu]
  own hepochs u hu := by
    by_cases hut : u = t
    · subst hut
      rw [setSync_sync_self]
      exact hown (hepochs u hu)
    · rw [setSync_sync_of_ne _ _ _ hut]
      exact hepochs u hu

/-! ### Clocks -/

theorem le_join (n : Nat) (v w : VectorClock) (i : Nat) : v i ≤ v.join n w i := by
  rw [VectorClock.join]
  split
  · exact Nat.le_max_left _ _
  · exact Nat.le_refl _

theorem le_join_right {n i : Nat} (hi : i < n) (v w : VectorClock) :
    w i ≤ v.join n w i := by
  rw [VectorClock.join, if_pos hi]
  exact Nat.le_max_right _ _

theorem Attributed.lt (h : m.Attributed a) : a.thread - 1 < m.threadCount :=
  Nat.lt_of_lt_of_le (Nat.sub_lt h.1 Nat.one_pos) h.2

/-- The thread's own component does not overflow. -/
def HasRoom (m : Memory) (t : ThreadId) : Prop :=
  (m.sync t).current (t - 1) + 1 < epochSize

theorem Roomy.hasRoom (h : m.Roomy) (ht : t ≤ m.threadCount) : m.HasRoom t :=
  (h t (Nat.lt_succ_of_le ht) (t - 1)
    (Nat.lt_succ_of_le ((Nat.sub_le t 1).trans ht))).1

theorem tick_ok (h : m.tick t = .ok m') : t ≤ m.threadCount ∧ m' = m.ticked t := by
  by_cases ht : t ≤ m.threadCount
  · rw [tick_eq ht] at h
    cases h
    exact ⟨ht, rfl⟩
  · unfold tick VectorClock.tick at h
    rw [if_neg ht] at h
    cases h

theorem ticked_grows (h : m.HasRoom t) : m.Grows (m.ticked t) := by
  refine Grows.setSync (fun i => ?_) (fun i => Nat.le_refl _) fun hown => ?_
  · dsimp only
    by_cases hi : i = t - 1
    · subst hi
      rw [Function.update_self, Nat.mod_eq_of_lt h]
      exact Nat.le_succ _
    · rw [Function.update_of_ne hi]
  · dsimp only
    rw [Function.update_self, Nat.mod_eq_of_lt h]
    exact (Nat.mod_le _ _).trans (Nat.succ_le_succ hown)

@[simp] theorem ticked_atomics : (m.ticked t).atomics = m.atomics := rfl

@[simp] theorem ticked_threadCount : (m.ticked t).threadCount = m.threadCount := rfl

/-! ### What a synchronization action does -/

theorem syncCall_ok (h : m.syncCall t action = .ok (value, m')) :
    t ≤ m.threadCount ∧ (m.ticked t).syncAction t action = .ok (value, m') := by
  unfold syncCall at h
  cases htick : m.tick t with
  | error e =>
      rw [htick] at h
      cases h
  | ok m₁ =>
      rw [htick] at h
      obtain ⟨ht, rfl⟩ := tick_ok htick
      exact ⟨ht, h⟩

theorem fenceAcquire_grows : m.Grows (m.fenceAcquire t) :=
  Grows.setSync (fun i => le_join _ _ _ i) (fun _ => Nat.le_refl _)
    fun hown => hown.trans (le_join _ _ _ _)

theorem fenceRelease_grows : m.Grows (m.fenceRelease t) :=
  Grows.setSync (fun _ => Nat.le_refl _) (fun _ => Nat.le_refl _) id

theorem atomicLoadRelaxed_grows {atomic : AtomicVar} :
    m.Grows (m.atomicLoadRelaxed t atomic).2 :=
  Grows.setSync (fun _ => Nat.le_refl _) (fun i => le_join _ _ _ i) id

theorem getShadowAtomicVar_live {atomic : AtomicVar}
    (h : m.getShadowAtomicVar action = .ok atomic) :
    m.atomics action.loc = some atomic ∧ atomic.dtor = false := by
  have hatomic := getShadowAtomicVar_ok h
  refine ⟨hatomic, ?_⟩
  unfold getShadowAtomicVar at h
  rw [hatomic] at h
  by_cases hdtor : atomic.dtor = true
  · simp [hdtor, invalidAccess] at h
  · simpa using hdtor

/-- A load, and the fence that belongs to an acquire load. -/
theorem loadThenFence_ok (h : m.loadThenFence t action = .ok (value, m')) :
    ∃ atomic, m.atomics action.loc = some atomic ∧ atomic.dtor = false ∧
      value = atomic.lastStore.value ∧
      m' = if action.mo.isAcquireOrder then
          (m.atomicLoadRelaxed t atomic).2.fenceAcquire t
        else (m.atomicLoadRelaxed t atomic).2 := by
  unfold loadThenFence at h
  cases hshadow : m.getShadowAtomicVar action with
  | error e =>
      rw [hshadow] at h
      cases h
  | ok atomic =>
      rw [hshadow] at h
      cases h
      obtain ⟨hatomic, hdtor⟩ := getShadowAtomicVar_live hshadow
      exact ⟨atomic, hatomic, hdtor, rfl, rfl⟩

/-- A write, after the fence that belongs to a release write. -/
theorem fenceThenWrite_ok {write : Memory → AtomicVar → Memory}
    (h : m.fenceThenWrite t action write = .ok m') :
    ∃ atomic, m.atomics action.loc = some atomic ∧ atomic.dtor = false ∧
      m' = write (if action.mo.isReleaseOrder then m.fenceRelease t else m) atomic := by
  obtain ⟨atomic, hshadow, rfl⟩ := map_eq_ok h
  obtain ⟨hatomic, hdtor⟩ := getShadowAtomicVar_live hshadow
  exact ⟨atomic, hatomic, hdtor, rfl⟩

theorem loadThenFence_grows (h : m.loadThenFence t action = .ok (value, m')) :
    m.Grows m' := by
  obtain ⟨atomic, _, _, _, rfl⟩ := loadThenFence_ok h
  split
  · exact atomicLoadRelaxed_grows.trans fenceAcquire_grows
  · exact atomicLoadRelaxed_grows

theorem fenceThenWrite_grows {write : Memory → AtomicVar → Memory}
    (h : m.fenceThenWrite t action write = .ok m')
    (hwrite : ∀ m atomic, (write m atomic).sync = m.sync ∧
      (write m atomic).threadCount = m.threadCount) : m.Grows m' := by
  obtain ⟨atomic, _, _, rfl⟩ := fenceThenWrite_ok h
  obtain ⟨hsync, hcount⟩ :=
    hwrite (if action.mo.isReleaseOrder then m.fenceRelease t else m) atomic
  refine Grows.trans ?_ (Grows.of_sync hcount hsync)
  split
  · exact fenceRelease_grows
  · exact Grows.refl m

theorem atomicThreadFence_grows (h : m.atomicThreadFence t action = .ok m') :
    m.Grows m' ∧ m'.atomics = m.atomics := by
  unfold atomicThreadFence at h
  split at h
  · cases h
    exact ⟨fenceAcquire_grows, rfl⟩
  · cases h
    exact ⟨fenceRelease_grows, rfl⟩
  · cases h
    exact ⟨fenceAcquire_grows.trans fenceRelease_grows, rfl⟩
  · cases h

theorem syncAction_grows (h : m.syncAction t action = .ok (value, m')) : m.Grows m' := by
  unfold syncAction at h
  split at h
  · cases h
    exact Grows.of_sync rfl rfl
  · obtain ⟨_, h, heq⟩ := map_eq_ok h
    cases heq
    obtain ⟨_, _, rfl⟩ := map_eq_ok h
    exact Grows.of_sync rfl rfl
  · unfold atomicLoad at h
    split at h
    · exact loadThenFence_grows h
    · cases h
  · obtain ⟨_, _, heq⟩ := map_eq_ok h
    cases heq
    exact Grows.refl m
  · obtain ⟨_, h, heq⟩ := map_eq_ok h
    cases heq
    unfold atomicStore at h
    split at h
    · exact fenceThenWrite_grows h fun _ _ => ⟨rfl, rfl⟩
    · cases h
  · exact loadThenFence_grows h
  · obtain ⟨_, h, heq⟩ := map_eq_ok h
    cases heq
    exact fenceThenWrite_grows h fun _ _ => ⟨rfl, rfl⟩
  · obtain ⟨_, h, heq⟩ := map_eq_ok h
    cases heq
    exact (atomicThreadFence_grows h).1

theorem syncCall_grows (hroom : m.HasRoom t)
    (h : m.syncCall t action = .ok (value, m')) : m.Grows m' :=
  (ticked_grows hroom).trans (syncAction_grows (syncCall_ok h).2)

/-! ### What a synchronization action passes on -/

theorem le_get_join (ha : m.Attributed a) {v w : VectorClock} {e : Epoch}
    (h : e ≤ w.get a.thread) : e ≤ (v.join m.threadCount w).get a.thread :=
  h.trans (le_join_right ha.lt v w)

theorem get_le_join (n : Nat) (v w : VectorClock) (t : ThreadId) :
    v.get t ≤ (v.join n w).get t :=
  le_join n v w (t - 1)

theorem get_assign (ha : m.Attributed a) (v w : VectorClock) :
    (v.assign m.threadCount w).get a.thread = w.get a.thread := by
  rw [VectorClock.get, VectorClock.assign, if_pos ha.lt]
  rfl

theorem fenceAcquire_knows (ha : m.Attributed a) (h : m.Observed t a) :
    (m.fenceAcquire t).Knows t a := by
  simp only [Knows, fenceAcquire, setSync_sync_self]
  exact le_get_join ha h

/-- The reader of a store observes what the store carries; an acquire fence turns
this into knowledge. -/
theorem loadThenFence_spec (ht : t ≤ m.threadCount)
    (h : m.loadThenFence t action = .ok (value, m')) :
    m.Word action.loc value ∧ m'.atomics = m.atomics ∧
      ∀ a, m.Attributed a → m.Carries action.loc a →
        m'.Observed t a ∧ (action.mo.isAcquireOrder = true → m'.Knows t a) := by
  obtain ⟨atomic, hatomic, hdtor, rfl, rfl⟩ := loadThenFence_ok h
  refine ⟨⟨atomic, hatomic, hdtor, rfl⟩, by split <;> rfl, fun a ha hcarries => ?_⟩
  obtain ⟨atomic', hatomic', hepoch⟩ := hcarries
  rw [hatomic] at hatomic'
  cases hatomic'
  have hobserved : (m.atomicLoadRelaxed t atomic).2.Observed t a := by
    simp only [Observed, atomicLoadRelaxed, setSync_sync_self]
    exact le_get_join ha hepoch
  split
  · exact ⟨fenceAcquire_grows.observed ht hobserved,
      fun _ => fenceAcquire_knows ha hobserved⟩
  · rename_i hmo
    exact ⟨hobserved, fun hacquire => absurd hacquire hmo⟩

theorem load_spec (h : m.syncCall t action = .ok (value, m'))
    (htype : action.type = .atomicLoad ∨ action.type = .atomicRmwLoad) :
    m.Word action.loc value ∧ m'.atomics = m.atomics ∧
      ∀ a, m.Attributed a → m.Carries action.loc a →
        m'.Observed t a ∧ (action.mo.isAcquireOrder = true → m'.Knows t a) := by
  obtain ⟨ht, h⟩ := syncCall_ok h
  rcases htype with htype | htype
  · simp only [syncAction, htype, atomicLoad] at h
    split at h
    · exact @loadThenFence_spec (m.ticked t) m' t value action ht h
    · cases h
  · simp only [syncAction, htype, atomicRmwLoad] at h
    exact @loadThenFence_spec (m.ticked t) m' t value action ht h

theorem fence_spec (h : m.syncCall t action = .ok (value, m'))
    (htype : action.type = .atomicThreadFence) (hmo : action.mo = .acquire) :
    m'.atomics = m.atomics ∧
      ∀ a, m.Attributed a → m.Observed t a → m'.Knows t a := by
  obtain ⟨_, h⟩ := syncCall_ok h
  simp only [syncAction, htype, atomicThreadFence, hmo, Except.map] at h
  cases h
  refine ⟨rfl, fun a ha hobserved => fenceAcquire_knows ha ?_⟩
  simpa only [Observed, ticked, setSync_sync_self] using hobserved

theorem setAtomic_atomics_self (m : Memory) (loc : Addr) (atomic : AtomicVar) :
    (m.setAtomic loc atomic).atomics loc = some atomic :=
  Function.update_self _ _ _

theorem init_spec (h : m.syncCall t action = .ok (value, m'))
    (htype : action.type = .atomicInit) : m'.Word action.loc action.value := by
  obtain ⟨_, h⟩ := syncCall_ok h
  simp only [syncAction, htype] at h
  cases h
  exact ⟨_, setAtomic_atomics_self _ _ _, rfl, rfl⟩

/-- What a write does to the word, and who else is concerned. -/
theorem write_spec {write : Memory → AtomicVar → Memory}
    (hwrite : ∀ m atomic, ∃ clock, write m atomic = m.setAtomic action.loc
      { atomic with lastStore := ⟨clock, action.value⟩ })
    (h : m.fenceThenWrite t action write = .ok m') :
    m'.Word action.loc action.value ∧
      ∀ other, other ≠ action.loc → m'.atomics other = m.atomics other := by
  obtain ⟨atomic, hatomic, hdtor, rfl⟩ := fenceThenWrite_ok h
  obtain ⟨clock, hclock⟩ :=
    hwrite (if action.mo.isReleaseOrder then m.fenceRelease t else m) atomic
  rw [hclock]
  constructor
  · exact ⟨_, setAtomic_atomics_self _ _ _, hdtor, rfl⟩
  · intro other hother
    rw [setAtomic_atomics, Function.update_of_ne hother]
    split <;> rfl

theorem fenceRelease_release (ha : m.Attributed a) :
    ((m.fenceRelease t).sync t).release.get a.thread =
      (m.sync t).current.get a.thread := by
  simp only [fenceRelease, setSync_sync_self]
  exact get_assign ha _ _

/-- A release write carries what its thread knows. -/
theorem store_spec (h : m.syncCall t action = .ok (value, m'))
    (htype : action.type = .atomicStore) :
    m'.Word action.loc action.value ∧
      (∀ other, other ≠ action.loc → m'.atomics other = m.atomics other) ∧
      (m.HasRoom t → action.mo.isReleaseOrder = true →
        ∀ a, m.Attributed a → m.Knows t a → m'.Carries action.loc a) := by
  obtain ⟨ht, h⟩ := syncCall_ok h
  simp only [syncAction, htype] at h
  obtain ⟨_, hstore, heq⟩ := map_eq_ok h
  cases heq
  unfold atomicStore at hstore
  split at hstore
  · obtain ⟨hword, hothers⟩ := write_spec (fun _ _ => ⟨_, rfl⟩) hstore
    refine ⟨hword, hothers, fun hroom hmo a ha hknows => ?_⟩
    obtain ⟨atomic, _, _, rfl⟩ := fenceThenWrite_ok hstore
    refine ⟨_, setAtomic_atomics_self _ _ _, ?_⟩
    have hticked : (m.ticked t).Knows t a := (ticked_grows hroom).knows ht hknows
    simp only [hmo, if_true]
    have ha' : ((m.ticked t).fenceRelease t).Attributed a := ha
    rw [get_assign ha', @fenceRelease_release (m.ticked t) t a ha]
    exact hticked
  · cases hstore

/-- The write of a read-modify-write goes on carrying what the word carried. -/
theorem commit_spec (h : m.syncCall t action = .ok (value, m'))
    (htype : action.type = .atomicRmwCommit) :
    m'.Word action.loc action.value ∧
      (∀ other, other ≠ action.loc → m'.atomics other = m.atomics other) ∧
      (∀ a, m.Carries action.loc a → m'.Carries action.loc a) ∧
      (m.HasRoom t → action.mo.isReleaseOrder = true →
        ∀ a, m.Attributed a → m.Knows t a → m'.Carries action.loc a) := by
  obtain ⟨ht, h⟩ := syncCall_ok h
  simp only [syncAction, htype] at h
  obtain ⟨_, hcommit, heq⟩ := map_eq_ok h
  cases heq
  obtain ⟨hword, hothers⟩ := write_spec (fun _ _ => ⟨_, rfl⟩) hcommit
  refine ⟨hword, hothers, fun a hcarries => ?_, fun hroom hmo a ha hknows => ?_⟩
  · obtain ⟨atomic, hatomic, _, rfl⟩ := fenceThenWrite_ok hcommit
    obtain ⟨atomic', hatomic', hepoch⟩ := hcarries
    rw [ticked_atomics, hatomic'] at hatomic
    cases hatomic
    exact ⟨_, setAtomic_atomics_self _ _ _, hepoch.trans (get_le_join _ _ _ _)⟩
  · obtain ⟨atomic, _, _, rfl⟩ := fenceThenWrite_ok hcommit
    refine ⟨_, setAtomic_atomics_self _ _ _, ?_⟩
    have hticked : (m.ticked t).Knows t a := (ticked_grows hroom).knows ht hknows
    simp only [hmo, if_true]
    have ha' : ((m.ticked t).fenceRelease t).Attributed a := ha
    refine le_get_join ha' ?_
    rw [@fenceRelease_release (m.ticked t) t a ha]
    exact hticked

/-! ### Any operation -/

theorem join_room (n : Nat) {v w : VectorClock} {i : Nat} (hv : v i + 1 < epochSize)
    (hw : w i + 1 < epochSize) : v.join n w i + 1 < epochSize := by
  rw [VectorClock.join]
  split
  · rcases le_total (v i) (w i) with hle | hle
    · rw [max_eq_right hle]
      exact hw
    · rw [max_eq_left hle]
      exact hv
  · exact hv

theorem wake_grows (hroom : (m.sync u).current (u - 1) + 1 < epochSize ∧
      (m.sync t).release (u - 1) + 1 < epochSize)
    (h : m.wake t u = .ok m') : m.Grows m' ∧ m'.atomics = m.atomics := by
  unfold wake at h
  obtain ⟨hu, rfl⟩ := tick_ok h
  refine ⟨Grows.trans ?_ (ticked_grows ?_), rfl⟩
  · exact Grows.setSync (fun i => le_join _ _ _ i) (fun _ => Nat.le_refl _)
      fun hown => hown.trans (le_join _ _ _ _)
  · rw [HasRoom, setSync_sync_self]
    exact join_room _ hroom.1 hroom.2

theorem free_grows (m : Memory) (t : ThreadId) (addr : Addr) : m.Grows (m.free t addr) :=
  Grows.of_sync rfl rfl

theorem malloc_grows (m : Memory) (t : ThreadId) (addr : Addr) (size : Nat)
    (scope : Option SourceLocation) : m.Grows (m.malloc t addr size scope) :=
  (Grows.of_sync rfl rfl : m.Grows (m.setAlloc addr _)).trans
    (Grows.setSync (fun i => le_join _ _ _ i) (fun _ => Nat.le_refl _)
      fun hown => hown.trans (le_join _ _ _ _))

theorem createThread_id {child : ThreadId} {m₁ : Memory}
    (h : m.createThread = .ok (child, m₁)) : child = m.threadCount + 1 := by
  unfold createThread at h
  split at h
  · cases h
    rfl
  · cases h

/-- A child starts from what its parent knows. -/
theorem spawn_ok {child : ThreadId} {m₁ : Memory}
    (hcreate : m.createThread = .ok (child, m₁)) (hparent : t ≤ m.threadCount)
    (h : m₁.spawn t child = .ok m') :
    child = m.threadCount + 1 ∧ m'.threadCount = m.threadCount + 1 ∧
      m'.atomics = m.atomics ∧ (∀ u, u ≠ child → m'.sync u = m.sync u) ∧
      (m'.sync child).epoch = 1 ∧
      ∀ i, (m'.sync child).current i =
        if i = m.threadCount then ((m.sync t).current i + 1) % epochSize
        else if i < m.threadCount then (m.sync t).current i else 0 := by
  unfold createThread at hcreate
  split at hcreate
  · cases hcreate
    unfold spawn at h
    obtain ⟨_, rfl⟩ := tick_ok h
    have hne : t ≠ m.threadCount + 1 := Nat.ne_of_lt (Nat.lt_succ_of_le hparent)
    refine ⟨rfl, rfl, rfl, fun u hu => ?_, ?_, fun i => ?_⟩
    · simp only [ticked, setSync, Function.update_of_ne hu]
    · simp only [ticked, setSync, Function.update_self]
      rfl
    · simp only [ticked, setSync, Function.update_self, Function.update_of_ne hne,
        Nat.add_sub_cancel]
      by_cases hi : i = m.threadCount
      · subst hi
        rw [Function.update_self, if_pos rfl]
        exact congrArg (fun n => (n + 1) % epochSize) (if_pos (Nat.lt_succ_self _))
      · rw [Function.update_of_ne hi, if_neg hi]
        by_cases hlt : i < m.threadCount
        · rw [if_pos hlt]
          exact if_pos (Nat.lt_succ_of_lt hlt)
        · rw [if_neg hlt]
          exact if_neg fun hle => hi (by omega)
  · cases hcreate

theorem spawn_grows {child : ThreadId} {m₁ : Memory} (hroomy : m.Roomy)
    (hcreate : m.createThread = .ok (child, m₁)) (hparent : t ≤ m.threadCount)
    (h : m₁.spawn t child = .ok m') :
    m.Grows m' ∧ ∀ a, m.Attributed a → m.Knows t a → m'.Knows child a := by
  obtain ⟨hchild, hcount, -, hothers, hepoch, hcurrent⟩ := spawn_ok hcreate hparent h
  have hold : ∀ u ≤ m.threadCount, m'.sync u = m.sync u := fun u hu =>
    hothers u (hchild ▸ Nat.ne_of_lt (Nat.lt_succ_of_le hu))
  refine ⟨⟨hcount ▸ Nat.le_succ _, ?_, ?_, ?_⟩, ?_⟩
  · intro u hu i
    rw [hold u hu]
  · intro u hu i
    rw [hold u hu]
  · intro hown u hu
    by_cases hne : u = child
    · subst hne
      have hroom := (hroomy t (Nat.lt_succ_of_le hparent) m.threadCount
        (Nat.lt_succ_self _)).1
      rw [hepoch, hcurrent, hchild, Nat.add_sub_cancel, if_pos rfl,
        Nat.mod_eq_of_lt hroom]
      exact Nat.succ_le_succ (Nat.zero_le _)
    · rw [hothers u hne]
      rw [hcount] at hu
      rw [hchild] at hne
      exact hown u (Nat.le_of_lt_succ (Nat.lt_of_le_of_ne hu hne))
  · intro a ha hknows
    rw [Knows, VectorClock.get, hcurrent, if_neg (Nat.ne_of_lt ha.lt), if_pos ha.lt]
    exact hknows

/-- Does the operation write the atomic at `loc`, create it or destroy it? -/
def touches (loc : Addr) : Op → Bool
  | .sync _ action =>
      action.loc == loc &&
        (action.type == .atomicInit || action.type == .atomicStore ||
          action.type == .atomicRmwCommit || action.type == .atomicDestroy)
  | _ => false

theorem loadThenFence_atomics (h : m.loadThenFence t action = .ok (value, m')) :
    m'.atomics = m.atomics := by
  obtain ⟨_, _, _, _, rfl⟩ := loadThenFence_ok h
  split <;> rfl

theorem syncAction_atomics (h : m.syncAction t action = .ok (value, m'))
    (hop : touches loc (.sync t action) = false) :
    m'.atomics loc = m.atomics loc := by
  have hother : ∀ type, action.type = type →
      (type = .atomicInit ∨ type = .atomicStore ∨ type = .atomicRmwCommit ∨
        type = .atomicDestroy) → loc ≠ action.loc := by
    intro type htype hwrites heq
    rw [touches, htype, heq] at hop
    rcases hwrites with rfl | rfl | rfl | rfl <;> simp at hop
  unfold syncAction at h
  split at h
  · rename_i htype
    cases h
    exact Function.update_of_ne (hother _ htype (by simp)) _ _
  · rename_i htype
    obtain ⟨_, h, heq⟩ := map_eq_ok h
    cases heq
    obtain ⟨_, _, rfl⟩ := map_eq_ok h
    exact Function.update_of_ne (hother _ htype (by simp)) _ _
  · unfold atomicLoad at h
    split at h
    · exact congrFun (loadThenFence_atomics h) loc
    · cases h
  · obtain ⟨_, _, heq⟩ := map_eq_ok h
    cases heq
    rfl
  · rename_i htype
    obtain ⟨_, h, heq⟩ := map_eq_ok h
    cases heq
    unfold atomicStore at h
    split at h
    · exact (write_spec (fun _ _ => ⟨_, rfl⟩) h).2 _ (hother _ htype (by simp))
    · cases h
  · exact congrFun (loadThenFence_atomics h) loc
  · rename_i htype
    obtain ⟨_, h, heq⟩ := map_eq_ok h
    cases heq
    exact (write_spec (fun _ _ => ⟨_, rfl⟩) h).2 _ (hother _ htype (by simp))
  · obtain ⟨_, h, heq⟩ := map_eq_ok h
    cases heq
    exact congrFun (atomicThreadFence_grows h).2 loc

theorem exec_atomics {op : Op} {race : Option OldAccess}
    (hop : touches loc op = false) (h : m.exec op = .ok (race, m')) :
    m'.atomics loc = m.atomics loc := by
  have hscoped := exec_wellScoped h
  unfold exec at h
  rw [if_pos hscoped] at h
  cases op with
  | spawn parent child =>
      simp only [Op.wellScoped, decide_eq_true_eq] at hscoped
      cases hcreate : m.createThread with
      | error p =>
          rw [hcreate] at h
          cases h
      | ok result =>
          obtain ⟨id, m₁⟩ := result
          rw [hcreate] at h
          obtain ⟨_, hspawn, heq⟩ := map_eq_ok h
          cases heq
          obtain rfl : child = id := hscoped.2.2.trans (createThread_id hcreate).symm
          obtain ⟨-, -, hatomics, -⟩ := spawn_ok hcreate hscoped.2.1 hspawn
          exact congrFun hatomics loc
  | wake waker waiter =>
      obtain ⟨_, hwake, heq⟩ := map_eq_ok h
      cases heq
      unfold wake at hwake
      obtain ⟨_, rfl⟩ := tick_ok hwake
      rfl
  | sync thread action =>
      obtain ⟨⟨value, _⟩, hsync, heq⟩ := map_eq_ok h
      cases heq
      exact @syncAction_atomics (m.ticked thread) _ thread loc value action
        (syncCall_ok hsync).2 hop
  | access thread access =>
      obtain ⟨m₁, htick, _, hatomics, _⟩ := accessNonAtomicVar_frame h
      obtain ⟨_, rfl⟩ := tick_ok htick
      exact congrFun hatomics loc
  | malloc thread addr size scope =>
      cases h
      rfl
  | free thread addr =>
      cases h
      rfl

/-- No operation makes a thread forget. -/
theorem exec_grows {op : Op} {race : Option OldAccess} (hroomy : m.Roomy)
    (h : m.exec op = .ok (race, m')) : m.Grows m' := by
  have hscoped := exec_wellScoped h
  unfold exec at h
  rw [if_pos hscoped] at h
  cases op with
  | spawn parent child =>
      simp only [Op.wellScoped, decide_eq_true_eq] at hscoped
      cases hcreate : m.createThread with
      | error p =>
          rw [hcreate] at h
          cases h
      | ok result =>
          obtain ⟨id, m₁⟩ := result
          rw [hcreate] at h
          obtain ⟨_, hspawn, heq⟩ := map_eq_ok h
          cases heq
          obtain rfl : child = id := hscoped.2.2.trans (createThread_id hcreate).symm
          exact (spawn_grows hroomy hcreate hscoped.2.1 hspawn).1
  | wake waker waiter =>
      simp only [Op.wellScoped, decide_eq_true_eq] at hscoped
      obtain ⟨_, hwake, heq⟩ := map_eq_ok h
      cases heq
      refine (wake_grows ⟨?_, ?_⟩ hwake).1
      · exact hroomy.hasRoom hscoped.2.2.2
      · exact (hroomy waker (Nat.lt_succ_of_le hscoped.2.1) (waiter - 1)
          (Nat.lt_succ_of_le ((Nat.sub_le _ _).trans hscoped.2.2.2))).2
  | sync thread action =>
      simp only [Op.wellScoped, decide_eq_true_eq] at hscoped
      obtain ⟨_, hsync, heq⟩ := map_eq_ok h
      cases heq
      exact syncCall_grows (hroomy.hasRoom hscoped.2) hsync
  | access thread access =>
      simp only [Op.wellScoped, decide_eq_true_eq] at hscoped
      obtain ⟨m₁, htick, hsync, _, _, hcount⟩ := accessNonAtomicVar_frame h
      obtain ⟨_, rfl⟩ := tick_ok htick
      exact (ticked_grows (hroomy.hasRoom hscoped.2)).trans (Grows.of_sync hcount hsync)
  | malloc thread addr size scope =>
      cases h
      exact malloc_grows m thread addr size scope
  | free thread addr =>
      cases h
      exact free_grows m thread addr

theorem fenceThenWrite_threadCount {write : Memory → AtomicVar → Memory}
    (h : m.fenceThenWrite t action write = .ok m')
    (hwrite : ∀ m atomic, (write m atomic).threadCount = m.threadCount) :
    m'.threadCount = m.threadCount := by
  obtain ⟨atomic, _, _, rfl⟩ := fenceThenWrite_ok h
  rw [hwrite]
  split <;> rfl

theorem loadThenFence_threadCount (h : m.loadThenFence t action = .ok (value, m')) :
    m'.threadCount = m.threadCount := by
  obtain ⟨_, _, _, _, rfl⟩ := loadThenFence_ok h
  split <;> rfl

theorem syncAction_threadCount (h : m.syncAction t action = .ok (value, m')) :
    m'.threadCount = m.threadCount := by
  unfold syncAction at h
  split at h
  · cases h
    rfl
  · obtain ⟨_, h, heq⟩ := map_eq_ok h
    cases heq
    obtain ⟨_, _, rfl⟩ := map_eq_ok h
    rfl
  · unfold atomicLoad at h
    split at h
    · exact loadThenFence_threadCount h
    · cases h
  · obtain ⟨_, _, heq⟩ := map_eq_ok h
    cases heq
    rfl
  · obtain ⟨_, h, heq⟩ := map_eq_ok h
    cases heq
    unfold atomicStore at h
    split at h
    · exact fenceThenWrite_threadCount h fun _ _ => rfl
    · cases h
  · exact loadThenFence_threadCount h
  · obtain ⟨_, h, heq⟩ := map_eq_ok h
    cases heq
    exact fenceThenWrite_threadCount h fun _ _ => rfl
  · obtain ⟨_, h, heq⟩ := map_eq_ok h
    cases heq
    unfold atomicThreadFence at h
    split at h <;> cases h <;> rfl

/-- Only a spawn makes a thread. -/
theorem exec_threadCount {op : Op} {race : Option OldAccess}
    (h : m.exec op = .ok (race, m')) :
    m'.threadCount = m.threadCount ∨
      (∃ parent, op = .spawn parent (m.threadCount + 1)) ∧
        m.threadCount < maxThreads ∧ m'.threadCount = m.threadCount + 1 := by
  have hscoped := exec_wellScoped h
  unfold exec at h
  rw [if_pos hscoped] at h
  cases op with
  | spawn parent child =>
      simp only [Op.wellScoped, decide_eq_true_eq] at hscoped
      cases hcreate : m.createThread with
      | error p =>
          rw [hcreate] at h
          cases h
      | ok result =>
          obtain ⟨id, m₁⟩ := result
          rw [hcreate] at h
          obtain ⟨_, hspawn, heq⟩ := map_eq_ok h
          cases heq
          obtain rfl : child = id := hscoped.2.2.trans (createThread_id hcreate).symm
          obtain ⟨hchild, hcount, -⟩ := spawn_ok hcreate hscoped.2.1 hspawn
          refine Or.inr ⟨⟨parent, by rw [hchild]⟩, ?_, hcount⟩
          unfold createThread at hcreate
          split at hcreate
          · assumption
          · cases hcreate
  | wake waker waiter =>
      obtain ⟨_, hwake, heq⟩ := map_eq_ok h
      cases heq
      unfold wake at hwake
      obtain ⟨_, rfl⟩ := tick_ok hwake
      exact Or.inl rfl
  | sync thread action =>
      obtain ⟨⟨value, _⟩, hsync, heq⟩ := map_eq_ok h
      cases heq
      exact Or.inl
        (@syncAction_threadCount (m.ticked thread) _ thread value action
          (syncCall_ok hsync).2)
  | access thread access =>
      obtain ⟨m₁, htick, _, _, _, hcount⟩ := accessNonAtomicVar_frame h
      obtain ⟨_, rfl⟩ := tick_ok htick
      exact Or.inl hcount
  | malloc thread addr size scope =>
      cases h
      exact Or.inl rfl
  | free thread addr =>
      cases h
      exact Or.inl rfl

theorem exec_threadCount_le {op : Op} {race : Option OldAccess}
    (h : m.exec op = .ok (race, m')) : m.threadCount ≤ m'.threadCount := by
  rcases exec_threadCount h with hsame | ⟨-, -, hmore⟩
  · exact Nat.le_of_eq hsame.symm
  · exact Nat.le_trans (Nat.le_succ _) (Nat.le_of_eq hmore.symm)

/-! ### Accesses -/

/-- The record of an access is the one its thread makes in the end. -/
theorem OwnEpochs.knows_currAccess (h : m.OwnEpochs) (ht : t ≤ m.threadCount)
    (access : Access) : m.Knows t (m.currAccess t access) :=
  h t ht

/-- What the shadow variable at `loc` remembers of the writes and of the reads. -/
def Remembers (m : Memory) (loc : Addr) (W R : OldAccess → Prop) : Prop :=
  ∀ var, m.nonAtomics loc = some var →
    (∀ a, var.lastWrite = some a → W a) ∧ ∀ u a, var.lastRead u = some a → R a

section Remembers

variable {W R : OldAccess → Prop} {access : Access}

theorem Remembers.congr (h : m.Remembers loc W R)
    (hsame : m'.nonAtomics loc = m.nonAtomics loc) : m'.Remembers loc W R :=
  fun var hvar => h var (hsame ▸ hvar)

theorem Remembers.mono {W' R' : OldAccess → Prop} (h : m.Remembers loc W R)
    (hW : ∀ a, W a → W' a) (hR : ∀ a, R a → R' a) : m.Remembers loc W' R' :=
  fun var hvar => ⟨fun a ha => hW a ((h var hvar).1 a ha),
    fun u a ha => hR a ((h var hvar).2 u a ha)⟩

theorem log_remembers {var : NonAtomicVar} {old : OldAccess}
    (hW : ∀ a, var.lastWrite = some a → W a)
    (hR : ∀ u a, var.lastRead u = some a → R a)
    (hold : if isRead old.type = true then R old else W old) :
    (∀ a, (var.log old).lastWrite = some a → W a) ∧
      ∀ u a, (var.log old).lastRead u = some a → R a := by
  unfold NonAtomicVar.log
  by_cases hread : isRead old.type = true
  · rw [if_pos hread] at hold ⊢
    refine ⟨hW, fun u a ha => ?_⟩
    dsimp only at ha
    by_cases hu : u = old.thread
    · subst hu
      rw [Function.update_self] at ha
      cases ha
      exact hold
    · rw [Function.update_of_ne hu] at ha
      exact hR u a ha
  · rw [if_neg hread] at hold ⊢
    refine ⟨fun a ha => ?_, hR⟩
    cases ha
    exact hold

/-- An access adds its own record and nothing else. -/
theorem access_remembers (h : m.accessNonAtomicVar t access = .ok (none, m'))
    (hold : m.Remembers loc W R)
    (hnew : access.loc = loc → if isRead access.type = true
      then R (m'.currAccess t access) else W (m'.currAccess t access)) :
    m'.Remembers loc W R := by
  obtain ⟨m₁, htick, ⟨rfl, _, _, hrace, _⟩ | ⟨var', -, rfl, -, hvar'⟩⟩ :=
    accessNonAtomicVar_cases h
  · cases hrace
  · have hsame := tick_nonAtomics htick
    by_cases hloc : access.loc = loc
    · intro var hvar
      have heq : var = var' := by
        have hset : (m₁.setNonAtomic access.loc var').nonAtomics loc = some var' := by
          rw [setNonAtomic_nonAtomics, hloc, Function.update_self]
        exact Option.some.inj (hvar.symm.trans hset)
      subst heq
      rcases hvar' with ⟨-, rfl⟩ | ⟨before, dtor, hbefore, rfl⟩
      · exact log_remembers (fun a ha => by cases ha) (fun u a ha => by cases ha)
          (hnew hloc)
      · rw [hsame, hloc] at hbefore
        exact log_remembers (hold before hbefore).1 (hold before hbefore).2 (hnew hloc)
    · refine hold.congr ?_
      rw [setNonAtomic_nonAtomics, Function.update_of_ne (Ne.symm hloc), hsame]

/-- An access of a thread that knows of everything it conflicts with is no race. -/
theorem exec_access_ne_race (hroom : m.HasRoom t) (hold : m.Remembers access.loc W R)
    (hW : ∀ a, W a → m.Knows t a)
    (hR : isWrite access.type = true → ∀ a, R a → m.Knows t a) (race : OldAccess) :
    m.exec (.access t access) ≠ .ok (some race, m') := by
  intro h
  have hscoped := exec_wellScoped h
  have hle : t ≤ m.threadCount := (of_decide_eq_true hscoped).2
  unfold exec at h
  rw [if_pos hscoped] at h
  obtain ⟨m₁, htick, ⟨rfl, var, r, -, hvar, hrace⟩ | ⟨_, hnone, -⟩⟩ :=
    accessNonAtomicVar_cases h
  · obtain ⟨_, rfl⟩ := tick_ok htick
    obtain ⟨hunordered, hconflict⟩ := checkDataRaces_some hrace
    have hknown : m.Knows t r := by
      obtain ⟨hwrites, hreads⟩ := hold var hvar
      rcases hconflict with ⟨hlast, -⟩ | ⟨hwrite, u, -, hlast⟩
      · exact hW r (hwrites r hlast)
      · exact hR hwrite r (hreads u r hlast)
    have hafter := happensBefore_iff.mpr ((ticked_grows hroom).knows hle hknown)
    rw [hafter] at hunordered
    cases hunordered
  · cases hnone

end Remembers

end Memory

end TwistSim
