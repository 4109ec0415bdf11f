/-
The vector clocks of the memory model stay consistent: nobody knows more of a thread
than the thread itself, and operations that stop at `ThreadCount()` lose nothing.
-/
import TwistSim.Knowledge
import TwistSim.RaceReports
import TwistSim.Runs

namespace TwistSim

/-- The clocks of a thread. -/
inductive ThreadContext.Has (ctx : ThreadContext) : VectorClock → Prop where
  | current : Has ctx ctx.current
  | acquire : Has ctx ctx.acquire
  | release : Has ctx ctx.release

namespace Memory

/-! ### Runs -/

/-- Threads are created and tick, and the operations of the memory model are
performed; `_SysSpawn` creates the child and spawns it at once. -/
inductive ClockEvent where
  | createThread
  | tick (thread : ThreadId)
  | op (op : Op)
  deriving DecidableEq, Repr

def nextClocks (m : Memory) : ClockEvent → Option Memory
  | .createThread => m.createThread.toOption.map Prod.snd
  | .tick thread =>
      if 0 < thread ∧ thread ≤ m.threadCount then (m.tick thread).toOption else none
  | .op op => (m.exec op).toOption.map Prod.snd

/-- A thread that exists and is about to tick has room for it. -/
def RoomFor (m : Memory) : ClockEvent → Prop
  | .createThread => True
  | .tick thread => m.HasRoom thread
  | .op op => op.ticks = true → op.thread ≤ m.threadCount → m.HasRoom op.thread

/-! ### Consistency -/

/-- The clocks that are stored somewhere. -/
inductive Stores (m : Memory) : VectorClock → Prop where
  | thread {t : ThreadId} {c : VectorClock} (hpos : 0 < t) (hle : t ≤ m.threadCount)
      (h : (m.sync t).Has c) : Stores m c
  | lastStore {loc : Addr} {atomic : AtomicVar} (h : m.atomics loc = some atomic) :
      Stores m atomic.lastStore.clock
  | free {addr : Addr} {alloc : Alloc} (h : m.allocs addr = some alloc) :
      Stores m alloc.free

/-- Stopping at `ThreadCount()` is no different from going over all `kClockSize`
components. -/
structure FullWidth (n : Nat) (c d : VectorClock) : Prop where
  assign : c.assign n d = c.assign maxThreads d
  join : c.join n d = c.join maxThreads d
  reset : c.reset n = c.reset maxThreads

structure ConsistentClocks (m : Memory) : Prop where
  epoch : ∀ t, 0 < t → t ≤ m.threadCount →
    (m.sync t).epoch = (m.sync t).current.get t
  known : ∀ c, m.Stores c → ∀ j, 0 < j → j ≤ m.threadCount →
    c.get j ≤ (m.sync j).current.get j
  released : ∀ t, 0 < t → t ≤ m.threadCount →
    ∀ i, (m.sync t).release i ≤ (m.sync t).current i
  beyond : ∀ c, m.Stores c → ∀ i, m.threadCount ≤ i → c i = 0
  fullWidth : ∀ c, m.Stores c → ∀ d, m.Stores d → FullWidth m.threadCount c d

/-- What each thread knows of itself, the most that anybody can know. -/
def ceiling (m : Memory) : VectorClock :=
  fun i => if i < m.threadCount then (m.sync (i + 1)).current i else 0

def Within (m : Memory) (c : VectorClock) : Prop := ∀ i, c i ≤ m.ceiling i

/-- The invariant. -/
structure Clocked (m : Memory) : Prop where
  threads : m.threadCount ≤ maxThreads
  epoch : ∀ t, 0 < t → t ≤ m.threadCount →
    (m.sync t).epoch = (m.sync t).current (t - 1)
  stored : ∀ c, m.Stores c → m.Within c
  released : ∀ t, 0 < t → t ≤ m.threadCount →
    ∀ i, (m.sync t).release i ≤ (m.sync t).current i

variable {m m' : Memory} {t u : ThreadId} {c d : VectorClock} {ctx : ThreadContext}
  {loc addr : Addr} {action : Action} {value : Nat}

/-! ### Clocks below the ceiling -/

theorem ceiling_self (hpos : 0 < t) (hle : t ≤ m.threadCount) :
    m.ceiling (t - 1) = (m.sync t).current (t - 1) := by
  have hlt : t - 1 < m.threadCount :=
    Nat.lt_of_lt_of_le (Nat.sub_lt hpos Nat.one_pos) hle
  rw [ceiling, if_pos hlt, Nat.sub_add_cancel hpos]

theorem ceiling_beyond {i : Nat} (hi : m.threadCount ≤ i) : m.ceiling i = 0 :=
  if_neg (Nat.not_lt.mpr hi)

theorem Within.beyond (h : m.Within c) {i : Nat} (hi : m.threadCount ≤ i) : c i = 0 :=
  Nat.le_zero.mp (ceiling_beyond hi ▸ h i)

theorem within_init : m.Within VectorClock.init := fun _ => Nat.zero_le _

theorem Within.join (hc : m.Within c) (hd : m.Within d) :
    m.Within (c.join m.threadCount d) := by
  intro i
  rw [VectorClock.join]
  split
  · exact max_le (hc i) (hd i)
  · exact hc i

theorem Within.assign (hc : m.Within c) (hd : m.Within d) :
    m.Within (c.assign m.threadCount d) := by
  intro i
  rw [VectorClock.assign]
  split
  · exact hd i
  · exact hc i

/-- The clocks of other threads may be cut off: they are zero there. -/
theorem Within.assign_eq (hc : m.Within c) (hd : m.Within d) :
    c.assign m.threadCount d = d := by
  funext i
  rw [VectorClock.assign]
  split
  · rfl
  · rename_i hi
    rw [hc.beyond (Nat.not_lt.mp hi), hd.beyond (Nat.not_lt.mp hi)]

theorem Within.fullWidth (hn : m.threadCount ≤ maxThreads) (hc : m.Within c)
    (hd : m.Within d) : FullWidth m.threadCount c d := by
  have hzero : ∀ i, ¬ i < m.threadCount → c i = 0 ∧ d i = 0 := fun i hi =>
    ⟨hc.beyond (Nat.not_lt.mp hi), hd.beyond (Nat.not_lt.mp hi)⟩
  have hfar : ∀ i, ¬ i < maxThreads → ¬ i < m.threadCount := fun i hi hlt =>
    hi (Nat.lt_of_lt_of_le hlt hn)
  constructor
  · funext i
    by_cases hi : i < m.threadCount
    · rw [VectorClock.assign, VectorClock.assign, if_pos hi,
        if_pos (Nat.lt_of_lt_of_le hi hn)]
    · rw [VectorClock.assign, VectorClock.assign, if_neg hi, (hzero i hi).1,
        (hzero i hi).2, ite_self]
  · funext i
    by_cases hi : i < m.threadCount
    · rw [VectorClock.join, VectorClock.join, if_pos hi,
        if_pos (Nat.lt_of_lt_of_le hi hn)]
    · rw [VectorClock.join, VectorClock.join, if_neg hi, (hzero i hi).1,
        (hzero i hi).2, max_self, ite_self]
  · funext i
    by_cases hi : i < m.threadCount
    · rw [VectorClock.reset, VectorClock.reset, if_pos hi,
        if_pos (Nat.lt_of_lt_of_le hi hn)]
    · rw [VectorClock.reset, VectorClock.reset, if_neg hi, (hzero i hi).1, ite_self]

theorem Clocked.consistent (h : m.Clocked) : m.ConsistentClocks where
  epoch := h.epoch
  known c hc j hpos hle := by
    have hbound := h.stored c hc (j - 1)
    rw [ceiling_self hpos hle] at hbound
    exact hbound
  released := h.released
  beyond c hc _ hi := (h.stored c hc).beyond hi
  fullWidth c hc d hd := (h.stored c hc).fullWidth h.threads (h.stored d hd)

/-! ### One thread changes its clocks -/

theorem ceiling_setSync (hpos : 0 < t)
    (hown : (m.sync t).current (t - 1) ≤ ctx.current (t - 1)) (i : Nat) :
    m.ceiling i ≤ (m.setSync t ctx).ceiling i := by
  unfold ceiling
  rw [setSync_threadCount]
  split
  · by_cases hi : i + 1 = t
    · subst hi
      rw [setSync_sync_self]
      exact hown
    · rw [setSync_sync_of_ne _ _ _ hi]
  · exact Nat.le_refl _

theorem Within.raise (hc : m.Within c) (hpos : 0 < t)
    (hown : (m.sync t).current (t - 1) ≤ ctx.current (t - 1)) :
    (m.setSync t ctx).Within c :=
  fun i => (hc i).trans (ceiling_setSync hpos hown i)

/-- A thread may know what it knows of itself. -/
theorem within_own (hpos : 0 < t) (hle : t ≤ m.threadCount)
    (hown : (m.sync t).current (t - 1) ≤ ctx.current (t - 1))
    (hothers : ∀ i, i ≠ t - 1 → c i ≤ m.ceiling i)
    (hself : c (t - 1) ≤ ctx.current (t - 1)) : (m.setSync t ctx).Within c := by
  intro i
  by_cases hi : i = t - 1
  · subst hi
    rw [ceiling_self hpos (by exact hle), setSync_sync_self]
    exact hself
  · exact (hothers i hi).trans (ceiling_setSync hpos hown i)

theorem Clocked.current (h : m.Clocked) (hpos : 0 < t) (hle : t ≤ m.threadCount) :
    m.Within (m.sync t).current :=
  h.stored _ (Stores.thread hpos hle .current)

theorem Clocked.acquire (h : m.Clocked) (hpos : 0 < t) (hle : t ≤ m.threadCount) :
    m.Within (m.sync t).acquire :=
  h.stored _ (Stores.thread hpos hle .acquire)

theorem Clocked.release (h : m.Clocked) (hpos : 0 < t) (hle : t ≤ m.threadCount) :
    m.Within (m.sync t).release :=
  h.stored _ (Stores.thread hpos hle .release)

theorem Clocked.setSync (h : m.Clocked) (hpos : 0 < t)
    (hown : (m.sync t).current (t - 1) ≤ ctx.current (t - 1))
    (hepoch : ctx.epoch = ctx.current (t - 1))
    (hclocks : ∀ c, ctx.Has c → (m.setSync t ctx).Within c)
    (hreleased : ∀ i, ctx.release i ≤ ctx.current i) : (m.setSync t ctx).Clocked where
  threads := h.threads
  epoch u hu hle := by
    by_cases hut : u = t
    · subst hut
      rw [setSync_sync_self]
      exact hepoch
    · rw [setSync_sync_of_ne _ _ _ hut]
      exact h.epoch u hu hle
  stored c hc := by
    cases hc with
    | @thread u c hu hle hhas =>
        by_cases hut : u = t
        · subst hut
          rw [setSync_sync_self] at hhas
          exact hclocks c hhas
        · rw [setSync_sync_of_ne _ _ _ hut] at hhas
          exact (h.stored c (Stores.thread hu hle hhas)).raise hpos hown
    | lastStore hatomic => exact (h.stored _ (Stores.lastStore hatomic)).raise hpos hown
    | free halloc => exact (h.stored _ (Stores.free halloc)).raise hpos hown
  released u hu hle := by
    by_cases hut : u = t
    · subst hut
      rw [setSync_sync_self]
      exact hreleased
    · rw [setSync_sync_of_ne _ _ _ hut]
      exact h.released u hu hle

theorem Clocked.ticked (h : m.Clocked) (hpos : 0 < t) (hle : t ≤ m.threadCount)
    (hroom : m.HasRoom t) : (m.ticked t).Clocked := by
  have hmod : ((m.sync t).current (t - 1) + 1) % epochSize =
      (m.sync t).current (t - 1) + 1 := Nat.mod_eq_of_lt hroom
  have hgrows : ∀ i, (m.sync t).current i ≤ Function.update (m.sync t).current (t - 1)
      (((m.sync t).current (t - 1) + 1) % epochSize) i := by
    intro i
    by_cases hi : i = t - 1
    · subst hi
      rw [Function.update_self, hmod]
      exact Nat.le_succ _
    · rw [Function.update_of_ne hi]
  refine h.setSync hpos (hgrows _) ?_ (fun c hc => ?_) fun i =>
    (h.released t hpos hle i).trans (hgrows i)
  · dsimp only
    rw [Function.update_self, h.epoch t hpos hle]
  · cases hc with
    | current =>
        refine within_own hpos hle (hgrows _) (fun i hi => ?_) (Nat.le_refl _)
        dsimp only
        rw [Function.update_of_ne hi]
        exact h.current hpos hle i
    | acquire => exact (h.acquire hpos hle).raise hpos (hgrows _)
    | release => exact (h.release hpos hle).raise hpos (hgrows _)

/-- A thread learns nothing new of itself. -/
theorem join_own (hpos : 0 < t) (hle : t ≤ m.threadCount) (hd : m.Within d) :
    (m.sync t).current.join m.threadCount d (t - 1) = (m.sync t).current (t - 1) := by
  rw [VectorClock.join]
  split
  · have hbound := hd (t - 1)
    rw [ceiling_self hpos hle] at hbound
    exact max_eq_left hbound
  · rfl

theorem Clocked.learns (h : m.Clocked) (hpos : 0 < t) (hle : t ≤ m.threadCount)
    (hd : m.Within d) :
    (m.setSync t { m.sync t with
      current := (m.sync t).current.join m.threadCount d }).Clocked := by
  have hown := join_own hpos hle hd
  refine h.setSync hpos (le_join _ _ _ _) ((h.epoch t hpos hle).trans hown.symm)
    (fun c hc => ?_) fun i => (h.released t hpos hle i).trans (le_join _ _ _ _)
  cases hc with
  | current => exact ((h.current hpos hle).join hd).raise hpos (le_join _ _ _ _)
  | acquire => exact (h.acquire hpos hle).raise hpos (le_join _ _ _ _)
  | release => exact (h.release hpos hle).raise hpos (le_join _ _ _ _)

/-! ### Fences and atomics -/

theorem Clocked.fenceAcquire (h : m.Clocked) (hpos : 0 < t) (hle : t ≤ m.threadCount) :
    (m.fenceAcquire t).Clocked :=
  h.learns hpos hle (h.acquire hpos hle)

theorem Clocked.fenceRelease (h : m.Clocked) (hpos : 0 < t) (hle : t ≤ m.threadCount) :
    (m.fenceRelease t).Clocked := by
  have hassign : (m.sync t).release.assign m.threadCount (m.sync t).current =
      (m.sync t).current :=
    (h.release hpos hle).assign_eq (h.current hpos hle)
  refine h.setSync hpos (Nat.le_refl _) (h.epoch t hpos hle) (fun c hc => ?_) fun i => ?_
  · cases hc with
    | current => exact (h.current hpos hle).raise hpos (Nat.le_refl _)
    | acquire => exact (h.acquire hpos hle).raise hpos (Nat.le_refl _)
    | release =>
        rw [hassign]
        exact (h.current hpos hle).raise hpos (Nat.le_refl _)
  · rw [hassign]

theorem Clocked.atomicLoadRelaxed {atomic : AtomicVar} (h : m.Clocked) (hpos : 0 < t)
    (hle : t ≤ m.threadCount) (hatomic : m.atomics loc = some atomic) :
    (m.atomicLoadRelaxed t atomic).2.Clocked := by
  refine h.setSync hpos (Nat.le_refl _) (h.epoch t hpos hle) (fun c hc => ?_)
    (h.released t hpos hle)
  cases hc with
  | current => exact (h.current hpos hle).raise hpos (Nat.le_refl _)
  | acquire =>
      have hstored := h.stored _ (Stores.lastStore hatomic)
      exact ((h.acquire hpos hle).join hstored).raise hpos (Nat.le_refl _)
  | release => exact (h.release hpos hle).raise hpos (Nat.le_refl _)

theorem Clocked.setAtomic {atomic : AtomicVar} (h : m.Clocked)
    (hclock : m.Within atomic.lastStore.clock) : (m.setAtomic loc atomic).Clocked where
  threads := h.threads
  epoch := h.epoch
  stored c hc := by
    cases hc with
    | thread hpos hle hhas => exact h.stored _ (Stores.thread hpos hle hhas)
    | @lastStore loc' atomic' hatomic =>
        rw [setAtomic_atomics] at hatomic
        by_cases hloc : loc' = loc
        · subst hloc
          rw [Function.update_self] at hatomic
          cases hatomic
          exact hclock
        · rw [Function.update_of_ne hloc] at hatomic
          exact h.stored _ (Stores.lastStore hatomic)
    | free halloc => exact h.stored _ (Stores.free halloc)
  released := h.released

theorem Clocked.setAlloc {alloc : Alloc} (h : m.Clocked) (hclock : m.Within alloc.free) :
    (m.setAlloc addr alloc).Clocked where
  threads := h.threads
  epoch := h.epoch
  stored c hc := by
    cases hc with
    | thread hpos hle hhas => exact h.stored _ (Stores.thread hpos hle hhas)
    | lastStore hatomic => exact h.stored _ (Stores.lastStore hatomic)
    | @free addr' alloc' halloc =>
        rw [setAlloc_allocs] at halloc
        by_cases haddr : addr' = addr
        · subst haddr
          rw [Function.update_self] at halloc
          cases halloc
          exact hclock
        · rw [Function.update_of_ne haddr] at halloc
          exact h.stored _ (Stores.free halloc)
  released := h.released

theorem Clocked.loadThenFence (h : m.Clocked) (hpos : 0 < t) (hle : t ≤ m.threadCount)
    (hload : m.loadThenFence t action = .ok (value, m')) : m'.Clocked := by
  obtain ⟨atomic, hatomic, -, -, rfl⟩ := loadThenFence_ok hload
  have hloaded := h.atomicLoadRelaxed hpos hle hatomic
  split
  · exact hloaded.fenceAcquire hpos hle
  · exact hloaded

/-- A write leaves a clock that is made of the old one and the release clock. -/
theorem Clocked.fenceThenWrite {combine : Nat → VectorClock → VectorClock → VectorClock}
    (h : m.Clocked) (hpos : 0 < t) (hle : t ≤ m.threadCount)
    (hcombine : ∀ m c d, Within m c → Within m d →
      m.Within (combine m.threadCount c d))
    (hwrite : (m.fenceThenWrite t action fun m atomic => m.setAtomic action.loc
      { atomic with lastStore := ⟨combine m.threadCount atomic.lastStore.clock
          (m.sync t).release, action.value⟩ }) = .ok m') : m'.Clocked := by
  obtain ⟨atomic, hatomic, -, rfl⟩ := fenceThenWrite_ok hwrite
  split
  · have hfenced := h.fenceRelease hpos hle
    exact hfenced.setAtomic (hcombine _ _ _
      (hfenced.stored _ (Stores.lastStore hatomic))
      (hfenced.release hpos hle))
  · exact h.setAtomic (hcombine _ _ _ (h.stored _ (Stores.lastStore hatomic))
      (h.release hpos hle))

theorem Clocked.atomicThreadFence (h : m.Clocked) (hpos : 0 < t)
    (hle : t ≤ m.threadCount) (hfence : m.atomicThreadFence t action = .ok m') :
    m'.Clocked := by
  unfold Memory.atomicThreadFence at hfence
  split at hfence
  · cases hfence
    exact h.fenceAcquire hpos hle
  · cases hfence
    exact h.fenceRelease hpos hle
  · cases hfence
    exact (h.fenceAcquire hpos hle).fenceRelease hpos hle
  · cases hfence

theorem Clocked.syncAction (h : m.Clocked) (hpos : 0 < t) (hle : t ≤ m.threadCount)
    (hsync : m.syncAction t action = .ok (value, m')) : m'.Clocked := by
  unfold Memory.syncAction at hsync
  split at hsync
  · cases hsync
    exact h.setAtomic within_init
  · obtain ⟨_, hdestroy, heq⟩ := map_eq_ok hsync
    cases heq
    obtain ⟨atomic, hshadow, rfl⟩ := map_eq_ok hdestroy
    have hclock := h.stored _ (Stores.lastStore (getShadowAtomicVar_ok hshadow))
    exact h.setAtomic hclock
  · unfold atomicLoad at hsync
    split at hsync
    · exact h.loadThenFence hpos hle hsync
    · cases hsync
  · obtain ⟨_, _, heq⟩ := map_eq_ok hsync
    cases heq
    exact h
  · obtain ⟨_, hstore, heq⟩ := map_eq_ok hsync
    cases heq
    unfold atomicStore at hstore
    split at hstore
    · exact h.fenceThenWrite hpos hle (fun _ _ _ hc hd => hc.assign hd) hstore
    · cases hstore
  · exact h.loadThenFence hpos hle hsync
  · obtain ⟨_, hcommit, heq⟩ := map_eq_ok hsync
    cases heq
    exact h.fenceThenWrite hpos hle (fun _ _ _ hc hd => hc.join hd) hcommit
  · obtain ⟨_, hfence, heq⟩ := map_eq_ok hsync
    cases heq
    exact h.atomicThreadFence hpos hle hfence

/-! ### Threads and allocations -/

/-- A new thread knows nothing, and nothing is known of it. -/
theorem Clocked.createThread {id : ThreadId} (h : m.Clocked)
    (hcreate : m.createThread = .ok (id, m')) :
    id = m.threadCount + 1 ∧ m'.threadCount = m.threadCount + 1 ∧
      m'.sync id = ThreadContext.init ∧ m'.Clocked := by
  unfold Memory.createThread at hcreate
  split at hcreate
  · rename_i hlt
    cases hcreate
    have hold : ∀ u, u ≠ m.threadCount + 1 →
        Function.update m.sync (m.threadCount + 1) ThreadContext.init u = m.sync u :=
      fun u hu => Function.update_of_ne hu _ _
    have holder : ∀ u ≤ m.threadCount + 1, u ≠ m.threadCount + 1 → u ≤ m.threadCount :=
      fun u hle hne => Nat.le_of_lt_succ (Nat.lt_of_le_of_ne hle hne)
    have hceiling : ∀ i, m.ceiling i ≤ ceiling
        { m with
          threadCount := m.threadCount + 1
          sync := Function.update m.sync (m.threadCount + 1) ThreadContext.init } i := by
      intro i
      by_cases hi : i < m.threadCount
      · simp only [ceiling, if_pos hi, if_pos (Nat.lt_succ_of_lt hi),
          hold (i + 1) (Nat.ne_of_lt (Nat.succ_lt_succ hi))]
        exact Nat.le_refl _
      · rw [ceiling, if_neg hi]
        exact Nat.zero_le _
    refine ⟨rfl, rfl, Function.update_self _ _ _, ⟨hlt, ?_, ?_, ?_⟩⟩
    · intro u hu hle
      by_cases hne : u = m.threadCount + 1
      · subst hne
        simp only [Function.update_self]
        rfl
      · simp only [hold u hne]
        exact h.epoch u hu (holder u hle hne)
    · intro c hc
      cases hc with
      | @thread u c hu hle hhas =>
          by_cases hne : u = m.threadCount + 1
          · subst hne
            simp only [Function.update_self] at hhas
            cases hhas <;> exact within_init
          · simp only [hold u hne] at hhas
            have hwithin := h.stored c (Stores.thread hu (holder u hle hne) hhas)
            exact fun i => (hwithin i).trans (hceiling i)
      | lastStore hatomic =>
          exact fun i => (h.stored _ (Stores.lastStore hatomic) i).trans (hceiling i)
      | free halloc =>
          exact fun i => (h.stored _ (Stores.free halloc) i).trans (hceiling i)
    · intro u hu hle i
      by_cases hne : u = m.threadCount + 1
      · subst hne
        simp only [Function.update_self]
        exact Nat.le_refl _
      · simp only [hold u hne]
        exact h.released u hu (holder u hle hne) i
  · cases hcreate

/-- A child takes over what its parent knows. -/
theorem Clocked.spawn {child : ThreadId} {m₁ : Memory} (h : m.Clocked) (hpos : 0 < t)
    (hle : t ≤ m.threadCount) (hcreate : m.createThread = .ok (child, m₁))
    (hspawn : m₁.spawn t child = .ok m') : m'.Clocked := by
  obtain ⟨hchild, hcount, hinit, hcreated⟩ := h.createThread hcreate
  have hpos' : 0 < child := hchild ▸ Nat.succ_pos _
  have hle' : child ≤ m₁.threadCount := Nat.le_of_eq (hchild.trans hcount.symm)
  have hparent : m₁.Within (m₁.sync t).current :=
    hcreated.current hpos (hle.trans (hcount ▸ Nat.le_succ _))
  have hassign : VectorClock.init.assign m₁.threadCount (m₁.sync t).current =
      (m₁.sync t).current := within_init.assign_eq hparent
  -- Nobody knows anything of a thread that has not ticked.
  have hzero : (m₁.sync t).current (child - 1) = 0 := by
    have hbound := hparent (child - 1)
    rw [ceiling_self hpos' hle', hinit] at hbound
    exact Nat.le_zero.mp hbound
  have hassigned : (m₁.setSync child { m₁.sync child with
      current := (m₁.sync child).current.assign m₁.threadCount
        (m₁.sync t).current }).Clocked := by
    refine hcreated.setSync hpos' ?_ ?_ (fun c hc => ?_) fun i => ?_
    · rw [hinit]
      exact Nat.zero_le _
    · simp only [hinit]
      exact (congrFun hassign (child - 1)).trans hzero |>.symm
    · rw [hinit] at hc ⊢
      cases hc with
      | current =>
          rw [show ThreadContext.init.current = VectorClock.init from rfl, hassign]
          exact hparent.raise hpos' (by rw [hinit]; exact Nat.zero_le _)
      | acquire => exact within_init
      | release => exact within_init
    · rw [hinit]
      exact Nat.zero_le _
  unfold Memory.spawn at hspawn
  obtain ⟨-, rfl⟩ := tick_ok hspawn
  refine hassigned.ticked hpos' hle' ?_
  rw [HasRoom, setSync_sync_self, hinit]
  dsimp only
  rw [show ThreadContext.init.current = VectorClock.init from rfl, hassign, hzero]
  decide

theorem Clocked.wake (h : m.Clocked) (hpos : 0 < t) (hle : t ≤ m.threadCount)
    (hpos' : 0 < u) (hle' : u ≤ m.threadCount) (hroom : m.HasRoom u)
    (hwake : m.wake t u = .ok m') : m'.Clocked := by
  have hreleased := h.release hpos hle
  unfold Memory.wake at hwake
  obtain ⟨-, rfl⟩ := tick_ok hwake
  refine (h.learns hpos' hle' hreleased).ticked hpos' hle' ?_
  rw [HasRoom, setSync_sync_self]
  dsimp only
  rw [join_own hpos' hle' hreleased]
  exact hroom

theorem Clocked.getShadowAllocation (h : m.Clocked) (addr : Addr) :
    m.Within (m.getShadowAllocation addr).free := by
  unfold Memory.getShadowAllocation
  cases halloc : m.allocs addr with
  | none => exact within_init
  | some alloc => exact h.stored _ (Stores.free halloc)

theorem Clocked.malloc (h : m.Clocked) (hpos : 0 < t) (hle : t ≤ m.threadCount)
    (addr : Addr) (size : Nat) (scope : Option SourceLocation) :
    (m.malloc t addr size scope).Clocked := by
  have hfree := h.getShadowAllocation addr
  have hset : (m.setAlloc addr { m.getShadowAllocation addr with
      alive := true, size := size, thread := t, sourceLoc := scope }).Clocked :=
    h.setAlloc hfree
  exact hset.learns hpos hle hfree

theorem Clocked.free (h : m.Clocked) (hpos : 0 < t) (hle : t ≤ m.threadCount)
    (addr : Addr) : (m.free t addr).Clocked :=
  h.setAlloc ((h.getShadowAllocation addr).assign (h.current hpos hle))

theorem Clocked.congr (h : m.Clocked) (hsync : m'.sync = m.sync)
    (hatomics : m'.atomics = m.atomics) (hallocs : m'.allocs = m.allocs)
    (hcount : m'.threadCount = m.threadCount) : m'.Clocked := by
  have hceiling : m'.ceiling = m.ceiling := by
    unfold ceiling
    rw [hsync, hcount]
  constructor
  · rw [hcount]
    exact h.threads
  · rw [hsync, hcount]
    exact h.epoch
  · intro c hc
    rw [Within, hceiling]
    cases hc with
    | thread hpos hle hhas =>
        rw [hcount] at hle
        rw [hsync] at hhas
        exact h.stored _ (Stores.thread hpos hle hhas)
    | lastStore hatomic => exact h.stored _ (Stores.lastStore (hatomics ▸ hatomic))
    | free halloc => exact h.stored _ (Stores.free (hallocs ▸ halloc))
  · rw [hsync, hcount]
    exact h.released

/-! ### Runs -/

theorem Clocked.exec {op : Op} {race : Option OldAccess} (h : m.Clocked)
    (hroom : m.RoomFor (.op op)) (hexec : m.exec op = .ok (race, m')) : m'.Clocked := by
  have hscoped := exec_wellScoped hexec
  unfold Memory.exec at hexec
  rw [if_pos hscoped] at hexec
  cases op with
  | spawn parent child =>
      simp only [Op.wellScoped, decide_eq_true_eq] at hscoped
      cases hcreate : m.createThread with
      | error p =>
          rw [hcreate] at hexec
          cases hexec
      | ok result =>
          obtain ⟨id, m₁⟩ := result
          rw [hcreate] at hexec
          obtain ⟨_, hspawn, heq⟩ := map_eq_ok hexec
          cases heq
          obtain rfl : child = id := hscoped.2.2.trans (createThread_id hcreate).symm
          exact h.spawn hscoped.1 hscoped.2.1 hcreate hspawn
  | wake waker waiter =>
      simp only [Op.wellScoped, decide_eq_true_eq] at hscoped
      obtain ⟨hpos, hle, hpos', hle'⟩ := hscoped
      obtain ⟨_, hwake, heq⟩ := map_eq_ok hexec
      cases heq
      exact h.wake hpos hle hpos' hle' (hroom rfl hle') hwake
  | sync thread action =>
      simp only [Op.wellScoped, decide_eq_true_eq] at hscoped
      obtain ⟨⟨value, _⟩, hsync, heq⟩ := map_eq_ok hexec
      cases heq
      have hticked := h.ticked hscoped.1 hscoped.2 (hroom rfl hscoped.2)
      exact hticked.syncAction hscoped.1 hscoped.2 (syncCall_ok hsync).2
  | access thread access =>
      simp only [Op.wellScoped, decide_eq_true_eq] at hscoped
      obtain ⟨m₁, htick, hsync, hatomics, hallocs, hcount⟩ := accessNonAtomicVar_frame hexec
      obtain ⟨_, rfl⟩ := tick_ok htick
      exact (h.ticked hscoped.1 hscoped.2 (hroom rfl hscoped.2)).congr hsync hatomics
        hallocs hcount
  | malloc thread addr size scope =>
      simp only [Op.wellScoped, decide_eq_true_eq] at hscoped
      cases hexec
      exact h.malloc hscoped.1 hscoped.2 addr size scope
  | free thread addr =>
      simp only [Op.wellScoped, decide_eq_true_eq] at hscoped
      cases hexec
      exact h.free hscoped.1 hscoped.2 addr

theorem toOption_eq_some {ε α : Type} {x : Except ε α} {a : α}
    (h : x.toOption = some a) : x = .ok a := by
  cases x with
  | error e => cases h
  | ok b => exact congrArg Except.ok (Option.some.inj h)

theorem Clocked.step {e : ClockEvent} (h : m.Clocked) (hroom : m.RoomFor e)
    (hnext : m.nextClocks e = some m') : m'.Clocked := by
  cases e with
  | createThread =>
      obtain ⟨⟨id, m₁⟩, hcreate, rfl⟩ := Option.map_eq_some_iff.mp hnext
      exact (h.createThread (toOption_eq_some hcreate)).2.2.2
  | tick thread =>
      simp only [nextClocks] at hnext
      split at hnext
      · rename_i hscoped
        obtain ⟨_, rfl⟩ := tick_ok (toOption_eq_some hnext)
        exact h.ticked hscoped.1 hscoped.2 hroom
      · cases hnext
  | op op =>
      obtain ⟨⟨race, m₁⟩, hexec, rfl⟩ := Option.map_eq_some_iff.mp hnext
      exact h.exec hroom (toOption_eq_some hexec)

theorem Clocked.empty : Memory.empty.Clocked where
  threads := Nat.zero_le _
  epoch _ hpos hle := absurd (Nat.lt_of_lt_of_le hpos hle) (Nat.lt_irrefl 0)
  stored c hc := by
    cases hc with
    | thread hpos hle _ => exact absurd (Nat.lt_of_lt_of_le hpos hle) (Nat.lt_irrefl 0)
    | lastStore h => cases h
    | free h => cases h
  released _ hpos hle := absurd (Nat.lt_of_lt_of_le hpos hle) (Nat.lt_irrefl 0)

/-- As long as no clock entry overflows, every clock is consistent, wherever it is
stored and whenever it was. -/
theorem clocks_consistent (h : Reach nextClocks RoomFor Memory.empty m) :
    m.ConsistentClocks :=
  (h.invariant Clocked.empty fun _ _ _ hI hroom hnext => hI.step hroom hnext).consistent

instance (m : Memory) (t : ThreadId) : Decidable (m.HasRoom t) :=
  inferInstanceAs (Decidable ((m.sync t).current (t - 1) + 1 < epochSize))

instance (m : Memory) (e : ClockEvent) : Decidable (m.RoomFor e) :=
  match e with
  | .createThread => isTrue trivial
  | .tick thread => inferInstanceAs (Decidable (m.HasRoom thread))
  | .op op =>
      inferInstanceAs
        (Decidable (op.ticks = true → op.thread ≤ m.threadCount → m.HasRoom op.thread))

/-- A clock is stored by the only thread there is and joined by the next one. -/
def handOver : List ClockEvent :=
  [.createThread,
   .op (.sync 1 (atomicAction .atomicInit 16 .relaxed)),
   .op (.sync 1 (atomicAction .atomicStore 16 .release)),
   .op (.free 1 64),
   .op (.spawn 1 2),
   .op (.sync 2 (atomicAction .atomicLoad 16 .acquire)),
   .op (.malloc 2 64 8 none)]

theorem clocks_consistent_handOver :
    ∃ m, Reach nextClocks RoomFor Memory.empty m ∧
      (m.sync 2).current.get 1 = 2 ∧ m.ConsistentClocks := by
  obtain ⟨m, hreach, hknown⟩ := @exists_reach _ _ nextClocks RoomFor Memory.empty _
    handOver (fun m => (m.sync 2).current.get 1 = 2) _ (by decide)
  exact ⟨m, hreach, hknown, clocks_consistent hreach⟩

def acquireFence : Op := .sync 1 (atomicAction .atomicThreadFence 0 .acquire)

/-- The main thread executes release fences, as many as its epoch can count, and one
more fence. -/
def wrappingRun : List ClockEvent :=
  .createThread ::
    (List.replicate (epochSize - 1) (.op releaseFence) ++ [.op acquireFence])

theorem fences_counted {count : Nat} (hcount : count < epochSize) :
    ∃ m, runEvents nextClocks (fun _ _ => True)
        (.createThread :: List.replicate count (.op releaseFence)) Memory.empty = some m ∧
      m.threadCount = 1 ∧ (m.sync 1).current 0 = count ∧
      (m.sync 1).release 0 = count ∧ (m.sync 1).acquire 0 = 0 := by
  induction count with
  | zero => exact ⟨_, rfl, rfl, rfl, rfl, rfl⟩
  | succ count ih =>
      obtain ⟨m, hrun, hthreads, hcurrent, -, hacquire⟩ := ih (Nat.lt_of_succ_lt hcount)
      have hone : 1 ≤ m.threadCount := Nat.le_of_eq hthreads.symm
      refine ⟨(m.ticked 1).fenceRelease 1, ?_, hthreads, ?_, ?_, ?_⟩
      · rw [List.replicate_succ', ← List.cons_append, runEvents_append, hrun]
        simp only [Option.bind_some, runEvents, if_true, nextClocks,
          exec_releaseFence hone, Except.toOption, Option.map_some]
      · simp [Memory.fenceRelease, Memory.ticked, hcurrent, Nat.mod_eq_of_lt hcount]
      · simp [Memory.fenceRelease, Memory.ticked, VectorClock.assign, hthreads, hcurrent,
          Nat.mod_eq_of_lt hcount]
      · simp [Memory.fenceRelease, Memory.ticked, hacquire]

theorem clocks_inconsistent :
    ∃ m, runEvents nextClocks (fun _ _ => True) wrappingRun Memory.empty = some m ∧
      (m.sync 1).current 0 = 0 ∧ (m.sync 1).release 0 = epochSize - 1 ∧
      ¬ m.ConsistentClocks := by
  obtain ⟨m, hrun, hthreads, hcurrent, hrelease, hacquire⟩ :=
    @fences_counted (epochSize - 1) (by decide)
  have hone : 1 ≤ m.threadCount := Nat.le_of_eq hthreads.symm
  have hclock : (((m.ticked 1).fenceAcquire 1).sync 1).current 0 = 0 := by
    simp [Memory.fenceAcquire, Memory.ticked, VectorClock.join, hthreads, hcurrent,
      hacquire, epochSize]
  have hstale : (((m.ticked 1).fenceAcquire 1).sync 1).release 0 = epochSize - 1 := by
    simp [Memory.fenceAcquire, Memory.ticked, hrelease]
  refine ⟨(m.ticked 1).fenceAcquire 1, ?_, hclock, hstale, fun h => ?_⟩
  · rw [wrappingRun, ← List.cons_append, runEvents_append, hrun]
    simp [runEvents, nextClocks, Memory.exec, acquireFence, Op.wellScoped, Op.thread,
      atomicAction, Memory.syncCall, Memory.tick_eq hone, Memory.syncAction,
      Memory.atomicThreadFence, Except.map, Except.toOption, hthreads]
  · have hle := h.released 1 Nat.one_pos (Nat.le_of_eq hthreads.symm) 0
    rw [hclock, hstale] at hle
    exact absurd hle (by decide)

end Memory

end TwistSim
