/-
Interleavings of threads that synchronize through the memory model: the calls of a
`SyncVar` as the threads make them.
-/
import TwistSim.Runs
import TwistSim.Knowledge
import TwistSim.Kernel

namespace TwistSim

/-! ### What threads do -/

/-- The thread that performs the operation. -/
def Op.performer : Op → ThreadId
  | .spawn parent _ => parent
  | .wake waker _ => waker
  | op => op.thread

/-- The threads that the operation is about are all like this. -/
def Op.allowed (p : ThreadId → Bool) : Op → Bool
  | .spawn parent child => p parent && p child
  | .wake waker waiter => p waker && p waiter
  | op => p op.thread

/-- What the operation is remembered as. -/
def Op.asAccess : Op → Access
  | .access _ made => made
  | _ => ⟨0, .read, ⟨"", "", 0⟩⟩

/-- A `SyncVar` and the place in the program that its actions name. -/
structure SyncVar where
  loc : Addr
  site : SourceLocation
  deriving DecidableEq, Repr

namespace SyncVar

variable (v : SyncVar)

def action (type : ActionType) (value : Nat) (mo : MemoryOrder) (operation : String) :
    Action :=
  ⟨v.loc, 4, type, value, mo, operation, v.site⟩

def init (value : Nat) : Action := v.action .atomicInit value .relaxed "atomic::atomic"

def destroy : Action := v.action .atomicDestroy 0 .relaxed "atomic::~atomic"

def load (mo : MemoryOrder) : Action := v.action .atomicLoad 0 mo "atomic::load"

/-- `DebugLoad`, which is not a step of the memory model. -/
def debugLoad : Action := v.action .atomicDebugLoad 0 .seqCst "atomic::DebugLoad"

def store (value : Nat) (mo : MemoryOrder) : Action :=
  v.action .atomicStore value mo "atomic::store"

def rmwLoad (mo : MemoryOrder) (operation : String) : Action :=
  v.action .atomicRmwLoad 0 mo operation

def rmwCommit (value : Nat) (mo : MemoryOrder) (operation : String) : Action :=
  v.action .atomicRmwCommit value mo operation

/-- `CompareExchangeAcquireFence`. -/
def acquireFence (operation : String) : Action :=
  v.action .atomicThreadFence 0 .acquire operation

/-- `FutexLoc::AtomicUint32`. -/
def futexLoc : FutexLoc := ⟨v.loc, 4, .whole, .uint32⟩

end SyncVar

namespace Memory

def hasThread (m : Memory) (t : ThreadId) : Bool := decide (0 < t ∧ t ≤ m.threadCount)

/-- What a thread gets from `Sync`, unless the simulation stops. -/
def reply (m : Memory) (t : ThreadId) (action : Action) : Option (Nat × Memory) :=
  if m.hasThread t then (m.syncCall t action).toOption else none

/-- An operation that does not stop the simulation. -/
def perform (m : Memory) (op : Op) : Option Memory :=
  match m.exec op with
  | .ok (none, m) => some m
  | _ => none

/-- The record of an operation that has been performed. -/
def record (m : Memory) (op : Op) : OldAccess :=
  m.currAccess op.performer op.asAccess

/-- The value that `FutexWait` compares. -/
def futexLoad (m : Memory) (loc : FutexLoc) : Option Nat :=
  match m.futexAtomic loc.atomic with
  | .error _ => none
  | .ok atomic => (getFutexValue atomic atomic.lastStore.value loc).toOption

variable {m m' : Memory} {t : ThreadId} {action : Action} {value : Nat} {op : Op}
  {loc : Addr}

theorem hasThread_iff : m.hasThread t = true ↔ 0 < t ∧ t ≤ m.threadCount :=
  decide_eq_true_iff

theorem hasThread.mono (h : m.hasThread t = true)
    (hle : m.threadCount ≤ m'.threadCount) : m'.hasThread t = true := by
  rw [hasThread_iff] at h ⊢
  exact ⟨h.1, h.2.trans hle⟩

theorem perform_ok (h : m.perform op = some m') : m.exec op = .ok (none, m') := by
  unfold perform at h
  split at h
  · rename_i heq
    cases h
    exact heq
  · cases h

theorem reply_ok (h : m.reply t action = some (value, m')) :
    m.hasThread t = true ∧ m.syncCall t action = .ok (value, m') := by
  unfold reply at h
  split at h
  · rename_i ht
    refine ⟨ht, ?_⟩
    cases hcall : m.syncCall t action with
    | error e =>
        rw [hcall] at h
        cases h
    | ok result =>
        rw [hcall] at h
        cases h
        rfl
  · cases h

theorem reply_threadCount (h : m.reply t action = some (value, m')) :
    m'.threadCount = m.threadCount :=
  @syncAction_threadCount (m.ticked t) _ t value action (syncCall_ok (reply_ok h).2).2

theorem reply_grows (hroomy : m.Roomy) (h : m.reply t action = some (value, m')) :
    m.Grows m' := by
  obtain ⟨ht, hcall⟩ := reply_ok h
  exact syncCall_grows (hroomy.hasRoom (hasThread_iff.mp ht).2) hcall

theorem perform_threadCount (h : m.perform op = some m') :
    m.threadCount ≤ m'.threadCount :=
  exec_threadCount_le (perform_ok h)

theorem perform_maxThreads (h : m.perform op = some m')
    (hmax : m.threadCount ≤ maxThreads) : m'.threadCount ≤ maxThreads := by
  rcases exec_threadCount (perform_ok h) with hsame | ⟨-, hlt, hmore⟩
  · exact hsame ▸ hmax
  · exact hmore ▸ hlt

theorem perform_grows (hroomy : m.Roomy) (h : m.perform op = some m') : m.Grows m' :=
  exec_grows hroomy (perform_ok h)

theorem perform_word (htouch : touches loc op = false) (h : m.perform op = some m')
    (hword : m.Word loc value) : m'.Word loc value :=
  hword.congr (exec_atomics htouch (perform_ok h))

theorem perform_carries {a : OldAccess} (htouch : touches loc op = false)
    (h : m.perform op = some m') (hcarries : m.Carries loc a) : m'.Carries loc a :=
  hcarries.congr (exec_atomics htouch (perform_ok h))

theorem perform_spawn {child : ThreadId} (h : m.perform (.spawn t child) = some m') :
    ∃ m₁, m.createThread = .ok (child, m₁) ∧ 0 < t ∧ t ≤ m.threadCount ∧
      m₁.spawn t child = .ok m' := by
  have hexec := perform_ok h
  have hscoped := exec_wellScoped hexec
  unfold exec at hexec
  rw [if_pos hscoped] at hexec
  simp only [Op.wellScoped, decide_eq_true_eq] at hscoped
  cases hcreate : m.createThread with
  | error p =>
      rw [hcreate] at hexec
      cases hexec
  | ok result =>
      obtain ⟨id, m₁⟩ := result
      rw [hcreate] at hexec
      obtain ⟨_, hspawn, heq⟩ := map_eq_ok hexec
      cases heq
      obtain rfl : id = child := (createThread_id hcreate).trans hscoped.2.2.symm
      exact ⟨m₁, rfl, hscoped.1, hscoped.2.1, hspawn⟩

/-- What every thread knew, the new one knows as well. -/
theorem perform_knows {a : OldAccess} (hroomy : m.Roomy) (h : m.perform op = some m')
    (ha : m.Attributed a) (hall : ∀ u ≤ m.threadCount, 0 < u → m.Knows u a) :
    ∀ u ≤ m'.threadCount, 0 < u → m'.Knows u a := by
  intro u hu hpos
  by_cases hold : u ≤ m.threadCount
  · exact (perform_grows hroomy h).knows hold (hall u hold hpos)
  · rcases exec_threadCount (perform_ok h) with hsame | ⟨⟨parent, rfl⟩, -, hmore⟩
    · exact absurd (hsame ▸ hu) hold
    · obtain rfl : u = m.threadCount + 1 :=
        Nat.le_antisymm (hmore ▸ hu) (Nat.lt_of_not_le hold)
      obtain ⟨m₁, hcreate, hparent, hle, hspawn⟩ := perform_spawn h
      exact (spawn_grows hroomy hcreate hle hspawn).2 a ha (hall parent hle hparent)

/-- An action on one atomic leaves the others alone. -/
theorem reply_atomics (hne : loc ≠ action.loc) (h : m.reply t action = some (value, m')) :
    m'.atomics loc = m.atomics loc := by
  have htouch : touches loc (.sync t action) = false := by
    rw [touches, beq_eq_false_iff_ne.mpr (Ne.symm hne), Bool.false_and]
  exact @syncAction_atomics (m.ticked t) _ t loc value action
    (syncCall_ok (reply_ok h).2).2 htouch

theorem reply_nonAtomics (h : m.reply t action = some (value, m')) :
    m'.nonAtomics = m.nonAtomics :=
  @syncAction_nonAtomics (m.ticked t) _ t value action (syncCall_ok (reply_ok h).2).2

theorem perform_remembers {W R : OldAccess → Prop} (h : m.perform op = some m')
    (hold : m.Remembers loc W R)
    (hnew : ∀ t access, op = .access t access → access.loc = loc →
      if isRead access.type = true then R (m'.currAccess t access)
      else W (m'.currAccess t access)) : m'.Remembers loc W R := by
  have hexec := perform_ok h
  by_cases hop : ∃ t access, op = .access t access
  · obtain ⟨t, access, rfl⟩ := hop
    have hscoped := exec_wellScoped hexec
    unfold exec at hexec
    rw [if_pos hscoped] at hexec
    exact access_remembers hexec hold (hnew t access rfl)
  · refine hold.congr ?_
    rw [(exec_nonAtomics (fun t access heq => hop ⟨t, access, heq⟩) hexec).2]

/-! ### Waking after a write -/

/-- A wake does not make the clock of the waiter overflow. -/
def WakeRoom (m : Memory) (waker waiter : ThreadId) : Prop :=
  (m.sync waiter).current (waiter - 1) + 1 < epochSize ∧
    (m.sync waker).release (waiter - 1) + 1 < epochSize

theorem perform_wake {waiter : ThreadId} (h : m.perform (.wake t waiter) = some m') :
    0 < waiter ∧ m.wake t waiter = .ok m' := by
  have hexec := perform_ok h
  have hscoped := exec_wellScoped hexec
  unfold exec at hexec
  rw [if_pos hscoped] at hexec
  simp only [Op.wellScoped, decide_eq_true_eq] at hscoped
  obtain ⟨_, hwake, heq⟩ := map_eq_ok hexec
  cases heq
  exact ⟨hscoped.2.2.1, hwake⟩

theorem perform_wake_grows {waiter : ThreadId} (hroom : m.WakeRoom t waiter)
    (h : m.perform (.wake t waiter) = some m') : m.Grows m' :=
  (wake_grows hroom (perform_wake h).2).1

/-- The wake of one waiter leaves room for the others. -/
theorem WakeRoom.wake {waiter other : ThreadId} (hroom : m.WakeRoom t other)
    (h : m.perform (.wake t waiter) = some m') (hother : other ≠ waiter)
    (ht : t ≠ waiter) : m'.WakeRoom t other := by
  have hwake := (perform_wake h).2
  unfold Memory.wake at hwake
  obtain ⟨_, rfl⟩ := tick_ok hwake
  simpa only [WakeRoom, ticked, setSync_setSync, setSync_sync_of_ne _ _ _ hother,
    setSync_sync_of_ne _ _ _ ht] using hroom

/-- A store or a commit uses up the room of its own thread only. -/
theorem wakeRoom_of_write {waiter : ThreadId} (hroomy : m.Roomy)
    (htype : action.type = .atomicStore ∨ action.type = .atomicRmwCommit)
    (h : m.reply t action = some (value, m')) (hwaiter : m.hasThread waiter = true)
    (hne : waiter ≠ t) : m'.WakeRoom t waiter := by
  obtain ⟨ht, hcall⟩ := reply_ok h
  obtain ⟨htpos, htle⟩ := hasThread_iff.mp ht
  obtain ⟨hpos, hle⟩ := hasThread_iff.mp hwaiter
  obtain ⟨_, hsync⟩ := syncCall_ok hcall
  have hindex : waiter - 1 ≠ t - 1 := fun heq => hne (by
    rw [← Nat.sub_add_cancel hpos, ← Nat.sub_add_cancel htpos, heq])
  -- The clocks after the write, up to the fence that may belong to it.
  have hclocks : m'.sync = (m.ticked t).sync ∨
      m'.sync = ((m.ticked t).fenceRelease t).sync := by
    have hwrite : ∀ write : Memory → AtomicVar → Memory,
        (m.ticked t).fenceThenWrite t action write = .ok m' →
        (∀ m atomic, (write m atomic).sync = m.sync) →
        m'.sync = (m.ticked t).sync ∨
          m'.sync = ((m.ticked t).fenceRelease t).sync := by
      intro write hok hsame
      obtain ⟨atomic, _, _, rfl⟩ := fenceThenWrite_ok hok
      rw [hsame]
      split
      · exact Or.inr rfl
      · exact Or.inl rfl
    rcases htype with htype | htype
    · simp only [syncAction, htype] at hsync
      obtain ⟨_, hstore, heq⟩ := map_eq_ok hsync
      cases heq
      unfold atomicStore at hstore
      split at hstore
      · exact hwrite _ hstore fun _ _ => rfl
      · cases hstore
    · simp only [syncAction, htype] at hsync
      obtain ⟨_, hcommit, heq⟩ := map_eq_ok hsync
      cases heq
      exact hwrite _ hcommit fun _ _ => rfl
  have hlt : waiter - 1 < m.threadCount :=
    Nat.lt_of_lt_of_le (Nat.sub_lt hpos Nat.one_pos) hle
  have hwaiterRoom := hroomy waiter (Nat.lt_succ_of_le hle) (waiter - 1)
    (Nat.lt_succ_of_lt hlt)
  have hwakerRoom := hroomy t (Nat.lt_succ_of_le htle) (waiter - 1)
    (Nat.lt_succ_of_lt hlt)
  rcases hclocks with hclocks | hclocks
  · simp only [WakeRoom, hclocks, ticked, setSync_sync_of_ne _ _ _ hne,
      setSync_sync_self]
    exact ⟨hwaiterRoom.1, hwakerRoom.2⟩
  · simp only [WakeRoom, hclocks, fenceRelease, ticked, setSync_setSync,
      setSync_sync_of_ne _ _ _ hne, setSync_sync_self, VectorClock.assign,
      setSync_threadCount, if_pos hlt, Function.update_of_ne hindex]
    exact ⟨hwaiterRoom.1, hwakerRoom.1⟩

theorem getFutexValue_uint32 {atomic : AtomicVar} {loc : FutexLoc} {r : Nat}
    (htype : loc.type = .uint32) (h : getFutexValue atomic value loc = .ok r) :
    r = value := by
  unfold getFutexValue at h
  rw [htype] at h
  dsimp only at h
  by_cases hsize : atomic.size = loc.size
  · rw [if_pos hsize] at h
    exact (Except.ok.inj h).symm
  · rw [if_neg hsize] at h
    cases h

theorem futexAtomic_ok {atomic : AtomicVar} (h : m.futexAtomic loc = .ok atomic) :
    m.atomics loc = some atomic ∧ atomic.dtor = false := by
  unfold futexAtomic at h
  cases hloc : m.atomics loc with
  | none =>
      rw [hloc] at h
      cases h
  | some found =>
      rw [hloc] at h
      dsimp only at h
      by_cases hdtor : found.dtor = true
      · rw [if_pos hdtor] at h
        cases h
      · rw [if_neg hdtor] at h
        cases h
        exact ⟨rfl, Bool.eq_false_of_not_eq_true hdtor⟩

theorem futexLoad_word {v : SyncVar} (h : m.futexLoad v.futexLoc = some value) :
    m.Word v.loc value := by
  unfold futexLoad at h
  cases hatomic : m.futexAtomic v.futexLoc.atomic with
  | error e =>
      rw [hatomic] at h
      cases h
  | ok atomic =>
      rw [hatomic] at h
      obtain ⟨hloc, hdtor⟩ := futexAtomic_ok hatomic
      cases hvalue : getFutexValue atomic atomic.lastStore.value v.futexLoc with
      | error e =>
          dsimp only at h
          rw [hvalue] at h
          cases h
      | ok r =>
          dsimp only at h
          rw [hvalue] at h
          cases h
          exact ⟨atomic, hloc, hdtor, (getFutexValue_uint32 rfl hvalue).symm⟩

/-- Several wakes, in the order in which the queue hands out the waiters. -/
def wakes (m : Memory) (t : ThreadId) : List ThreadId → Option Memory
  | [] => some m
  | u :: us => (m.perform (.wake t u)).bind fun m => m.wakes t us

section Wakes

variable {us : List ThreadId}

theorem wakes_atomics (h : m.wakes t us = some m') : m'.atomics = m.atomics := by
  induction us generalizing m with
  | nil =>
      cases h
      rfl
  | cons u us ih =>
      obtain ⟨m₁, hwake, hrest⟩ := Option.bind_eq_some_iff.mp h
      refine (ih hrest).trans ?_
      funext loc
      exact exec_atomics rfl (perform_ok hwake)

theorem wakes_nonAtomics (h : m.wakes t us = some m') :
    m'.nonAtomics = m.nonAtomics := by
  induction us generalizing m with
  | nil =>
      cases h
      rfl
  | cons u us ih =>
      obtain ⟨m₁, hwake, hrest⟩ := Option.bind_eq_some_iff.mp h
      exact (ih hrest).trans (exec_nonAtomics (fun _ _ => Op.noConfusion) (perform_ok hwake)).2

theorem wakes_threadCount (h : m.wakes t us = some m') :
    m'.threadCount = m.threadCount := by
  induction us generalizing m with
  | nil =>
      cases h
      rfl
  | cons u us ih =>
      obtain ⟨m₁, hwake, hrest⟩ := Option.bind_eq_some_iff.mp h
      refine (ih hrest).trans ?_
      rcases exec_threadCount (perform_ok hwake) with hsame | ⟨⟨_, hop⟩, -⟩
      · exact hsame
      · cases hop

theorem wakes_grows (hroom : ∀ u ∈ us, m.WakeRoom t u) (hnodup : us.Nodup)
    (ht : t ∉ us) (h : m.wakes t us = some m') : m.Grows m' := by
  induction us generalizing m with
  | nil =>
      cases h
      exact Grows.refl _
  | cons u us ih =>
      obtain ⟨m₁, hwake, hrest⟩ := Option.bind_eq_some_iff.mp h
      obtain ⟨hu, hnodup⟩ := List.nodup_cons.mp hnodup
      obtain ⟨htu, ht⟩ := not_or.mp fun hmem => ht (List.mem_cons.mpr hmem)
      have hfirst := perform_wake_grows (hroom u List.mem_cons_self) hwake
      refine hfirst.trans (ih (fun w hw => ?_) hnodup ht hrest)
      refine (hroom w (List.mem_cons_of_mem u hw)).wake hwake ?_ htu
      rintro rfl
      exact hu hw

end Wakes

/-! ### Ticks alone -/

/-- So many ticks later. -/
def advanced (m : Memory) (t : ThreadId) (count : Nat) : Memory :=
  m.setSync t
    { m.sync t with
      current := Function.update (m.sync t).current (t - 1)
        (((m.sync t).current (t - 1) + count) % epochSize)
      epoch := ((m.sync t).epoch + count) % epochSize }

theorem advanced_ticked (m : Memory) (t : ThreadId) (count : Nat) :
    (m.advanced t count).ticked t = m.advanced t (count + 1) := by
  simp only [advanced, ticked, setSync_sync_self, setSync_setSync, Function.update_self,
    Function.update_idem, Nat.mod_add_mod, Nat.add_assoc]

/-- A `DebugLoad` only ticks. -/
theorem perform_debugLoad {v : SyncVar} (ht : m.hasThread t = true)
    (hword : m.Word v.loc value) :
    m.perform (.sync t v.debugLoad) = some (m.ticked t) := by
  obtain ⟨atomic, hatomic, hdtor, -⟩ := hword
  have hscoped := hasThread_iff.mp ht
  have hshadow : (m.ticked t).getShadowAtomicVar v.debugLoad = .ok atomic := by
    unfold getShadowAtomicVar
    rw [ticked_atomics, show m.atomics v.debugLoad.loc = some atomic from hatomic]
    simp only [hdtor, Bool.false_eq_true, if_false]
  have hcall : m.syncCall t v.debugLoad = .ok (atomic.lastStore.value, m.ticked t) := by
    unfold syncCall
    rw [tick_eq hscoped.2]
    show (m.ticked t).atomicDebugLoad v.debugLoad = _
    rw [atomicDebugLoad, hshadow]
    rfl
  have hexec : m.exec (.sync t v.debugLoad) = .ok (none, m.ticked t) := by
    unfold exec
    rw [if_pos (show (Op.sync t v.debugLoad).wellScoped m.threadCount = true from
      decide_eq_true hscoped)]
    show (m.syncCall t v.debugLoad).map _ = _
    rw [hcall]
    rfl
  rw [perform, hexec]

end Memory

end TwistSim
