/-
The simulated `shared_mutex` under every interleaving: readers and writers are
kept apart, the state word counts the readers, and no wakeup is lost.
-/
import TwistSim.Protocols

namespace TwistSim

namespace SharedMutex

/-- `(readers << 1) | (writer ? 1 : 0)` on `uint32_t`. -/
def pack (writer : Bool) (readers : Nat) : Nat :=
  readers * 2 % 2 ^ 32 + if writer then 1 else 0

/-- `(state & 1) == 1`. -/
def unpackWriter (state : Nat) : Bool := state % 2 == 1

/-- `state >> 1`. -/
def unpackReaders (state : Nat) : Nat := state / 2

/-- The methods that load the state, and acquire by a compare-exchange. -/
inductive Method where
  | lock | lockShared | tryLockShared
  deriving DecidableEq, Repr

namespace Method

/-- Is the mutex free for the method? -/
def admits (method : Method) (state : Nat) : Bool :=
  match method with
  | lock => !unpackWriter state && unpackReaders state == 0
  | lockShared | tryLockShared => !unpackWriter state

def desired (method : Method) (state : Nat) : Nat :=
  match method with
  | lock => pack true 0
  | lockShared | tryLockShared => pack false (unpackReaders state + 1)

def waits : Method → Bool
  | tryLockShared => false
  | _ => true

end Method

/-- The releases of each kind that a thread had seen when it loaded the state. -/
structure Seen where
  unlocks : Nat
  sharedUnlocks : Nat
  deriving DecidableEq, Repr

/-- Where a thread is in the code of `shared_mutex`.  What it had seen at its load is
not in the code. -/
inductive Pc where
  | outside
  | writes
  | reads
  | loading (method : Method)
  | casLoading (method : Method) (expected : Nat) (seen : Seen)
  | casCommitting (method : Method) (expected : Nat) (seen : Seen)
  | parked (method : Method)
  | woken (method : Method)
  | tryLoading
  | tryFencing
  | tryCommitting
  | unlocking
  | unlockLoading
  | unlockCommitting (old : Nat)
  deriving DecidableEq, Repr

namespace Pc

/-- In the user's code. -/
def idle : Pc → Bool
  | outside | writes | reads => true
  | _ => false

def writing : Pc → Bool
  | writes | unlocking => true
  | _ => false

def reading : Pc → Bool
  | reads | unlockLoading | unlockCommitting _ => true
  | _ => false

/-- Between the load and the commit of a read-modify-write. -/
def midRmw : Pc → Bool
  | casCommitting .. | tryFencing | tryCommitting | unlockCommitting _ => true
  | _ => false

def isParked : Pc → Bool
  | parked _ => true
  | _ => false

/-- In the loop of `Lock` or `LockShared`, and not parked. -/
def retrying : Pc → Bool
  | loading method | casLoading method .. | casCommitting method .. | woken method =>
      method.waits
  | _ => false

theorem reading_of_writing {pc : Pc} (h : pc.writing = true) : pc.reading = false := by
  cases pc with
  | writes | unlocking => rfl
  | _ => cases h

/-- What `FutexWake` does to a waiter. -/
def wake : Pc → Pc
  | parked method => woken method
  | pc => pc

end Pc

/-- The waiters are awake, and the others are where they were. -/
def wakeAll (waiters : List ThreadId) (pc : ThreadId → Pc) (u : ThreadId) : Pc :=
  if u ∈ waiters then (pc u).wake else pc u

def Method.held : Method → Pc
  | lock => .writes
  | lockShared | tryLockShared => .reads

/-- The threads, the accesses made by writers, by readers, and while there was one
thread only, and how often the mutex was released in either way. -/
structure State where
  memory : Memory
  pc : ThreadId → Pc
  constructed : Bool
  exclusive : List OldAccess
  shared : List OldAccess
  alone : List OldAccess
  seen : Seen

inductive Event where
  | user (op : Op)
  | init (t : ThreadId)
  | call (t : ThreadId) (method : Method)
  | tryLock (t : ThreadId)
  | unlock (t : ThreadId)
  | unlockShared (t : ThreadId)
  | resume (t : ThreadId) (waiters : List ThreadId) (spurious : Bool)
  deriving DecidableEq, Repr

namespace State

def start : State where
  memory := Memory.start
  pc _ := .outside
  constructed := false
  exclusive := []
  shared := []
  alone := []
  seen := ⟨0, 0⟩

def goto (s : State) (t : ThreadId) (pc : Pc) : State :=
  { s with pc := Function.update s.pc t pc }

/-- A thread that is not preemptive runs on until its commit. -/
def MayRun (s : State) (t : ThreadId) : Prop :=
  s.memory.hasThread t = true ∧
    ∀ u < s.memory.threadCount + 1, u ≠ t → (s.pc u).midRmw = false

instance (s : State) (t : ThreadId) : Decidable (s.MayRun t) := by
  unfold MayRun
  infer_instance

/-- The thread may call a method of the mutex. -/
def MayCall (s : State) (t : ThreadId) (pc : Pc) : Prop :=
  s.MayRun t ∧ s.constructed = true ∧ s.pc t = pc

instance (s : State) (t : ThreadId) (pc : Pc) : Decidable (s.MayCall t pc) := by
  unfold MayCall
  infer_instance

/-- Does the operation respect the locking of the variables in `guarded`?  They are
set up before there is a second thread, or under the lock. -/
def locked (s : State) (guarded : Addr → Bool) : Op → Bool
  | .access t access =>
      !guarded access.loc || s.memory.threadCount == 1 || (s.pc t).writing ||
        (s.pc t).reading && isRead access.type
  | _ => true

/-- Remember an access, as it is recorded. -/
def note (s : State) (m : Memory) : Op → State
  | .access t access =>
      let old := m.currAccess t access
      let s := { s with memory := m }
      if m.threadCount = 1 then { s with alone := old :: s.alone }
      else if (s.pc t).writing then { s with exclusive := old :: s.exclusive }
      else if (s.pc t).reading then { s with shared := old :: s.shared }
      else s
  | _ => { s with memory := m }

def parkedThreads (s : State) : List ThreadId :=
  (List.range' 1 s.memory.threadCount).filter fun u => (s.pc u).isParked

/-- Whom `FutexWake` can wake: everyone, or one if there is one. -/
def Wakes (s : State) (all : Bool) (waiters : List ThreadId) : Prop :=
  if all then waiters.Perm s.parkedThreads
  else waiters.length ≤ 1 ∧ waiters ⊆ s.parkedThreads ∧
    (waiters = [] → s.parkedThreads = [])

instance (s : State) (all : Bool) (waiters : List ThreadId) :
    Decidable (s.Wakes all waiters) := by
  unfold Wakes
  infer_instance

variable (v : SyncVar)

def futexWait (s : State) (t : ThreadId) (method : Method) (old : Nat) (m : Memory) :
    Option State :=
  (m.futexLoad v.futexLoc).map fun value =>
    { s.goto t (if value = old then .parked method else .woken method) with memory := m }

def futexWake (s : State) (t : ThreadId) (all : Bool) (waiters : List ThreadId)
    (m : Memory) : Option State :=
  let s := { s.goto t .outside with memory := m }
  if s.Wakes all waiters then
    (m.wakes t waiters).map fun m =>
      { s with
        memory := m
        pc := wakeAll waiters s.pc }
  else none

/-- The thread executes its pending action and runs until the next one. -/
def resume (s : State) (t : ThreadId) (waiters : List ThreadId) (spurious : Bool) :
    Option State :=
  match s.pc t with
  | .loading method =>
      (s.memory.reply t (v.load .acquire)).bind fun (state, m) =>
        if method.admits state then
          some { s.goto t (.casLoading method state s.seen) with memory := m }
        else if method.waits then s.futexWait v t method state m
        else some { s.goto t .outside with memory := m }
  | .casLoading method expected seen =>
      (s.memory.reply t
          (v.rmwLoad .relaxed "atomic::compare_exchange_strong")).map fun (old, m) =>
        { s.goto t
            (if old = expected then .casCommitting method expected seen
              else .loading method) with memory := m }
  | .casCommitting method expected _ =>
      (s.memory.reply t (v.rmwCommit (method.desired expected) .relaxed
          "atomic::compare_exchange_strong")).map fun (_, m) =>
        { s.goto t method.held with memory := m }
  | .woken method => some (s.goto t (.loading method))
  | .tryLoading =>
      (s.memory.reply t
          (v.rmwLoad .relaxed "atomic::compare_exchange_weak")).map fun (old, m) =>
        { s.goto t
            (if old = pack false 0 ∧ spurious = false then .tryFencing else .outside)
          with memory := m }
  | .tryFencing =>
      (s.memory.reply t (v.acquireFence "atomic::compare_exchange_weak")).map
        fun (_, m) => { s.goto t .tryCommitting with memory := m }
  | .tryCommitting =>
      (s.memory.reply t (v.rmwCommit (pack true 0) .acquire
          "atomic::compare_exchange_weak")).map fun (_, m) =>
        { s.goto t .writes with memory := m }
  | .unlocking =>
      (s.memory.reply t (v.store (pack false 0) .release)).bind fun (_, m) =>
        { s with seen := { s.seen with unlocks := s.seen.unlocks + 1 } }.futexWake
          t true waiters m
  | .unlockLoading =>
      (s.memory.reply t (v.rmwLoad .release "atomic::fetch_sub")).map fun (old, m) =>
        { s.goto t (.unlockCommitting old) with memory := m }
  | .unlockCommitting old =>
      (s.memory.reply t (v.rmwCommit ((old + 2 ^ 32 - 2) % 2 ^ 32) .release
          "atomic::fetch_sub")).bind fun (_, m) =>
        let s := { s with seen := { s.seen with sharedUnlocks := s.seen.sharedUnlocks + 1 } }
        -- The number of readers is verified.
        if unpackReaders old = 0 then none
        else if unpackReaders old = 1 then s.futexWake t false waiters m
        else some { s.goto t .outside with memory := m }
  | .outside | .writes | .reads | .parked _ => none

def next (guarded : Addr → Bool) (s : State) : Event → Option State
  | .user op =>
      if s.MayRun op.performer ∧ op.allowed (fun u => (s.pc u).idle) = true ∧
          Memory.touches v.loc op = false ∧ s.locked guarded op = true then
        (s.memory.perform op).map fun m => s.note m op
      else none
  | .init t =>
      if s.MayRun t ∧ s.pc t = .outside ∧ s.constructed = false then
        (s.memory.reply t (v.init (pack false 0))).map fun (_, m) =>
          { s with memory := m, constructed := true }
      else none
  | .call t method =>
      if s.MayCall t .outside then some (s.goto t (.loading method)) else none
  | .tryLock t => if s.MayCall t .outside then some (s.goto t .tryLoading) else none
  | .unlock t => if s.MayCall t .writes then some (s.goto t .unlocking) else none
  | .unlockShared t =>
      if s.MayCall t .reads then some (s.goto t .unlockLoading) else none
  | .resume t waiters spurious =>
      if s.MayRun t then s.resume v t waiters spurious else none

end State

variable {v : SyncVar} {guarded : Addr → Bool} {s s' : State} {t : ThreadId}

/-! ### What a step can do -/

/-- A turn in which a thread neither gets the mutex nor gives it up: where it is
after the turn, and the memory. -/
inductive Pass (v : SyncVar) (s : State) (t : ThreadId) : Pc → Memory → Prop where
  | call {method : Method} (hpc : s.pc t = .outside) :
      Pass v s t (.loading method) s.memory
  | tryLock (hpc : s.pc t = .outside) : Pass v s t .tryLoading s.memory
  | unlock (hpc : s.pc t = .writes) : Pass v s t .unlocking s.memory
  | unlockShared (hpc : s.pc t = .reads) : Pass v s t .unlockLoading s.memory
  | load {method : Method} {state : Nat} {m : Memory} (hpc : s.pc t = .loading method)
      (h : s.memory.reply t (v.load .acquire) = some (state, m))
      (hadmits : method.admits state = true) :
      Pass v s t (.casLoading method state s.seen) m
  | park {method : Method} {state : Nat} {m : Memory} (hpc : s.pc t = .loading method)
      (h : s.memory.reply t (v.load .acquire) = some (state, m))
      (hadmits : method.admits state = false) (hwaits : method.waits = true) :
      Pass v s t (.parked method) m
  | fail {method : Method} {state : Nat} {m : Memory} (hpc : s.pc t = .loading method)
      (h : s.memory.reply t (v.load .acquire) = some (state, m))
      (hwaits : method.waits = false) : Pass v s t .outside m
  | casLoad {method : Method} {expected : Nat} {seen : Seen} {m : Memory}
      (hpc : s.pc t = .casLoading method expected seen)
      (h : s.memory.reply t (v.rmwLoad .relaxed "atomic::compare_exchange_strong") =
        some (expected, m)) :
      Pass v s t (.casCommitting method expected seen) m
  | casFails {method : Method} {expected old : Nat} {seen : Seen} {m : Memory}
      (hpc : s.pc t = .casLoading method expected seen)
      (h : s.memory.reply t (v.rmwLoad .relaxed "atomic::compare_exchange_strong") =
        some (old, m)) :
      Pass v s t (.loading method) m
  | retry {method : Method} (hpc : s.pc t = .woken method) :
      Pass v s t (.loading method) s.memory
  | tryLoad {m : Memory} (hpc : s.pc t = .tryLoading)
      (h : s.memory.reply t (v.rmwLoad .relaxed "atomic::compare_exchange_weak") =
        some (pack false 0, m)) :
      Pass v s t .tryFencing m
  | tryFails {old : Nat} {m : Memory} (hpc : s.pc t = .tryLoading)
      (h : s.memory.reply t (v.rmwLoad .relaxed "atomic::compare_exchange_weak") =
        some (old, m)) :
      Pass v s t .outside m
  | tryFence {value : Nat} {m : Memory} (hpc : s.pc t = .tryFencing)
      (h : s.memory.reply t (v.acquireFence "atomic::compare_exchange_weak") =
        some (value, m)) :
      Pass v s t .tryCommitting m
  | unlockLoad {old : Nat} {m : Memory} (hpc : s.pc t = .unlockLoading)
      (h : s.memory.reply t (v.rmwLoad .release "atomic::fetch_sub") = some (old, m)) :
      Pass v s t (.unlockCommitting old) m

/-- The thread has committed a compare-exchange: what it stored, and what it holds. -/
inductive Acquire (v : SyncVar) (s : State) (t : ThreadId) : Nat → Pc → Memory → Prop
    where
  | cas {method : Method} {expected value : Nat} {seen : Seen} {m : Memory}
      (hpc : s.pc t = .casCommitting method expected seen)
      (h : s.memory.reply t (v.rmwCommit (method.desired expected) .relaxed
        "atomic::compare_exchange_strong") = some (value, m)) :
      Acquire v s t (method.desired expected) method.held m
  | tryLock {value : Nat} {m : Memory} (hpc : s.pc t = .tryCommitting)
      (h : s.memory.reply t (v.rmwCommit (pack true 0) .acquire
        "atomic::compare_exchange_weak") = some (value, m)) :
      Acquire v s t (pack true 0) .writes m

/-- The thread has given up the mutex: the releases counted so far, whether there is
a wake, and of how many. -/
inductive Release (v : SyncVar) (s : State) (t : ThreadId) :
    Seen → Option Bool → Memory → Prop where
  | unlock {value : Nat} {m : Memory} (hpc : s.pc t = .unlocking)
      (h : s.memory.reply t (v.store (pack false 0) .release) = some (value, m)) :
      Release v s t { s.seen with unlocks := s.seen.unlocks + 1 } (some true) m
  | unlockShared {old value : Nat} {m : Memory} (hpc : s.pc t = .unlockCommitting old)
      (h : s.memory.reply t (v.rmwCommit ((old + 2 ^ 32 - 2) % 2 ^ 32) .release
        "atomic::fetch_sub") = some (value, m)) :
      Release v s t { s.seen with sharedUnlocks := s.seen.sharedUnlocks + 1 }
        (if unpackReaders old = 1 then some false else none) m

inductive Step (v : SyncVar) (guarded : Addr → Bool) (s : State) : State → Prop where
  | user {op : Op} {m : Memory} (hrun : s.MayRun op.performer)
      (hidle : op.allowed (fun u => (s.pc u).idle) = true)
      (htouch : Memory.touches v.loc op = false) (hlocked : s.locked guarded op = true)
      (h : s.memory.perform op = some m) :
      Step v guarded s (s.note m op)
  | init {t : ThreadId} {value : Nat} {m : Memory} (hrun : s.MayRun t)
      (hraw : s.constructed = false)
      (h : s.memory.reply t (v.init (pack false 0)) = some (value, m)) :
      Step v guarded s { s with memory := m, constructed := true }
  | pass {t : ThreadId} {pc : Pc} {m : Memory} (hrun : s.MayRun t)
      (hbuilt : s.constructed = false → s.pc t ≠ .outside) (hpass : Pass v s t pc m) :
      Step v guarded s { s.goto t pc with memory := m }
  | acquire {t : ThreadId} {value : Nat} {pc : Pc} {m : Memory} (hrun : s.MayRun t)
      (hacquire : Acquire v s t value pc m) :
      Step v guarded s { s.goto t pc with memory := m }
  | release {t : ThreadId} {seen : Seen} {wakes : Option Bool}
      {waiters : List ThreadId} {m m' : Memory} (hrun : s.MayRun t)
      (hrelease : Release v s t seen wakes m)
      (hwakes : ∀ all, wakes = some all →
        State.Wakes { s.goto t .outside with memory := m, seen := seen } all waiters)
      (hquiet : wakes = none → waiters = [])
      (h : m.wakes t waiters = some m') :
      Step v guarded s
        { s.goto t .outside with
          memory := m'
          seen := seen
          pc := wakeAll waiters (s.goto t .outside).pc }

theorem wakeAll_nil (pc : ThreadId → Pc) : wakeAll [] pc = pc :=
  funext fun _ => if_neg List.not_mem_nil

theorem step_futexWake {seen : Seen} {all : Bool} {waiters : List ThreadId} {m : Memory}
    (hrun : s.MayRun t) (hrelease : Release v s t seen (some all) m)
    (h : State.futexWake { s with seen := seen } t all waiters m = some s') :
    Step v guarded s s' := by
  unfold State.futexWake at h
  dsimp only at h
  split at h
  · rename_i hwakes
    obtain ⟨m', hmemory, rfl⟩ := Option.map_eq_some_iff.mp h
    refine Step.release hrun hrelease (fun all' heq => ?_) (fun hnone => ?_) hmemory
    · obtain rfl := Option.some.inj heq
      exact hwakes
    · cases hnone
  · cases h

theorem step_load {state : Nat} {m : Memory} {method : Method}
    (hrun : s.MayRun t) (hpc : s.pc t = .loading method)
    (hreply : s.memory.reply t (v.load .acquire) = some (state, m))
    (h : (if method.admits state then
        some { s.goto t (.casLoading method state s.seen) with memory := m }
      else if method.waits then s.futexWait v t method state m
      else some { s.goto t .outside with memory := m }) = some s') :
    Step v guarded s s' := by
  have hbuilt : s.constructed = false → s.pc t ≠ .outside := fun _ => by
    rw [hpc]
    exact Pc.noConfusion
  by_cases hadmits : method.admits state = true
  · rw [if_pos hadmits] at h
    cases h
    exact Step.pass hrun hbuilt (.load hpc hreply hadmits)
  · have hnot := Bool.eq_false_of_not_eq_true hadmits
    rw [if_neg hadmits] at h
    by_cases hwaits : method.waits = true
    · rw [if_pos hwaits] at h
      obtain ⟨value, hvalue, rfl⟩ := Option.map_eq_some_iff.mp h
      -- Nothing happened since the load.
      obtain ⟨hword, hatomics, -⟩ :=
        Memory.load_spec (Memory.reply_ok hreply).2 (Or.inl rfl)
      have hsame : m.atomics v.loc = s.memory.atomics v.loc := congrFun hatomics _
      obtain rfl : value = state :=
        (Memory.futexLoad_word hvalue).unique (hword.congr hsame)
      rw [if_pos rfl]
      exact Step.pass hrun hbuilt (.park hpc hreply hnot hwaits)
    · rw [if_neg hwaits] at h
      cases h
      exact Step.pass hrun hbuilt
        (.fail hpc hreply (Bool.eq_false_of_not_eq_true hwaits))

theorem step_unlockCommit {old value : Nat} {m : Memory} {waiters : List ThreadId}
    (hrun : s.MayRun t) (hpc : s.pc t = .unlockCommitting old)
    (hreply : s.memory.reply t (v.rmwCommit ((old + 2 ^ 32 - 2) % 2 ^ 32) .release
      "atomic::fetch_sub") = some (value, m))
    (h : (let s := { s with
          seen := { s.seen with sharedUnlocks := s.seen.sharedUnlocks + 1 } }
        if unpackReaders old = 0 then none
        else if unpackReaders old = 1 then s.futexWake t false waiters m
        else some { s.goto t .outside with memory := m }) = some s') :
    Step v guarded s s' := by
  have hrelease := Release.unlockShared hpc hreply
  dsimp only at h
  by_cases hzero : unpackReaders old = 0
  · rw [if_pos hzero] at h
    cases h
  · rw [if_neg hzero] at h
    by_cases hone : unpackReaders old = 1
    · rw [if_pos hone] at h hrelease
      exact step_futexWake hrun hrelease h
    · rw [if_neg hone] at h hrelease
      cases h
      have hstep := @Step.release v guarded s t _ none [] m m hrun hrelease
        (fun _ heq => by cases heq) (fun _ => rfl) rfl
      rw [wakeAll_nil] at hstep
      exact hstep

theorem step_resume {waiters : List ThreadId} {spurious : Bool} (hrun : s.MayRun t)
    (h : s.resume v t waiters spurious = some s') : Step v guarded s s' := by
  unfold State.resume at h
  have hbuilt : s.pc t ≠ .outside → s.constructed = false → s.pc t ≠ .outside :=
    fun hne _ => hne
  cases hpc : s.pc t with
  | outside | writes | reads | parked _ =>
      simp only [hpc] at h
      cases h
  | loading method =>
      simp only [hpc] at h
      obtain ⟨⟨state, m⟩, hreply, h⟩ := Option.bind_eq_some_iff.mp h
      exact step_load hrun hpc hreply h
  | casLoading method expected seen =>
      simp only [hpc] at h
      obtain ⟨⟨old, m⟩, hreply, rfl⟩ := Option.map_eq_some_iff.mp h
      have hne := hbuilt (by rw [hpc]; exact Pc.noConfusion)
      by_cases hequal : old = expected
      · subst hequal
        simp only [if_true]
        exact Step.pass hrun hne (.casLoad hpc hreply)
      · simp only [hequal, if_false]
        exact Step.pass hrun hne (.casFails hpc hreply)
  | casCommitting method expected seen =>
      simp only [hpc] at h
      obtain ⟨⟨value, m⟩, hreply, rfl⟩ := Option.map_eq_some_iff.mp h
      exact Step.acquire hrun (.cas hpc hreply)
  | woken method =>
      simp only [hpc] at h
      cases h
      exact Step.pass hrun (hbuilt (by rw [hpc]; exact Pc.noConfusion)) (.retry hpc)
  | tryLoading =>
      simp only [hpc] at h
      obtain ⟨⟨old, m⟩, hreply, rfl⟩ := Option.map_eq_some_iff.mp h
      have hne := hbuilt (by rw [hpc]; exact Pc.noConfusion)
      by_cases hequal : old = pack false 0 ∧ spurious = false
      · obtain ⟨rfl, rfl⟩ := hequal
        exact Step.pass hrun hne (.tryLoad hpc hreply)
      · simp only [hequal, if_false]
        exact Step.pass hrun hne (.tryFails hpc hreply)
  | tryFencing =>
      simp only [hpc] at h
      obtain ⟨⟨value, m⟩, hreply, rfl⟩ := Option.map_eq_some_iff.mp h
      exact Step.pass hrun (hbuilt (by rw [hpc]; exact Pc.noConfusion))
        (.tryFence hpc hreply)
  | tryCommitting =>
      simp only [hpc] at h
      obtain ⟨⟨value, m⟩, hreply, rfl⟩ := Option.map_eq_some_iff.mp h
      exact Step.acquire hrun (.tryLock hpc hreply)
  | unlocking =>
      simp only [hpc] at h
      obtain ⟨⟨value, m⟩, hreply, h⟩ := Option.bind_eq_some_iff.mp h
      exact step_futexWake hrun (.unlock hpc hreply) h
  | unlockLoading =>
      simp only [hpc] at h
      obtain ⟨⟨old, m⟩, hreply, rfl⟩ := Option.map_eq_some_iff.mp h
      exact Step.pass hrun (hbuilt (by rw [hpc]; exact Pc.noConfusion))
        (.unlockLoad hpc hreply)
  | unlockCommitting old =>
      simp only [hpc] at h
      obtain ⟨⟨value, m⟩, hreply, h⟩ := Option.bind_eq_some_iff.mp h
      exact step_unlockCommit hrun hpc hreply h

theorem step_of_next {e : Event} (h : s.next v guarded e = some s') :
    Step v guarded s s' := by
  have hpass : ∀ {t : ThreadId} {pc pc' : Pc}, s.MayCall t pc →
      Pass v s t pc' s.memory → Step v guarded s (s.goto t pc') := by
    intro t pc pc' hcall hpass
    exact Step.pass hcall.1 (fun hraw => absurd hcall.2.1 (by rw [hraw]; decide)) hpass
  unfold State.next at h
  cases e with
  | user op =>
      dsimp only at h
      split at h
      · rename_i hcond
        obtain ⟨m, hperform, rfl⟩ := Option.map_eq_some_iff.mp h
        exact Step.user hcond.1 hcond.2.1 hcond.2.2.1 hcond.2.2.2 hperform
      · cases h
  | init t =>
      dsimp only at h
      split at h
      · rename_i hcond
        obtain ⟨⟨value, m⟩, hreply, rfl⟩ := Option.map_eq_some_iff.mp h
        exact Step.init hcond.1 hcond.2.2 hreply
      · cases h
  | call t method =>
      dsimp only at h
      split at h
      · rename_i hcall
        cases h
        exact hpass hcall (.call hcall.2.2)
      · cases h
  | tryLock t =>
      dsimp only at h
      split at h
      · rename_i hcall
        cases h
        exact hpass hcall (.tryLock hcall.2.2)
      · cases h
  | unlock t =>
      dsimp only at h
      split at h
      · rename_i hcall
        cases h
        exact hpass hcall (.unlock hcall.2.2)
      · cases h
  | unlockShared t =>
      dsimp only at h
      split at h
      · rename_i hcall
        cases h
        exact hpass hcall (.unlockShared hcall.2.2)
      · cases h
  | resume t waiters spurious =>
      dsimp only at h
      split at h
      · rename_i hrun
        exact step_resume hrun h
      · cases h

/-! ### The state word -/

theorem unpackReaders_pack {readers : Nat} (h : readers < 2 ^ 31) :
    unpackReaders (pack false readers) = readers := by
  simp only [unpackReaders, pack, Bool.false_eq_true, if_false]
  omega

theorem unpackWriter_pack {readers : Nat} :
    unpackWriter (pack false readers) = false := by
  simp only [unpackWriter, pack, Bool.false_eq_true, if_false, beq_eq_false_iff_ne]
  omega

theorem pack_injective {readers readers' : Nat} (h : readers < 2 ^ 31)
    (h' : readers' < 2 ^ 31) (heq : pack false readers = pack false readers') :
    readers = readers' := by
  rw [← unpackReaders_pack h, ← unpackReaders_pack h', heq]

theorem pack_writer_ne {readers : Nat} : pack true 0 ≠ pack false readers := by
  simp only [pack, Bool.false_eq_true, if_false, if_true]
  omega

/-- `FetchSub(2)`. -/
theorem pack_sub {readers : Nat} (hpos : 0 < readers) (h : readers < 2 ^ 31) :
    (pack false readers + 2 ^ 32 - 2) % 2 ^ 32 = pack false (readers - 1) := by
  simp only [pack, Bool.false_eq_true, if_false]
  omega

theorem admits_lock {state : Nat} (h : Method.lock.admits state = true) :
    state = pack false 0 := by
  simp only [Method.admits, unpackWriter, unpackReaders, Bool.and_eq_true,
    Bool.not_eq_true', beq_eq_false_iff_ne, beq_iff_eq] at h
  simp only [pack, Bool.false_eq_true, if_false]
  omega

theorem admits_free (method : Method) : method.admits (pack false 0) = true := by
  cases method <;> rfl

/-! ### Readers, writers and wakeups -/

namespace State

def readers (s : State) : Nat := tally (fun u => (s.pc u).reading) s.memory.threadCount

def writers (s : State) : Nat := tally (fun u => (s.pc u).writing) s.memory.threadCount

end State

def Pc.holding (pc : Pc) : Bool := pc.writing || pc.reading

/-- What holds at every moment: of the word, and of the threads. -/
structure Safe (v : SyncVar) (s : State) : Prop where
  fresh : ∀ u, s.pc u ≠ .outside → s.memory.hasThread u = true
  few : s.memory.threadCount ≤ maxThreads
  raw : s.constructed = false → ∀ u, s.pc u = .outside
  free : s.constructed = true → (∀ u, (s.pc u).writing = false) →
    s.memory.Word v.loc (pack false s.readers)
  held : ∀ u, (s.pc u).writing = true → s.memory.Word v.loc (pack true 0)
  apart : ∀ u w, (s.pc u).writing = true → (s.pc w).holding = true → u = w
  expected : ∀ u method expected seen, s.pc u = .casLoading method expected seen →
    method.admits expected = true
  matched : ∀ u method expected seen, s.pc u = .casCommitting method expected seen →
    method.admits expected = true ∧ s.memory.Word v.loc expected
  trying : ∀ u, s.pc u = .tryFencing ∨ s.pc u = .tryCommitting →
    s.memory.Word v.loc (pack false 0)
  loaded : ∀ u old, s.pc u = .unlockCommitting old → s.memory.Word v.loc old
  waits : ∀ u method, s.pc u = .parked method → method.waits = true
  token : s.memory.Word v.loc (pack false 0) → ∀ u, (s.pc u).isParked = true →
    ∃ w, (s.pc w).retrying = true

theorem Safe.start : Safe v State.start where
  fresh u h := absurd rfl h
  few := by decide
  raw _ _ := rfl
  free h := absurd h Bool.false_ne_true
  held u h := absurd h Bool.false_ne_true
  apart u w h := absurd h Bool.false_ne_true
  expected u method expected seen h := Pc.noConfusion h
  matched u method expected seen h := Pc.noConfusion h
  trying u h := by rcases h with h | h <;> exact Pc.noConfusion h
  loaded u old h := Pc.noConfusion h
  waits u method h := Pc.noConfusion h
  token _ u h := absurd h Bool.false_ne_true

section Moves

variable {pc : Pc} {m : Memory}

theorem goto_pc_self (s : State) (t : ThreadId) (pc : Pc) : (s.goto t pc).pc t = pc :=
  Function.update_self _ _ _

theorem goto_pc_of_ne {u : ThreadId} (hu : u ≠ t) : (s.goto t pc).pc u = s.pc u :=
  Function.update_of_ne hu _ _

theorem Safe.built (h : Safe v s) (hpc : s.pc t ≠ .outside) : s.constructed = true := by
  by_contra hraw
  exact hpc (h.raw (Bool.eq_false_of_not_eq_true hraw) t)

theorem Safe.le (h : Safe v s) {u : ThreadId} (hpc : s.pc u ≠ .outside) :
    u ≤ s.memory.threadCount :=
  (Memory.hasThread_iff.mp (h.fresh u hpc)).2

/-- A thread that runs is the only one that can be in a read-modify-write. -/
theorem Safe.notMid (h : Safe v s) (hrun : s.MayRun t) {u : ThreadId} (hu : u ≠ t) :
    (s.pc u).midRmw = false := by
  by_cases hpc : s.pc u = .outside
  · rw [hpc]
    rfl
  · exact hrun.2 u (Nat.lt_succ_of_le (h.le hpc)) hu

theorem Safe.readers_lt (h : Safe v s) : s.readers < 2 ^ 31 := by
  have hle : s.readers ≤ s.memory.threadCount := tally_le
  have hmax : maxThreads < 2 ^ 31 := by decide
  exact Nat.lt_of_le_of_lt (hle.trans h.few) hmax

theorem Safe.reading_le (h : Safe v s) {u : ThreadId} (hu : (s.pc u).reading = true) :
    u ≤ s.memory.threadCount := by
  refine h.le fun hpc => ?_
  rw [hpc] at hu
  cases hu

/-- Whoever finds the word without the writer's bit finds no writer. -/
theorem Safe.unwritten (h : Safe v s) {state : Nat} (hword : s.memory.Word v.loc state)
    (hstate : unpackWriter state = false) : ∀ u, (s.pc u).writing = false := by
  intro u
  by_contra hwriting
  have hpacked := h.held u (Bool.eq_true_of_not_eq_false hwriting)
  rw [hword.unique hpacked] at hstate
  cases hstate

theorem Pass.threadCount (hpass : Pass v s t pc m) :
    m.threadCount = s.memory.threadCount := by
  cases hpass with
  | call _ | tryLock _ | unlock _ | unlockShared _ | retry _ => rfl
  | load _ h _ | park _ h _ _ | fail _ h _ | casLoad _ h | casFails _ h | tryLoad _ h
  | tryFails _ h | tryFence _ h | unlockLoad _ h => exact Memory.reply_threadCount h

/-- Without getting the mutex or giving it up nothing is written. -/
theorem Pass.atomics (hpass : Pass v s t pc m) : m.atomics = s.memory.atomics := by
  cases hpass with
  | call _ | tryLock _ | unlock _ | unlockShared _ | retry _ => rfl
  | load _ h _ | park _ h _ _ | fail _ h _ =>
      exact (Memory.load_spec (Memory.reply_ok h).2 (Or.inl rfl)).2.1
  | casLoad _ h | casFails _ h | tryLoad _ h | tryFails _ h | unlockLoad _ h =>
      exact (Memory.load_spec (Memory.reply_ok h).2 (Or.inr rfl)).2.1
  | tryFence _ h => exact (Memory.fence_spec (Memory.reply_ok h).2 rfl rfl).1

/-- Where a thread can go that neither gets the mutex nor gives it up. -/
structure Shifts (pc pc' : Pc) : Prop where
  writing : pc'.writing = pc.writing
  reading : pc'.reading = pc.reading
  token : pc.retrying = true → pc'.retrying = true ∨ pc'.isParked = true

theorem Pass.shifts (hpass : Pass v s t pc m) : Shifts (s.pc t) pc := by
  cases hpass with
  | @fail method state m hpc h hwaits =>
      rw [hpc]
      exact ⟨rfl, rfl, fun hretrying => absurd hretrying (by
        rw [Pc.retrying, hwaits]
        decide)⟩
  | park hpc _ _ _ =>
      rw [hpc]
      exact ⟨rfl, rfl, fun _ => Or.inr rfl⟩
  | retry hpc | load hpc _ _ | casLoad hpc _ | casFails hpc _ =>
      rw [hpc]
      exact ⟨rfl, rfl, Or.inl⟩
  | call hpc | tryLock hpc | unlock hpc | unlockShared hpc | tryLoad hpc _
  | tryFails hpc _ | tryFence hpc _ | unlockLoad hpc _ =>
      rw [hpc]
      exact ⟨rfl, rfl, fun hretrying => absurd hretrying Bool.false_ne_true⟩

/-- What was loaded is still there, and only who finds no way in parks. -/
theorem Pass.word (h : Safe v s) (hpass : Pass v s t pc m) :
    (∀ method expected seen, pc = .casLoading method expected seen →
        method.admits expected = true) ∧
      (∀ method expected seen, pc = .casCommitting method expected seen →
        method.admits expected = true ∧ s.memory.Word v.loc expected) ∧
      (pc = .tryFencing ∨ pc = .tryCommitting → s.memory.Word v.loc (pack false 0)) ∧
      (∀ old, pc = .unlockCommitting old → s.memory.Word v.loc old) ∧
      (∀ method, pc = .parked method → method.waits = true) ∧
      (pc.isParked = true → ¬ s.memory.Word v.loc (pack false 0)) := by
  cases hpass with
  | call _ | tryLock _ | unlock _ | unlockShared _ | retry _ | fail _ _ _
  | casFails _ _ | tryFails _ _ => simp [Pc.isParked]
  | load _ _ hadmits =>
      simp only [Pc.casLoading.injEq, reduceCtorEq, false_implies,
        implies_true, Pc.isParked, Bool.false_eq_true, and_true, or_self]
      rintro method expected seen ⟨rfl, rfl, rfl⟩
      exact hadmits
  | @park method state m _ hreply hnot hwaits =>
      obtain ⟨hword, -⟩ := Memory.load_spec (Memory.reply_ok hreply).2 (Or.inl rfl)
      simp only [reduceCtorEq, false_implies, implies_true, or_self, true_and,
        Pc.parked.injEq]
      refine ⟨fun _ heq => heq ▸ hwaits, fun _ hfree => ?_⟩
      rw [hword.unique hfree, admits_free] at hnot
      cases hnot
  | casLoad hpc hreply =>
      obtain ⟨hword, -⟩ := Memory.load_spec (Memory.reply_ok hreply).2 (Or.inr rfl)
      simp only [Pc.casCommitting.injEq, reduceCtorEq, false_implies,
        implies_true, Pc.isParked, Bool.false_eq_true, and_true, true_and, or_self]
      rintro method expected seen ⟨rfl, rfl, rfl⟩
      exact ⟨h.expected _ _ _ _ hpc, hword⟩
  | tryLoad _ hreply =>
      obtain ⟨hword, -⟩ := Memory.load_spec (Memory.reply_ok hreply).2 (Or.inr rfl)
      simp only [reduceCtorEq, false_implies, implies_true, Pc.isParked,
        Bool.false_eq_true, and_true, true_and, or_false, true_implies]
      exact hword
  | tryFence hpc _ =>
      simp only [reduceCtorEq, false_implies, implies_true, Pc.isParked,
        Bool.false_eq_true, and_true, true_and, false_or, true_implies]
      exact h.trying t (Or.inl hpc)
  | unlockLoad _ hreply =>
      obtain ⟨hword, -⟩ := Memory.load_spec (Memory.reply_ok hreply).2 (Or.inr rfl)
      simp only [reduceCtorEq, false_implies, implies_true, Pc.isParked,
        Bool.false_eq_true, and_true, true_and, or_self, Pc.unlockCommitting.injEq]
      rintro old rfl
      exact hword

theorem Safe.readers_goto (h : Safe v s) (hrun : s.MayRun t)
    (hcount : m.threadCount = s.memory.threadCount) :
    tally (fun u => ((s.goto t pc).pc u).reading) m.threadCount +
        (if (s.pc t).reading then 1 else 0) =
      s.readers + if pc.reading then 1 else 0 := by
  obtain ⟨hpos, hle⟩ := Memory.hasThread_iff.mp hrun.1
  exact tally_move (fun u hu => h.reading_le hu) (Nat.le_of_eq hcount.symm) hpos hle

/-- The threads that are between load and commit, after a turn of another one. -/
theorem Safe.quiet (h : Safe v s) (hrun : s.MayRun t) {u : ThreadId} (hu : u ≠ t)
    {pc : Pc} (hpc : s.pc u = pc) (hmid : pc.midRmw = true) : False := by
  have hnot := h.notMid hrun hu
  rw [hpc, hmid] at hnot
  cases hnot

theorem Safe.pass (h : Safe v s) (hrun : s.MayRun t)
    (hbuilt : s.constructed = false → s.pc t ≠ .outside) (hpass : Pass v s t pc m) :
    Safe v { s.goto t pc with memory := m } := by
  obtain ⟨hwriting, hreading, htoken⟩ := hpass.shifts
  obtain ⟨hexpected, hmatched, htrying, hloaded, hwaits, hparks⟩ := hpass.word h
  have hcount := hpass.threadCount
  have hsame : m.atomics v.loc = s.memory.atomics v.loc := congrFun hpass.atomics _
  have hwrite : ∀ u, ((s.goto t pc).pc u).writing = (s.pc u).writing :=
    update_cases (P := fun u (pc : Pc) => pc.writing = (s.pc u).writing) hwriting
      fun _ _ => rfl
  have hread : ∀ u, ((s.goto t pc).pc u).reading = (s.pc u).reading :=
    update_cases (P := fun u (pc : Pc) => pc.reading = (s.pc u).reading) hreading
      fun _ _ => rfl
  have hthread : ∀ u, s.memory.hasThread u = true → m.hasThread u = true :=
    fun u hu => Memory.hasThread.mono hu (Nat.le_of_eq hcount.symm)
  have hreaders : tally (fun u => ((s.goto t pc).pc u).reading) m.threadCount =
      s.readers := by
    have hmoved := @Safe.readers_goto v s t pc m h hrun hcount
    rw [hreading] at hmoved
    omega
  refine ⟨?_, ?_, ?_, ?_, ?_, ?_, ?_, ?_, ?_, ?_, ?_, ?_⟩
  · exact update_cases (P := fun u (pc : Pc) => pc ≠ .outside → m.hasThread u = true)
      (fun _ => hthread t hrun.1) fun u _ hu => hthread u (h.fresh u hu)
  · exact hcount ▸ h.few
  · exact fun hraw => absurd (h.raw hraw t) (hbuilt hraw)
  · intro hconstructed hfree
    have hword := h.free hconstructed fun u => hwrite u ▸ hfree u
    rw [State.readers, hreaders]
    exact hword.congr hsame
  · exact fun u hu => (h.held u (hwrite u ▸ hu)).congr hsame
  · intro u w hu hw
    refine h.apart u w (hwrite u ▸ hu) ?_
    rw [Pc.holding, ← hwrite, ← hread]
    exact hw
  · exact update_cases
      (P := fun _ (pc : Pc) => ∀ method expected seen, pc = .casLoading method expected seen →
        method.admits expected = true) hexpected fun u _ => h.expected u
  · refine update_cases
      (P := fun _ (pc : Pc) => ∀ method expected seen,
        pc = .casCommitting method expected seen →
          method.admits expected = true ∧ m.Word v.loc expected) ?_ ?_
    · intro method expected seen hpc
      obtain ⟨hadmits, hword⟩ := hmatched method expected seen hpc
      exact ⟨hadmits, hword.congr hsame⟩
    · exact fun u hu method expected seen hpc => (h.quiet hrun hu hpc rfl).elim
  · refine update_cases
      (P := fun _ (pc : Pc) => pc = .tryFencing ∨ pc = .tryCommitting →
        m.Word v.loc (pack false 0)) (fun hpc => (htrying hpc).congr hsame) ?_
    rintro u hu (hpc | hpc) <;> exact (h.quiet hrun hu hpc rfl).elim
  · exact update_cases
      (P := fun _ (pc : Pc) => ∀ old, pc = .unlockCommitting old → m.Word v.loc old)
      (fun old hpc => (hloaded old hpc).congr hsame)
      fun u hu old hpc => (h.quiet hrun hu hpc rfl).elim
  · exact update_cases
      (P := fun _ (pc : Pc) => ∀ method, pc = .parked method → method.waits = true) hwaits
      fun u _ => h.waits u
  · intro hfree u hu
    have hwasFree : s.memory.Word v.loc (pack false 0) := hfree.congr hsame.symm
    have hnotParked : pc.isParked ≠ true := fun hparked => hparks hparked hwasFree
    have hut : u ≠ t := by
      rintro rfl
      rw [goto_pc_self] at hu
      exact hnotParked hu
    rw [goto_pc_of_ne hut] at hu
    obtain ⟨w, hw⟩ := h.token hwasFree u hu
    by_cases hwt : w = t
    · subst hwt
      refine ⟨w, ?_⟩
      rw [goto_pc_self]
      exact (htoken hw).resolve_right hnotParked
    · refine ⟨w, ?_⟩
      rw [goto_pc_of_ne hwt]
      exact hw

theorem note_pc (s : State) (m : Memory) (op : Op) : (s.note m op).pc = s.pc := by
  unfold State.note
  split
  · dsimp only
    split
    · rfl
    · split
      · rfl
      · split <;> rfl
  · rfl

theorem note_memory (s : State) (m : Memory) (op : Op) : (s.note m op).memory = m := by
  unfold State.note
  split
  · dsimp only
    split
    · rfl
    · split
      · rfl
      · split <;> rfl
  · rfl

theorem note_constructed (s : State) (m : Memory) (op : Op) :
    (s.note m op).constructed = s.constructed := by
  unfold State.note
  split
  · dsimp only
    split
    · rfl
    · split
      · rfl
      · split <;> rfl
  · rfl

/-- What happens in user code. -/
theorem Safe.user {op : Op} (h : Safe v s)
    (htouch : Memory.touches v.loc op = false) (hperform : s.memory.perform op = some m) :
    Safe v (s.note m op) := by
  have hcount := Memory.perform_threadCount hperform
  have hsame : m.atomics v.loc = s.memory.atomics v.loc :=
    Memory.exec_atomics htouch (Memory.perform_ok hperform)
  have hpc := note_pc s m op
  have hreaders : (s.note m op).readers = s.readers := by
    rw [State.readers, note_memory, hpc]
    exact tally_of_le hcount fun u hu => h.reading_le hu
  refine ⟨?_, ?_, ?_, ?_, ?_, ?_, ?_, ?_, ?_, ?_, ?_, ?_⟩
  · rw [note_memory, hpc]
    exact fun u hu => Memory.hasThread.mono (h.fresh u hu) hcount
  · rw [note_memory]
    exact Memory.perform_maxThreads hperform h.few
  · rw [note_constructed, hpc]
    exact h.raw
  · rw [note_constructed, hpc, note_memory, hreaders]
    exact fun hconstructed hfree => (h.free hconstructed hfree).congr hsame
  · rw [hpc, note_memory]
    exact fun u hu => (h.held u hu).congr hsame
  · rw [hpc]
    exact h.apart
  · rw [hpc]
    exact h.expected
  · rw [hpc, note_memory]
    intro u method expected seen hu
    obtain ⟨hadmits, hword⟩ := h.matched u method expected seen hu
    exact ⟨hadmits, hword.congr hsame⟩
  · rw [hpc, note_memory]
    exact fun u hu => (h.trying u hu).congr hsame
  · rw [hpc, note_memory]
    exact fun u old hu => (h.loaded u old hu).congr hsame
  · rw [hpc]
    exact h.waits
  · rw [note_memory, hpc]
    exact fun hfree => h.token (hfree.congr hsame.symm)

theorem Safe.init {value : Nat} (h : Safe v s) (hraw : s.constructed = false)
    (hreply : s.memory.reply t (v.init (pack false 0)) = some (value, m)) :
    Safe v { s with memory := m, constructed := true } := by
  have hout := h.raw hraw
  have hzero : tally (fun u => (s.pc u).reading) m.threadCount = 0 :=
    tally_eq_zero fun u => by rw [hout u]; rfl
  exact {
    fresh := fun u hpc => absurd (hout u) hpc
    few := Memory.reply_threadCount hreply ▸ h.few
    raw := fun hfalse => Bool.noConfusion hfalse
    free := fun _ _ => by
      rw [State.readers, hzero]
      exact Memory.init_spec (Memory.reply_ok hreply).2 rfl
    held := fun u hu => absurd hu (by rw [hout u]; decide)
    apart := fun u w hu => absurd hu (by rw [hout u]; decide)
    expected := fun u _ _ _ hpc => absurd hpc (by rw [hout u]; exact Pc.noConfusion)
    matched := fun u _ _ _ hpc => absurd hpc (by rw [hout u]; exact Pc.noConfusion)
    trying := fun u hpc => absurd hpc (by rw [hout u]; decide)
    loaded := fun u _ hpc => absurd hpc (by rw [hout u]; exact Pc.noConfusion)
    waits := fun u _ hpc => absurd hpc (by rw [hout u]; exact Pc.noConfusion)
    token := fun _ u hu => absurd hu (by rw [hout u]; decide) }

/-- Who acquires found the mutex free for it, and leaves the word that says so. -/
structure Acquire.Facts (v : SyncVar) (s : State) (t : ThreadId) (value : Nat) (pc : Pc)
    (m : Memory) : Prop where
  threadCount : m.threadCount = s.memory.threadCount
  word : m.Word v.loc value
  before : (s.pc t).midRmw = true ∧ (s.pc t).reading = false
  unwritten : ∀ u, (s.pc u).writing = false
  after : pc = .writes ∧ s.readers = 0 ∧ value = pack true 0 ∨
    pc = .reads ∧ value = pack false (s.readers + 1)

theorem Safe.readers_eq (h : Safe v s) (hbuilt : s.constructed = true) {readers : Nat}
    (hlt : readers < 2 ^ 31) (hword : s.memory.Word v.loc (pack false readers)) :
    s.readers = readers := by
  have hfree := h.free hbuilt (h.unwritten hword unpackWriter_pack)
  exact pack_injective h.readers_lt hlt (hfree.unique hword)

theorem Acquire.facts {value : Nat} (h : Safe v s) (hacquire : Acquire v s t value pc m) :
    Acquire.Facts v s t value pc m := by
  cases hacquire with
  | @cas method expected reply seen m hpc hreply =>
      have hbuilt := h.built (by rw [hpc]; exact Pc.noConfusion)
      obtain ⟨hadmits, hword⟩ := h.matched t method expected seen hpc
      have hcount := Memory.reply_threadCount hreply
      have hnew := (Memory.commit_spec (Memory.reply_ok hreply).2 rfl).1
      have hbefore : (s.pc t).midRmw = true ∧ (s.pc t).reading = false := by
        rw [hpc]
        exact ⟨rfl, rfl⟩
      cases method with
      | lock =>
          obtain rfl := admits_lock hadmits
          refine ⟨hcount, hnew, hbefore, h.unwritten hword rfl, Or.inl ⟨rfl, ?_, rfl⟩⟩
          exact h.readers_eq hbuilt (by decide) hword
      | lockShared | tryLockShared =>
          have hwriter : unpackWriter expected = false := by
            simpa [Method.admits] using hadmits
          have hunwritten := h.unwritten hword hwriter
          refine ⟨hcount, hnew, hbefore, hunwritten, Or.inr ⟨rfl, ?_⟩⟩
          have hfree := h.free hbuilt hunwritten
          rw [Method.desired, hword.unique hfree, unpackReaders_pack h.readers_lt]
  | tryLock hpc hreply =>
      have hbuilt := h.built (by rw [hpc]; exact Pc.noConfusion)
      have hword := h.trying t (Or.inr hpc)
      refine ⟨Memory.reply_threadCount hreply,
        (Memory.commit_spec (Memory.reply_ok hreply).2 rfl).1, ?_,
        h.unwritten hword rfl, Or.inl ⟨rfl, ?_, rfl⟩⟩
      · rw [hpc]
        exact ⟨rfl, rfl⟩
      · exact h.readers_eq hbuilt (by decide) hword

/-- A thread gets the mutex. -/
theorem Safe.acquire {value : Nat} (h : Safe v s) (hrun : s.MayRun t)
    (hacquire : Acquire v s t value pc m) : Safe v { s.goto t pc with memory := m } := by
  obtain ⟨hcount, hword, ⟨hbefore, hnotReading⟩, hunwritten, hafter⟩ := hacquire.facts h
  have houtside : s.pc t ≠ .outside := fun hpc => by
    rw [hpc] at hbefore
    cases hbefore
  have hmid : ∀ u, ((s.goto t pc).pc u).midRmw = false := by
    refine update_cases (P := fun _ (pc : Pc) => pc.midRmw = false) ?_
      fun u hu => h.notMid hrun hu
    rcases hafter with ⟨rfl, -⟩ | ⟨rfl, -⟩ <;> rfl
  have hnotMid : ∀ u {pc' : Pc}, (s.goto t pc).pc u = pc' → pc'.midRmw = true → False := by
    intro u pc' hpc hmid'
    have := hmid u
    rw [hpc, hmid'] at this
    cases this
  have hreaders := @Safe.readers_goto v s t pc m h hrun hcount
  rw [hnotReading] at hreaders
  have hother : ∀ u, u ≠ t → ((s.goto t pc).pc u).writing = false := fun u hu => by
    rw [goto_pc_of_ne hu]
    exact hunwritten u
  have hnotFree : value ≠ pack false 0 := by
    rcases hafter with ⟨-, -, rfl⟩ | ⟨-, rfl⟩
    · exact pack_writer_ne
    · have hfew : s.readers ≤ maxThreads := Nat.le_trans tally_le h.few
      have hmax : maxThreads + 1 < 2 ^ 31 := by decide
      exact fun heq => absurd (pack_injective (by omega) (by decide) heq)
        (Nat.succ_ne_zero _)
  exact {
    fresh := update_cases (P := fun u (pc : Pc) => pc ≠ .outside → m.hasThread u = true)
      (fun _ => Memory.hasThread.mono hrun.1 (Nat.le_of_eq hcount.symm))
      fun u _ hu => Memory.hasThread.mono (h.fresh u hu) (Nat.le_of_eq hcount.symm)
    few := hcount ▸ h.few
    raw := fun hraw => absurd (h.raw hraw t) houtside
    free := fun _ hfree => by
      rcases hafter with ⟨rfl, -⟩ | ⟨rfl, rfl⟩
      · have := hfree t
        rw [goto_pc_self] at this
        cases this
      · have hmore : tally (fun u => ((s.goto t .reads).pc u).reading) m.threadCount =
            s.readers + 1 := by simpa [Pc.reading] using hreaders
        rw [State.readers, hmore]
        exact hword
    held := fun u hu => by
      rcases hafter with ⟨rfl, -, rfl⟩ | ⟨rfl, -⟩
      · exact hword
      · by_cases hut : u = t
        · subst hut
          rw [goto_pc_self] at hu
          cases hu
        · rw [hother u hut] at hu
          cases hu
    apart := fun u w hu hw => by
      by_cases hut : u = t
      · subst hut
        by_contra hwu
        rcases hafter with ⟨rfl, hnone, -⟩ | ⟨rfl, -⟩
        · rw [goto_pc_of_ne (Ne.symm hwu), Pc.holding, hunwritten w,
            Bool.false_or] at hw
          have hpos := (Memory.hasThread_iff.mp (h.fresh w fun hpc => by
            rw [hpc] at hw
            cases hw)).1
          have := @tally_pos (fun u => (s.pc u).reading) _ w hw hpos (h.reading_le hw)
          exact absurd hnone (Nat.ne_of_gt this)
        · rw [goto_pc_self] at hu
          cases hu
      · rw [hother u hut] at hu
        cases hu
    expected := update_cases
      (P := fun _ (pc : Pc) => ∀ method expected seen,
        pc = .casLoading method expected seen → method.admits expected = true)
      (fun _ _ _ hpc => by
        rcases hafter with ⟨rfl, -⟩ | ⟨rfl, -⟩ <;> cases hpc)
      fun u _ => h.expected u
    matched := fun u _ _ _ hpc => (hnotMid u hpc rfl).elim
    trying := fun u hpc => by
      rcases hpc with hpc | hpc <;> exact (hnotMid u hpc rfl).elim
    loaded := fun u _ hpc => (hnotMid u hpc rfl).elim
    waits := update_cases
      (P := fun _ (pc : Pc) => ∀ method, pc = .parked method → method.waits = true)
      (fun _ hpc => by rcases hafter with ⟨rfl, -⟩ | ⟨rfl, -⟩ <;> cases hpc)
      fun u _ => h.waits u
    token := fun hfree => absurd (hword.unique hfree) hnotFree }

/-- Who releases leaves the word that says so, and wakes if it leaves the mutex
free. -/
structure Release.Facts (v : SyncVar) (s : State) (t : ThreadId) (wakes : Option Bool)
    (m : Memory) : Prop where
  threadCount : m.threadCount = s.memory.threadCount
  holding : (s.pc t).holding = true
  unwritten : ∀ u, u ≠ t → (s.pc u).writing = false
  word : m.Word v.loc (pack false (s.readers - if (s.pc t).reading then 1 else 0))
  wakes : s.readers = (if (s.pc t).reading then 1 else 0) → ∃ all, wakes = some all

theorem Release.facts {seen : Seen} {wakes : Option Bool} (h : Safe v s)
    (hrun : s.MayRun t) (hrelease : Release v s t seen wakes m) :
    Release.Facts v s t wakes m := by
  obtain ⟨hpos, hle⟩ := Memory.hasThread_iff.mp hrun.1
  cases hrelease with
  | unlock hpc hreply =>
      have hwriting : (s.pc t).writing = true := by rw [hpc]; rfl
      have hreading : (s.pc t).reading = false := by rw [hpc]; rfl
      have hnone : s.readers = 0 := by
        refine tally_eq_zero fun u => Bool.eq_false_of_not_eq_true fun hu => ?_
        have heq := h.apart t u hwriting (by rw [Pc.holding, hu, Bool.or_true])
        rw [← heq, hreading] at hu
        cases hu
      refine ⟨Memory.reply_threadCount hreply, by rw [hpc]; rfl, fun u hu => ?_, ?_,
        fun _ => ⟨true, rfl⟩⟩
      · refine Bool.eq_false_of_not_eq_true fun hwrites => hu ?_
        exact h.apart u t hwrites (by rw [hpc]; rfl)
      · rw [hreading, hnone]
        exact (Memory.store_spec (Memory.reply_ok hreply).2 rfl).1
  | @unlockShared old value m hpc hreply =>
      have hreading : (s.pc t).reading = true := by rw [hpc]; rfl
      have hbuilt := h.built (by rw [hpc]; exact Pc.noConfusion)
      have hunwritten : ∀ u, (s.pc u).writing = false := fun u =>
        Bool.eq_false_of_not_eq_true fun hwrites => by
          have heq := h.apart u t hwrites (by rw [hpc]; rfl)
          rw [heq, hpc] at hwrites
          cases hwrites
      have hold : old = pack false s.readers :=
        (h.loaded t old hpc).unique (h.free hbuilt hunwritten)
      have hsome : 0 < s.readers := @tally_pos (fun u => (s.pc u).reading) _ t
        hreading hpos hle
      refine ⟨Memory.reply_threadCount hreply, by rw [hpc]; rfl,
        fun u _ => hunwritten u, ?_, fun hone => ⟨false, ?_⟩⟩
      · rw [hreading, if_pos rfl, ← pack_sub hsome h.readers_lt, ← hold]
        exact (Memory.commit_spec (Memory.reply_ok hreply).2 rfl).1
      · rw [hreading, if_pos rfl] at hone
        rw [hold, unpackReaders_pack h.readers_lt, if_pos hone]

/-- The number of readers that `UnlockShared` verifies. -/
theorem Safe.verified {old : Nat} (h : Safe v s) (hpc : s.pc t = .unlockCommitting old) :
    0 < unpackReaders old := by
  have hpos := Memory.hasThread_iff.mp (h.fresh t (by rw [hpc]; exact Pc.noConfusion))
  have hbuilt := h.built (by rw [hpc]; exact Pc.noConfusion)
  have hunwritten : ∀ u, (s.pc u).writing = false := fun u =>
    Bool.eq_false_of_not_eq_true fun hwrites => by
      have heq := h.apart u t hwrites (by rw [hpc]; rfl)
      rw [heq, hpc] at hwrites
      cases hwrites
  rw [(h.loaded t old hpc).unique (h.free hbuilt hunwritten),
    unpackReaders_pack h.readers_lt]
  exact @tally_pos (fun u => (s.pc u).reading) _ t (by rw [hpc]; rfl) hpos.1 hpos.2

theorem wake_flags (pc : Pc) : pc.wake.writing = pc.writing ∧
    pc.wake.reading = pc.reading ∧ pc.wake.midRmw = pc.midRmw ∧
    pc.wake.isParked = false ∧ (pc.wake = .outside ↔ pc = .outside) := by
  cases pc <;> simp [Pc.wake, Pc.writing, Pc.reading, Pc.midRmw, Pc.isParked]

section WakeAll

variable {waiters : List ThreadId} {f : ThreadId → Pc} {u : ThreadId}

theorem wakeAll_of_mem (hu : u ∈ waiters) : wakeAll waiters f u = (f u).wake :=
  if_pos hu

theorem wakeAll_of_not_mem (hu : u ∉ waiters) : wakeAll waiters f u = f u :=
  if_neg hu

/-- A wake changes nothing that is asked of a thread but that it sleeps. -/
theorem wakeAll_cases {P : ThreadId → Pc → Prop} (hwake : ∀ u pc, P u pc → P u pc.wake)
    (h : ∀ u, P u (f u)) : ∀ u, P u (wakeAll waiters f u) := by
  intro u
  by_cases hu : u ∈ waiters
  · rw [wakeAll_of_mem hu]
    exact hwake u _ (h u)
  · rw [wakeAll_of_not_mem hu]
    exact h u

theorem wakeAll_reading : (wakeAll waiters f u).reading = (f u).reading :=
  wakeAll_cases (P := fun u pc => pc.reading = (f u).reading)
    (fun _ pc hpc => (wake_flags pc).2.1.trans hpc) (fun _ => rfl) u

end WakeAll

theorem mem_parkedThreads {u : ThreadId} : u ∈ s.parkedThreads ↔
    s.memory.hasThread u = true ∧ (s.pc u).isParked = true := by
  rw [State.parkedThreads, List.mem_filter, List.mem_range'_1, Memory.hasThread_iff]
  constructor
  · rintro ⟨⟨hpos, hlt⟩, hparked⟩
    rw [Nat.add_comm] at hlt
    exact ⟨⟨hpos, Nat.le_of_lt_succ hlt⟩, hparked⟩
  · rintro ⟨⟨hpos, hle⟩, hparked⟩
    rw [Nat.add_comm]
    exact ⟨⟨hpos, Nat.lt_succ_of_le hle⟩, hparked⟩

/-- A thread gives up the mutex, and wakes. -/
theorem Safe.release {seen : Seen} {wakes : Option Bool} {waiters : List ThreadId}
    {m' : Memory} (h : Safe v s) (hrun : s.MayRun t)
    (hrelease : Release v s t seen wakes m)
    (hwakes : ∀ all, wakes = some all →
      State.Wakes { s.goto t .outside with memory := m, seen := seen } all waiters)
    (hmemory : m.wakes t waiters = some m') :
    Safe v
      { s.goto t .outside with
        memory := m'
        seen := seen
        pc := wakeAll waiters (s.goto t .outside).pc } := by
  obtain ⟨hcountm, hholding, hothers, hwordm, hleft⟩ := hrelease.facts h hrun
  have houtside : s.pc t ≠ .outside := fun hpc => by
    rw [hpc] at hholding
    cases hholding
  have hcount : m'.threadCount = s.memory.threadCount :=
    (Memory.wakes_threadCount hmemory).trans hcountm
  have hword : m'.Word v.loc
      (pack false (s.readers - if (s.pc t).reading then 1 else 0)) :=
    hwordm.congr (congrFun (Memory.wakes_atomics hmemory) _)
  have hpcs : ∀ {P : ThreadId → Pc → Prop}, (∀ u pc, P u pc → P u pc.wake) →
      P t .outside → (∀ u, u ≠ t → P u (s.pc u)) →
      ∀ u, P u (wakeAll waiters (s.goto t .outside).pc u) :=
    fun hwake hself hrest => wakeAll_cases hwake (update_cases hself hrest)
  have hunwritten := hpcs (P := fun _ pc => pc.writing = false)
    (fun _ pc hpc => (wake_flags pc).1.trans hpc) rfl hothers
  have hmid := hpcs (P := fun _ pc => pc.midRmw = false)
    (fun _ pc hpc => (wake_flags pc).2.2.1.trans hpc) rfl fun u hu => h.notMid hrun hu
  have hnotMid : ∀ u {pc' : Pc}, wakeAll waiters (s.goto t .outside).pc u = pc' →
      pc'.midRmw = true → False := by
    intro u pc' hpc hmid'
    have := hmid u
    rw [hpc, hmid'] at this
    cases this
  have hreaders : tally (fun u => (wakeAll waiters (s.goto t .outside).pc u).reading)
      m'.threadCount = s.readers - if (s.pc t).reading then 1 else 0 := by
    have hmoved := @Safe.readers_goto v s t .outside m' h hrun hcount
    rw [tally_congr fun u _ _ => wakeAll_reading]
    exact Nat.eq_sub_of_add_eq hmoved
  have hthread : ∀ u, s.memory.hasThread u = true → m'.hasThread u = true :=
    fun u hu => Memory.hasThread.mono hu (Nat.le_of_eq hcount.symm)
  refine ⟨?_, hcount ▸ h.few, ?_, ?_, ?_, ?_, ?_, ?_, ?_, ?_, ?_, ?_⟩
  · refine hpcs (P := fun u pc => pc ≠ .outside → m'.hasThread u = true) ?_ ?_ ?_
    · exact fun u pc hpc hne => hpc fun heq => hne ((wake_flags pc).2.2.2.2.mpr heq)
    · exact fun hne => absurd rfl hne
    · exact fun u _ hu => hthread u (h.fresh u hu)
  · exact fun hraw => absurd (h.raw hraw t) houtside
  · intro _ _
    rw [State.readers, hreaders]
    exact hword
  · intro u hu
    rw [hunwritten u] at hu
    cases hu
  · intro u w hu
    rw [hunwritten u] at hu
    cases hu
  · refine hpcs (P := fun _ pc => ∀ method expected seen,
      pc = .casLoading method expected seen → method.admits expected = true) ?_ ?_ ?_
    · intro u pc hpc method expected seen heq
      cases pc <;> cases heq
      exact hpc _ _ _ rfl
    · exact fun _ _ _ => Pc.noConfusion
    · exact fun u _ => h.expected u
  · exact fun u _ _ _ hpc => (hnotMid u hpc rfl).elim
  · rintro u (hpc | hpc) <;> exact (hnotMid u hpc rfl).elim
  · exact fun u _ hpc => (hnotMid u hpc rfl).elim
  · refine hpcs (P := fun _ pc => ∀ method, pc = .parked method → method.waits = true)
      ?_ ?_ ?_
    · intro u pc _ method heq
      cases pc <;> cases heq
    · exact fun _ => Pc.noConfusion
    · exact fun u _ => h.waits u
  · intro hfree u hu
    have hfew : s.readers < 2 ^ 31 := h.readers_lt
    have hnone : s.readers = if (s.pc t).reading then 1 else 0 := by
      have hzero := pack_injective (by omega) (by decide) (hword.unique hfree)
      have hsome : (if (s.pc t).reading = true then 1 else 0) ≤ s.readers := by
        obtain ⟨hpos, hle⟩ := Memory.hasThread_iff.mp hrun.1
        split
        · rename_i hreading
          exact @tally_pos (fun u => (s.pc u).reading) _ t hreading hpos hle
        · exact Nat.zero_le _
      omega
    obtain ⟨all, hall⟩ := hleft hnone
    have hset := hwakes all hall
    have hsleeps : u ∉ waiters ∧ ((s.goto t .outside).pc u).isParked = true := by
      change (wakeAll waiters (s.goto t .outside).pc u).isParked = true at hu
      by_cases hmem : u ∈ waiters
      · rw [wakeAll_of_mem hmem, (wake_flags _).2.2.2.1] at hu
        cases hu
      · rw [wakeAll_of_not_mem hmem] at hu
        exact ⟨hmem, hu⟩
    have hmem : u ∈ State.parkedThreads
        { s.goto t .outside with memory := m, seen := seen } := by
      refine mem_parkedThreads.mpr ⟨?_, hsleeps.2⟩
      have hne : (s.goto t .outside).pc u ≠ .outside := fun hpc => by
        rw [hpc] at hsleeps
        cases hsleeps.2
      have hut : u ≠ t := fun heq => hne (by rw [heq, goto_pc_self])
      rw [goto_pc_of_ne hut] at hne
      exact Memory.hasThread.mono (h.fresh u hne) (Nat.le_of_eq hcountm.symm)
    unfold State.Wakes at hset
    cases all with
    | true => exact absurd (hset.mem_iff.mpr hmem) hsleeps.1
    | false =>
        obtain ⟨-, hsub, hnobody⟩ := hset
        cases waiters with
        | nil =>
            rw [hnobody rfl] at hmem
            exact absurd hmem List.not_mem_nil
        | cons w ws =>
            refine ⟨w, ?_⟩
            have hparked := (mem_parkedThreads.mp (hsub List.mem_cons_self)).2
            change ((s.goto t .outside).pc w).isParked = true at hparked
            change (wakeAll (w :: ws) (s.goto t .outside).pc w).retrying = true
            rw [wakeAll_of_mem List.mem_cons_self]
            cases hpc : (s.goto t .outside).pc w with
            | parked method =>
                have hwt : w ≠ t := by
                  rintro rfl
                  rw [goto_pc_self] at hpc
                  cases hpc
                rw [goto_pc_of_ne hwt] at hpc
                rw [Pc.wake]
                exact h.waits w method hpc
            | _ =>
                rw [hpc] at hparked
                cases hparked

end Moves

/-- Every step keeps the invariant. -/
theorem Safe.step (h : Safe v s) (hstep : Step v guarded s s') : Safe v s' := by
  cases hstep with
  | user _ _ htouch _ hperform => exact h.user htouch hperform
  | init _ hraw hreply => exact h.init hraw hreply
  | pass hrun hbuilt hpass => exact h.pass hrun hbuilt hpass
  | acquire hrun hacquire => exact h.acquire hrun hacquire
  | release hrun hrelease hwakes _ hmemory => exact h.release hrun hrelease hwakes hmemory

theorem reach_safe
    (h : Reach (State.next v guarded) (fun _ _ => True) State.start s) : Safe v s :=
  h.invariant Safe.start fun _ _ _ hsafe _ hnext => hsafe.step (step_of_next hnext)

/-! ### What the mutex promises -/

namespace State

variable (v : SyncVar)

/-- One writer and no reader, or no writer, as the word says. -/
def Apart (s : State) : Prop :=
  s.writers = 1 ∧ s.readers = 0 ∧ s.memory.Word v.loc (pack true 0) ∨
    s.writers = 0 ∧ s.memory.Word v.loc (pack false s.readers)

/-- Some thread sleeps although the mutex is free and nobody comes. -/
def LostWakeup (s : State) : Prop :=
  s.writers = 0 ∧ s.readers = 0 ∧ (∃ t, (s.pc t).isParked = true) ∧
    ∀ t, (s.pc t).retrying = false

end State

theorem Safe.separated (h : Safe v s) (hbuilt : s.constructed = true) : s.Apart v := by
  by_cases hwriter : ∃ t, (s.pc t).writing = true
  · obtain ⟨t, ht⟩ := hwriter
    have hpc : s.pc t ≠ .outside := fun hpc => by
      rw [hpc] at ht
      cases ht
    obtain ⟨hpos, hle⟩ := Memory.hasThread_iff.mp (h.fresh t hpc)
    refine Or.inl ⟨?_, ?_, h.held t ht⟩
    · refine tally_eq_one ht hpos hle fun u hu => ?_
      exact h.apart u t hu (by rw [Pc.holding, ht, Bool.true_or])
    · refine tally_eq_zero fun u => Bool.eq_false_of_not_eq_true fun hu => ?_
      have heq := h.apart t u ht (by rw [Pc.holding, hu, Bool.or_true])
      subst heq
      rw [Pc.reading_of_writing ht] at hu
      cases hu
  · have hnone : ∀ t, (s.pc t).writing = false := fun t =>
      Bool.eq_false_of_not_eq_true fun ht => hwriter ⟨t, ht⟩
    exact Or.inr ⟨tally_eq_zero hnone, h.free hbuilt hnone⟩

/-- Readers and writers are apart, the word counts them, and no wakeup is lost. -/
theorem sharedMutex_correct
    (h : Reach (State.next v guarded) (fun _ _ => True) State.start s) :
    (s.constructed = true → s.Apart v) ∧ ¬ s.LostWakeup := by
  have hsafe := reach_safe h
  refine ⟨hsafe.separated, ?_⟩
  rintro ⟨hnoWriter, hnoReader, ⟨t, hparked⟩, hnobody⟩
  have hbuilt := hsafe.built (t := t) fun hpc => by
    rw [hpc] at hparked
    cases hparked
  rcases hsafe.separated hbuilt with ⟨hone, -⟩ | ⟨-, hword⟩
  · rw [hnoWriter] at hone
    cases hone
  · rw [hnoReader] at hword
    obtain ⟨u, hu⟩ := hsafe.token hword t hparked
    rw [hnobody u] at hu
    cases hu

/-- A `SyncVar` of an example. -/
def exampleVar : SyncVar := ⟨16, ⟨"main.cpp", "main", 1⟩⟩

/-- A reader waits for a writer, which wakes it, and gets the mutex. -/
def readerWaits : List Event :=
  [.init 1, .user (.spawn 1 2),
   .call 1 .lock, .resume 1 [] false, .resume 1 [] false, .resume 1 [] false,
   .call 2 .lockShared, .resume 2 [] false,
   .unlock 1, .resume 1 [2] false,
   .resume 2 [] false, .resume 2 [] false, .resume 2 [] false, .resume 2 [] false]

theorem sharedMutex_correct_readerWaits :
    ∃ s, Reach (State.next exampleVar fun _ => false) (fun _ _ => True) State.start s ∧
      s.pc 2 = .reads ∧ s.readers = 1 ∧ s.Apart exampleVar ∧ ¬ s.LostWakeup := by
  obtain ⟨s, hreach, hpc, hreaders, hbuilt⟩ :=
    @exists_reach _ _ (State.next exampleVar fun _ => false) (fun _ _ => True)
      State.start _ readerWaits
      (fun s => s.pc 2 = .reads ∧ s.readers = 1 ∧ s.constructed = true) _ (by decide)
  have hcorrect := sharedMutex_correct hreach
  exact ⟨s, hreach, hpc, hreaders, hcorrect.1 hbuilt, hcorrect.2⟩

end SharedMutex

end TwistSim
