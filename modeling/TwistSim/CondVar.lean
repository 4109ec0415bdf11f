/-
The simulated `condition_variable`, used with one mutex, under every
interleaving of waits, timed waits, notifications and mutex operations.
-/
import TwistSim.Mutex

namespace TwistSim

namespace Mutex

variable {v : SyncVar} {s s' : State} {t : ThreadId}

/-! ### The mutex from outside -/

/-- Who does it. -/
def Event.actor : Event → ThreadId
  | .user op => op.performer
  | .init t | .lock t | .tryLock t | .unlock t | .resume t _ _ => t

/-- A turn of a thread leaves the others where they are, but for one that it may wake,
and everything but the word of the mutex. -/
structure Turn (v : SyncVar) (t : ThreadId) (s s' : State) : Prop where
  others : ∀ u, u ≠ t → s'.pc u = s.pc u ∨ s.pc u = .parked ∧ s'.pc u = .woken
  atomics : ∀ loc, loc ≠ v.loc → s'.memory.atomics loc = s.memory.atomics loc
  threadCount : s'.memory.threadCount = s.memory.threadCount

theorem Turn.goto {pc : Pc} {m : Memory} {action : Action} {value contention : Nat}
    {owner : ThreadId} (hloc : action.loc = v.loc)
    (h : s.memory.reply t action = some (value, m)) :
    Turn v t s { s.goto t pc with memory := m, contention := contention, owner := owner }
    where
  others _ hu := Or.inl (goto_pc_of_ne hu)
  atomics _ hne := Memory.reply_atomics (hloc ▸ hne) h
  threadCount := Memory.reply_threadCount h

theorem Turn.move {pc : Pc} {contention : Nat} {owner : ThreadId} :
    Turn v t s { s.goto t pc with contention := contention, owner := owner } where
  others _ hu := Or.inl (goto_pc_of_ne hu)
  atomics _ _ := rfl
  threadCount := rfl

/-- Where a thread is after its turn. -/
def Moves : Pc → Pc → Prop
  | .exchangeLoad, pc => ∃ old, pc = .exchangeCommit old
  | .exchangeCommit _, pc => pc = .holds ∨ pc = .parked ∨ pc = .woken
  | .woken, pc => pc = .exchangeLoad
  | .unlocking, pc => pc = .outside
  | .casLoad, _ | .casFence, _ | .casCommit, _ => True
  | .outside, _ | .holds, _ | .parked, _ => False

theorem futexWake_turn {m : Memory} {value : Nat} {waiter : ThreadId}
    (hpc : s.pc t = .unlocking)
    (hreply : s.memory.reply t (v.store unlocked .release) = some (value, m))
    (h : s.futexWake t waiter m = some s') : Turn v t s s' ∧ s'.pc t = .outside := by
  unfold State.futexWake at h
  dsimp only at h
  split at h
  · split at h
    · rename_i hparked
      obtain ⟨m', hwake, rfl⟩ := Option.map_eq_some_iff.mp h
      have hne : waiter ≠ t := by
        rintro rfl
        simp [State.goto] at hparked
      refine ⟨⟨fun u hu => ?_, fun loc hloc => ?_, ?_⟩, ?_⟩
      · by_cases huw : u = waiter
        · subst huw
          refine Or.inr ⟨?_, goto_pc_self _ _ _⟩
          simpa [State.goto, hu] using hparked
        · exact Or.inl ((goto_pc_of_ne huw).trans (goto_pc_of_ne hu))
      · exact (Memory.exec_atomics rfl (Memory.perform_ok hwake)).trans
          (Memory.reply_atomics hloc hreply)
      · refine Eq.trans ?_ (Memory.reply_threadCount hreply)
        rcases Memory.exec_threadCount (Memory.perform_ok hwake) with
          hsame | ⟨⟨_, hop⟩, -⟩
        · exact hsame
        · cases hop
      · exact (goto_pc_of_ne hne.symm).trans (goto_pc_self _ _ _)
    · cases h
  · cases h
    exact ⟨⟨fun u hu => Or.inl (goto_pc_of_ne hu),
      fun loc hloc => Memory.reply_atomics hloc hreply,
      Memory.reply_threadCount hreply⟩, goto_pc_self _ _ _⟩

theorem resume_turn {waiter : ThreadId} {spurious : Bool}
    (h : s.resume v t waiter spurious = some s') :
    Turn v t s s' ∧ Moves (s.pc t) (s'.pc t) := by
  unfold State.resume at h
  cases hpc : s.pc t with
  | outside | holds | parked =>
      simp only [hpc] at h
      cases h
  | exchangeLoad =>
      simp only [hpc] at h
      obtain ⟨⟨old, m⟩, hreply, rfl⟩ := Option.map_eq_some_iff.mp h
      exact ⟨Turn.goto rfl hreply, old, goto_pc_self _ _ _⟩
  | exchangeCommit old =>
      simp only [hpc] at h
      obtain ⟨⟨value, m⟩, hreply, h⟩ := Option.bind_eq_some_iff.mp h
      by_cases hold : old = locked
      · rw [if_pos hold] at h
        obtain ⟨found, -, rfl⟩ := Option.map_eq_some_iff.mp h
        refine ⟨Turn.goto rfl hreply, Or.inr ?_⟩
        by_cases hfound : found = locked
        · exact Or.inl ((goto_pc_self _ _ _).trans (if_pos hfound))
        · exact Or.inr ((goto_pc_self _ _ _).trans (if_neg hfound))
      · rw [if_neg hold] at h
        cases h
        exact ⟨Turn.goto rfl hreply, Or.inl (goto_pc_self _ _ _)⟩
  | woken =>
      simp only [hpc] at h
      cases h
      exact ⟨Turn.move, goto_pc_self _ _ _⟩
  | casLoad =>
      simp only [hpc] at h
      obtain ⟨⟨old, m⟩, hreply, rfl⟩ := Option.map_eq_some_iff.mp h
      exact ⟨Turn.goto rfl hreply, trivial⟩
  | casFence =>
      simp only [hpc] at h
      obtain ⟨⟨value, m⟩, hreply, rfl⟩ := Option.map_eq_some_iff.mp h
      exact ⟨Turn.goto rfl hreply, trivial⟩
  | casCommit =>
      simp only [hpc] at h
      obtain ⟨⟨value, m⟩, hreply, rfl⟩ := Option.map_eq_some_iff.mp h
      exact ⟨Turn.goto rfl hreply, trivial⟩
  | unlocking =>
      simp only [hpc] at h
      obtain ⟨⟨value, m⟩, hreply, h⟩ := Option.bind_eq_some_iff.mp h
      exact futexWake_turn hpc hreply h

theorem next_resume {waiter : ThreadId} {spurious : Bool}
    (h : s.next v (.resume t waiter spurious) = some s') :
    Turn v t s s' ∧ Moves (s.pc t) (s'.pc t) := by
  unfold State.next at h
  dsimp only at h
  split at h
  · exact resume_turn h
  · cases h

theorem next_lock (h : s.next v (.lock t) = some s') :
    Turn v t s s' ∧ s'.pc t = .exchangeLoad := by
  unfold State.next at h
  dsimp only at h
  split at h
  · cases h
    exact ⟨Turn.move, goto_pc_self _ _ _⟩
  · cases h

theorem next_unlock (h : s.next v (.unlock t) = some s') :
    Turn v t s s' ∧ s'.pc t = .unlocking ∧ s'.memory = s.memory := by
  unfold State.next at h
  dsimp only at h
  split at h
  · cases h
    exact ⟨Turn.move, goto_pc_self _ _ _, rfl⟩
  · cases h

/-- What anything done on the mutex or in user code leaves alone. -/
theorem next_others {e : Event} (h : s.next v e = some s') :
    (∀ u, u ≠ e.actor → s'.pc u = s.pc u ∨ s.pc u = .parked ∧ s'.pc u = .woken) ∧
      s.memory.threadCount ≤ s'.memory.threadCount ∧
      ∀ loc, loc ≠ v.loc → (∀ op, e = .user op → Memory.touches loc op = false) →
        s'.memory.atomics loc = s.memory.atomics loc := by
  have hturn : ∀ {t}, Turn v t s s' →
      (∀ u, u ≠ t → s'.pc u = s.pc u ∨ s.pc u = .parked ∧ s'.pc u = .woken) ∧
      s.memory.threadCount ≤ s'.memory.threadCount ∧
      ∀ loc, loc ≠ v.loc → (∀ op, e = .user op → Memory.touches loc op = false) →
        s'.memory.atomics loc = s.memory.atomics loc :=
    fun hturn => ⟨hturn.others, Nat.le_of_eq hturn.threadCount.symm,
      fun loc hloc _ => hturn.atomics loc hloc⟩
  cases e with
  | user op =>
      unfold State.next at h
      dsimp only at h
      split at h
      · obtain ⟨m, hperform, rfl⟩ := Option.map_eq_some_iff.mp h
        exact ⟨fun _ _ => Or.inl rfl, Memory.perform_threadCount hperform,
          fun loc _ htouch =>
            Memory.exec_atomics (htouch op rfl) (Memory.perform_ok hperform)⟩
      · cases h
  | init t =>
      unfold State.next at h
      dsimp only at h
      split at h
      · obtain ⟨⟨value, m⟩, hreply, rfl⟩ := Option.map_eq_some_iff.mp h
        exact ⟨fun _ _ => Or.inl rfl, Nat.le_of_eq (Memory.reply_threadCount hreply).symm,
          fun loc hloc _ => Memory.reply_atomics hloc hreply⟩
      · cases h
  | lock t => exact hturn (next_lock h).1
  | tryLock t =>
      unfold State.next at h
      dsimp only at h
      split at h
      · cases h
        exact hturn (Turn.move : Turn v t s _)
      · cases h
  | unlock t => exact hturn (next_unlock h).1
  | resume t waiter spurious => exact hturn (next_resume h).1

end Mutex

namespace CondVar

/-- Where a thread is in the code of `condition_variable`.  How many notifications
there were when the thread read `count_`, and when it parked, is not in the code. -/
inductive Pc where
  | outside
  | waitLoading (timed : Bool)
  | waitUnlocking (timed : Bool) (old : Nat) (read : Nat)
  | parked (timed : Bool) (read since : Nat)
  | woken
  | relocking
  | notifyLoading (all : Bool)
  | notifyCommitting (all : Bool) (old : Nat)
  deriving DecidableEq, Repr

namespace Pc

/-- Between the load and the commit of a read-modify-write. -/
def midRmw : Pc → Bool
  | notifyCommitting .. => true
  | _ => false

def isParked : Pc → Bool
  | parked .. => true
  | _ => false

/-- What `FutexWake` does to a waiter. -/
def wake : Pc → Pc
  | parked .. => woken
  | pc => pc

/-- In `Wait` or `WaitTimed`. -/
def waiting : Pc → Bool
  | waitLoading _ | waitUnlocking .. | parked .. | woken | relocking => true
  | _ => false

/-- Fewer than `2^32` notifications since a thread read `count_` and until it sleeps. -/
def keepsUp (notified : Nat) : Pc → Bool
  | waitUnlocking _ _ read => decide (notified < read + 2 ^ 32)
  | _ => true

end Pc

/-- The waiters are awake, and the others are where they were. -/
def wakeAll (waiters : List ThreadId) (pc : ThreadId → Pc) (u : ThreadId) : Pc :=
  if u ∈ waiters then (pc u).wake else pc u

/-- The mutex with its threads, where they are in the condition variable, whether the
lock object of a wait owns the mutex, and how often `count_` was incremented. -/
structure State where
  mutex : Mutex.State
  pc : ThreadId → Pc
  constructed : Bool
  owns : ThreadId → Bool
  notified : Nat

/-- What happens next: something on the mutex or in user code, or on the condition
variable.  The scheduler chooses whom a `FutexWake` wakes. -/
inductive Event where
  | mutex (e : Mutex.Event)
  | init (t : ThreadId)
  | wait (t : ThreadId) (timed : Bool)
  | notify (t : ThreadId) (all : Bool)
  | resume (t : ThreadId) (waiter : ThreadId) (waiters : List ThreadId)
      (spurious : Bool)
  | timeout (t : ThreadId)
  deriving DecidableEq, Repr

namespace State

def start : State where
  mutex := Mutex.State.start
  pc _ := .outside
  constructed := false
  owns _ := false
  notified := 0

def goto (s : State) (t : ThreadId) (pc : Pc) : State :=
  { s with pc := Function.update s.pc t pc }

/-- Nothing changes but the memory. -/
def atMemory (s : State) (m : Memory) : State :=
  { s with mutex := { s.mutex with memory := m } }

/-- A thread that is not preemptive runs on until its commit. -/
def MayRun (s : State) (t : ThreadId) : Prop :=
  s.mutex.MayRun t ∧
    ∀ u < s.mutex.memory.threadCount + 1, u ≠ t → (s.pc u).midRmw = false

instance (s : State) (t : ThreadId) : Decidable (s.MayRun t) := by
  unfold MayRun
  infer_instance

def parkedThreads (s : State) : List ThreadId :=
  (List.range' 1 s.mutex.memory.threadCount).filter fun u => (s.pc u).isParked

/-- Whom `FutexWake` can wake: everyone, or one if there is one. -/
def Wakes (s : State) (all : Bool) (waiters : List ThreadId) : Prop :=
  if all then waiters.Perm s.parkedThreads
  else waiters.length ≤ 1 ∧ waiters ⊆ s.parkedThreads ∧
    (waiters = [] → s.parkedThreads = [])

instance (s : State) (all : Bool) (waiters : List ThreadId) :
    Decidable (s.Wakes all waiters) := by
  unfold Wakes
  infer_instance

variable (v c : SyncVar)

/-- The threads that the event is about are not in a method of the condition variable,
and it leaves `count_` alone. -/
def Elsewhere (s : State) (e : Mutex.Event) : Prop :=
  s.pc e.actor = .outside ∧
    match e with
    | .user op =>
        op.allowed (fun u => s.pc u == .outside) = true ∧
          Memory.touches c.loc op = false
    | _ => True

instance (s : State) (e : Mutex.Event) : Decidable (s.Elsewhere c e) := by
  unfold Elsewhere
  cases e <;> infer_instance

/-- `FutexWait(count_, old)`, which a scheduler may let fail spuriously. -/
def futexWait (s : State) (t : ThreadId) (timed : Bool) (old read : Nat)
    (spurious : Bool) : Option State :=
  if spurious then some (s.goto t .woken)
  else (s.mutex.memory.futexLoad c.futexLoc).map fun value =>
    s.goto t (if value = old then .parked timed read s.notified else .woken)

/-- `FutexWake(count_)`, and the return from `NotifyOne` or `NotifyAll`. -/
def futexWake (s : State) (t : ThreadId) (all : Bool) (waiters : List ThreadId) :
    Option State :=
  let s := s.goto t .outside
  if s.Wakes all waiters then
    (s.mutex.memory.wakes t waiters).map fun m =>
      { s.atMemory m with pc := wakeAll waiters s.pc }
  else none

/-- The thread executes its pending action and runs until the next one. -/
def resume (s : State) (t waiter : ThreadId) (waiters : List ThreadId)
    (spurious : Bool) : Option State :=
  match s.pc t with
  | .waitLoading timed =>
      (s.mutex.memory.reply t (c.load .relaxed)).bind fun (old, m) =>
        ({ s.mutex with memory := m }.next v (.unlock t)).map fun mutex =>
          { s.goto t (.waitUnlocking timed old s.notified) with mutex := mutex }
  | .waitUnlocking timed old read =>
      (s.mutex.next v (.resume t waiter false)).bind fun mutex =>
        { s with mutex := mutex }.futexWait c t timed old read spurious
  | .woken =>
      (s.mutex.next v (.lock t)).map fun mutex =>
        { s.goto t .relocking with mutex := mutex }
  | .relocking =>
      (s.mutex.next v (.resume t waiter false)).map fun mutex =>
        if mutex.pc t = .holds then
          -- The new lock object adopts the mutex and is swapped in.
          { s.goto t .outside with
            mutex := mutex
            owns := Function.update s.owns t true }
        else { s with mutex := mutex }
  | .notifyLoading all =>
      (s.mutex.memory.reply t (c.rmwLoad .relaxed "atomic::fetch_add")).map
        fun (old, m) => (s.goto t (.notifyCommitting all old)).atMemory m
  | .notifyCommitting all old =>
      (s.mutex.memory.reply t
          (c.rmwCommit ((old + 1) % 2 ^ 32) .relaxed "atomic::fetch_add")).bind
        fun (_, m) =>
          { s.atMemory m with notified := s.notified + 1 }.futexWake t all waiters
  | .outside | .parked .. => none

def next (s : State) : Event → Option State
  | .mutex e =>
      if s.MayRun e.actor ∧ s.Elsewhere c e then
        (s.mutex.next v e).map fun mutex => { s with mutex := mutex }
      else none
  | .init t =>
      if s.MayRun t ∧ s.pc t = .outside ∧ s.mutex.pc t = .outside ∧
          s.constructed = false then
        (s.mutex.memory.reply t (c.init 0)).map fun (_, m) =>
          { s.atMemory m with constructed := true }
      else none
  | .wait t timed =>
      -- `lock.release()`
      if s.MayRun t ∧ s.constructed = true ∧ s.pc t = .outside ∧
          s.mutex.pc t = .holds then
        some { s.goto t (.waitLoading timed) with
          owns := Function.update s.owns t false }
      else none
  | .notify t all =>
      if s.MayRun t ∧ s.constructed = true ∧ s.pc t = .outside ∧
          (s.mutex.pc t).idle = true then
        some (s.goto t (.notifyLoading all))
      else none
  | .resume t waiter waiters spurious =>
      if s.MayRun t then s.resume v c t waiter waiters spurious else none
  | .timeout t =>
      match s.pc t with
      | .parked true _ _ => some (s.goto t .woken)
      | _ => none

end State

variable {v c : SyncVar} {s s' : State} {t : ThreadId}

/-! ### What a step can do -/

inductive Step (v c : SyncVar) (s : State) : State → Prop where
  | mutex {e : Mutex.Event} {mutex : Mutex.State} (helse : s.Elsewhere c e)
      (h : s.mutex.next v e = some mutex) : Step v c s { s with mutex := mutex }
  | init {t : ThreadId} {value : Nat} {m : Memory} (hraw : s.constructed = false)
      (h : s.mutex.memory.reply t (c.init 0) = some (value, m)) :
      Step v c s { s.atMemory m with constructed := true }
  | wait {t : ThreadId} {timed : Bool} (hrun : s.MayRun t)
      (hbuilt : s.constructed = true) (hpc : s.pc t = .outside)
      (hheld : s.mutex.pc t = .holds) :
      Step v c s { s.goto t (.waitLoading timed) with
        owns := Function.update s.owns t false }
  | notify {t : ThreadId} {all : Bool} (hrun : s.MayRun t)
      (hbuilt : s.constructed = true) (hpc : s.pc t = .outside)
      (hidle : (s.mutex.pc t).idle = true) :
      Step v c s (s.goto t (.notifyLoading all))
  | load {t : ThreadId} {timed : Bool} {old : Nat} {m : Memory} {mutex : Mutex.State}
      (hrun : s.MayRun t) (hpc : s.pc t = .waitLoading timed)
      (h : s.mutex.memory.reply t (c.load .relaxed) = some (old, m))
      (hunlock : { s.mutex with memory := m }.next v (.unlock t) = some mutex) :
      Step v c s { s.goto t (.waitUnlocking timed old s.notified) with mutex := mutex }
  | sleep {t waiter : ThreadId} {timed : Bool} {old read : Nat} {mutex : Mutex.State}
      (hrun : s.MayRun t) (hpc : s.pc t = .waitUnlocking timed old read)
      (h : s.mutex.next v (.resume t waiter false) = some mutex)
      (hword : mutex.memory.Word c.loc old) :
      Step v c s { s.goto t (.parked timed read s.notified) with mutex := mutex }
  | skip {t waiter : ThreadId} {timed : Bool} {old read : Nat} {mutex : Mutex.State}
      (hrun : s.MayRun t) (hpc : s.pc t = .waitUnlocking timed old read)
      (h : s.mutex.next v (.resume t waiter false) = some mutex) :
      Step v c s { s.goto t .woken with mutex := mutex }
  | relock {t : ThreadId} {mutex : Mutex.State} (hrun : s.MayRun t)
      (hpc : s.pc t = .woken) (h : s.mutex.next v (.lock t) = some mutex) :
      Step v c s { s.goto t .relocking with mutex := mutex }
  | retry {t waiter : ThreadId} {mutex : Mutex.State} (hrun : s.MayRun t)
      (hpc : s.pc t = .relocking)
      (h : s.mutex.next v (.resume t waiter false) = some mutex)
      (hnot : mutex.pc t ≠ .holds) : Step v c s { s with mutex := mutex }
  | leave {t waiter : ThreadId} {mutex : Mutex.State} (hrun : s.MayRun t)
      (hpc : s.pc t = .relocking)
      (h : s.mutex.next v (.resume t waiter false) = some mutex)
      (hheld : mutex.pc t = .holds) :
      Step v c s { s.goto t .outside with
        mutex := mutex
        owns := Function.update s.owns t true }
  | increment {t : ThreadId} {all : Bool} {old : Nat} {m : Memory} (hrun : s.MayRun t)
      (hpc : s.pc t = .notifyLoading all)
      (h : s.mutex.memory.reply t (c.rmwLoad .relaxed "atomic::fetch_add") =
        some (old, m)) :
      Step v c s ((s.goto t (.notifyCommitting all old)).atMemory m)
  | wakes {t : ThreadId} {all : Bool} {old value : Nat} {m m' : Memory}
      {waiters : List ThreadId} (hrun : s.MayRun t)
      (hpc : s.pc t = .notifyCommitting all old)
      (h : s.mutex.memory.reply t
        (c.rmwCommit ((old + 1) % 2 ^ 32) .relaxed "atomic::fetch_add") =
        some (value, m))
      (hmemory : m.wakes t waiters = some m') :
      Step v c s
        { s.atMemory m' with
          notified := s.notified + 1
          pc := wakeAll waiters (Function.update s.pc t .outside) }
  | timeout {t : ThreadId} {read since : Nat} (hpc : s.pc t = .parked true read since) :
      Step v c s (s.goto t .woken)

theorem step_futexWait {old read : Nat} {timed spurious : Bool} {waiter : ThreadId}
    {mutex : Mutex.State} (hrun : s.MayRun t)
    (hpc : s.pc t = .waitUnlocking timed old read)
    (hresume : s.mutex.next v (.resume t waiter false) = some mutex)
    (h : { s with mutex := mutex }.futexWait c t timed old read spurious = some s') :
    Step v c s s' := by
  unfold State.futexWait at h
  cases spurious with
  | true =>
      cases h
      exact Step.skip hrun hpc hresume
  | false =>
      obtain ⟨value, hvalue, rfl⟩ := Option.map_eq_some_iff.mp h
      by_cases hequal : value = old
      · subst hequal
        simp only [if_true]
        exact Step.sleep hrun hpc hresume (Memory.futexLoad_word hvalue)
      · simp only [hequal, if_false]
        exact Step.skip hrun hpc hresume

theorem step_resume {waiter : ThreadId} {waiters : List ThreadId} {spurious : Bool}
    (hrun : s.MayRun t) (h : s.resume v c t waiter waiters spurious = some s') :
    Step v c s s' := by
  unfold State.resume at h
  cases hpc : s.pc t with
  | outside | parked _ _ _ =>
      simp only [hpc] at h
      cases h
  | waitLoading timed =>
      simp only [hpc] at h
      obtain ⟨⟨old, m⟩, hreply, h⟩ := Option.bind_eq_some_iff.mp h
      obtain ⟨mutex, hunlock, rfl⟩ := Option.map_eq_some_iff.mp h
      exact Step.load hrun hpc hreply hunlock
  | waitUnlocking timed old read =>
      simp only [hpc] at h
      obtain ⟨mutex, hresume, h⟩ := Option.bind_eq_some_iff.mp h
      exact step_futexWait hrun hpc hresume h
  | woken =>
      simp only [hpc] at h
      obtain ⟨mutex, hlock, rfl⟩ := Option.map_eq_some_iff.mp h
      exact Step.relock hrun hpc hlock
  | relocking =>
      simp only [hpc] at h
      obtain ⟨mutex, hresume, rfl⟩ := Option.map_eq_some_iff.mp h
      by_cases hheld : mutex.pc t = .holds
      · rw [if_pos hheld]
        exact Step.leave hrun hpc hresume hheld
      · rw [if_neg hheld]
        exact Step.retry hrun hpc hresume hheld
  | notifyLoading all =>
      simp only [hpc] at h
      obtain ⟨⟨old, m⟩, hreply, rfl⟩ := Option.map_eq_some_iff.mp h
      exact Step.increment hrun hpc hreply
  | notifyCommitting all old =>
      simp only [hpc] at h
      obtain ⟨⟨value, m⟩, hreply, h⟩ := Option.bind_eq_some_iff.mp h
      unfold State.futexWake at h
      dsimp only at h
      split at h
      · obtain ⟨m', hmemory, rfl⟩ := Option.map_eq_some_iff.mp h
        exact Step.wakes hrun hpc hreply hmemory
      · cases h

theorem step_of_next {e : Event} (h : s.next v c e = some s') : Step v c s s' := by
  unfold State.next at h
  cases e with
  | mutex e =>
      dsimp only at h
      split at h
      · rename_i hcond
        obtain ⟨mutex, hmutex, rfl⟩ := Option.map_eq_some_iff.mp h
        exact Step.mutex hcond.2 hmutex
      · cases h
  | init t =>
      dsimp only at h
      split at h
      · rename_i hcond
        obtain ⟨⟨value, m⟩, hreply, rfl⟩ := Option.map_eq_some_iff.mp h
        exact Step.init hcond.2.2.2 hreply
      · cases h
  | wait t timed =>
      dsimp only at h
      split at h
      · rename_i hcond
        cases h
        exact Step.wait hcond.1 hcond.2.1 hcond.2.2.1 hcond.2.2.2
      · cases h
  | notify t all =>
      dsimp only at h
      split at h
      · rename_i hcond
        cases h
        exact Step.notify hcond.1 hcond.2.1 hcond.2.2.1 hcond.2.2.2
      · cases h
  | resume t waiter waiters spurious =>
      dsimp only at h
      split at h
      · rename_i hrun
        exact step_resume hrun h
      · cases h
  | timeout t =>
      dsimp only at h
      split at h
      · rename_i read since hpc
        cases h
        exact Step.timeout hpc
      · cases h

/-! ### Where the threads are -/

/-- Where a thread that is in the condition variable is in the mutex. -/
def Located : Pc → Mutex.Pc → Prop
  | .waitLoading _, pc => pc = .holds
  | .waitUnlocking .., pc => pc = .unlocking
  | .parked .., pc | .woken, pc => pc = .outside
  | .relocking, pc => pc = .exchangeLoad ∨ (∃ old, pc = .exchangeCommit old) ∨
      pc = .parked ∨ pc = .woken
  | .notifyLoading _, pc | .notifyCommitting .., pc => pc.idle = true
  | .outside, _ => True

theorem Located.woken {pc : Pc} (h : Located pc .parked) : Located pc .woken := by
  cases pc with
  | outside => trivial
  | relocking => exact Or.inr (Or.inr (Or.inr rfl))
  | notifyLoading _ | notifyCommitting _ _ => exact absurd h Bool.false_ne_true
  | _ => exact absurd h (by simp [Located])

/-- What holds at every moment: of `count_`, and of the threads. -/
structure Safe (v c : SyncVar) (s : State) : Prop where
  mutex : Mutex.Safe v s.mutex
  fresh : ∀ u, s.pc u ≠ .outside → s.mutex.memory.hasThread u = true
  raw : s.constructed = false → s.notified = 0 ∧ ∀ u, s.pc u = .outside
  word : s.constructed = true → s.mutex.memory.Word c.loc (s.notified % 2 ^ 32)
  loaded : ∀ u all old, s.pc u = .notifyCommitting all old →
    s.mutex.memory.Word c.loc old
  located : ∀ u, Located (s.pc u) (s.mutex.pc u)
  reads : ∀ u timed old read, s.pc u = .waitUnlocking timed old read →
    read ≤ s.notified ∧ old = read % 2 ^ 32
  parked : ∀ u timed read since, s.pc u = .parked timed read since →
    read ≤ since ∧ since ≤ s.notified ∧ read % 2 ^ 32 = since % 2 ^ 32

theorem Safe.start : Safe v c State.start where
  mutex := Mutex.Safe.start
  fresh _ h := absurd rfl h
  raw _ := ⟨rfl, fun _ => rfl⟩
  word h := absurd h Bool.false_ne_true
  loaded _ _ _ h := Pc.noConfusion h
  located _ := trivial
  reads _ _ _ _ h := Pc.noConfusion h
  parked _ _ _ _ h := Pc.noConfusion h

theorem Safe.built (h : Safe v c s) (hpc : s.pc t ≠ .outside) :
    s.constructed = true := by
  by_contra hraw
  exact hpc ((h.raw (Bool.eq_false_of_not_eq_true hraw)).2 t)

section Moves

variable {pc : Pc} {mutex : Mutex.State}

/-- A thread moves, and the others stay where they are but for one that the mutex may
wake. -/
theorem Safe.move {owns : ThreadId → Bool} (h : Safe v c s)
    (hthread : s.mutex.memory.hasThread t = true) (hbuilt : s.constructed = true)
    (hsafe : Mutex.Safe v mutex)
    (hothers : ∀ u, u ≠ t → mutex.pc u = s.mutex.pc u ∨
      s.mutex.pc u = .parked ∧ mutex.pc u = .woken)
    (hcount : s.mutex.memory.threadCount ≤ mutex.memory.threadCount)
    (hsame : mutex.memory.atomics c.loc = s.mutex.memory.atomics c.loc)
    (hlocated : Located pc (mutex.pc t))
    (hloaded : ∀ all old, pc = .notifyCommitting all old → s.mutex.memory.Word c.loc old)
    (hreads : ∀ timed old read, pc = .waitUnlocking timed old read →
      read ≤ s.notified ∧ old = read % 2 ^ 32)
    (hparked : ∀ timed read since, pc = .parked timed read since →
      read ≤ since ∧ since ≤ s.notified ∧ read % 2 ^ 32 = since % 2 ^ 32) :
    Safe v c { s.goto t pc with mutex := mutex, owns := owns } where
  mutex := hsafe
  fresh := update_cases
    (P := fun u (pc : Pc) => pc ≠ .outside → mutex.memory.hasThread u = true)
    (fun _ => Memory.hasThread.mono hthread hcount)
    fun u _ hu => Memory.hasThread.mono (h.fresh u hu) hcount
  raw hraw := absurd hbuilt (by
    change s.constructed = false at hraw
    rw [hraw]
    exact Bool.false_ne_true)
  word hconstructed := (h.word hconstructed).congr hsame
  loaded := update_cases
    (P := fun _ (pc : Pc) => ∀ all old, pc = .notifyCommitting all old →
      mutex.memory.Word c.loc old)
    (fun all old hpc => (hloaded all old hpc).congr hsame)
    fun u _ all old hpc => (h.loaded u all old hpc).congr hsame
  located := by
    refine update_cases (P := fun u (pc : Pc) => Located pc (mutex.pc u)) hlocated ?_
    intro u hu
    rcases hothers u hu with heq | ⟨hasleep, hawake⟩
    · rw [heq]
      exact h.located u
    · have hlocated := h.located u
      rw [hasleep] at hlocated
      rw [hawake]
      exact hlocated.woken
  reads := update_cases
    (P := fun _ (pc : Pc) => ∀ timed old read, pc = .waitUnlocking timed old read →
      read ≤ s.notified ∧ old = read % 2 ^ 32) hreads fun u _ => h.reads u
  parked := update_cases
    (P := fun _ (pc : Pc) => ∀ timed read since, pc = .parked timed read since →
      read ≤ since ∧ since ≤ s.notified ∧ read % 2 ^ 32 = since % 2 ^ 32) hparked
    fun u _ => h.parked u

end Moves

/-- What is done in the memory model leaves the mutex safe, if it leaves its word. -/
theorem Safe.atMemory {m : Memory} (h : Safe v c s)
    (hcount : m.threadCount = s.mutex.memory.threadCount)
    (hsame : m.atomics v.loc = s.mutex.memory.atomics v.loc) :
    Mutex.Safe v { s.mutex with memory := m } :=
  h.mutex.memory (Nat.le_of_eq hcount.symm) hsame

/-- Who executes an action on `count_`. -/
theorem Safe.onCount {m : Memory} {action : Action} {value : Nat} (h : Safe v c s)
    (hne : c.loc ≠ v.loc) (hloc : action.loc = c.loc)
    (hreply : s.mutex.memory.reply t action = some (value, m)) :
    Mutex.Safe v { s.mutex with memory := m } :=
  h.atMemory (Memory.reply_threadCount hreply)
    (Memory.reply_atomics (fun heq => hne (heq.trans hloc).symm) hreply)

theorem Safe.step_mutex {e : Mutex.Event} {mutex : Mutex.State} (h : Safe v c s)
    (hne : c.loc ≠ v.loc) (helse : s.Elsewhere c e)
    (hnext : s.mutex.next v e = some mutex) : Safe v c { s with mutex := mutex } := by
  obtain ⟨hothers, hcount, hsame⟩ := Mutex.next_others hnext
  have hcountWord : mutex.memory.atomics c.loc = s.mutex.memory.atomics c.loc := by
    refine hsame c.loc hne ?_
    rintro op rfl
    exact helse.2.2
  refine {
    mutex := h.mutex.step (Mutex.step_of_next hnext)
    fresh := fun u hu => Memory.hasThread.mono (h.fresh u hu) hcount
    raw := h.raw
    word := fun hbuilt => (h.word hbuilt).congr hcountWord
    loaded := fun u all old hpc => (h.loaded u all old hpc).congr hcountWord
    located := fun u => ?_
    reads := h.reads
    parked := h.parked }
  by_cases hu : u = e.actor
  · rw [hu, helse.1]
    trivial
  · have hlocated := h.located u
    rcases hothers u hu with heq | ⟨hasleep, hawake⟩
    · rw [heq]
      exact hlocated
    · rw [hasleep] at hlocated
      rw [hawake]
      exact hlocated.woken

section WakeAll

variable {waiters : List ThreadId} {f : ThreadId → Pc} {u : ThreadId}

theorem wakeAll_of_mem (hu : u ∈ waiters) : wakeAll waiters f u = (f u).wake :=
  if_pos hu

theorem wakeAll_of_not_mem (hu : u ∉ waiters) : wakeAll waiters f u = f u :=
  if_neg hu

theorem wakeAll_cases {P : ThreadId → Pc → Prop} (hwake : ∀ u pc, P u pc → P u pc.wake)
    (h : ∀ u, P u (f u)) : ∀ u, P u (wakeAll waiters f u) := by
  intro u
  by_cases hu : u ∈ waiters
  · rw [wakeAll_of_mem hu]
    exact hwake u _ (h u)
  · rw [wakeAll_of_not_mem hu]
    exact h u

end WakeAll

/-- A wake leaves alone what it does not wake. -/
theorem Pc.wake_eq (pc : Pc) :
    pc.wake = pc ∨ (∃ timed read since, pc = .parked timed read since) ∧
      pc.wake = .woken := by
  cases pc with
  | parked timed read since => exact Or.inr ⟨⟨timed, read, since, rfl⟩, rfl⟩
  | _ => exact Or.inl rfl

/-- The wakes of a notification, and its increment. -/
theorem Safe.step_wakes {all : Bool} {old value : Nat} {m m' : Memory}
    {waiters : List ThreadId} (h : Safe v c s) (hne : c.loc ≠ v.loc)
    (hpc : s.pc t = .notifyCommitting all old)
    (hreply : s.mutex.memory.reply t
      (c.rmwCommit ((old + 1) % 2 ^ 32) .relaxed "atomic::fetch_add") = some (value, m))
    (hmemory : m.wakes t waiters = some m') (hmid : ∀ u, u ≠ t → (s.pc u).midRmw = false) :
    Safe v c
      { s.atMemory m' with
        notified := s.notified + 1
        pc := wakeAll waiters (Function.update s.pc t .outside) } := by
  have hatomics := Memory.wakes_atomics hmemory
  have hcount : m'.threadCount = s.mutex.memory.threadCount :=
    (Memory.wakes_threadCount hmemory).trans (Memory.reply_threadCount hreply)
  have hbuilt := h.built (by rw [hpc]; exact Pc.noConfusion)
  have hold : old = s.notified % 2 ^ 32 :=
    (h.loaded t all old hpc).unique (h.word hbuilt)
  have hword : m'.Word c.loc ((s.notified + 1) % 2 ^ 32) := by
    have hcommit := (Memory.commit_spec (Memory.reply_ok hreply).2 rfl).1
    rw [← Nat.mod_add_mod, ← hold]
    exact hcommit.congr (congrFun hatomics _)
  have hpcs : ∀ {P : ThreadId → Pc → Prop}, (∀ u pc, P u pc → P u pc.wake) →
      P t .outside → (∀ u, u ≠ t → P u (s.pc u)) →
      ∀ u, P u (wakeAll waiters (Function.update s.pc t .outside) u) :=
    fun hwake hself hrest => wakeAll_cases hwake (update_cases hself hrest)
  refine ⟨?_, ?_, fun hraw => ?_, fun _ => hword, ?_, ?_, ?_, ?_⟩
  · refine h.atMemory hcount ((congrFun hatomics _).trans ?_)
    exact Memory.reply_atomics (Ne.symm hne) hreply
  · refine hpcs (P := fun u pc => pc ≠ .outside → m'.hasThread u = true) ?_ ?_ ?_
    · intro u pc hthread hwoken
      refine hthread fun heq => hwoken ?_
      rw [heq]
      rfl
    · exact fun hself => absurd rfl hself
    · exact fun u _ hu => Memory.hasThread.mono (h.fresh u hu) (Nat.le_of_eq hcount.symm)
  · change s.constructed = false at hraw
    rw [hbuilt] at hraw
    cases hraw
  · refine hpcs (P := fun _ pc => ∀ all old, pc = .notifyCommitting all old →
      m'.Word c.loc old) ?_ nofun ?_
    · intro u pc hloaded all' old' heq
      rcases pc.wake_eq with hsame | ⟨-, hwoken⟩
      · exact hloaded all' old' (hsame ▸ heq)
      · rw [hwoken] at heq
        cases heq
    · intro u hu all' old' heq
      have hnot := hmid u hu
      rw [heq] at hnot
      cases hnot
  · refine hpcs (P := fun u pc => Located pc (s.mutex.pc u)) ?_ trivial
      fun u _ => h.located u
    intro u pc hlocated
    rcases pc.wake_eq with hsame | ⟨⟨timed, read, since, rfl⟩, hwoken⟩
    · rw [hsame]
      exact hlocated
    · rw [hwoken]
      exact hlocated
  · refine hpcs (P := fun _ pc => ∀ timed old read, pc = .waitUnlocking timed old read →
      read ≤ s.notified + 1 ∧ old = read % 2 ^ 32) ?_ nofun ?_
    · intro u pc hreads timed old' read heq
      rcases pc.wake_eq with hsame | ⟨-, hwoken⟩
      · exact hreads timed old' read (hsame ▸ heq)
      · rw [hwoken] at heq
        cases heq
    · intro u _ timed old' read heq
      obtain ⟨hle, hmod⟩ := h.reads u timed old' read heq
      exact ⟨Nat.le_succ_of_le hle, hmod⟩
  · refine hpcs (P := fun _ pc => ∀ timed read since, pc = .parked timed read since →
      read ≤ since ∧ since ≤ s.notified + 1 ∧ read % 2 ^ 32 = since % 2 ^ 32) ?_ nofun ?_
    · intro u pc hparked timed read since heq
      rcases pc.wake_eq with hsame | ⟨-, hwoken⟩
      · exact hparked timed read since (hsame ▸ heq)
      · rw [hwoken] at heq
        cases heq
    · intro u _ timed read since heq
      obtain ⟨hle, hnow, hmod⟩ := h.parked u timed read since heq
      exact ⟨hle, Nat.le_succ_of_le hnow, hmod⟩

theorem Safe.step_init {value : Nat} {m : Memory} (h : Safe v c s) (hne : c.loc ≠ v.loc)
    (hraw : s.constructed = false)
    (hreply : s.mutex.memory.reply t (c.init 0) = some (value, m)) :
    Safe v c { s.atMemory m with constructed := true } := by
  obtain ⟨hzero, hout⟩ := h.raw hraw
  exact {
    mutex := h.onCount hne rfl hreply
    fresh := fun u hu => absurd (hout u) hu
    raw := fun hfalse => Bool.noConfusion hfalse
    word := fun _ => by
      change m.Word c.loc (s.notified % 2 ^ 32)
      rw [hzero]
      exact Memory.init_spec (Memory.reply_ok hreply).2 rfl
    loaded := fun u _ _ hpc => Pc.noConfusion ((hout u).symm.trans hpc)
    located := h.located
    reads := h.reads
    parked := h.parked }

/-- A thread that is on its way to relock stays on it until it holds the mutex. -/
theorem Located.relock {before after : Mutex.Pc} (h : Located .relocking before)
    (hmoves : Mutex.Moves before after) (hnot : after ≠ .holds) :
    Located .relocking after := by
  rcases h with rfl | ⟨old, rfl⟩ | rfl | rfl
  · exact Or.inr (Or.inl hmoves)
  · rcases hmoves with hheld | hparked | hwoken
    · exact absurd hheld hnot
    · exact Or.inr (Or.inr (Or.inl hparked))
    · exact Or.inr (Or.inr (Or.inr hwoken))
  · exact absurd hmoves id
  · exact Or.inl hmoves

/-- Every step keeps the invariant. -/
theorem Safe.step (h : Safe v c s) (hne : c.loc ≠ v.loc) (hstep : Step v c s s') :
    Safe v c s' := by
  cases hstep with
  | mutex helse hnext => exact h.step_mutex hne helse hnext
  | init hraw hreply => exact h.step_init hne hraw hreply
  | @wait t timed hrun hbuilt hpc hheld =>
      exact h.move hrun.1.1 hbuilt h.mutex (fun _ _ => Or.inl rfl) (Nat.le_refl _) rfl
        hheld nofun nofun nofun
  | @notify t all hrun hbuilt hpc hidle =>
      exact h.move hrun.1.1 hbuilt h.mutex (fun _ _ => Or.inl rfl) (Nat.le_refl _) rfl
        hidle nofun nofun nofun
  | @load t timed old m mutex hrun hpc hreply hunlock =>
      obtain ⟨hturn, hunlocking, hmemory⟩ := Mutex.next_unlock hunlock
      obtain ⟨hword, hatomics, -⟩ :=
        Memory.load_spec (Memory.reply_ok hreply).2 (Or.inl rfl)
      have hbuilt := h.built (by rw [hpc]; exact Pc.noConfusion)
      refine h.move hrun.1.1 hbuilt
        ((h.onCount hne rfl hreply).step (Mutex.step_of_next hunlock)) hturn.others ?_ ?_
        hunlocking nofun ?_ nofun
      · rw [hmemory]
        exact Nat.le_of_eq (Memory.reply_threadCount hreply).symm
      · rw [hmemory]
        exact congrFun hatomics _
      · rintro timed' old' read ⟨⟩
        exact ⟨Nat.le_refl _, hword.unique (h.word hbuilt)⟩
  | @sleep t waiter timed old read mutex hrun hpc hresume hword =>
      obtain ⟨hturn, hmoves⟩ := Mutex.next_resume hresume
      have hlocated := h.located t
      have hbuilt := h.built (by rw [hpc]; exact Pc.noConfusion)
      obtain ⟨hle, hold⟩ := h.reads t timed old read hpc
      rw [hpc] at hlocated
      rw [hlocated] at hmoves
      refine h.move hrun.1.1 hbuilt (h.mutex.step (Mutex.step_of_next hresume))
        hturn.others (Nat.le_of_eq hturn.threadCount.symm) (hturn.atomics _ hne) hmoves
        nofun nofun ?_
      rintro timed' read' since ⟨⟩
      have hnow := ((h.word hbuilt).congr (hturn.atomics _ hne)).unique hword
      exact ⟨hle, Nat.le_refl _, hold.symm.trans hnow.symm⟩
  | @skip t waiter timed old read mutex hrun hpc hresume =>
      obtain ⟨hturn, hmoves⟩ := Mutex.next_resume hresume
      have hlocated := h.located t
      rw [hpc] at hlocated
      rw [hlocated] at hmoves
      exact h.move hrun.1.1 (h.built (by rw [hpc]; exact Pc.noConfusion))
        (h.mutex.step (Mutex.step_of_next hresume)) hturn.others
        (Nat.le_of_eq hturn.threadCount.symm) (hturn.atomics _ hne) hmoves nofun nofun
        nofun
  | @relock t mutex hrun hpc hlock =>
      obtain ⟨hturn, hlocking⟩ := Mutex.next_lock hlock
      exact h.move hrun.1.1 (h.built (by rw [hpc]; exact Pc.noConfusion))
        (h.mutex.step (Mutex.step_of_next hlock)) hturn.others
        (Nat.le_of_eq hturn.threadCount.symm) (hturn.atomics _ hne) (Or.inl hlocking)
        nofun nofun nofun
  | @retry t waiter mutex hrun hpc hresume hnot =>
      obtain ⟨hturn, hmoves⟩ := Mutex.next_resume hresume
      have hlocated := h.located t
      rw [hpc] at hlocated
      have hmoved := @Safe.move v c s t .relocking mutex s.owns h hrun.1.1
        (h.built (by rw [hpc]; exact Pc.noConfusion))
        (h.mutex.step (Mutex.step_of_next hresume)) hturn.others
        (Nat.le_of_eq hturn.threadCount.symm) (hturn.atomics _ hne)
        (hlocated.relock hmoves hnot) nofun nofun nofun
      have hsame : s.goto t .relocking = s := by
        rw [State.goto, ← hpc, Function.update_eq_self]
      rwa [hsame] at hmoved
  | @leave t waiter mutex hrun hpc hresume hheld =>
      obtain ⟨hturn, -⟩ := Mutex.next_resume hresume
      exact h.move hrun.1.1 (h.built (by rw [hpc]; exact Pc.noConfusion))
        (h.mutex.step (Mutex.step_of_next hresume)) hturn.others
        (Nat.le_of_eq hturn.threadCount.symm) (hturn.atomics _ hne) trivial nofun nofun
        nofun
  | @increment t all old m hrun hpc hreply =>
      obtain ⟨hword, hatomics, -⟩ :=
        Memory.load_spec (Memory.reply_ok hreply).2 (Or.inr rfl)
      have hlocated := h.located t
      rw [hpc] at hlocated
      refine h.move hrun.1.1 (h.built (by rw [hpc]; exact Pc.noConfusion))
        (h.onCount hne rfl hreply) (fun _ _ => Or.inl rfl)
        (Nat.le_of_eq (Memory.reply_threadCount hreply).symm) (congrFun hatomics _)
        hlocated ?_ nofun nofun
      rintro all' old' ⟨⟩
      exact hword
  | @wakes t all old value m m' waiters hrun hpc hreply hmemory =>
      refine h.step_wakes hne hpc hreply hmemory fun u hu => ?_
      by_cases hout : s.pc u = .outside
      · rw [hout]
        rfl
      · have hle := (Memory.hasThread_iff.mp (h.fresh u hout)).2
        exact hrun.2 u (Nat.lt_succ_of_le hle) hu
  | @timeout t read since hpc =>
      have hlocated := h.located t
      rw [hpc] at hlocated
      exact h.move (h.fresh t (by rw [hpc]; exact Pc.noConfusion))
        (h.built (by rw [hpc]; exact Pc.noConfusion)) h.mutex (fun _ _ => Or.inl rfl)
        (Nat.le_refl _) rfl hlocated nofun nofun nofun

theorem reach_safe (hne : c.loc ≠ v.loc)
    (h : Reach (State.next v c) (fun _ _ => True) State.start s) : Safe v c s :=
  h.invariant Safe.start fun _ _ _ hsafe _ hnext => hsafe.step hne (step_of_next hnext)

/-! ### Nobody oversleeps -/

namespace State

/-- No thread that unlocks the mutex for its wait has missed `2^32` notifications. -/
def NoWrap (s : State) : Prop :=
  ∀ u < s.mutex.memory.threadCount + 1, (s.pc u).keepsUp s.notified = true

instance (s : State) : Decidable s.NoWrap := by
  unfold NoWrap
  infer_instance

/-- Who sleeps has read `count_` after the last notification before it fell asleep. -/
def Current (s : State) : Prop :=
  ∀ u timed read since, s.pc u = .parked timed read since → read = since

/-- Nobody sleeps who read `count_` before there were that many notifications. -/
def AllNewer (s : State) (count : Nat) : Prop :=
  ∀ u timed read since, s.pc u = .parked timed read since → count ≤ read

end State

/-- A thread sleeps after a step if it did before or if the step put it to sleep. -/
theorem Step.parks {u : ThreadId} {timed : Bool} {read since : Nat}
    (hstep : Step v c s s') (hpc : s'.pc u = .parked timed read since) :
    s.pc u = .parked timed read since ∨
      since = s.notified ∧ ∃ old, s.pc u = .waitUnlocking timed old read := by
  have hgoto : ∀ {w : ThreadId} {pc : Pc}, pc.isParked = false →
      Function.update s.pc w pc u = .parked timed read since →
      s.pc u = .parked timed read since := by
    intro w pc hnot heq
    by_cases hu : u = w
    · subst hu
      rw [Function.update_self] at heq
      rw [heq] at hnot
      cases hnot
    · rwa [Function.update_of_ne hu] at heq
  cases hstep with
  | mutex | init | retry => exact Or.inl hpc
  | wait | notify | load | skip | relock | leave | increment | timeout =>
      exact Or.inl (hgoto rfl hpc)
  | @sleep t waiter timed' old read' mutex hrun hbefore =>
      by_cases hu : u = t
      · subst hu
        obtain ⟨rfl, rfl, rfl⟩ : timed' = timed ∧ read' = read ∧ s.notified = since := by
          change Function.update s.pc u _ u = _ at hpc
          rw [Function.update_self] at hpc
          cases hpc
          exact ⟨rfl, rfl, rfl⟩
        exact Or.inr ⟨rfl, old, hbefore⟩
      · change Function.update s.pc t _ u = _ at hpc
        rw [Function.update_of_ne hu] at hpc
        exact Or.inl hpc
  | @wakes t all old value m m' waiters =>
      refine Or.inl (@hgoto t .outside rfl ?_)
      change wakeAll waiters _ u = _ at hpc
      by_cases hu : u ∈ waiters
      · rw [wakeAll_of_mem hu] at hpc
        rcases Pc.wake_eq (Function.update s.pc t .outside u) with hsame | ⟨-, hwoken⟩
        · exact hsame.symm.trans hpc
        · rw [hwoken] at hpc
          cases hpc
      · rwa [wakeAll_of_not_mem hu] at hpc

theorem Step.notified_le (hstep : Step v c s s') : s.notified ≤ s'.notified := by
  cases hstep with
  | wakes => exact Nat.le_succ _
  | _ => exact Nat.le_refl _

/-- The condition holds of every thread, if it holds of those that there are. -/
theorem Safe.keepsUp {u : ThreadId} {timed : Bool} {old read : Nat} (h : Safe v c s)
    (hwrap : s.NoWrap) (hpc : s.pc u = .waitUnlocking timed old read) :
    s.notified < read + 2 ^ 32 := by
  have hthread := h.fresh u (by rw [hpc]; exact Pc.noConfusion)
  have hle := (Memory.hasThread_iff.mp hthread).2
  have hup := hwrap u (Nat.lt_succ_of_le hle)
  rw [hpc] at hup
  exact of_decide_eq_true hup

theorem Safe.current_step (hsafe : Safe v c s) (hne : c.loc ≠ v.loc) (hwrap : s.NoWrap)
    (hcurrent : s.Current) (hstep : Step v c s s') : s'.Current := by
  intro u timed read since hpc
  rcases hstep.parks hpc with hbefore | ⟨rfl, old, hbefore⟩
  · exact hcurrent u timed read since hbefore
  · obtain ⟨hle, -, hmod⟩ := (hsafe.step hne hstep).parked u timed read _ hpc
    have hlt := hsafe.keepsUp hwrap hbefore
    omega

theorem reach_current (hne : c.loc ≠ v.loc)
    (h : Reach (State.next v c) (fun s _ => s.NoWrap) State.start s) :
    Safe v c s ∧ s.Current := by
  refine h.invariant (I := fun s => Safe v c s ∧ s.Current)
    ⟨Safe.start, fun _ _ _ _ hpc => Pc.noConfusion hpc⟩ ?_
  intro s e s' ⟨hsafe, hcurrent⟩ hwrap hnext
  have hstep := step_of_next hnext
  exact ⟨hsafe.step hne hstep, hsafe.current_step hne hwrap hcurrent hstep⟩

/-- Once nobody sleeps, later sleepers have read `count_` since then. -/
theorem reach_allNewer (hne : c.loc ≠ v.loc) {s₀ : State} (hsafe : Safe v c s₀)
    (hnobody : ∀ u, (s₀.pc u).isParked = false)
    (h : Reach (State.next v c) (fun s _ => s.NoWrap) s₀ s) :
    s.AllNewer s₀.notified := by
  have hasleep : ∀ u timed read since, s₀.pc u ≠ .parked timed read since := by
    intro u timed read since hpc
    have hnot := hnobody u
    rw [hpc] at hnot
    cases hnot
  have hinv : (Safe v c s ∧ s.Current) ∧ s₀.notified ≤ s.notified ∧
      ∀ u timed read since, s.pc u = .parked timed read since →
        s₀.notified ≤ since := by
    refine h.invariant (I := fun s => (Safe v c s ∧ s.Current) ∧
      s₀.notified ≤ s.notified ∧
      ∀ u timed read since, s.pc u = .parked timed read since → s₀.notified ≤ since)
      ⟨⟨hsafe, fun u _ _ _ hpc => absurd hpc (hasleep u _ _ _)⟩, Nat.le_refl _,
        fun u _ _ _ hpc => absurd hpc (hasleep u _ _ _)⟩ ?_
    intro s e s' ⟨⟨hsafe, hcurrent⟩, hle, hsince⟩ hwrap hnext
    have hstep := step_of_next hnext
    refine ⟨⟨hsafe.step hne hstep, hsafe.current_step hne hwrap hcurrent hstep⟩,
      Nat.le_trans hle hstep.notified_le, fun u timed read since hpc => ?_⟩
    rcases hstep.parks hpc with hbefore | ⟨rfl, -⟩
    · exact hsince u timed read since hbefore
    · exact hle
  intro u timed read since hpc
  rw [hinv.1.2 u timed read since hpc]
  exact hinv.2.2 u timed read since hpc

/-! ### What a notification does -/

/-- The step is the commit of a notification's increment, with its `FutexWake`. -/
def Notifies (s : State) (e : Event) (t : ThreadId) (all : Bool) : Prop :=
  ∃ waiter waiters spurious old,
    e = .resume t waiter waiters spurious ∧ s.pc t = .notifyCommitting all old

namespace State

/-- Nobody is resumed who does not wait on the condition variable. -/
def OnlyWaiters (s s' : State) (t : ThreadId) : Prop :=
  s'.mutex.pc = s.mutex.pc ∧
    ∀ u, u ≠ t → s'.pc u = s.pc u ∨ (s.pc u).isParked = true ∧ s'.pc u = .woken

/-- If somebody slept, one of them is awake, and the others sleep on. -/
def OneWoken (s s' : State) : Prop :=
  (∃ u, (s.pc u).isParked = true) →
    ∃ u, (s.pc u).isParked = true ∧ s'.pc u = .woken ∧
      ∀ w, w ≠ u → (s.pc w).isParked = true → s'.pc w = s.pc w

/-- A wait returns with the caller holding the mutex and the lock object owning it. -/
def ReturnsHolding (s s' : State) : Prop :=
  ∀ u, (s.pc u).waiting = true → s'.pc u = .outside →
    s'.mutex.pc u = .holds ∧ s'.owns u = true

end State

theorem Safe.mem_parkedThreads {u : ThreadId} (h : Safe v c s) :
    u ∈ s.parkedThreads ↔ (s.pc u).isParked = true := by
  rw [State.parkedThreads, List.mem_filter, List.mem_range'_1]
  refine ⟨And.right, fun hparked => ⟨?_, hparked⟩⟩
  have hthread := h.fresh u fun hout => by
    rw [hout] at hparked
    cases hparked
  obtain ⟨hpos, hle⟩ := Memory.hasThread_iff.mp hthread
  rw [Nat.add_comm]
  exact ⟨hpos, Nat.lt_succ_of_le hle⟩

/-- Whom it wakes. -/
theorem notifies_spec {e : Event} {all : Bool} (h : Notifies s e t all)
    (hnext : s.next v c e = some s') :
    ∃ waiters, s.Wakes all waiters ∧ s'.mutex.pc = s.mutex.pc ∧
      s'.pc = wakeAll waiters (Function.update s.pc t .outside) := by
  obtain ⟨waiter, waiters, spurious, old, rfl, hpc⟩ := h
  unfold State.next at hnext
  dsimp only at hnext
  split at hnext
  · unfold State.resume at hnext
    simp only [hpc] at hnext
    obtain ⟨⟨value, m⟩, hreply, hnext⟩ := Option.bind_eq_some_iff.mp hnext
    unfold State.futexWake at hnext
    dsimp only at hnext
    split at hnext
    · rename_i hwakes
      obtain ⟨m', -, rfl⟩ := Option.map_eq_some_iff.mp hnext
      refine ⟨waiters, ?_, rfl, rfl⟩
      have hsame : State.parkedThreads
          ({ s.atMemory m with notified := s.notified + 1 }.goto t .outside) =
            s.parkedThreads := by
        unfold State.parkedThreads
        have hcount : m.threadCount = s.mutex.memory.threadCount :=
          Memory.reply_threadCount hreply
        change (List.range' 1 m.threadCount).filter _ = _
        rw [hcount]
        refine List.filter_congr fun u _ => ?_
        by_cases hu : u = t
        · subst hu
          change (Function.update s.pc u .outside u).isParked = _
          rw [Function.update_self, hpc]
          rfl
        · change (Function.update s.pc t .outside u).isParked = _
          rw [Function.update_of_ne hu]
      unfold State.Wakes at hwakes ⊢
      rw [hsame] at hwakes
      exact hwakes
    · cases hnext
  · cases hnext

section Notification

variable {waiters : List ThreadId}

theorem onlyWaiters_of_wakes (hmutex : s'.mutex.pc = s.mutex.pc)
    (hpcs : s'.pc = wakeAll waiters (Function.update s.pc t .outside)) :
    s.OnlyWaiters s' t := by
  refine ⟨hmutex, fun u hu => ?_⟩
  have hbefore : Function.update s.pc t .outside u = s.pc u := Function.update_of_ne hu _ _
  rw [hpcs]
  by_cases hmem : u ∈ waiters
  · rw [wakeAll_of_mem hmem, hbefore]
    rcases (s.pc u).wake_eq with hsame | ⟨⟨timed, read, since, hasleep⟩, hwoken⟩
    · exact Or.inl hsame
    · exact Or.inr ⟨by rw [hasleep]; rfl, hwoken⟩
  · rw [wakeAll_of_not_mem hmem, hbefore]
    exact Or.inl rfl

/-- Where a thread that sleeps is after the wakes. -/
theorem wakes_asleep {u : ThreadId} (hnot : (s.pc t).isParked = false)
    (hpcs : s'.pc = wakeAll waiters (Function.update s.pc t .outside))
    (hparked : (s.pc u).isParked = true) :
    s'.pc u = if u ∈ waiters then .woken else s.pc u := by
  have hu : u ≠ t := by
    rintro rfl
    rw [hnot] at hparked
    cases hparked
  have hbefore : Function.update s.pc t .outside u = s.pc u := Function.update_of_ne hu _ _
  rw [hpcs, wakeAll, hbefore]
  split
  · cases hpc : s.pc u with
    | parked timed read since => rfl
    | _ =>
        rw [hpc] at hparked
        cases hparked
  · rfl

theorem nobodyParked_of_wakes (hsafe : Safe v c s) (hnot : (s.pc t).isParked = false)
    (hwakes : s.Wakes true waiters)
    (hpcs : s'.pc = wakeAll waiters (Function.update s.pc t .outside)) (u : ThreadId) :
    (s'.pc u).isParked = false := by
  by_cases hparked : (s.pc u).isParked = true
  · have hperm : waiters.Perm s.parkedThreads := hwakes
    have hmem : u ∈ waiters := hperm.mem_iff.mpr (hsafe.mem_parkedThreads.mpr hparked)
    rw [wakes_asleep hnot hpcs hparked, if_pos hmem]
    rfl
  · rw [hpcs]
    refine wakeAll_cases (P := fun u pc => (s.pc u).isParked ≠ true → pc.isParked = false)
      ?_ (update_cases (P := fun u (pc : Pc) =>
        (s.pc u).isParked ≠ true → pc.isParked = false) (fun _ => rfl)
        fun _ _ hawake => Bool.eq_false_of_not_eq_true hawake) u hparked
    intro w pc hawake hw
    rcases pc.wake_eq with hsame | ⟨-, hwoken⟩
    · rw [hsame]
      exact hawake hw
    · rw [hwoken]
      rfl

theorem oneWoken_of_wakes (hsafe : Safe v c s) (hnot : (s.pc t).isParked = false)
    (hwakes : s.Wakes false waiters)
    (hpcs : s'.pc = wakeAll waiters (Function.update s.pc t .outside)) :
    s.OneWoken s' := by
  rintro ⟨w, hw⟩
  obtain ⟨hlength, hsub, hnone⟩ : waiters.length ≤ 1 ∧ waiters ⊆ s.parkedThreads ∧
    (waiters = [] → s.parkedThreads = []) := hwakes
  cases waiters with
  | nil =>
      have hmem := hsafe.mem_parkedThreads.mpr hw
      rw [hnone rfl] at hmem
      cases hmem
  | cons u rest =>
      obtain rfl : rest = [] := List.eq_nil_of_length_eq_zero (by simpa using hlength)
      have hu := hsafe.mem_parkedThreads.mp (hsub List.mem_cons_self)
      refine ⟨u, hu, ?_, fun x hx hparked => ?_⟩
      · rw [wakes_asleep hnot hpcs hu, if_pos List.mem_cons_self]
      · rw [wakes_asleep hnot hpcs hparked, if_neg fun hmem => hx (List.mem_singleton.mp hmem)]

end Notification

theorem Step.returnsHolding (hstep : Step v c s s') : s.ReturnsHolding s' := by
  intro u hwaiting hout
  have hgoto : ∀ {w : ThreadId} {pc : Pc}, (pc = .outside → (s.pc w).waiting = false) →
      Function.update s.pc w pc u ≠ .outside := by
    intro w pc hnot heq
    by_cases hu : u = w
    · subst hu
      rw [Function.update_self] at heq
      rw [hnot heq] at hwaiting
      cases hwaiting
    · rw [Function.update_of_ne hu] at heq
      rw [heq] at hwaiting
      cases hwaiting
  cases hstep with
  | mutex | init | retry =>
      change s.pc u = .outside at hout
      rw [hout] at hwaiting
      cases hwaiting
  | wait | notify | load | sleep | skip | relock | increment | timeout =>
      exact absurd hout (hgoto nofun)
  | @leave t waiter mutex hrun hpc hresume hheld =>
      by_cases hu : u = t
      · subst hu
        exact ⟨hheld, Function.update_self _ _ _⟩
      · change Function.update s.pc t .outside u = .outside at hout
        rw [Function.update_of_ne hu] at hout
        rw [hout] at hwaiting
        cases hwaiting
  | @wakes t all old value m m' waiters hrun hpc =>
      have hnot := @hgoto t .outside fun _ => by
        rw [hpc]
        rfl
      change wakeAll waiters _ u = .outside at hout
      by_cases hmem : u ∈ waiters
      · rw [wakeAll_of_mem hmem] at hout
        rcases Pc.wake_eq (Function.update s.pc t .outside u) with hsame | ⟨-, hwoken⟩
        · exact absurd (hsame.symm.trans hout) hnot
        · rw [hwoken] at hout
          cases hout
      · rw [wakeAll_of_not_mem hmem] at hout
        exact absurd hout hnot

/-- Unless `2^32` notifications pass while a thread unlocks the mutex for its wait, who
sleeps was asleep before every later notification.  `notify_all` leaves nobody asleep
who has read `count_` before, `notify_one` wakes one of those who sleep, both wake nobody
else, and a wait returns with the mutex. -/
theorem condVar_correct (hne : c.loc ≠ v.loc)
    (h : Reach (State.next v c) (fun _ _ => True) State.start s) :
    (Reach (State.next v c) (fun s _ => s.NoWrap) State.start s → s.Current) ∧
    ∀ e s', s.next v c e = some s' →
      s.ReturnsHolding s' ∧
      ∀ t all, Notifies s e t all →
        s.OnlyWaiters s' t ∧
        (all = false → s.OneWoken s') ∧
        (all = true → (∀ u, (s'.pc u).isParked = false) ∧
          ∀ s'', Reach (State.next v c) (fun s _ => s.NoWrap) s' s'' →
            s''.AllNewer s'.notified) := by
  have hsafe := reach_safe hne h
  refine ⟨fun hwrap => (reach_current hne hwrap).2, fun e s' hnext => ?_⟩
  have hstep := step_of_next hnext
  refine ⟨hstep.returnsHolding, fun t all hnotifies => ?_⟩
  obtain ⟨waiters, hwakes, hmutex, hpcs⟩ := notifies_spec hnotifies hnext
  have hnot : (s.pc t).isParked = false := by
    obtain ⟨_, _, _, _, -, hpc⟩ := hnotifies
    rw [hpc]
    rfl
  refine ⟨onlyWaiters_of_wakes hmutex hpcs, ?_, ?_⟩
  · rintro rfl
    exact oneWoken_of_wakes hsafe hnot hwakes hpcs
  · rintro rfl
    have hnobody := nobodyParked_of_wakes hsafe hnot hwakes hpcs
    exact ⟨hnobody, fun s'' hlater =>
      reach_allNewer hne (hsafe.step hne hstep) hnobody hlater⟩

/-- The mutex and `count_` of an example. -/
def exampleMutex : SyncVar := ⟨16, ⟨"main.cpp", "main", 1⟩⟩

def exampleCount : SyncVar := ⟨24, ⟨"main.cpp", "main", 2⟩⟩

/-- The first thread starts two others, and the second waits. -/
def oneWaits : List Event :=
  [.mutex (.init 1), .init 1, .mutex (.user (.spawn 1 2)), .mutex (.user (.spawn 1 3)),
   .mutex (.lock 2), .mutex (.resume 2 0 false), .mutex (.resume 2 0 false),
   .wait 2 false, .resume 2 0 [] false, .resume 2 0 [] false]

/-- The first thread is about to commit its increment. -/
def notifies (all : Bool) : List Event :=
  [.notify 1 all, .resume 1 0 [] false]

theorem condVar_correct_notifyAll :
    ∃ s s', Reach (State.next exampleMutex exampleCount) (fun s _ => s.NoWrap)
        State.start s ∧
      s.next exampleMutex exampleCount (.resume 1 0 [2] false) = some s' ∧
      s.pc 2 = .parked false 0 0 ∧ s.Current ∧ s'.pc 2 = .woken ∧ s.OnlyWaiters s' 1 ∧
      s'.AllNewer 1 := by
  obtain ⟨s, hreach, hpc, hnotifier, hresult⟩ := @exists_reach _ _
    (State.next exampleMutex exampleCount) (fun s _ => s.NoWrap) State.start _
    (oneWaits ++ notifies true)
    (fun s => s.pc 2 = .parked false 0 0 ∧ s.pc 1 = .notifyCommitting true 0 ∧
      (s.next exampleMutex exampleCount (.resume 1 0 [2] false)).any
        (fun s' => decide (s'.pc 2 = .woken ∧ s'.notified = 1)) = true) _ (by decide)
  obtain ⟨s', hnext, hafter⟩ := (Option.any_eq_true _ _).mp hresult
  obtain ⟨hwoken, hnotified⟩ := of_decide_eq_true hafter
  have hcorrect := condVar_correct (by decide) (hreach.mono fun _ _ _ => trivial)
  obtain ⟨-, hnotification⟩ := hcorrect.2 _ s' hnext
  obtain ⟨honly, -, hall⟩ := hnotification 1 true ⟨0, [2], false, 0, rfl, hnotifier⟩
  refine ⟨s, s', hreach, hnext, hpc, hcorrect.1 hreach, hwoken, honly, ?_⟩
  rw [← hnotified]
  exact (hall rfl).2 s' Reach.start

/-- A thread that falls asleep between the call of `notify_one` and its increment may be
woken in place of one that slept before the call. -/
theorem laterWaiter_woken :
    ¬ ∀ s s₁ s₂ t,
      Reach (State.next exampleMutex exampleCount) (fun _ _ => True) State.start s →
      s.next exampleMutex exampleCount (.notify t false) = some s₁ →
      Reach (State.next exampleMutex exampleCount) (fun s _ => s.pc t ≠ .outside) s₁ s₂ →
      s₂.pc t = .outside →
      (∃ u, (s.pc u).isParked = true) →
      ∃ u, (s.pc u).isParked = true ∧ (s₂.pc u).isParked = false := by
  intro hclaim
  let call : List Event :=
    [.mutex (.lock 3), .mutex (.resume 3 0 false), .mutex (.resume 3 0 false),
     .wait 3 false, .resume 3 0 [] false, .resume 3 0 [] false,
     .resume 1 0 [] false, .resume 1 0 [3] false]
  obtain ⟨s, hreach, hparked, hresult⟩ := @exists_reach _ _
    (State.next exampleMutex exampleCount) (fun _ _ => True) State.start _ oneWaits
    (fun s => s.parkedThreads = [2] ∧
      (s.next exampleMutex exampleCount (.notify 1 false)).any (fun s₁ =>
        (runEvents (State.next exampleMutex exampleCount) (fun s _ => s.pc 1 ≠ .outside)
          call s₁).any
          fun s₂ => decide (s₂.pc 1 = .outside ∧ (s₂.pc 2).isParked = true)) = true) _
    (by decide)
  obtain ⟨s₁, hnext, hcall⟩ := (Option.any_eq_true _ _).mp hresult
  obtain ⟨s₂, hrun, hafter⟩ := (Option.any_eq_true _ _).mp hcall
  obtain ⟨hreturned, hasleep⟩ := of_decide_eq_true hafter
  have hmem : ∀ u, u ∈ s.parkedThreads ↔ (s.pc u).isParked = true :=
    fun _ => (reach_safe (by decide) hreach).mem_parkedThreads
  obtain ⟨u, hu, hawake⟩ := hclaim s s₁ s₂ 1 hreach hnext
    (reach_of_run Reach.start hrun) hreturned
    ⟨2, (hmem 2).mp (by rw [hparked]; exact List.mem_singleton_self 2)⟩
  have htwo := (hmem u).mpr hu
  rw [hparked, List.mem_singleton] at htwo
  rw [htwo, hasleep] at hawake
  cases hawake

end CondVar

end TwistSim
