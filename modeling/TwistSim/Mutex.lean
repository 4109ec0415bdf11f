/-
The simulated `mutex` under every interleaving: any number of threads lock, try
and unlock it, and do anything else in between that leaves its `SyncVar` alone.
A thread switches before a `Sync` action and when it waits on the futex.
-/
import TwistSim.Protocols

namespace TwistSim

namespace Mutex

def unlocked : Nat := 0

def locked : Nat := 1

/-- `kImpossibleThreadId`. -/
def nobody : ThreadId := 0

/-- Where a thread is in the code of `mutex`: at a `Sync` that is about to be
executed, on the futex, or in the user's code. -/
inductive Pc where
  | outside
  | holds
  | exchangeLoad
  | exchangeCommit (old : Nat)
  | parked
  | woken
  | casLoad
  | casFence
  | casCommit
  | unlocking
  deriving DecidableEq, Repr

namespace Pc

/-- In the user's code. -/
def idle : Pc → Bool
  | outside | holds => true
  | _ => false

/-- Between acquire and release. -/
def holding : Pc → Bool
  | holds | unlocking => true
  | _ => false

/-- Between the load and the commit of a read-modify-write. -/
def midRmw : Pc → Bool
  | exchangeCommit _ | casFence | casCommit => true
  | _ => false

/-- Counted by `contention_`. -/
def waiting : Pc → Bool
  | parked | woken => true
  | _ => false

/-- In the loop of `Lock`, and not parked. -/
def retrying : Pc → Bool
  | exchangeLoad | exchangeCommit _ | woken => true
  | _ => false

end Pc

/-- The threads, `contention_`, `owner_`, and the accesses that were made by
threads that held the mutex. -/
structure State where
  memory : Memory
  pc : ThreadId → Pc
  constructed : Bool
  contention : Nat
  owner : ThreadId
  log : List OldAccess

/-- What happens next: a thread does something in user code, enters a method, or
goes on in one.  The scheduler chooses whom `FutexWake` wakes, and whether a weak
compare-exchange fails spuriously. -/
inductive Event where
  | user (op : Op)
  | init (t : ThreadId)
  | lock (t : ThreadId)
  | tryLock (t : ThreadId)
  | unlock (t : ThreadId)
  | resume (t : ThreadId) (waiter : ThreadId) (spurious : Bool)
  deriving DecidableEq, Repr

namespace State

def start : State where
  memory := Memory.start
  pc _ := .outside
  constructed := false
  contention := 0
  owner := nobody
  log := []

def goto (s : State) (t : ThreadId) (pc : Pc) : State :=
  { s with pc := Function.update s.pc t pc }

/-- A thread that is not preemptive runs on until its commit. -/
def MayRun (s : State) (t : ThreadId) : Prop :=
  s.memory.hasThread t = true ∧
    ∀ u < s.memory.threadCount + 1, u ≠ t → (s.pc u).midRmw = false

instance (s : State) (t : ThreadId) : Decidable (s.MayRun t) := by
  unfold MayRun
  infer_instance

/-- The thread may call a method of the mutex. -/
def MayCall (s : State) (t : ThreadId) (pc : Pc) : Prop :=
  s.MayRun t ∧ s.constructed = true ∧ s.pc t = pc

instance (s : State) (t : ThreadId) (pc : Pc) : Decidable (s.MayCall t pc) := by
  unfold MayCall
  infer_instance

/-- Remember an access of a thread that holds the mutex, as it is recorded. -/
def note (s : State) (m : Memory) : Op → List OldAccess
  | .access t access =>
      if (s.pc t).holding then m.currAccess t access :: s.log else s.log
  | _ => s.log

/-- Acquired, and `owner_.Lock()`. -/
def acquired (s : State) (t : ThreadId) (m : Memory) : State :=
  { s.goto t .holds with memory := m, owner := t }

variable (v : SyncVar)

/-- `++contention_` and `FutexWait(locked_, Locked)`. -/
def futexWait (s : State) (t : ThreadId) (m : Memory) : Option State :=
  (m.futexLoad v.futexLoc).map fun value =>
    { s.goto t (if value = locked then .parked else .woken) with
      memory := m
      contention := s.contention + 1 }

def parkedThreads (s : State) : Nat :=
  tally (fun u => s.pc u == .parked) s.memory.threadCount

/-- The end of `Unlock`: `FutexWake(locked_, 1)` if there is contention. -/
def futexWake (s : State) (t waiter : ThreadId) (m : Memory) : Option State :=
  let s := { s.goto t .outside with memory := m }
  if 0 < s.contention ∧ s.parkedThreads ≠ 0 then
    if s.pc waiter = .parked then
      (m.perform (.wake t waiter)).map fun m =>
        { s.goto waiter .woken with memory := m }
    else none
  else some s

/-- The thread executes its pending action and runs until the next one. -/
def resume (s : State) (t waiter : ThreadId) (spurious : Bool) : Option State :=
  match s.pc t with
  | .exchangeLoad =>
      (s.memory.reply t (v.rmwLoad .acquire "atomic::exchange")).map fun (old, m) =>
        { s.goto t (.exchangeCommit old) with memory := m }
  | .exchangeCommit old =>
      (s.memory.reply t (v.rmwCommit locked .acquire "atomic::exchange")).bind
        fun (_, m) =>
          if old = locked then s.futexWait v t m else some (s.acquired t m)
  | .woken => some { s.goto t .exchangeLoad with contention := s.contention - 1 }
  | .casLoad =>
      (s.memory.reply t
          (v.rmwLoad .relaxed "atomic::compare_exchange_weak")).map fun (old, m) =>
        { s.goto t (if old = unlocked ∧ spurious = false then .casFence else .outside)
          with memory := m }
  | .casFence =>
      (s.memory.reply t (v.acquireFence "atomic::compare_exchange_weak")).map
        fun (_, m) => { s.goto t .casCommit with memory := m }
  | .casCommit =>
      (s.memory.reply t
          (v.rmwCommit locked .acquire "atomic::compare_exchange_weak")).map
        fun (_, m) => s.acquired t m
  | .unlocking =>
      (s.memory.reply t (v.store unlocked .release)).bind fun (_, m) =>
        s.futexWake t waiter m
  | .outside | .holds | .parked => none

def next (s : State) : Event → Option State
  | .user op =>
      if s.MayRun op.performer ∧ op.allowed (fun u => (s.pc u).idle) = true ∧
          Memory.touches v.loc op = false then
        (s.memory.perform op).map fun m =>
          { s with memory := m, log := s.note m op }
      else none
  | .init t =>
      if s.MayRun t ∧ s.pc t = .outside ∧ s.constructed = false then
        (s.memory.reply t (v.init unlocked)).map fun (_, m) =>
          { s with memory := m, constructed := true, contention := 0 }
      else none
  | .lock t => if s.MayCall t .outside then some (s.goto t .exchangeLoad) else none
  | .tryLock t => if s.MayCall t .outside then some (s.goto t .casLoad) else none
  | .unlock t =>
      -- `owner_.Unlock()` verifies the owner.
      if s.MayCall t .holds ∧ s.owner = t then
        some { s.goto t .unlocking with owner := nobody }
      else none
  | .resume t waiter spurious =>
      if s.MayRun t then s.resume v t waiter spurious else none

end State

variable {v : SyncVar} {s s' : State} {t : ThreadId}

/-! ### What a step can do -/

/-- A turn of a thread that neither holds the mutex nor gets it: where the thread
is after it, the memory, and the contention. -/
inductive Pass (v : SyncVar) (s : State) (t : ThreadId) : Pc → Memory → Nat → Prop where
  | lock (hpc : s.pc t = .outside) : Pass v s t .exchangeLoad s.memory s.contention
  | tryLock (hpc : s.pc t = .outside) : Pass v s t .casLoad s.memory s.contention
  | load {old : Nat} {m : Memory} (hpc : s.pc t = .exchangeLoad)
      (h : s.memory.reply t (v.rmwLoad .acquire "atomic::exchange") = some (old, m)) :
      Pass v s t (.exchangeCommit old) m s.contention
  | park {value : Nat} {m : Memory} (hpc : s.pc t = .exchangeCommit locked)
      (h : s.memory.reply t (v.rmwCommit locked .acquire "atomic::exchange") =
        some (value, m)) :
      Pass v s t .parked m (s.contention + 1)
  | retry (hpc : s.pc t = .woken) : Pass v s t .exchangeLoad s.memory (s.contention - 1)
  | casLoad {m : Memory} (hpc : s.pc t = .casLoad)
      (h : s.memory.reply t (v.rmwLoad .relaxed "atomic::compare_exchange_weak") =
        some (unlocked, m)) :
      Pass v s t .casFence m s.contention
  | casFails {old : Nat} {m : Memory} (hpc : s.pc t = .casLoad)
      (h : s.memory.reply t (v.rmwLoad .relaxed "atomic::compare_exchange_weak") =
        some (old, m)) :
      Pass v s t .outside m s.contention
  | casFence {value : Nat} {m : Memory} (hpc : s.pc t = .casFence)
      (h : s.memory.reply t (v.acquireFence "atomic::compare_exchange_weak") =
        some (value, m)) :
      Pass v s t .casCommit m s.contention

/-- The thread is about to commit the read-modify-write that acquires. -/
def Winning : Pc → Prop
  | .exchangeCommit old => old ≠ locked
  | .casCommit => True
  | _ => False

inductive Step (v : SyncVar) (s : State) : State → Prop where
  | user {op : Op} {m : Memory} (hrun : s.MayRun op.performer)
      (hidle : op.allowed (fun u => (s.pc u).idle) = true)
      (htouch : Memory.touches v.loc op = false) (h : s.memory.perform op = some m) :
      Step v s { s with memory := m, log := s.note m op }
  | init {t : ThreadId} {value : Nat} {m : Memory} (hrun : s.MayRun t)
      (hraw : s.constructed = false)
      (h : s.memory.reply t (v.init unlocked) = some (value, m)) :
      Step v s { s with memory := m, constructed := true, contention := 0 }
  | pass {t : ThreadId} {pc : Pc} {m : Memory} {contention : Nat} (hrun : s.MayRun t)
      (hbuilt : s.constructed = false → s.pc t ≠ .outside)
      (hpass : Pass v s t pc m contention) :
      Step v s { s.goto t pc with memory := m, contention := contention }
  | acquire {t : ThreadId} {value : Nat} {m : Memory} {operation : String}
      (hrun : s.MayRun t) (hwinning : Winning (s.pc t))
      (h : s.memory.reply t (v.rmwCommit locked .acquire operation) = some (value, m)) :
      Step v s (s.acquired t m)
  | unlock {t : ThreadId} (hrun : s.MayRun t) (hpc : s.pc t = .holds)
      (howner : s.owner = t) :
      Step v s { s.goto t .unlocking with owner := nobody }
  | release {t : ThreadId} {value : Nat} {m : Memory} (hrun : s.MayRun t)
      (hpc : s.pc t = .unlocking)
      (h : s.memory.reply t (v.store unlocked .release) = some (value, m))
      (hquiet : s.contention = 0 ∨
        State.parkedThreads { s.goto t .outside with memory := m } = 0) :
      Step v s { s.goto t .outside with memory := m }
  | releaseWakes {t waiter : ThreadId} {value : Nat} {m m' : Memory}
      (hrun : s.MayRun t) (hpc : s.pc t = .unlocking)
      (h : s.memory.reply t (v.store unlocked .release) = some (value, m))
      (hparked : s.pc waiter = .parked)
      (hwake : m.perform (.wake t waiter) = some m') :
      Step v s { (s.goto t .outside).goto waiter .woken with memory := m' }

theorem step_futexWait {m : Memory} {value : Nat} (hrun : s.MayRun t)
    (hpc : s.pc t = .exchangeCommit locked)
    (h : s.memory.reply t (v.rmwCommit locked .acquire "atomic::exchange") =
      some (value, m)) (hwait : s.futexWait v t m = some s') : Step v s s' := by
  obtain ⟨value', hvalue, rfl⟩ := Option.map_eq_some_iff.mp hwait
  have hword := (Memory.commit_spec (Memory.reply_ok h).2 rfl).1
  obtain rfl : value' = locked := (Memory.futexLoad_word hvalue).unique hword
  exact Step.pass hrun (fun _ => by rw [hpc]; exact Pc.noConfusion) (.park hpc h)

theorem step_futexWake {m : Memory} {value : Nat} {waiter : ThreadId}
    (hrun : s.MayRun t) (hpc : s.pc t = .unlocking)
    (h : s.memory.reply t (v.store unlocked .release) = some (value, m))
    (hwakes : s.futexWake t waiter m = some s') : Step v s s' := by
  unfold State.futexWake at hwakes
  dsimp only at hwakes
  split at hwakes
  · split at hwakes
    · rename_i hparked
      obtain ⟨m', hwake, rfl⟩ := Option.map_eq_some_iff.mp hwakes
      have hne : waiter ≠ t := by
        rintro rfl
        simp [State.goto] at hparked
      refine Step.releaseWakes hrun hpc h ?_ hwake
      simpa [State.goto, hne] using hparked
    · cases hwakes
  · rename_i hquiet
    cases hwakes
    refine Step.release hrun hpc h ?_
    by_cases hcontention : s.contention = 0
    · exact Or.inl hcontention
    · exact Or.inr (by_contra fun hparked =>
        hquiet ⟨Nat.pos_of_ne_zero hcontention, hparked⟩)

theorem step_resume {waiter : ThreadId} {spurious : Bool} (hrun : s.MayRun t)
    (h : s.resume v t waiter spurious = some s') : Step v s s' := by
  unfold State.resume at h
  cases hpc : s.pc t with
  | outside | holds | parked =>
      simp only [hpc] at h
      cases h
  | exchangeLoad =>
      simp only [hpc] at h
      obtain ⟨⟨old, m⟩, hreply, rfl⟩ := Option.map_eq_some_iff.mp h
      exact Step.pass hrun (fun _ => by rw [hpc]; exact Pc.noConfusion) (.load hpc hreply)
  | exchangeCommit old =>
      simp only [hpc] at h
      obtain ⟨⟨value, m⟩, hreply, h⟩ := Option.bind_eq_some_iff.mp h
      by_cases hold : old = locked
      · subst hold
        exact step_futexWait hrun hpc hreply h
      · simp only [hold, if_false] at h
        cases h
        exact Step.acquire hrun (by rw [hpc]; exact hold) hreply
  | woken =>
      simp only [hpc] at h
      cases h
      exact Step.pass hrun (fun _ => by rw [hpc]; exact Pc.noConfusion) (.retry hpc)
  | casLoad =>
      simp only [hpc] at h
      obtain ⟨⟨old, m⟩, hreply, rfl⟩ := Option.map_eq_some_iff.mp h
      have hbuilt : s.constructed = false → s.pc t ≠ .outside := fun _ => by
        rw [hpc]
        exact Pc.noConfusion
      by_cases hequal : old = unlocked ∧ spurious = false
      · obtain ⟨rfl, rfl⟩ := hequal
        exact Step.pass hrun hbuilt (.casLoad hpc hreply)
      · simp only [hequal, if_false]
        exact Step.pass hrun hbuilt (.casFails hpc hreply)
  | casFence =>
      simp only [hpc] at h
      obtain ⟨⟨value, m⟩, hreply, rfl⟩ := Option.map_eq_some_iff.mp h
      exact Step.pass hrun (fun _ => by rw [hpc]; exact Pc.noConfusion)
        (.casFence hpc hreply)
  | casCommit =>
      simp only [hpc] at h
      obtain ⟨⟨value, m⟩, hreply, rfl⟩ := Option.map_eq_some_iff.mp h
      exact Step.acquire hrun (by rw [hpc]; trivial) hreply
  | unlocking =>
      simp only [hpc] at h
      obtain ⟨⟨value, m⟩, hreply, h⟩ := Option.bind_eq_some_iff.mp h
      exact step_futexWake hrun hpc hreply h

theorem step_of_next {e : Event} (h : s.next v e = some s') : Step v s s' := by
  unfold State.next at h
  cases e with
  | user op =>
      dsimp only at h
      split at h
      · rename_i hcond
        obtain ⟨m, hperform, rfl⟩ := Option.map_eq_some_iff.mp h
        exact Step.user hcond.1 hcond.2.1 hcond.2.2 hperform
      · cases h
  | init t =>
      dsimp only at h
      split at h
      · rename_i hcond
        obtain ⟨⟨value, m⟩, hreply, rfl⟩ := Option.map_eq_some_iff.mp h
        exact Step.init hcond.1 hcond.2.2 hreply
      · cases h
  | lock t =>
      dsimp only at h
      split at h
      · rename_i hcall
        cases h
        exact Step.pass hcall.1 (fun hraw => absurd hcall.2.1 (by rw [hraw]; decide))
          (.lock hcall.2.2)
      · cases h
  | tryLock t =>
      dsimp only at h
      split at h
      · rename_i hcall
        cases h
        exact Step.pass hcall.1 (fun hraw => absurd hcall.2.1 (by rw [hraw]; decide))
          (.tryLock hcall.2.2)
      · cases h
  | unlock t =>
      dsimp only at h
      split at h
      · rename_i hcond
        cases h
        exact Step.unlock hcond.1.1 hcond.1.2.2 hcond.2
      · cases h
  | resume t waiter spurious =>
      dsimp only at h
      split at h
      · rename_i hrun
        exact step_resume hrun h
      · cases h

/-! ### Exclusion and wakeups -/

/-- What holds at every moment: of the word, of the counter, and of the threads. -/
structure Safe (v : SyncVar) (s : State) : Prop where
  fresh : ∀ u, s.pc u ≠ .outside → s.memory.hasThread u = true
  raw : s.constructed = false → ∀ u, s.pc u = .outside
  contention : s.contention = tally (fun u => (s.pc u).waiting) s.memory.threadCount
  free : s.constructed = true → (∀ u, (s.pc u).holding = false) →
    s.memory.Word v.loc unlocked
  held : ∀ u, (s.pc u).holding = true → s.memory.Word v.loc locked
  alone : ∀ u w, (s.pc u).holding = true → (s.pc w).holding = true → u = w
  owner : ∀ u, s.pc u = .holds → s.owner = u
  loaded : ∀ u old, s.pc u = .exchangeCommit old → s.memory.Word v.loc old
  winning : ∀ u, s.pc u = .casFence ∨ s.pc u = .casCommit →
    s.memory.Word v.loc unlocked
  token : ∀ u, s.pc u = .parked →
    ∃ w, (s.pc w).holding = true ∨ (s.pc w).retrying = true

theorem Safe.start : Safe v State.start where
  fresh u h := absurd rfl h
  raw _ _ := rfl
  contention := (tally_eq_zero fun _ => rfl).symm
  free h := absurd h Bool.false_ne_true
  held u h := absurd h Bool.false_ne_true
  alone u w h := absurd h Bool.false_ne_true
  owner u h := Pc.noConfusion h
  loaded u old h := Pc.noConfusion h
  winning u h := by rcases h with h | h <;> exact Pc.noConfusion h
  token u h := Pc.noConfusion h

theorem Safe.built (h : Safe v s) (hpc : s.pc t ≠ .outside) : s.constructed = true := by
  by_contra hraw
  exact hpc (h.raw (Bool.eq_false_of_not_eq_true hraw) t)

/-- A thread that runs is the only one that can be in a read-modify-write. -/
theorem Safe.notMid (h : Safe v s) (hrun : s.MayRun t) {u : ThreadId} (hu : u ≠ t) :
    (s.pc u).midRmw = false := by
  by_cases hpc : s.pc u = .outside
  · rw [hpc]
    rfl
  · have hle := (Memory.hasThread_iff.mp (h.fresh u hpc)).2
    exact hrun.2 u (Nat.lt_succ_of_le hle) hu

/-- The winner finds the mutex free. -/
theorem Safe.unheld_of_winning (h : Safe v s) (hwinning : Winning (s.pc t)) :
    ∀ u, (s.pc u).holding = false := by
  intro u
  by_contra hholding
  have hlocked := h.held u (Bool.eq_true_of_not_eq_false hholding)
  cases hpc : s.pc t with
  | exchangeCommit old =>
      rw [hpc] at hwinning
      exact hwinning ((h.loaded t old hpc).unique hlocked)
  | casCommit =>
      exact absurd ((h.winning t (Or.inr hpc)).unique hlocked) (by decide)
  | _ => simp [hpc, Winning] at hwinning

section Moves

variable {pc : Pc} {m : Memory} {contention : Nat}

theorem goto_pc_self (s : State) (t : ThreadId) (pc : Pc) : (s.goto t pc).pc t = pc :=
  Function.update_self _ _ _

theorem goto_pc_of_ne {u : ThreadId} (hu : u ≠ t) : (s.goto t pc).pc u = s.pc u :=
  Function.update_of_ne hu _ _

/-- Where a thread without the mutex can go. -/
structure Shifts (pc pc' : Pc) : Prop where
  notHolding : pc.holding = false ∧ pc'.holding = false
  token : pc.retrying = true → pc'.retrying = true ∨ pc' = .parked
  notParked : pc ≠ .parked

theorem Pass.shifts (hpass : Pass v s t pc m contention) : Shifts (s.pc t) pc := by
  cases hpass with
  | lock hpc | tryLock hpc | load hpc _ | park hpc _ | retry hpc | casLoad hpc _
  | casFails hpc _ | casFence hpc _ =>
      rw [hpc]
      exact ⟨⟨rfl, rfl⟩, by simp [Pc.retrying], Pc.noConfusion⟩

theorem Pass.threadCount (hpass : Pass v s t pc m contention) :
    s.memory.threadCount ≤ m.threadCount := by
  cases hpass with
  | lock _ | tryLock _ | retry _ => exact Nat.le_refl _
  | load _ h | park _ h | casLoad _ h | casFails _ h | casFence _ h =>
      exact Nat.le_of_eq (Memory.reply_threadCount h).symm

theorem Pass.counted (h : Safe v s) (hrun : s.MayRun t)
    (hpass : Pass v s t pc m contention) :
    contention + (if (s.pc t).waiting then 1 else 0) =
      s.contention + if pc.waiting then 1 else 0 := by
  cases hpass with
  | retry hpc =>
      have hwaits : 0 < s.contention := by
        obtain ⟨hpos, hle⟩ := Memory.hasThread_iff.mp hrun.1
        rw [h.contention]
        exact tally_pos (by rw [hpc]; rfl) hpos hle
      simp only [hpc, Pc.waiting, if_true, Bool.false_eq_true, if_false]
      omega
  | lock hpc | tryLock hpc | load hpc _ | park hpc _ | casLoad hpc _ | casFails hpc _
  | casFence hpc _ => simp [hpc, Pc.waiting]

/-- Without the mutex the word does not change, and what was loaded is still there. -/
theorem Pass.word (h : Safe v s) (hpass : Pass v s t pc m contention) :
    (∀ value, s.memory.Word v.loc value → m.Word v.loc value) ∧
      (∀ old, pc = .exchangeCommit old → m.Word v.loc old) ∧
      (pc = .casFence ∨ pc = .casCommit → m.Word v.loc unlocked) ∧
      (pc = .parked → s.memory.Word v.loc locked) := by
  cases hpass with
  | lock _ | tryLock _ | retry _ => simp
  | load _ hreply | casLoad _ hreply | casFails _ hreply =>
      obtain ⟨hword, hatomics, -⟩ :=
        Memory.load_spec (Memory.reply_ok hreply).2 (Or.inr rfl)
      have hsame : m.atomics v.loc = s.memory.atomics v.loc := congrFun hatomics _
      refine ⟨fun _ hvalue => hvalue.congr hsame, ?_, ?_, by simp⟩
      all_goals simp
      all_goals exact hword.congr hsame
  | park hpc hreply =>
      have hlocked := h.loaded t locked hpc
      refine ⟨fun value hvalue => ?_, by simp, by simp, fun _ => hlocked⟩
      rw [hvalue.unique hlocked]
      exact (Memory.commit_spec (Memory.reply_ok hreply).2 rfl).1
  | casFence hpc hreply =>
      obtain ⟨hatomics, -⟩ := Memory.fence_spec (Memory.reply_ok hreply).2 rfl rfl
      have hsame : m.atomics v.loc = s.memory.atomics v.loc := congrFun hatomics _
      refine ⟨fun _ hvalue => hvalue.congr hsame, by simp, fun _ => ?_, by simp⟩
      exact (h.winning t (Or.inl hpc)).congr hsame

theorem goto_cases {P : ThreadId → Pc → Prop} (hself : P t pc)
    (hothers : ∀ u, u ≠ t → P u (s.pc u)) : ∀ u, P u ((s.goto t pc).pc u) := by
  intro u
  by_cases hu : u = t
  · subst hu
    rw [goto_pc_self]
    exact hself
  · rw [goto_pc_of_ne hu]
    exact hothers u hu

theorem waiting_goto (h : Safe v s) (hrun : s.MayRun t)
    (hcount : s.memory.threadCount ≤ m.threadCount)
    (hmoves : contention + (if (s.pc t).waiting then 1 else 0) =
      s.contention + if pc.waiting then 1 else 0) :
    contention = tally (fun u => ((s.goto t pc).pc u).waiting) m.threadCount := by
  obtain ⟨hpos, hle⟩ := Memory.hasThread_iff.mp hrun.1
  have hgrown : tally (fun u => (s.pc u).waiting) m.threadCount = s.contention := by
    rw [h.contention]
    refine tally_of_le hcount fun u hu => ?_
    refine (Memory.hasThread_iff.mp (h.fresh u fun hpc => ?_)).2
    rw [hpc] at hu
    cases hu
  have hupdate := @tally_update (fun u => ((s.goto t pc).pc u).waiting)
    (fun u => (s.pc u).waiting) m.threadCount t hpos (hle.trans hcount)
    fun u hu => by rw [goto_pc_of_ne hu]
  rw [goto_pc_self, hgrown] at hupdate
  omega

theorem Safe.pass (h : Safe v s) (hrun : s.MayRun t)
    (hbuilt : s.constructed = false → s.pc t ≠ .outside)
    (hpass : Pass v s t pc m contention) :
    Safe v { s.goto t pc with memory := m, contention := contention } := by
  obtain ⟨⟨hbefore, hafter⟩, htoken, hnotParked⟩ := hpass.shifts
  obtain ⟨hword, hloaded, hwinning, hparks⟩ := hpass.word h
  have hmid : ∀ u, u ≠ t → (s.pc u).midRmw = false := fun u hu => h.notMid hrun hu
  have hholding : ∀ u, ((s.goto t pc).pc u).holding = (s.pc u).holding :=
    goto_cases (P := fun u pc => pc.holding = (s.pc u).holding)
      (hafter.trans hbefore.symm) fun _ _ => rfl
  refine ⟨?_, ?_, ?_, ?_, ?_, ?_, ?_, ?_, ?_, ?_⟩
  · refine goto_cases (P := fun u pc => pc ≠ .outside → m.hasThread u = true) ?_ ?_
    · exact fun _ => Memory.hasThread.mono hrun.1 hpass.threadCount
    · exact fun u _ hpc => Memory.hasThread.mono (h.fresh u hpc) hpass.threadCount
  · intro hraw
    exact absurd (h.raw hraw t) (hbuilt hraw)
  · exact waiting_goto h hrun hpass.threadCount (hpass.counted h hrun)
  · intro hconstructed hfree
    exact hword _ (h.free hconstructed fun u => hholding u ▸ hfree u)
  · intro u hu
    exact hword _ (h.held u (hholding u ▸ hu))
  · intro u w hu hw
    exact h.alone u w (hholding u ▸ hu) (hholding w ▸ hw)
  · refine goto_cases (P := fun u pc => pc = .holds → s.owner = u) ?_ ?_
    · rintro rfl
      cases hafter
    · exact fun u _ => h.owner u
  · refine goto_cases
      (P := fun u pc => ∀ old, pc = .exchangeCommit old → m.Word v.loc old) hloaded ?_
    intro u hu old hpc
    have := hmid u hu
    rw [hpc] at this
    cases this
  · refine goto_cases
      (P := fun u pc => pc = .casFence ∨ pc = .casCommit → m.Word v.loc unlocked)
      hwinning ?_
    intro u hu hpc
    have := hmid u hu
    rcases hpc with hpc | hpc <;> rw [hpc] at this <;> cases this
  · have hheld : s.memory.Word v.loc locked → s.constructed = true →
        ∃ w, (s.pc w).holding = true := by
      intro hlocked hconstructed
      by_contra hnone
      have hunlocked := h.free hconstructed fun u =>
        Bool.eq_false_of_not_eq_true fun hu => hnone ⟨u, hu⟩
      exact absurd (hlocked.unique hunlocked) (by decide)
    have hkept : (∃ w, (s.pc w).holding = true ∨ (s.pc w).retrying = true) →
        pc ≠ .parked →
        ∃ w, ((s.goto t pc).pc w).holding = true ∨
          ((s.goto t pc).pc w).retrying = true := by
      rintro ⟨w, hw | hw⟩ hpc
      · exact ⟨w, Or.inl (by rw [hholding]; exact hw)⟩
      · by_cases hwt : w = t
        · subst hwt
          refine ⟨w, Or.inr ?_⟩
          rw [goto_pc_self]
          exact (htoken hw).resolve_right hpc
        · exact ⟨w, Or.inr (by rw [goto_pc_of_ne hwt]; exact hw)⟩
    intro u hu
    by_cases hpc : pc = .parked
    · obtain ⟨w, hw⟩ := hheld (hparks hpc) (by
        by_contra hraw
        have hfalse := Bool.eq_false_of_not_eq_true hraw
        exact hbuilt hfalse (h.raw hfalse t))
      exact ⟨w, Or.inl (by rw [hholding]; exact hw)⟩
    · refine hkept (h.token u ?_) hpc
      have hut : u ≠ t := by
        rintro rfl
        rw [goto_pc_self] at hu
        exact hpc hu
      rw [goto_pc_of_ne hut] at hu
      exact hu

/-- What leaves the `SyncVar` alone leaves the mutex alone. -/
theorem Safe.memory {log : List OldAccess} (h : Safe v s)
    (hcount : s.memory.threadCount ≤ m.threadCount)
    (hsame : m.atomics v.loc = s.memory.atomics v.loc) :
    Safe v { s with memory := m, log := log } where
  fresh u hpc := Memory.hasThread.mono (h.fresh u hpc) hcount
  raw := h.raw
  contention := by
    refine h.contention.trans (tally_of_le hcount fun u hu => ?_).symm
    refine (Memory.hasThread_iff.mp (h.fresh u fun hpc => ?_)).2
    rw [hpc] at hu
    cases hu
  free hconstructed hfree := (h.free hconstructed hfree).congr hsame
  held u hu := (h.held u hu).congr hsame
  alone := h.alone
  owner := h.owner
  loaded u old hpc := (h.loaded u old hpc).congr hsame
  winning u hpc := (h.winning u hpc).congr hsame
  token := h.token

theorem Safe.user {op : Op} (h : Safe v s)
    (htouch : Memory.touches v.loc op = false) (hperform : s.memory.perform op = some m) :
    Safe v { s with memory := m, log := s.note m op } :=
  h.memory (Memory.perform_threadCount hperform)
    (Memory.exec_atomics htouch (Memory.perform_ok hperform))

theorem Safe.init {value : Nat} (h : Safe v s) (hraw : s.constructed = false)
    (hreply : s.memory.reply t (v.init unlocked) = some (value, m)) :
    Safe v { s with memory := m, constructed := true, contention := 0 } := by
  have hout := h.raw hraw
  exact {
    fresh := fun u hpc => absurd (hout u) hpc
    raw := fun hfalse => Bool.noConfusion hfalse
    contention := (tally_eq_zero fun u => by rw [hout u]; rfl).symm
    free := fun _ _ => Memory.init_spec (Memory.reply_ok hreply).2 rfl
    held := fun u hu => absurd hu (by rw [hout u]; decide)
    alone := fun u w hu => absurd hu (by rw [hout u]; decide)
    owner := fun u hpc => absurd hpc (by rw [hout u]; decide)
    loaded := fun u old hpc => absurd hpc (by rw [hout u]; exact Pc.noConfusion)
    winning := fun u hpc => absurd hpc (by rw [hout u]; decide)
    token := fun u hpc => absurd hpc (by rw [hout u]; decide) }

theorem Winning.notWaiting (h : Winning pc) :
    pc.waiting = false ∧ pc.holding = false ∧ pc ≠ .outside ∧ pc ≠ .parked := by
  cases pc with
  | exchangeCommit _ | casCommit => exact ⟨rfl, rfl, Pc.noConfusion, Pc.noConfusion⟩
  | _ => exact absurd h id

/-- The winner gets the mutex. -/
theorem Safe.acquire {value : Nat} {operation : String} (h : Safe v s)
    (hrun : s.MayRun t) (hwinning : Winning (s.pc t))
    (hreply : s.memory.reply t (v.rmwCommit locked .acquire operation) =
      some (value, m)) : Safe v (s.acquired t m) := by
  have hcount := Nat.le_of_eq (Memory.reply_threadCount hreply).symm
  have hword := (Memory.commit_spec (Memory.reply_ok hreply).2 rfl).1
  have hunheld := h.unheld_of_winning hwinning
  obtain ⟨hnotWaiting, -, hnotOutside, -⟩ := hwinning.notWaiting
  have hholder : ∀ u, ((s.goto t .holds).pc u).holding = true → u = t := by
    intro u hu
    by_contra hne
    rw [goto_pc_of_ne hne, hunheld u] at hu
    cases hu
  have hmid : ∀ u, ((s.goto t .holds).pc u).midRmw = false :=
    goto_cases (P := fun _ pc => pc.midRmw = false) rfl fun u hu => h.notMid hrun hu
  exact {
    fresh := goto_cases (P := fun u pc => pc ≠ .outside → m.hasThread u = true)
      (fun _ => Memory.hasThread.mono hrun.1 hcount)
      fun u _ hpc => Memory.hasThread.mono (h.fresh u hpc) hcount
    raw := fun hraw => absurd (h.raw hraw t) hnotOutside
    contention := waiting_goto h hrun hcount (by rw [hnotWaiting]; rfl)
    free := fun _ hfree => absurd (hfree t) (by
      rw [State.acquired, goto_pc_self]
      decide)
    held := fun _ _ => hword
    alone := fun u w hu hw => (hholder u hu).trans (hholder w hw).symm
    owner := fun u hpc => (hholder u (by
      rw [State.acquired] at hpc
      rw [hpc]
      rfl)).symm
    loaded := fun u old hpc => by
      have := hmid u
      rw [State.acquired] at hpc
      rw [hpc] at this
      cases this
    winning := fun u hpc => by
      have := hmid u
      rw [State.acquired] at hpc
      rcases hpc with hpc | hpc <;> rw [hpc] at this <;> cases this
    token := fun u _ => ⟨t, Or.inl (by
      rw [State.acquired, goto_pc_self]
      rfl)⟩ }

/-- The holder begins to unlock. -/
theorem Safe.unlock (h : Safe v s) (hrun : s.MayRun t) (hpc : s.pc t = .holds) :
    Safe v { s.goto t .unlocking with owner := nobody } := by
  have hheld : (s.pc t).holding = true := by rw [hpc]; rfl
  have hholding : ∀ u, ((s.goto t .unlocking).pc u).holding = (s.pc u).holding :=
    goto_cases (P := fun u pc => pc.holding = (s.pc u).holding) hheld.symm
      fun _ _ => rfl
  exact {
    fresh := goto_cases (P := fun u pc => pc ≠ .outside → s.memory.hasThread u = true)
      (fun _ => hrun.1) fun u _ => h.fresh u
    raw := fun hraw => absurd (h.raw hraw t) (by rw [hpc]; decide)
    contention := waiting_goto h hrun (Nat.le_refl _) (by rw [hpc]; rfl)
    free := fun _ hfree => absurd (hfree t) (by
      rw [goto_pc_self]
      decide)
    held := fun u hu => h.held u (hholding u ▸ hu)
    alone := fun u w hu hw => h.alone u w (hholding u ▸ hu) (hholding w ▸ hw)
    owner := goto_cases (P := fun u pc => pc = .holds → nobody = u) Pc.noConfusion
      fun u hu hpcu => absurd (h.alone u t (by rw [hpcu]; rfl) hheld) hu
    loaded := goto_cases
      (P := fun _ pc => ∀ old, pc = .exchangeCommit old → s.memory.Word v.loc old)
      (fun _ => Pc.noConfusion) fun u _ => h.loaded u
    winning := goto_cases
      (P := fun _ pc => pc = .casFence ∨ pc = .casCommit →
        s.memory.Word v.loc unlocked)
      (fun hpc => by rcases hpc with hpc | hpc <;> cases hpc) fun u _ => h.winning u
    token := fun u _ => ⟨t, Or.inl (by rw [goto_pc_self]; rfl)⟩ }

/-- The holder has stored `Unlocked`, and may have woken somebody. -/
theorem Safe.released {s' : State} (h : Safe v s) (hrun : s.MayRun t)
    (hpc : s.pc t = .unlocking) (hself : s'.pc t = .outside)
    (hothers : ∀ u, u ≠ t → s'.pc u = s.pc u ∨ s.pc u = .parked ∧ s'.pc u = .woken)
    (hcount : s.memory.threadCount ≤ s'.memory.threadCount)
    (hword : s'.memory.Word v.loc unlocked)
    (hconstructed : s'.constructed = s.constructed)
    (hcontention : s'.contention = s.contention)
    (htoken : ∀ u, s'.pc u = .parked →
      ∃ w, (s'.pc w).holding = true ∨ (s'.pc w).retrying = true) : Safe v s' := by
  have hheld : (s.pc t).holding = true := by rw [hpc]; rfl
  have hbuilt : s'.constructed = true :=
    hconstructed.trans (h.built (by rw [hpc]; exact Pc.noConfusion))
  have hunheld : ∀ u, (s'.pc u).holding = false := by
    intro u
    by_cases hu : u = t
    · rw [hu, hself]
      rfl
    · rcases hothers u hu with hsame | ⟨-, hwoken⟩
      · rw [hsame]
        by_contra hholding
        exact hu (h.alone u t (Bool.eq_true_of_not_eq_false hholding) hheld)
      · rw [hwoken]
        rfl
  have hmid : ∀ u, (s'.pc u).midRmw = false := by
    intro u
    by_cases hu : u = t
    · rw [hu, hself]
      rfl
    · rcases hothers u hu with hsame | ⟨-, hwoken⟩
      · rw [hsame]
        exact h.notMid hrun hu
      · rw [hwoken]
        rfl
  have hwaiting : ∀ u, (s'.pc u).waiting = (s.pc u).waiting := by
    intro u
    by_cases hu : u = t
    · rw [hu, hself, hpc]
      rfl
    · rcases hothers u hu with hsame | ⟨hparked, hwoken⟩
      · rw [hsame]
      · rw [hwoken, hparked]
        rfl
  have hfresh : ∀ u, s.pc u ≠ .outside → s'.memory.hasThread u = true :=
    fun u hu => Memory.hasThread.mono (h.fresh u hu) hcount
  exact {
    fresh := fun u hu => by
      by_cases hut : u = t
      · rw [hut, hself] at hu
        exact absurd rfl hu
      · rcases hothers u hut with hsame | ⟨hparked, -⟩
        · exact hfresh u (hsame ▸ hu)
        · exact hfresh u (by rw [hparked]; exact Pc.noConfusion)
    raw := fun hraw => absurd hbuilt (by rw [hraw]; decide)
    contention := by
      rw [hcontention, h.contention, tally_congr fun u _ _ => (hwaiting u).symm]
      refine (tally_of_le hcount fun u hu => ?_).symm
      refine (Memory.hasThread_iff.mp (h.fresh u fun hpcu => ?_)).2
      rw [hwaiting, hpcu] at hu
      cases hu
    free := fun _ _ => hword
    held := fun u hu => absurd hu (by rw [hunheld]; decide)
    alone := fun u w hu => absurd hu (by rw [hunheld]; decide)
    owner := fun u hpcu => absurd (hunheld u) (by rw [hpcu]; decide)
    loaded := fun u old hpcu => absurd (hmid u) (by rw [hpcu]; exact Bool.noConfusion)
    winning := fun u hpcu => absurd (hmid u) (by
      rcases hpcu with hpcu | hpcu <;> rw [hpcu] <;> decide)
    token := htoken }

end Moves

/-- Every step keeps the invariant. -/
theorem Safe.step (h : Safe v s) (hstep : Step v s s') : Safe v s' := by
  cases hstep with
  | user _ _ htouch hperform => exact h.user htouch hperform
  | init _ hraw hreply => exact h.init hraw hreply
  | pass hrun hbuilt hpass => exact h.pass hrun hbuilt hpass
  | acquire hrun hwinning hreply => exact h.acquire hrun hwinning hreply
  | unlock hrun hpc _ => exact h.unlock hrun hpc
  | @release t value m hrun hpc hreply hquiet =>
      have hcount := Nat.le_of_eq (Memory.reply_threadCount hreply).symm
      have hword := (Memory.store_spec (Memory.reply_ok hreply).2 rfl).1
      refine h.released hrun hpc (goto_pc_self _ _ _)
        (fun u hu => Or.inl (goto_pc_of_ne hu)) hcount hword
        rfl rfl fun u hu => ?_
      -- Who is parked is counted, so that there is no one to wake.
      have hut : u ≠ t := by
        rintro rfl
        rw [goto_pc_self] at hu
        cases hu
      have hparked : s.pc u = .parked := (goto_pc_of_ne hut).symm.trans hu
      obtain ⟨hpos, hle⟩ := Memory.hasThread_iff.mp
        (h.fresh u (by rw [hparked]; exact Pc.noConfusion))
      rcases hquiet with hzero | hzero
      · have := @tally_pos (fun u => (s.pc u).waiting) _ u (by rw [hparked]; rfl) hpos hle
        rw [← h.contention, hzero] at this
        exact absurd this (Nat.lt_irrefl 0)
      · have := @tally_pos (fun u => (s.goto t .outside).pc u == .parked) m.threadCount u
          (by rw [hu]; rfl) hpos (hle.trans hcount)
        exact absurd hzero (Nat.ne_of_gt this)
  | @releaseWakes t waiter value m m' hrun hpc hreply hparked hwake =>
      have hcount := Nat.le_of_eq (Memory.reply_threadCount hreply).symm
      have hword := (Memory.store_spec (Memory.reply_ok hreply).2 rfl).1
      have hne : t ≠ waiter := by
        rintro rfl
        rw [hpc] at hparked
        cases hparked
      refine h.released hrun hpc ?_ (fun u hu => ?_)
        (hcount.trans (Memory.perform_threadCount hwake))
        (Memory.perform_word rfl hwake hword) rfl rfl fun u hu => ?_
      · exact (goto_pc_of_ne hne).trans (goto_pc_self _ _ _)
      · by_cases huw : u = waiter
        · subst huw
          exact Or.inr ⟨hparked, goto_pc_self _ _ _⟩
        · exact Or.inl ((goto_pc_of_ne huw).trans (goto_pc_of_ne hu))
      · refine ⟨waiter, Or.inr ?_⟩
        show (((s.goto t .outside).goto waiter .woken).pc waiter).retrying = true
        rw [goto_pc_self]
        rfl

/-! ### Order -/

/-- What the threads know of the accesses made under the mutex. -/
structure Ordered (v : SyncVar) (s : State) : Prop where
  own : s.memory.OwnEpochs
  attributed : ∀ a ∈ s.log, s.memory.Attributed a
  raw : s.constructed = false → s.log = []
  free : s.constructed = true → (∀ u, (s.pc u).holding = false) →
    ∀ a ∈ s.log, s.memory.Carries v.loc a
  held : ∀ u, (s.pc u).holding = true → ∀ a ∈ s.log, s.memory.Knows u a
  winning : ∀ u, Winning (s.pc u) → ∀ a ∈ s.log, s.memory.Knows u a
  fenced : ∀ u, s.pc u = .casFence → ∀ a ∈ s.log, s.memory.Observed u a

theorem Ordered.start : Ordered v State.start where
  own t ht := by
    show (0 : Nat) ≤ _
    exact Nat.zero_le _
  attributed a ha := absurd ha List.not_mem_nil
  raw _ := rfl
  free h := absurd h Bool.false_ne_true
  held u h := absurd h Bool.false_ne_true
  winning u h := absurd h id
  fenced u h := Pc.noConfusion h

section Order

variable {pc : Pc} {m : Memory} {contention : Nat}

theorem Safe.le (h : Safe v s) {u : ThreadId} (hpc : s.pc u ≠ .outside) :
    u ≤ s.memory.threadCount :=
  (Memory.hasThread_iff.mp (h.fresh u hpc)).2

theorem holding_ne_outside (h : pc.holding = true) : pc ≠ .outside := by
  rintro rfl
  cases h

/-- A turn without the mutex keeps what the word carries; whoever finds the word
unlocked learns of it. -/
theorem Pass.knowledge (h : Safe v s) (ho : Ordered v s) (hroomy : s.memory.Roomy)
    (hbuilt : s.constructed = true) (hpass : Pass v s t pc m contention) :
    s.memory.Grows m ∧ (∀ a, s.memory.Carries v.loc a → m.Carries v.loc a) ∧
      (Winning pc → ∀ a ∈ s.log, m.Knows t a) ∧
      (pc = .casFence → ∀ a ∈ s.log, m.Observed t a) := by
  have hfree : ∀ old, old ≠ locked → s.memory.Word v.loc old →
      ∀ a ∈ s.log, s.memory.Carries v.loc a := by
    intro old hne hword
    refine ho.free hbuilt fun u => ?_
    by_contra hu
    exact hne (hword.unique (h.held u (Bool.eq_true_of_not_eq_false hu)))
  cases hpass with
  | lock _ | tryLock _ | retry _ =>
      exact ⟨Memory.Grows.refl _, fun _ => id, by simp [Winning], by simp⟩
  | @load old m hpc hreply =>
      obtain ⟨hword, hatomics, hlearns⟩ :=
        Memory.load_spec (Memory.reply_ok hreply).2 (Or.inr rfl)
      refine ⟨Memory.reply_grows hroomy hreply,
        fun a ha => ha.congr (congrFun hatomics _), fun hne a ha => ?_, by simp⟩
      exact (hlearns a (ho.attributed a ha) (hfree old hne hword a ha)).2 rfl
  | park hpc hreply =>
      obtain ⟨-, -, hcarries, -⟩ := Memory.commit_spec (Memory.reply_ok hreply).2 rfl
      exact ⟨Memory.reply_grows hroomy hreply, hcarries, by simp [Winning], by simp⟩
  | casLoad hpc hreply =>
      obtain ⟨hword, hatomics, hlearns⟩ :=
        Memory.load_spec (Memory.reply_ok hreply).2 (Or.inr rfl)
      refine ⟨Memory.reply_grows hroomy hreply,
        fun a ha => ha.congr (congrFun hatomics _), by simp [Winning], fun _ a ha => ?_⟩
      exact (hlearns a (ho.attributed a ha) (hfree _ (by decide) hword a ha)).1
  | casFails hpc hreply =>
      obtain ⟨-, hatomics, -⟩ :=
        Memory.load_spec (Memory.reply_ok hreply).2 (Or.inr rfl)
      exact ⟨Memory.reply_grows hroomy hreply,
        fun a ha => ha.congr (congrFun hatomics _), by simp [Winning], by simp⟩
  | casFence hpc hreply =>
      obtain ⟨hatomics, hlearns⟩ :=
        Memory.fence_spec (Memory.reply_ok hreply).2 rfl rfl
      refine ⟨Memory.reply_grows hroomy hreply,
        fun a ha => ha.congr (congrFun hatomics _), fun _ a ha => ?_, by simp⟩
      exact hlearns a (ho.attributed a ha) (ho.fenced t hpc a ha)

theorem Ordered.pass (h : Safe v s) (ho : Ordered v s) (hroomy : s.memory.Roomy)
    (hbuilt : s.constructed = false → s.pc t ≠ .outside)
    (hpass : Pass v s t pc m contention) :
    Ordered v { s.goto t pc with memory := m, contention := contention } := by
  have hconstructed : s.constructed = true := by
    by_contra hraw
    have hfalse := Bool.eq_false_of_not_eq_true hraw
    exact hbuilt hfalse (h.raw hfalse t)
  obtain ⟨hgrows, hcarries, hwinning, hfenced⟩ :=
    hpass.knowledge h ho hroomy hconstructed
  obtain ⟨hbefore, hafter⟩ := hpass.shifts.notHolding
  have hholding : ∀ u, ((s.goto t pc).pc u).holding = (s.pc u).holding :=
    goto_cases (P := fun u pc => pc.holding = (s.pc u).holding)
      (hafter.trans hbefore.symm) fun _ _ => rfl
  exact {
    own := hgrows.own ho.own
    attributed := fun a ha => hgrows.attributed (ho.attributed a ha)
    raw := ho.raw
    free := fun _ hfree a ha =>
      hcarries a (ho.free hconstructed (fun u => hholding u ▸ hfree u) a ha)
    held := fun u hu a ha => by
      have hheld : (s.pc u).holding = true := hholding u ▸ hu
      exact hgrows.knows (h.le (holding_ne_outside hheld)) (ho.held u hheld a ha)
    winning := goto_cases (P := fun u pc => Winning pc → ∀ a ∈ s.log, m.Knows u a)
      hwinning fun u _ hu a ha =>
        hgrows.knows (h.le hu.notWaiting.2.2.1) (ho.winning u hu a ha)
    fenced := goto_cases
      (P := fun u pc => pc = .casFence → ∀ a ∈ s.log, m.Observed u a) hfenced
      fun u _ hu a ha =>
        hgrows.observed (h.le (by rw [hu]; exact Pc.noConfusion)) (ho.fenced u hu a ha) }

/-- What is done in user code changes nothing but the log of who holds the mutex. -/
theorem Ordered.user {op : Op} (h : Safe v s) (ho : Ordered v s)
    (hroomy : s.memory.Roomy) (hrun : s.MayRun op.performer)
    (htouch : Memory.touches v.loc op = false)
    (hperform : s.memory.perform op = some m) :
    Ordered v { s with memory := m, log := s.note m op } := by
  have hgrows := Memory.perform_grows hroomy hperform
  have hnote : ∀ a ∈ s.note m op, a ∈ s.log ∨
      ∃ t access, op = .access t access ∧ (s.pc t).holding = true ∧
        a = m.currAccess t access := by
    intro a ha
    unfold State.note at ha
    split at ha
    · split at ha
      · rename_i hheld
        rcases List.mem_cons.mp ha with rfl | ha
        · exact Or.inr ⟨_, _, rfl, hheld, rfl⟩
        · exact Or.inl ha
      · exact Or.inl ha
    · exact Or.inl ha
  have hunheld : (∀ u, (s.pc u).holding = false) → ∀ a ∈ s.note m op, a ∈ s.log := by
    intro hfree a ha
    rcases hnote a ha with ha | ⟨t, _, _, hheld, _⟩
    · exact ha
    · rw [hfree t] at hheld
      cases hheld
  have hle : ∀ t access, op = .access t access → 0 < t ∧ t ≤ m.threadCount := by
    rintro t access rfl
    exact Memory.hasThread_iff.mp (Memory.hasThread.mono hrun.1 hgrows.threadCount)
  exact {
    own := hgrows.own ho.own
    attributed := fun a ha => by
      rcases hnote a ha with ha | ⟨t, access, hop, _, rfl⟩
      · exact hgrows.attributed (ho.attributed a ha)
      · exact hle t access hop
    raw := fun hraw => by
      refine List.eq_nil_iff_forall_not_mem.mpr fun a ha => ?_
      have := hunheld (fun u => by rw [h.raw hraw u]; rfl) a ha
      rw [ho.raw hraw] at this
      exact List.not_mem_nil this
    free := fun hconstructed hfree a ha =>
      Memory.perform_carries htouch hperform
        (ho.free hconstructed hfree a (hunheld hfree a ha))
    held := fun u hu a ha => by
      rcases hnote a ha with ha | ⟨t, access, hop, hheld, rfl⟩
      · exact hgrows.knows (h.le (holding_ne_outside hu)) (ho.held u hu a ha)
      · rw [h.alone u t hu hheld]
        exact (hgrows.own ho.own).knows_currAccess (hle t access hop).2 access
    winning := fun u hu a ha =>
      hgrows.knows (h.le hu.notWaiting.2.2.1)
        (ho.winning u hu a (hunheld (h.unheld_of_winning hu) a ha))
    fenced := fun u hu a ha => by
      have hfree : ∀ w, (s.pc w).holding = false := fun w => by
        by_contra hw
        have hlocked := h.held w (Bool.eq_true_of_not_eq_false hw)
        exact absurd ((h.winning u (Or.inl hu)).unique hlocked) (by decide)
      exact hgrows.observed (h.le (by rw [hu]; exact Pc.noConfusion))
        (ho.fenced u hu a (hunheld hfree a ha)) }

theorem Ordered.init {value : Nat} (ho : Ordered v s)
    (hroomy : s.memory.Roomy) (hraw : s.constructed = false)
    (hreply : s.memory.reply t (v.init unlocked) = some (value, m)) :
    Ordered v { s with memory := m, constructed := true, contention := 0 } := by
  have hnil : ∀ a, a ∉ s.log := by
    rw [ho.raw hraw]
    exact fun _ => List.not_mem_nil
  exact {
    own := (Memory.reply_grows hroomy hreply).own ho.own
    attributed := fun a ha => absurd ha (hnil a)
    raw := fun _ => ho.raw hraw
    free := fun _ _ a ha => absurd ha (hnil a)
    held := fun _ _ a ha => absurd ha (hnil a)
    winning := fun _ _ a ha => absurd ha (hnil a)
    fenced := fun _ _ a ha => absurd ha (hnil a) }

/-- Who gets the mutex knows of everything that was done under it. -/
theorem Ordered.acquire {value : Nat} {operation : String} (h : Safe v s)
    (ho : Ordered v s) (hroomy : s.memory.Roomy) (hrun : s.MayRun t)
    (hwinning : Winning (s.pc t))
    (hreply : s.memory.reply t (v.rmwCommit locked .acquire operation) =
      some (value, m)) : Ordered v (s.acquired t m) := by
  have hgrows := Memory.reply_grows hroomy hreply
  have hmid : ∀ u, ((s.goto t .holds).pc u).midRmw = false :=
    goto_cases (P := fun _ pc => pc.midRmw = false) rfl fun u hu => h.notMid hrun hu
  exact {
    own := hgrows.own ho.own
    attributed := fun a ha => hgrows.attributed (ho.attributed a ha)
    raw := fun hraw => ho.raw hraw
    free := fun _ hfree => absurd (hfree t) (by
      rw [State.acquired, goto_pc_self]
      decide)
    held := goto_cases
      (P := fun u pc => pc.holding = true → ∀ a ∈ s.log, m.Knows u a)
      (fun _ a ha => hgrows.knows (h.le hwinning.notWaiting.2.2.1)
        (ho.winning t hwinning a ha))
      fun u _ hu => absurd hu (by
        rw [h.unheld_of_winning hwinning u]
        decide)
    winning := fun u hu => by
      have hfalse := hmid u
      rw [State.acquired] at hu
      cases hpc : (s.goto t .holds).pc u with
      | exchangeCommit _ | casCommit =>
          rw [hpc] at hfalse
          cases hfalse
      | _ =>
          rw [hpc] at hu
          exact absurd hu id
    fenced := fun u hu => by
      have hfalse := hmid u
      rw [State.acquired] at hu
      rw [hu] at hfalse
      cases hfalse }

theorem Ordered.unlock (ho : Ordered v s) (hpc : s.pc t = .holds) :
    Ordered v { s.goto t .unlocking with owner := nobody } := by
  have hheld : (s.pc t).holding = true := by rw [hpc]; rfl
  exact {
    own := ho.own
    attributed := ho.attributed
    raw := ho.raw
    free := fun _ hfree => absurd (hfree t) (by
      rw [goto_pc_self]
      decide)
    held := goto_cases
      (P := fun u pc => pc.holding = true → ∀ a ∈ s.log, s.memory.Knows u a)
      (fun _ => ho.held t hheld) fun u _ => ho.held u
    winning := goto_cases
      (P := fun u pc => Winning pc → ∀ a ∈ s.log, s.memory.Knows u a)
      (fun hu => absurd hu id) fun u _ => ho.winning u
    fenced := goto_cases
      (P := fun u pc => pc = .casFence → ∀ a ∈ s.log, s.memory.Observed u a)
      Pc.noConfusion fun u _ => ho.fenced u }

/-- The releasing store carries everything that was done under the mutex. -/
theorem Ordered.released {s' : State} (h : Safe v s) (ho : Ordered v s)
    (hrun : s.MayRun t) (hself : s'.pc t = .outside)
    (hothers : ∀ u, u ≠ t → s'.pc u = s.pc u ∨ s.pc u = .parked ∧ s'.pc u = .woken)
    (hheld : (s.pc t).holding = true) (hgrows : s.memory.Grows s'.memory)
    (hcarries : ∀ a ∈ s.log, s'.memory.Carries v.loc a)
    (hconstructed : s'.constructed = s.constructed) (hlog : s'.log = s.log) :
    Ordered v s' := by
  have hquiet : ∀ u, (s'.pc u).holding = false ∧ (s'.pc u).midRmw = false := by
    intro u
    by_cases hu : u = t
    · rw [hu, hself]
      exact ⟨rfl, rfl⟩
    · rcases hothers u hu with hsame | ⟨-, hwoken⟩
      · rw [hsame]
        refine ⟨?_, h.notMid hrun hu⟩
        by_contra hholding
        exact hu (h.alone u t (Bool.eq_true_of_not_eq_false hholding) hheld)
      · rw [hwoken]
        exact ⟨rfl, rfl⟩
  exact {
    own := hgrows.own ho.own
    attributed := fun a ha => hgrows.attributed (ho.attributed a (hlog ▸ ha))
    raw := fun hraw => hlog.trans (ho.raw (hconstructed ▸ hraw))
    free := fun _ _ a ha => hcarries a (hlog ▸ ha)
    held := fun u hu => absurd hu (by rw [(hquiet u).1]; decide)
    winning := fun u hu => by
      have hfalse := (hquiet u).2
      cases hpc : s'.pc u with
      | exchangeCommit _ | casCommit =>
          rw [hpc] at hfalse
          cases hfalse
      | _ =>
          rw [hpc] at hu
          exact absurd hu id
    fenced := fun u hu => absurd (hquiet u).2 (by rw [hu]; decide) }

/-- Every step keeps the order, as long as no clock overflows. -/
theorem Ordered.step (h : Safe v s) (ho : Ordered v s) (hroomy : s.memory.Roomy)
    (hstep : Step v s s') : Ordered v s' := by
  cases hstep with
  | user hrun _ htouch hperform => exact ho.user h hroomy hrun htouch hperform
  | init _ hraw hreply => exact ho.init hroomy hraw hreply
  | pass _ hbuilt hpass => exact ho.pass h hroomy hbuilt hpass
  | acquire hrun hwinning hreply => exact ho.acquire h hroomy hrun hwinning hreply
  | unlock _ hpc _ => exact ho.unlock hpc
  | @release t value m hrun hpc hreply _ =>
      have hheld : (s.pc t).holding = true := by rw [hpc]; rfl
      have hgrows := Memory.reply_grows hroomy hreply
      obtain ⟨-, -, hcarries⟩ := Memory.store_spec (Memory.reply_ok hreply).2 rfl
      refine ho.released h hrun (goto_pc_self _ _ _)
        (fun u hu => Or.inl (goto_pc_of_ne hu)) hheld hgrows (fun a ha => ?_) rfl rfl
      exact hcarries (hroomy.hasRoom (Memory.hasThread_iff.mp hrun.1).2) rfl a
        (ho.attributed a ha) (ho.held t hheld a ha)
  | @releaseWakes t waiter value m m' hrun hpc hreply hparked hwake =>
      have hheld : (s.pc t).holding = true := by rw [hpc]; rfl
      have hne : t ≠ waiter := by
        rintro rfl
        rw [hpc] at hparked
        cases hparked
      have hwaiter := h.fresh waiter (by rw [hparked]; exact Pc.noConfusion)
      have hroom := Memory.wakeRoom_of_write hroomy (Or.inl rfl) hreply hwaiter hne.symm
      have hgrows := (Memory.reply_grows hroomy hreply).trans
        (Memory.perform_wake_grows hroom hwake)
      obtain ⟨-, -, hcarries⟩ := Memory.store_spec (Memory.reply_ok hreply).2 rfl
      refine ho.released h hrun ?_ (fun u hu => ?_) hheld hgrows (fun a ha => ?_) rfl rfl
      · exact (goto_pc_of_ne hne).trans (goto_pc_self _ _ _)
      · by_cases huw : u = waiter
        · subst huw
          exact Or.inr ⟨hparked, goto_pc_self _ _ _⟩
        · exact Or.inl ((goto_pc_of_ne huw).trans (goto_pc_of_ne hu))
      · refine Memory.perform_carries rfl hwake ?_
        exact hcarries (hroomy.hasRoom (Memory.hasThread_iff.mp hrun.1).2) rfl a
          (ho.attributed a ha) (ho.held t hheld a ha)

end Order

/-! ### What the mutex promises -/

namespace State

variable (v : SyncVar)

/-- At most one thread is between acquire and release. -/
def Exclusive (s : State) : Prop :=
  ∀ t u, (s.pc t).holding = true → (s.pc u).holding = true → t = u

/-- `locked_` tells whether the mutex is held. -/
def LockedIffHeld (s : State) : Prop :=
  s.constructed = true →
    (s.memory.Word v.loc locked ↔ ∃ t, (s.pc t).holding = true) ∧
    (s.memory.Word v.loc unlocked ↔ ∀ t, (s.pc t).holding = false)

/-- Some thread sleeps in `Lock` although the mutex is free and nobody comes. -/
def LostWakeup (s : State) : Prop :=
  s.memory.Word v.loc unlocked ∧ (∃ t, s.pc t = .parked) ∧
    (∀ t, (s.pc t).holding = false) ∧ ∀ t, (s.pc t).retrying = false

/-- The holder comes after every access that was made under the mutex. -/
def InOrder (s : State) : Prop :=
  ∀ t, (s.pc t).holding = true → ∀ a ∈ s.log, s.memory.happensBefore a t = true

end State

theorem reach_safe (h : Reach (State.next v) (fun _ _ => True) State.start s) :
    Safe v s :=
  h.invariant Safe.start fun _ _ _ hsafe _ hnext => hsafe.step (step_of_next hnext)

theorem reach_ordered
    (h : Reach (State.next v) (fun s _ => s.memory.Roomy) State.start s) :
    Safe v s ∧ Ordered v s :=
  h.invariant (I := fun s => Safe v s ∧ Ordered v s) ⟨Safe.start, Ordered.start⟩
    fun _ _ _ hs hroomy hnext =>
      ⟨hs.1.step (step_of_next hnext), hs.2.step hs.1 hroomy (step_of_next hnext)⟩

theorem Safe.lockedIffHeld (h : Safe v s) : s.LockedIffHeld v := by
  intro hbuilt
  have hfree : (∀ t, (s.pc t).holding = false) ∨ ∃ t, (s.pc t).holding = true := by
    by_cases hheld : ∃ t, (s.pc t).holding = true
    · exact Or.inr hheld
    · exact Or.inl fun t => Bool.eq_false_of_not_eq_true fun ht => hheld ⟨t, ht⟩
  have hdiffer : s.memory.Word v.loc locked → ¬ s.memory.Word v.loc unlocked :=
    fun hlocked hunlocked => absurd (hlocked.unique hunlocked) (by decide)
  constructor
  · refine ⟨fun hlocked => ?_, fun ⟨t, ht⟩ => h.held t ht⟩
    exact hfree.resolve_left fun hnone => hdiffer hlocked (h.free hbuilt hnone)
  · refine ⟨fun hunlocked => ?_, h.free hbuilt⟩
    exact hfree.resolve_right fun ⟨t, ht⟩ => hdiffer (h.held t ht) hunlocked

/-- The mutex excludes, its word tells whether it is held, no wakeup is lost, and as
long as no clock overflows its critical sections are ordered. -/
theorem mutex_correct
    (h : Reach (State.next v) (fun _ _ => True) State.start s) :
    s.Exclusive ∧ s.LockedIffHeld v ∧ ¬ s.LostWakeup v ∧
      (Reach (State.next v) (fun s _ => s.memory.Roomy) State.start s → s.InOrder) := by
  have hsafe := reach_safe h
  refine ⟨hsafe.alone, hsafe.lockedIffHeld, ?_, fun hroomy t ht a ha => ?_⟩
  · rintro ⟨-, ⟨t, hparked⟩, hfree, hnone⟩
    obtain ⟨u, hu | hu⟩ := hsafe.token t hparked
    · rw [hfree u] at hu
      cases hu
    · rw [hnone u] at hu
      cases hu
  · exact Memory.happensBefore_iff.mpr ((reach_ordered hroomy).2.held t ht a ha)

/-- A word of a `SyncVar` and a shared variable. -/
def exampleVar : SyncVar := ⟨16, ⟨"main.cpp", "main", 1⟩⟩

/-- The second thread waits for the first, which wakes it, and gets the mutex. -/
def contended : List Event :=
  [.init 1, .user (.access 1 ⟨32, .init, exampleVar.site⟩), .user (.spawn 1 2),
   .lock 1, .resume 1 0 false, .resume 1 0 false,
   .user (.access 1 ⟨32, .write, exampleVar.site⟩),
   .lock 2, .resume 2 0 false, .resume 2 0 false,
   .unlock 1, .resume 1 2 false,
   .resume 2 0 false, .resume 2 0 false, .resume 2 0 false]

theorem mutex_correct_contended :
    ∃ s, Reach (State.next exampleVar) (fun s _ => s.memory.Roomy) State.start s ∧
      s.pc 2 = .holds ∧ s.log.length = 1 ∧ s.Exclusive ∧ s.InOrder := by
  obtain ⟨s, hreach, hpc, hlog⟩ := @exists_reach _ _ (State.next exampleVar)
    (fun s _ => s.memory.Roomy) State.start _ contended
    (fun s => s.pc 2 = .holds ∧ s.log.length = 1) _ (by decide)
  have hcorrect := mutex_correct (hreach.mono fun _ _ _ => trivial)
  exact ⟨s, hreach, hpc, hlog, hcorrect.1, hcorrect.2.2.2 hreach⟩

/-- Between the two steps of its winning exchange a thread does not hold the mutex
yet, and `locked_` is still `Unlocked`. -/
theorem unlocked_between_steps :
    ¬ ∀ s, Reach (State.next exampleVar) (fun _ _ => True) State.start s →
      s.constructed = true →
      (s.memory.Word exampleVar.loc locked ↔
        ∃ t, (s.pc t).holding = true ∨ Winning (s.pc t)) := by
  intro hclaim
  obtain ⟨s, hreach, hbuilt, hpc, hword⟩ :=
    @exists_reach _ _ (State.next exampleVar) (fun _ _ => True) State.start _
      [.init 1, .lock 1, .resume 1 0 false]
      (fun s => s.constructed = true ∧ s.pc 1 = .exchangeCommit unlocked ∧
        s.memory.Word exampleVar.loc unlocked) _ (by decide)
  have hlocked := (hclaim s hreach hbuilt).mpr ⟨1, Or.inr (by rw [hpc]; exact nofun)⟩
  exact absurd (hlocked.unique hword) (by decide)

end Mutex

end TwistSim
