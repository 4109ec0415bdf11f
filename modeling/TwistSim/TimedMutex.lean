/-
The simulated `timed_mutex` under every interleaving, with virtual time: whether the
waits of timed attempts are bounded by their deadlines.
-/
import TwistSim.Protocols
import TwistSim.ObjectLifetimes

namespace TwistSim

namespace TimedMutex

def unlocked : Nat := 0

def locked : Nat := 1

/-- `kImpossibleThreadId`. -/
def nobody : ThreadId := 0

/-- Where a thread is in the code of `timed_mutex`.  `Lock` and `TryLockTimed` run the
same loop; only the latter has a deadline. -/
inductive Pc where
  | outside
  | holds
  | exchangeLoad (deadline : Option Int)
  | exchangeCommit (deadline : Option Int) (old : Nat)
  | parked (deadline : Option Int)
  | woken (deadline : Option Int)
  | casLoad
  | casFence
  | casCommit
  | unlocking
  deriving DecidableEq, Repr

namespace Pc

/-- In the user's code. -/
def idle : Pc → Bool
  | outside | holds => true
  | _ => false

/-- Between the load and the commit of a read-modify-write. -/
def midRmw : Pc → Bool
  | exchangeCommit .. | casFence | casCommit => true
  | _ => false

def isParked : Pc → Bool
  | parked _ => true
  | _ => false

/-- A timed attempt has found the mutex locked before its deadline. -/
def refused (now : Int) : Pc → Bool
  | exchangeCommit (some d) old => old == locked && decide (now ≤ d)
  | _ => false

end Pc

/-- The threads with their active futex timers, `owner_`, and the virtual time. -/
structure State where
  memory : Memory
  pc : ThreadId → Pc
  timer : ThreadId → Option Int
  constructed : Bool
  owner : ThreadId
  now : Int

/-- What happens next.  The scheduler chooses whom `FutexWake` wakes, and whether a
wait or a weak compare-exchange fails spuriously. -/
inductive Event where
  | user (op : Op)
  | advance (now : Int)
  | init (t : ThreadId)
  | lock (t : ThreadId)
  | tryLock (t : ThreadId)
  | tryLockFor (t : ThreadId) (timeout : Int)
  | tryLockUntil (t : ThreadId) (deadline : Int)
  | unlock (t : ThreadId)
  | resume (t : ThreadId) (waiter : ThreadId) (spurious : Bool)
  | alarm (t : ThreadId)
  deriving DecidableEq, Repr

/-- `Clock::now() + timeout`, in 64 bits. -/
def fromTimeout (now timeout : Int) : Int := Int.bmod (now + timeout) (2 ^ 64)

/-- `DeadLine::Expired`; `Lock` has no deadline. -/
def expired (deadline : Option Int) (now : Int) : Bool :=
  deadline.any fun d => decide (d < now)

namespace State

def start : State where
  memory := Memory.start
  pc _ := .outside
  timer _ := none
  constructed := false
  owner := nobody
  now := 0

def goto (s : State) (t : ThreadId) (pc : Pc) : State :=
  { s with pc := Function.update s.pc t pc }

/-- A thread that is not preemptive runs on until its commit. -/
def MayRun (s : State) (t : ThreadId) : Prop :=
  s.memory.hasThread t = true ∧
    ∀ u < s.memory.threadCount + 1, u ≠ t → (s.pc u).midRmw = false

instance (s : State) (t : ThreadId) : Decidable (s.MayRun t) := by
  unfold MayRun
  infer_instance

/-- The thread may call a method of the mutex. -/
def MayCall (s : State) (t : ThreadId) (pc : Pc) : Prop :=
  s.MayRun t ∧ s.constructed = true ∧ s.pc t = pc

instance (s : State) (t : ThreadId) (pc : Pc) : Decidable (s.MayCall t pc) := by
  unfold MayCall
  infer_instance

/-- Acquired, and `owner_.Lock()`. -/
def acquired (s : State) (t : ThreadId) (m : Memory) : State :=
  { s.goto t .holds with memory := m, owner := t }

/-- The waiter is runnable again, and its timer is gone. -/
def wake (s : State) (t : ThreadId) : State :=
  { s.goto t (match s.pc t with
      | .parked deadline => .woken deadline
      | pc => pc) with
    timer := Function.update s.timer t none }

variable (v : SyncVar)

/-- `FutexWait(locked_, Locked)`, with the timer that is handed to it.  Waits of type
`MutexTryLock` may fail spuriously. -/
def futexWait (s : State) (t : ThreadId) (deadline timer : Option Int) (m : Memory)
    (spurious : Bool) : Option State :=
  if deadline.isSome ∧ spurious = true then
    some { s.goto t (.woken deadline) with memory := m }
  else
    (m.futexLoad v.futexLoc).map fun value =>
      if value = locked then
        { s.goto t (.parked deadline) with
          memory := m
          timer := Function.update s.timer t timer }
      else { s.goto t (.woken deadline) with memory := m }

def parkedThreads (s : State) : List ThreadId :=
  (List.range' 1 s.memory.threadCount).filter fun u => (s.pc u).isParked

/-- The end of `Unlock`: `FutexWake(locked_, 1)`. -/
def futexWake (s : State) (t waiter : ThreadId) (m : Memory) : Option State :=
  let s := { s.goto t .outside with memory := m }
  if s.parkedThreads = [] then some s
  else if waiter ∈ s.parkedThreads then
    (m.perform (.wake t waiter)).map fun m => { s.wake waiter with memory := m }
  else none

/-- The thread executes its pending action and runs until the next one. -/
def resume (s : State) (t waiter : ThreadId) (spurious : Bool) : Option State :=
  match s.pc t with
  | .exchangeLoad deadline =>
      (s.memory.reply t (v.rmwLoad .acquire "atomic::exchange")).map fun (old, m) =>
        { s.goto t (.exchangeCommit deadline old) with memory := m }
  | .exchangeCommit deadline old =>
      (s.memory.reply t (v.rmwCommit locked .acquire "atomic::exchange")).bind
        fun (_, m) =>
          if old = locked then
            if expired deadline s.now then some { s.goto t .outside with memory := m }
            else s.futexWait v t deadline none m spurious
          else some (s.acquired t m)
  | .woken deadline => some (s.goto t (.exchangeLoad deadline))
  | .casLoad =>
      (s.memory.reply t
          (v.rmwLoad .relaxed "atomic::compare_exchange_weak")).map fun (old, m) =>
        { s.goto t (if old = unlocked ∧ spurious = false then .casFence else .outside)
          with memory := m }
  | .casFence =>
      (s.memory.reply t (v.acquireFence "atomic::compare_exchange_weak")).map
        fun (_, m) => { s.goto t .casCommit with memory := m }
  | .casCommit =>
      (s.memory.reply t
          (v.rmwCommit locked .acquire "atomic::compare_exchange_weak")).map
        fun (_, m) => s.acquired t m
  | .unlocking =>
      (s.memory.reply t (v.store unlocked .release)).bind fun (_, m) =>
        s.futexWake t waiter m
  | .outside | .holds | .parked _ => none

def next (s : State) : Event → Option State
  | .user op =>
      if s.MayRun op.performer ∧ op.allowed (fun u => (s.pc u).idle) = true ∧
          Memory.touches v.loc op = false then
        (s.memory.perform op).map fun m => { s with memory := m }
      else none
  | .advance now => if s.now ≤ now then some { s with now } else none
  | .init t =>
      if s.MayRun t ∧ s.pc t = .outside ∧ s.constructed = false then
        (s.memory.reply t (v.init unlocked)).map fun (_, m) =>
          { s with memory := m, constructed := true }
      else none
  | .lock t =>
      if s.MayCall t .outside then some (s.goto t (.exchangeLoad none)) else none
  | .tryLock t => if s.MayCall t .outside then some (s.goto t .casLoad) else none
  | .tryLockFor t timeout =>
      if s.MayCall t .outside then
        some (s.goto t (.exchangeLoad (some (fromTimeout s.now timeout))))
      else none
  | .tryLockUntil t deadline =>
      if s.MayCall t .outside then some (s.goto t (.exchangeLoad (some deadline)))
      else none
  | .unlock t =>
      -- `owner_.Unlock()` verifies the owner.
      if s.MayCall t .holds ∧ s.owner = t then
        some { s.goto t .unlocking with owner := nobody }
      else none
  | .resume t waiter spurious =>
      if s.MayRun t then s.resume v t waiter spurious else none
  | .alarm t =>
      if (s.pc t).isParked = true ∧ (s.timer t).any (fun w => decide (w ≤ s.now)) = true then
        some (s.wake t)
      else none

end State

/-- Every timed attempt that is parked has an active timer at its deadline. -/
def State.Bounded (s : State) : Prop :=
  ∀ u d, s.pc u = .parked (some d) → s.timer u = some d

/-- A timed attempt finds the mutex locked before its deadline, and its wait does not
fail spuriously. -/
def State.Parks (s : State) : Event → Prop
  | .resume t _ spurious => (s.pc t).refused s.now = true ∧ spurious = false
  | _ => False

instance (s : State) (e : Event) : Decidable (s.Parks e) := by
  unfold State.Parks
  split <;> infer_instance

variable {v : SyncVar} {s s' : State} {t u : ThreadId} {e : Event} {m : Memory}

/-! ### Who parks -/

theorem goto_pc_self (s : State) (t : ThreadId) (pc : Pc) : (s.goto t pc).pc t = pc :=
  Function.update_self _ _ _

theorem goto_pc_of_ne {pc : Pc} (hu : u ≠ t) : (s.goto t pc).pc u = s.pc u :=
  Function.update_of_ne hu _ _

/-- Every thread that is parked was parked before. -/
def NoMoreParked (s s' : State) : Prop :=
  ∀ u d, s'.pc u = .parked (some d) → s.pc u = .parked (some d)

theorem NoMoreParked.refl (s : State) : NoMoreParked s s := fun _ _ h => h

theorem NoMoreParked.trans {s₁ s₂ s₃ : State} (h : NoMoreParked s₁ s₂)
    (h' : NoMoreParked s₂ s₃) : NoMoreParked s₁ s₃ := fun u d hu => h u d (h' u d hu)

theorem NoMoreParked.goto {pc : Pc} (hpc : ∀ d, pc ≠ .parked (some d)) :
    NoMoreParked s (s.goto t pc) := by
  intro u d hu
  by_cases hut : u = t
  · rw [hut, goto_pc_self] at hu
    exact absurd hu (hpc d)
  · rwa [goto_pc_of_ne hut] at hu

theorem NoMoreParked.wake : NoMoreParked s (s.wake t) := by
  refine NoMoreParked.goto fun d => ?_
  cases s.pc t with
  | _ => nofun

theorem futexWake_parked {waiter : ThreadId} (h : s.futexWake t waiter m = some s') :
    NoMoreParked s s' := by
  have hout : NoMoreParked s { s.goto t .outside with memory := m } :=
    NoMoreParked.goto nofun
  unfold State.futexWake at h
  dsimp only at h
  split at h
  · cases h
    exact hout
  · split at h
    · obtain ⟨m', -, rfl⟩ := Option.map_eq_some_iff.mp h
      exact hout.trans NoMoreParked.wake
    · cases h

/-- The wait parks the thread, and no timer is armed; a timed attempt gets there only
when it was refused. -/
theorem futexWait_parked {deadline : Option Int} {spurious : Bool}
    (hpc : s.pc t = .exchangeCommit deadline locked)
    (hexpired : expired deadline s.now = false)
    (h : s.futexWait v t deadline none m spurious = some s') :
    NoMoreParked s s' ∨ (s.pc t).refused s.now = true ∧ spurious = false := by
  unfold State.futexWait at h
  split at h
  · cases h
    exact Or.inl (NoMoreParked.goto nofun)
  · rename_i hspurious
    obtain ⟨value, -, rfl⟩ := Option.map_eq_some_iff.mp h
    cases deadline with
    | none =>
        left
        split
        · exact NoMoreParked.goto nofun
        · exact NoMoreParked.goto nofun
    | some d =>
        right
        rw [hpc]
        refine ⟨?_, ?_⟩
        · have hlate : ¬ d < s.now := of_decide_eq_false hexpired
          simpa [Pc.refused] using hlate
        · simpa using hspurious

theorem resume_parked {waiter : ThreadId} {spurious : Bool}
    (h : s.resume v t waiter spurious = some s') :
    NoMoreParked s s' ∨ (s.pc t).refused s.now = true ∧ spurious = false := by
  unfold State.resume at h
  cases hpc : s.pc t with
  | outside | holds | parked _ =>
      simp only [hpc] at h
      cases h
  | exchangeLoad deadline =>
      simp only [hpc] at h
      obtain ⟨⟨old, m⟩, -, rfl⟩ := Option.map_eq_some_iff.mp h
      exact Or.inl (NoMoreParked.goto nofun)
  | exchangeCommit deadline old =>
      simp only [hpc] at h
      obtain ⟨⟨value, m⟩, -, h⟩ := Option.bind_eq_some_iff.mp h
      by_cases hold : old = locked
      · subst hold
        rw [if_pos rfl] at h
        split at h
        · cases h
          exact Or.inl (NoMoreParked.goto nofun)
        · rename_i hexpired
          rw [← hpc]
          exact futexWait_parked hpc (Bool.eq_false_of_not_eq_true hexpired) h
      · rw [if_neg hold] at h
        cases h
        exact Or.inl (NoMoreParked.goto nofun)
  | woken deadline =>
      simp only [hpc] at h
      cases h
      exact Or.inl (NoMoreParked.goto nofun)
  | casLoad =>
      simp only [hpc] at h
      obtain ⟨⟨old, m⟩, -, rfl⟩ := Option.map_eq_some_iff.mp h
      refine Or.inl (NoMoreParked.goto fun d => ?_)
      split <;> nofun
  | casFence =>
      simp only [hpc] at h
      obtain ⟨⟨value, m⟩, -, rfl⟩ := Option.map_eq_some_iff.mp h
      exact Or.inl (NoMoreParked.goto nofun)
  | casCommit =>
      simp only [hpc] at h
      obtain ⟨⟨value, m⟩, -, rfl⟩ := Option.map_eq_some_iff.mp h
      exact Or.inl (NoMoreParked.goto nofun)
  | unlocking =>
      simp only [hpc] at h
      obtain ⟨⟨value, m⟩, -, h⟩ := Option.bind_eq_some_iff.mp h
      exact Or.inl (futexWake_parked h)

/-- A step parks a timed attempt only if it was refused. -/
theorem next_parked (h : s.next v e = some s') : NoMoreParked s s' ∨ s.Parks e := by
  unfold State.next at h
  cases e with
  | user op =>
      dsimp only at h
      split at h
      · obtain ⟨m, -, rfl⟩ := Option.map_eq_some_iff.mp h
        exact Or.inl (NoMoreParked.refl s)
      · cases h
  | advance now =>
      dsimp only at h
      split at h
      · cases h
        exact Or.inl (NoMoreParked.refl s)
      · cases h
  | init t =>
      dsimp only at h
      split at h
      · obtain ⟨⟨value, m⟩, -, rfl⟩ := Option.map_eq_some_iff.mp h
        exact Or.inl (NoMoreParked.refl s)
      · cases h
  | lock t | tryLock t | tryLockFor t timeout | tryLockUntil t deadline | unlock t =>
      dsimp only at h
      split at h
      · cases h
        exact Or.inl (NoMoreParked.goto nofun)
      · cases h
  | resume t waiter spurious =>
      dsimp only at h
      split at h
      · exact resume_parked h
      · cases h
  | alarm t =>
      dsimp only at h
      split at h
      · cases h
        exact Or.inl NoMoreParked.wake
      · cases h

/-- And if it was refused, it is parked without a timer. -/
theorem parked_of_parks (hparks : s.Parks e) (h : s.next v e = some s') :
    ∃ u d, s'.pc u = .parked (some d) ∧ s'.timer u = none := by
  cases e with
  | resume t waiter spurious =>
      obtain ⟨hrefused, rfl⟩ := hparks
      cases hpc : s.pc t with
      | exchangeCommit deadline old =>
          rw [hpc] at hrefused
          cases deadline with
          | none => cases hrefused
          | some d =>
              simp only [Pc.refused, Bool.and_eq_true, beq_iff_eq, decide_eq_true_eq]
                at hrefused
              obtain ⟨rfl, hearly⟩ := hrefused
              unfold State.next at h
              dsimp only at h
              split at h
              · unfold State.resume at h
                simp only [hpc] at h
                obtain ⟨⟨value, m⟩, hreply, h⟩ := Option.bind_eq_some_iff.mp h
                have hexpired : ¬ expired (some d) s.now = true := by
                  simpa [expired] using hearly
                rw [if_pos trivial, if_neg hexpired, State.futexWait,
                  if_neg fun hboth => Bool.noConfusion hboth.2] at h
                obtain ⟨value', hvalue, rfl⟩ := Option.map_eq_some_iff.mp h
                -- The exchange has just stored `Locked`.
                have hword := (Memory.commit_spec (Memory.reply_ok hreply).2 rfl).1
                obtain rfl : value' = locked := (Memory.futexLoad_word hvalue).unique hword
                refine ⟨t, d, ?_, ?_⟩
                · rw [if_pos rfl]
                  exact goto_pc_self _ _ _
                · rw [if_pos rfl]
                  exact Function.update_self _ _ _
              · cases h
      | _ => rw [hpc] at hrefused; cases hrefused
  | _ => exact hparks.elim

/-! ### Turns that lead out -/

/-- Once constructed, the word is alive. -/
structure Built (v : SyncVar) (s : State) : Prop where
  called : ∀ u, s.pc u ≠ .outside → s.constructed = true
  word : s.constructed = true → ∃ value, s.memory.Word v.loc value

theorem reply_word {action : Action} {value : Nat}
    (hinit : action.type ≠ .atomicInit) (hdestroy : action.type ≠ .atomicDestroy)
    (h : s.memory.reply t action = some (value, m))
    (hword : ∃ value, s.memory.Word v.loc value) : ∃ value, m.Word v.loc value := by
  obtain ⟨old, atomic, hatomic, hdtor, -⟩ := hword
  obtain ⟨-, hcall⟩ := Memory.reply_ok h
  obtain ⟨hle, hsync⟩ := Memory.syncCall_ok hcall
  have hkind : actionKind action.type = .uses := by
    cases htype : action.type with
    | atomicInit => exact absurd htype hinit
    | atomicDestroy => exact absurd htype hdestroy
    | _ => rfl
  have hlife := syncAction_livesAs hsync v.loc
  rw [if_neg fun hboth => hboth.2 hkind] at hlife
  have halive : atomicLife (s.memory.ticked t) v.loc = some .opens := by
    rw [atomicLife, Memory.ticked_atomics, hatomic, Option.map_some, hdtor]
    rfl
  rw [halive, atomicLife] at hlife
  obtain ⟨atomic', hatomic', hopens⟩ := Option.map_eq_some_iff.mp hlife
  refine ⟨_, atomic', hatomic', ?_, rfl⟩
  cases hdead : atomic'.dtor with
  | false => rfl
  | true => rw [hdead] at hopens; cases hopens

theorem Built.start : Built v State.start where
  called _ h := absurd rfl h
  word h := absurd h Bool.false_ne_true

theorem Built.of (hbuilt : s'.constructed = true)
    (hword : ∃ value, s'.memory.Word v.loc value) : Built v s' where
  called _ _ := hbuilt
  word _ := hword

theorem futexWake_word {waiter : ThreadId} (h : s.futexWake t waiter m = some s')
    (hword : ∃ value, m.Word v.loc value) :
    s'.constructed = s.constructed ∧ ∃ value, s'.memory.Word v.loc value := by
  unfold State.futexWake at h
  dsimp only at h
  split at h
  · cases h
    exact ⟨rfl, hword⟩
  · split at h
    · obtain ⟨m', hwake, rfl⟩ := Option.map_eq_some_iff.mp h
      obtain ⟨value, hvalue⟩ := hword
      exact ⟨rfl, value, hvalue.congr (Memory.exec_atomics rfl (Memory.perform_ok hwake))⟩
    · cases h

theorem futexWait_word {deadline timer : Option Int} {spurious : Bool}
    (h : s.futexWait v t deadline timer m spurious = some s')
    (hword : ∃ value, m.Word v.loc value) :
    s'.constructed = s.constructed ∧ ∃ value, s'.memory.Word v.loc value := by
  unfold State.futexWait at h
  split at h
  · cases h
    exact ⟨rfl, hword⟩
  · obtain ⟨value, -, rfl⟩ := Option.map_eq_some_iff.mp h
    split
    · exact ⟨rfl, hword⟩
    · exact ⟨rfl, hword⟩

theorem Built.resume {waiter : ThreadId} {spurious : Bool} (h : Built v s)
    (hresume : s.resume v t waiter spurious = some s') : Built v s' := by
  have hbuilt : s.pc t ≠ .outside → s.constructed = true := h.called t
  have hkept : ∀ {action : Action} {value : Nat} {m : Memory}, s.pc t ≠ .outside →
      s.memory.reply t action = some (value, m) →
      action.type ≠ .atomicInit ∧ action.type ≠ .atomicDestroy →
      ∃ value, m.Word v.loc value :=
    fun hpc hreply hkind => reply_word hkind.1 hkind.2 hreply (h.word (hbuilt hpc))
  unfold State.resume at hresume
  cases hpc : s.pc t with
  | outside | holds | parked _ =>
      simp only [hpc] at hresume
      cases hresume
  | exchangeLoad deadline =>
      simp only [hpc] at hresume
      obtain ⟨⟨old, m⟩, hreply, rfl⟩ := Option.map_eq_some_iff.mp hresume
      exact Built.of (hbuilt (by rw [hpc]; nofun))
        (hkept (by rw [hpc]; nofun) hreply ⟨nofun, nofun⟩)
  | exchangeCommit deadline old =>
      simp only [hpc] at hresume
      obtain ⟨⟨value, m⟩, hreply, hresume⟩ := Option.bind_eq_some_iff.mp hresume
      have hword := hkept (by rw [hpc]; nofun) hreply ⟨nofun, nofun⟩
      have hconstructed := hbuilt (by rw [hpc]; nofun)
      split at hresume
      · split at hresume
        · cases hresume
          exact Built.of hconstructed hword
        · obtain ⟨hsame, hword⟩ := futexWait_word hresume hword
          exact Built.of (hsame.trans hconstructed) hword
      · cases hresume
        exact Built.of hconstructed hword
  | woken deadline =>
      simp only [hpc] at hresume
      cases hresume
      have hconstructed := hbuilt (by rw [hpc]; nofun)
      exact Built.of hconstructed (h.word hconstructed)
  | casLoad =>
      simp only [hpc] at hresume
      obtain ⟨⟨old, m⟩, hreply, rfl⟩ := Option.map_eq_some_iff.mp hresume
      exact Built.of (hbuilt (by rw [hpc]; nofun))
        (hkept (by rw [hpc]; nofun) hreply ⟨nofun, nofun⟩)
  | casFence =>
      simp only [hpc] at hresume
      obtain ⟨⟨value, m⟩, hreply, rfl⟩ := Option.map_eq_some_iff.mp hresume
      exact Built.of (hbuilt (by rw [hpc]; nofun))
        (hkept (by rw [hpc]; nofun) hreply ⟨nofun, nofun⟩)
  | casCommit =>
      simp only [hpc] at hresume
      obtain ⟨⟨value, m⟩, hreply, rfl⟩ := Option.map_eq_some_iff.mp hresume
      exact Built.of (hbuilt (by rw [hpc]; nofun))
        (hkept (by rw [hpc]; nofun) hreply ⟨nofun, nofun⟩)
  | unlocking =>
      simp only [hpc] at hresume
      obtain ⟨⟨value, m⟩, hreply, hresume⟩ := Option.bind_eq_some_iff.mp hresume
      obtain ⟨hsame, hword⟩ :=
        futexWake_word hresume (hkept (by rw [hpc]; nofun) hreply ⟨nofun, nofun⟩)
      exact Built.of (hsame.trans (hbuilt (by rw [hpc]; nofun))) hword

theorem Built.next (h : Built v s) (hnext : s.next v e = some s') : Built v s' := by
  unfold State.next at hnext
  cases e with
  | user op =>
      dsimp only at hnext
      split at hnext
      · rename_i hcond
        obtain ⟨m, hperform, rfl⟩ := Option.map_eq_some_iff.mp hnext
        refine ⟨h.called, fun hbuilt => ?_⟩
        obtain ⟨value, hvalue⟩ := h.word hbuilt
        exact ⟨value, Memory.perform_word hcond.2.2 hperform hvalue⟩
      · cases hnext
  | advance now =>
      dsimp only at hnext
      split at hnext
      · cases hnext
        exact ⟨h.called, h.word⟩
      · cases hnext
  | init t =>
      dsimp only at hnext
      split at hnext
      · obtain ⟨⟨value, m⟩, hreply, rfl⟩ := Option.map_eq_some_iff.mp hnext
        exact Built.of rfl ⟨_, Memory.init_spec (Memory.reply_ok hreply).2 rfl⟩
      · cases hnext
  | lock t | tryLock t | tryLockFor t timeout | tryLockUntil t deadline =>
      dsimp only at hnext
      split at hnext
      · rename_i hcall
        cases hnext
        exact Built.of hcall.2.1 (h.word hcall.2.1)
      · cases hnext
  | unlock t =>
      dsimp only at hnext
      split at hnext
      · rename_i hcall
        cases hnext
        exact Built.of hcall.1.2.1 (h.word hcall.1.2.1)
      · cases hnext
  | resume t waiter spurious =>
      dsimp only at hnext
      split at hnext
      · exact h.resume hnext
      · cases hnext
  | alarm t =>
      dsimp only at hnext
      split at hnext
      · rename_i hcond
        cases hnext
        have hbuilt : s.constructed = true := h.called t fun hpc => by
          rw [hpc] at hcond
          cases hcond.1
        exact Built.of hbuilt (h.word hbuilt)
      · cases hnext

/-- The threads that are in a timed attempt. -/
def Pc.timed : Pc → Option Int
  | exchangeLoad d | exchangeCommit d _ | parked d | woken d => d
  | _ => none

/-- The next turn of a thread in a timed attempt whose deadline is over: it starts the
exchange, goes on to its commit, or returns. -/
def Leaves (s' : State) (t : ThreadId) (d : Int) : Pc → Prop
  | .woken _ => s'.pc t = .exchangeLoad (some d)
  | .exchangeLoad _ => ∃ old, s'.pc t = .exchangeCommit (some d) old
  | .exchangeCommit .. => s'.pc t = .holds ∨ s'.pc t = .outside
  | _ => False

theorem reply_exists (action : Action) (hloc : action.loc = v.loc)
    (ht : s.memory.hasThread t = true) (htouches : touches action.type = true)
    (horder : orderOk action = true) (hword : ∃ value, s.memory.Word v.loc value) :
    ∃ value m, s.memory.reply t action = some (value, m) := by
  obtain ⟨old, atomic, hatomic, hdtor, -⟩ := hword
  have hle := (Memory.hasThread_iff.mp ht).2
  have halive : atomicLife (s.memory.ticked t) action.loc = some .opens := by
    rw [hloc, atomicLife, Memory.ticked_atomics, hatomic, Option.map_some, hdtor]
    rfl
  obtain ⟨-, ⟨value, m⟩, hok⟩ | ⟨hdead, -⟩ :=
    @syncAction_cases (s.memory.ticked t) t action htouches horder
  · refine ⟨value, m, ?_⟩
    rw [Memory.reply, if_pos ht, Memory.syncCall, Memory.tick_eq hle]
    simp only [hok]
    rfl
  · exact absurd halive hdead

/-- A thread in a timed attempt whose deadline is over is on its way out. -/
theorem Built.leaves {d : Int} {waiter : ThreadId} {spurious : Bool} (h : Built v s)
    (hrun : s.MayRun t) (htimed : (s.pc t).timed = some d) (hover : d < s.now)
    (hparked : ∀ d, s.pc t ≠ .parked (some d)) :
    ∃ s', s.next v (.resume t waiter spurious) = some s' ∧ Leaves s' t d (s.pc t) := by
  have hword : s.pc t ≠ .outside → ∃ value, s.memory.Word v.loc value :=
    fun hpc => h.word (h.called t hpc)
  unfold State.next
  simp only [if_pos hrun]
  unfold State.resume
  cases hpc : s.pc t with
  | woken deadline =>
      rw [hpc] at htimed
      obtain rfl : deadline = some d := htimed
      exact ⟨_, rfl, goto_pc_self _ _ _⟩
  | exchangeLoad deadline =>
      rw [hpc] at htimed
      obtain rfl : deadline = some d := htimed
      obtain ⟨old, m, hreply⟩ := reply_exists
        (v.rmwLoad .acquire "atomic::exchange") rfl hrun.1 rfl rfl
        (hword (by rw [hpc]; nofun))
      simp only [hreply]
      exact ⟨_, rfl, old, goto_pc_self _ _ _⟩
  | exchangeCommit deadline old =>
      rw [hpc] at htimed
      obtain rfl : deadline = some d := htimed
      obtain ⟨value, m, hreply⟩ := reply_exists
        (v.rmwCommit locked .acquire "atomic::exchange") rfl hrun.1 rfl rfl
        (hword (by rw [hpc]; nofun))
      have hexpired : expired (some d) s.now = true := by simpa [expired] using hover
      simp only [hreply, Option.bind_some, hexpired, if_true]
      by_cases hold : old = locked
      · rw [if_pos hold]
        exact ⟨_, rfl, Or.inr (goto_pc_self _ _ _)⟩
      · rw [if_neg hold]
        exact ⟨_, rfl, Or.inl (goto_pc_self _ _ _)⟩
  | parked deadline =>
      rw [hpc] at htimed
      obtain rfl : deadline = some d := htimed
      exact absurd hpc (hparked d)
  | outside | holds | casLoad | casFence | casCommit | unlocking =>
      rw [hpc] at htimed
      cases htimed

/-- In runs in which no timed attempt is refused, none of them is ever parked, and all
of them return when their deadline is over; the first one that is refused is parked
without a timer. -/
theorem timed_attempts_bounded
    (h : Reach (State.next v) (fun s e => ¬ s.Parks e) State.start s) :
    s.Bounded ∧ (∀ u d, s.pc u ≠ .parked (some d)) ∧
      (∀ t d waiter spurious, s.MayRun t → (s.pc t).timed = some d → d < s.now →
        ∃ s', s.next v (.resume t waiter spurious) = some s' ∧ Leaves s' t d (s.pc t)) ∧
      ∀ e s', s.next v e = some s' → (s'.Bounded ↔ ¬ s.Parks e) := by
  have hparked : ∀ u d, s.pc u ≠ .parked (some d) := by
    refine @Reach.invariant _ _ _ _ _ (fun s => ∀ u d, s.pc u ≠ .parked (some d)) s h
      (fun _ _ => nofun) fun s e s' hs hC hnext u d hu => ?_
    exact hs u d ((next_parked hnext).resolve_right hC u d hu)
  have hbuilt : Built v s := h.invariant Built.start fun _ _ _ hs _ hnext => hs.next hnext
  refine ⟨fun u d hu => absurd hu (hparked u d), hparked,
    fun t d _ _ hrun htimed hover => hbuilt.leaves hrun htimed hover (hparked t),
    fun e s' hnext => ⟨fun hbounded hparks => ?_, fun hparks u d hu => ?_⟩⟩
  · obtain ⟨u, d, hu, htimer⟩ := parked_of_parks hparks hnext
    have harmed := hbounded u d hu
    rw [htimer] at harmed
    cases harmed
  · exact absurd ((next_parked hnext).resolve_right hparks u d hu) (hparked u d)

/-- A word of a `SyncVar`. -/
def exampleVar : SyncVar := ⟨16, ⟨"main.cpp", "main", 1⟩⟩

/-- The mutex is free, so the attempt gets it. -/
theorem timed_attempts_bounded_free :
    ∃ s, Reach (State.next exampleVar) (fun s e => ¬ s.Parks e) State.start s ∧
      s.pc 1 = .holds ∧ s.Bounded := by
  obtain ⟨s, hreach, hpc⟩ := @exists_reach _ _ (State.next exampleVar)
    (fun s e => ¬ s.Parks e) State.start _
    [.init 1, .tryLockFor 1 5, .resume 1 0 false, .resume 1 0 false]
    (fun s => s.pc 1 = .holds) _ (by decide)
  exact ⟨s, hreach, hpc, (timed_attempts_bounded hreach).1⟩

/-- The owner never unlocks: the attempt is parked, and nothing will wake it at its
deadline. -/
theorem timed_attempt_unbounded :
    ¬ ∀ s, Reach (State.next exampleVar) (fun _ _ => True) State.start s → s.Bounded := by
  intro hclaim
  obtain ⟨s, hreach, hpc, htimer⟩ := @exists_reach _ _ (State.next exampleVar)
    (fun _ _ => True) State.start _
    [.init 1, .user (.spawn 1 2), .lock 1, .resume 1 0 false, .resume 1 0 false,
     .tryLockFor 2 5, .resume 2 0 false, .resume 2 0 false]
    (fun s => s.pc 2 = .parked (some 5) ∧ s.timer 2 = none) _ (by decide)
  have harmed := hclaim s hreach 2 5 hpc
  rw [htimer] at harmed
  cases harmed

end TimedMutex

end TwistSim
