/-
`FaultyCondVar` with one external mutex, under every interleaving of waits and
notifications.  A futex wait ends for no reason at any time, and a timeout passes at
any time; a wake is never lost.
-/
import TwistSim.FaultRandom
import TwistSim.Runs
import Mathlib.Algebra.Group.Nat.Defs

namespace TwistSim

namespace FaultyCondVar

open FaultRandom

inductive CvStatus where
  | noTimeout | timeout
  deriving DecidableEq, Repr

/-- A `Waiter` on the stack of `WaitImpl`.  How often it was linked and unlinked is
counted, it is not alive any more once `WaitImpl` has returned, and what the wait
returned is kept. -/
structure Waiter where
  owner : Nat
  fired : Bool
  links : Nat
  unlinks : Nat
  alive : Bool
  result : Option CvStatus
  deriving DecidableEq, Repr

namespace Waiter

def fresh (owner : Nat) : Waiter := ⟨owner, false, 0, 0, true, none⟩

def link (n : Waiter) : Waiter := { n with links := n.links + 1 }

def unlink (n : Waiter) : Waiter := { n with unlinks := n.unlinks + 1 }

/-- The store of `OneShotEvent::Fire`. -/
def fire (n : Waiter) : Waiter := { n with fired := true }

def drop (n : Waiter) : Waiter := { n with alive := false }

def conclude (n : Waiter) (woken : Bool) : Waiter :=
  { n with result := some (if woken then .noTimeout else .timeout) }

end Waiter

/-- A call of `notify_one` or `notify_all`: is the external mutex held by the caller,
and which waiters are to be woken. -/
structure Job where
  held : Bool
  targets : List Nat
  deriving DecidableEq, Repr

/-- Where a thread is; a waiter is named by its number.  The timeout of a wait is in
milliseconds, `none` for an untimed one. -/
inductive Pc where
  /-- In the user's code, without the external mutex and with it. -/
  | outside
  | holding
  /-- In the `lock()` of the user. -/
  | acquiring
  /-- In `WaitImpl`, at the constructor of `waiters_lock`. -/
  | entering (timeout : Option Int)
  /-- At `lock.unlock()`. -/
  | releasing (timeout : Option Int)
  | pushing (timeout : Option Int)
  /-- At `waiters_lock.unlock()`. -/
  | leaving (n : Nat) (timeout : Option Int)
  /-- In `futex::Wait` or `futex::WaitTimed`, before the system call. -/
  | waiting (n : Nat) (timeout : Option Int)
  | asleep (n : Nat) (timeout : Option Int)
  /-- At the load. -/
  | checking (n : Nat) (timeout : Option Int)
  /-- At `now >= deadline`. -/
  | timing (n : Nat) (timeout : Option Int)
  /-- At `waiters_lock.lock()`. -/
  | relocking (n : Nat) (woken : Bool)
  | unlinking (n : Nat) (woken : Bool)
  | unlocking (n : Nat) (woken : Bool)
  /-- At `lock.lock()`. -/
  | reacquiring (n : Nat) (woken : Bool)
  /-- In `FaultyWaitTimed` again. -/
  | resumed (n : Nat) (woken : Bool)
  | yielding (n : Nat) (woken : Bool)
  | contending (n : Nat) (woken : Bool)
  | returning (n : Nat) (woken : Bool)
  /-- At the constructor of `waiters_lock`. -/
  | notifying (all held : Bool)
  /-- Before the list is looked at. -/
  | choosing (all held : Bool)
  /-- At the store to `fired_` of a waiter, with others left to be woken. -/
  | firing (job : Job) (n : Nat) (rest : List Nat)
  /-- At `WakeOne`. -/
  | waking (job : Job) (n : Nat) (rest : List Nat)
  /-- At the end of the critical section. -/
  | finishing (job : Job)
  deriving DecidableEq, Repr

/-- What a thread has to do with a waiter. -/
inductive Role where
  /-- The waiter of its own wait, which may be linked. -/
  | waits
  /-- Its own, after it was made sure that it is not linked. -/
  | leaves
  /-- Its own, which is not alive any more. -/
  | returns
  /-- To be fired. -/
  | fires
  deriving DecidableEq, Repr

namespace Pc

/-- Holds the external mutex. -/
def holds : Pc → Bool
  | holding | entering _ | releasing _ | resumed .. | yielding .. | returning .. => true
  | notifying _ held | choosing _ held => held
  | firing job _ _ | waking job _ _ | finishing job => job.held
  | _ => false

/-- Holds `waiters_mutex_`. -/
def locks : Pc → Bool
  | releasing _ | pushing _ | leaving .. | unlinking .. | unlocking .. | choosing ..
  | firing .. | waking .. | finishing _ => true
  | _ => false

def near : Pc → Role → Nat → Prop
  | leaving n _, r, m | waiting n _, r, m | asleep n _, r, m | checking n _, r, m
  | timing n _, r, m | relocking n _, r, m | unlinking n _, r, m => r = .waits ∧ m = n
  | unlocking n _, r, m | reacquiring n _, r, m => r = .leaves ∧ m = n
  | resumed n _, r, m | yielding n _, r, m | contending n _, r, m
  | returning n _, r, m => r = .returns ∧ m = n
  | firing _ n rest, r, m => r = .fires ∧ m ∈ n :: rest
  | waking _ _ rest, r, m => r = .fires ∧ m ∈ rest
  | _, _, _ => False

/-- The wait is going to return `timeout`. -/
def late : Pc → Nat → Prop
  | unlocking n woken, m | reacquiring n woken, m | resumed n woken, m
  | yielding n woken, m | contending n woken, m | returning n woken, m =>
      woken = false ∧ m = n
  | _, _ => False

/-- The waiter of a wait that has timed out, under `waiters_mutex_`. -/
def timedOut : Pc → Option Nat
  | unlinking n false => some n
  | _ => none

/-- Within so many steps of its own, a wait that finds `fired_` set returns. -/
def left : Pc → Nat
  | leaving .. | timing .. => 11
  | waiting .. | asleep .. => 10
  | checking .. => 9
  | relocking .. => 8
  | unlinking .. => 7
  | unlocking .. => 6
  | reacquiring .. => 5
  | resumed .. => 4
  | yielding .. => 3
  | contending .. => 2
  | returning .. => 1
  | _ => 0

/-- The call of a notifier, once it has chosen. -/
def job : Pc → Option Job
  | firing job _ _ | waking job _ _ | finishing job => some job
  | _ => none

/-- The waiters that the notifier has not woken. -/
def todo : Pc → List Nat
  | firing _ n rest | waking _ n rest => n :: rest
  | _ => []

end Pc

structure State where
  pc : Nat → Pc
  /-- `impl_` of the external mutex. -/
  mutex : Option Nat
  waitersMutex : Option Nat
  waiters : List Nat
  node : Nat → Waiter
  /-- So many waiters have been constructed. -/
  nodes : Nat
  waitCallCount : Nat
  /-- What each `notify_one` found in the list, and which waiter it unlinked. -/
  ones : List (List Nat × Option Nat)
  /-- What each `notify_all` found in the list. -/
  alls : List (List Nat)
  /-- The waiters that the calls that are over had to wake. -/
  served : List Nat

/-- The user calls a method, and a thread in a method goes on: has the deadline passed,
and which numbers are drawn? -/
inductive Event where
  | lock (t : Nat)
  | unlock (t : Nat)
  | wait (t : Nat) (timeout : Option Int)
  | notifyOne (t : Nat)
  | notifyAll (t : Nat)
  | resume (t : Nat) (expired : Bool) (draws : Nat → Nat)

namespace State

def start : State where
  pc _ := .outside
  mutex := none
  waitersMutex := none
  waiters := []
  node _ := .fresh 0
  nodes := 0
  waitCallCount := 0
  ones := []
  alls := []
  served := []

def goto (s : State) (t : Nat) (pc : Pc) : State :=
  { s with pc := Function.update s.pc t pc }

def setNode (s : State) (n : Nat) (node : Waiter) : State :=
  { s with node := Function.update s.node n node }

/-- `FUTEX_WAKE` at the address of the waiter: its owner is on the queue of the futex,
or nobody is. -/
def rouse (s : State) (n : Nat) : State :=
  match s.pc (s.node n).owner with
  | .asleep m timeout => if m = n then s.goto (s.node n).owner (.checking n timeout) else s
  | _ => s

/-- The wakes that are left. -/
def proceed (job : Job) : List Nat → Pc
  | [] => .finishing job
  | n :: rest => .firing job n rest

def userCode (held : Bool) : Pc := if held then .holding else .outside

def resume (s : State) (t : Nat) (expired : Bool) (draws : Nat → Nat) : Option State :=
  match s.pc t with
  | .outside | .holding => none
  | .acquiring =>
      if s.mutex = none then some { s.goto t .holding with mutex := some t } else none
  | .entering timeout =>
      if s.waitersMutex = none then
        some { s.goto t (.releasing timeout) with waitersMutex := some t }
      else none
  | .releasing timeout => some { s.goto t (.pushing timeout) with mutex := none }
  | .pushing timeout =>
      some { (s.goto t (.leaving s.nodes timeout)).setNode s.nodes
          (Waiter.fresh t).link with
        waiters := s.waiters ++ [s.nodes]
        nodes := s.nodes + 1 }
  | .leaving n timeout =>
      some { s.goto t (.waiting n timeout) with waitersMutex := none }
  | .waiting n timeout =>
      -- Zero timeout
      if timeout = some 0 then some (s.goto t (.relocking n false))
      else if (s.node n).fired then some (s.goto t (.checking n timeout))
      else some (s.goto t (.asleep n timeout))
  | .asleep n timeout => some (s.goto t (.checking n timeout))
  | .checking n none =>
      if (s.node n).fired then some (s.goto t (.reacquiring n true))
      else some (s.goto t (.waiting n none))
  | .checking n (some timeout) =>
      if (s.node n).fired then some (s.goto t (.relocking n true))
      else some (s.goto t (.timing n (some timeout)))
  | .timing n timeout =>
      if expired then some (s.goto t (.relocking n false))
      else some (s.goto t (.waiting n timeout))
  | .relocking n woken =>
      if s.waitersMutex = none then
        some { s.goto t (.unlinking n woken) with waitersMutex := some t }
      else none
  | .unlinking n woken =>
      -- Try to unlink self on timeout
      if n ∈ s.waiters then
        some { (s.goto t (.unlocking n woken)).setNode n (s.node n).unlink with
          waiters := s.waiters.erase n }
      else some (s.goto t (.unlocking n woken))
  | .unlocking n woken =>
      some { s.goto t (.reacquiring n woken) with waitersMutex := none }
  | .reacquiring n woken =>
      if s.mutex = none then
        some { (s.goto t (.resumed n woken)).setNode n (s.node n).drop with
          mutex := some t }
      else none
  | .resumed n woken =>
      if s.waitCallCount % 5 = 0 then some (s.goto t (.yielding n woken))
      else some (s.goto t (.returning n woken))
  | .yielding n woken => some { s.goto t (.contending n woken) with mutex := none }
  | .contending n woken =>
      if s.mutex = none then
        some { s.goto t (.returning n woken) with mutex := some t }
      else none
  | .returning n woken => some ((s.goto t .holding).setNode n ((s.node n).conclude woken))
  | .notifying all held =>
      if s.waitersMutex = none then
        some { s.goto t (.choosing all held) with waitersMutex := some t }
      else none
  | .choosing false held =>
      match unlinkRandomItem s.waiters (draws 0) with
      | none =>
          some { s.goto t (.finishing ⟨held, []⟩) with
            ones := s.ones ++ [(s.waiters, none)] }
      | some (n, rest) =>
          some { (s.goto t (.firing ⟨held, [n]⟩ n [])).setNode n (s.node n).unlink with
            waiters := rest
            ones := s.ones ++ [(s.waiters, some n)] }
  | .choosing true held =>
      let (order, rest) := shuffleToVector draws s.waiters
      some { s.goto t (proceed ⟨held, s.waiters⟩ order) with
        node := fun n => if n ∈ s.waiters then (s.node n).unlink else s.node n
        waiters := rest
        alls := s.alls ++ [s.waiters] }
  | .firing job n rest =>
      some ((s.goto t (.waking job n rest)).setNode n (s.node n).fire)
  | .waking job n rest => some ((s.rouse n).goto t (proceed job rest))
  | .finishing job =>
      some { s.goto t (userCode job.held) with
        waitersMutex := none
        served := s.served ++ job.targets }

def next (s : State) : Event → Option State
  | .lock t => if s.pc t = .outside then some (s.goto t .acquiring) else none
  | .unlock t =>
      if s.pc t = .holding then some { s.goto t .outside with mutex := none } else none
  | .wait t timeout =>
      if s.pc t = .holding then
        let count := (s.waitCallCount + 1) % 2 ^ 64
        -- Spurious wakeup
        some { s.goto t (if count % 13 = 0 then .holding else .entering timeout) with
          waitCallCount := count }
      else none
  | .notifyOne t =>
      if s.pc t = .outside ∨ s.pc t = .holding then
        some (s.goto t (.notifying false (s.pc t).holds))
      else none
  | .notifyAll t =>
      if s.pc t = .outside ∨ s.pc t = .holding then
        some (s.goto t (.notifying true (s.pc t).holds))
      else none
  | .resume t expired draws => s.resume t expired draws

/-- Some `notify_one` has unlinked the waiter. -/
def Notified (s : State) (n : Nat) : Prop := ∃ call ∈ s.ones, call.2 = some n

instance (s : State) (n : Nat) : Decidable (s.Notified n) :=
  inferInstanceAs (Decidable (∃ call ∈ s.ones, call.2 = some n))

/-- The waiters that the next step of a thread in a method reads or writes.  `WakeOne`
has only the address. -/
def touches (s : State) (t : Nat) : List Nat :=
  match s.pc t with
  | .pushing _ | .choosing .. => s.waiters
  | .waiting n _ | .checking n _ | .reacquiring n _ | .firing _ n _ => [n]
  | .unlinking n _ => n :: s.waiters
  | _ => []

end State

/-- No wait that has timed out finds that `notify_one` has unlinked its waiter. -/
def InTime (s : State) : Event → Prop
  | .resume t _ _ => ∀ n ∈ (s.pc t).timedOut, ¬ s.Notified n
  | _ => True

instance (s : State) (e : Event) : Decidable (InTime s e) :=
  match e with
  | .resume t _ _ => inferInstanceAs (Decidable (∀ n ∈ (s.pc t).timedOut, ¬ s.Notified n))
  | .lock _ | .unlock _ | .wait .. | .notifyOne _ | .notifyAll _ => isTrue trivial

abbrev Reached : State → Prop := Reach State.next InTime State.start

/-! ### What a step does -/

/-- A thread takes a mutex, releases it, or leaves it alone. -/
inductive Passes (t : Nat) : Bool → Bool → Option Nat → Option Nat → Prop where
  | keep (b : Bool) (mutex : Option Nat) : Passes t b b mutex mutex
  | take {mutex : Option Nat} (hfree : mutex = none) : Passes t false true mutex (some t)
  | release (mutex : Option Nat) : Passes t true false mutex none

/-- The thread, which is waking nobody, goes on with the same waiters to care for, and
goes to sleep only on a waiter that has not fired. -/
structure Moves (s : State) (pc₀ pc : Pc) : Prop where
  near : pc.near = pc₀.near
  late : pc.late = pc₀.late
  idle : pc₀.job = none
  idle' : pc.job = none
  asleep : ∀ n timeout, pc = .asleep n timeout → (s.node n).fired = false

/-- The steps that are in time. -/
inductive Step (s : State) : State → Prop where
  | move {t : Nat} {pc₀ pc : Pc} {mutex waitersMutex : Option Nat} {count : Nat}
      (hpc : s.pc t = pc₀)
      (hmove : Moves s pc₀ pc) (hmutex : Passes t pc₀.holds pc.holds s.mutex mutex)
      (hwaiters : Passes t pc₀.locks pc.locks s.waitersMutex waitersMutex) :
      Step s { s.goto t pc with
        mutex := mutex, waitersMutex := waitersMutex, waitCallCount := count }
  | push {t : Nat} {timeout : Option Int} (hpc : s.pc t = .pushing timeout) :
      Step s
        { (s.goto t (.leaving s.nodes timeout)).setNode s.nodes (Waiter.fresh t).link with
          waiters := s.waiters ++ [s.nodes]
          nodes := s.nodes + 1 }
  | hear {t n : Nat} (hpc : s.pc t = .checking n none)
      (hfired : (s.node n).fired = true) : Step s (s.goto t (.reacquiring n true))
  | withdraw {t n : Nat} {woken : Bool} (hpc : s.pc t = .unlinking n woken)
      (hlinked : n ∈ s.waiters) :
      Step s
        { (s.goto t (.unlocking n woken)).setNode n (s.node n).unlink with
          waiters := s.waiters.erase n }
  | depart {t n : Nat} {woken : Bool} (hpc : s.pc t = .unlinking n woken)
      (hlinked : n ∉ s.waiters) (htold : woken = false → ¬ s.Notified n) :
      Step s (s.goto t (.unlocking n woken))
  | reacquire {t n : Nat} {woken : Bool} (hpc : s.pc t = .reacquiring n woken)
      (hfree : s.mutex = none) :
      Step s
        { (s.goto t (.resumed n woken)).setNode n (s.node n).drop with mutex := some t }
  | conclude {t n : Nat} {woken : Bool} (hpc : s.pc t = .returning n woken) :
      Step s ((s.goto t .holding).setNode n ((s.node n).conclude woken))
  | nobody {t : Nat} {held : Bool} (hpc : s.pc t = .choosing false held)
      (hempty : s.waiters = []) :
      Step s { s.goto t (.finishing ⟨held, []⟩) with
        ones := s.ones ++ [(s.waiters, none)] }
  | pick {t n : Nat} {held : Bool} {rest : List Nat} (hpc : s.pc t = .choosing false held)
      (hperm : (n :: rest).Perm s.waiters) :
      Step s
        { (s.goto t (.firing ⟨held, [n]⟩ n [])).setNode n (s.node n).unlink with
          waiters := rest
          ones := s.ones ++ [(s.waiters, some n)] }
  | pickAll {t : Nat} {held : Bool} {order : List Nat} (hpc : s.pc t = .choosing true held)
      (hperm : order.Perm s.waiters) :
      Step s
        { s.goto t (State.proceed ⟨held, s.waiters⟩ order) with
          node := fun n => if n ∈ s.waiters then (s.node n).unlink else s.node n
          waiters := []
          alls := s.alls ++ [s.waiters] }
  | fire {t n : Nat} {job : Job} {rest : List Nat} (hpc : s.pc t = .firing job n rest) :
      Step s ((s.goto t (.waking job n rest)).setNode n (s.node n).fire)
  | wake {t n : Nat} {job : Job} {rest : List Nat} (hpc : s.pc t = .waking job n rest) :
      Step s ((s.rouse n).goto t (State.proceed job rest))
  | finish {t : Nat} {job : Job} (hpc : s.pc t = .finishing job) :
      Step s { s.goto t (State.userCode job.held) with
        waitersMutex := none
        served := s.served ++ job.targets }

section Inversion

variable {s s' : State} {t : Nat}

theorem step_of_resume {expired : Bool} {draws : Nat → Nat}
    (hintime : InTime s (.resume t expired draws))
    (h : s.resume t expired draws = some s') : Step s s' := by
  unfold State.resume at h
  split at h
  case h_1 | h_2 => cases h
  case h_3 hpc =>
      obtain ⟨hfree, heq⟩ := Option.ite_none_right_eq_some.mp h
      cases heq
      exact .move hpc ⟨rfl, rfl, rfl, rfl, nofun⟩ (.take hfree) (.keep _ _)
  case h_4 timeout hpc =>
      obtain ⟨hfree, heq⟩ := Option.ite_none_right_eq_some.mp h
      cases heq
      exact .move hpc ⟨rfl, rfl, rfl, rfl, nofun⟩ (.keep _ _) (.take hfree)
  case h_5 timeout hpc =>
      cases h
      exact .move hpc ⟨rfl, rfl, rfl, rfl, nofun⟩ (.release _) (.keep _ _)
  case h_6 timeout hpc =>
      cases h
      exact .push hpc
  case h_7 n timeout hpc =>
      cases h
      exact .move hpc ⟨rfl, rfl, rfl, rfl, nofun⟩ (.keep _ _) (.release _)
  case h_8 n timeout hpc =>
      split at h
      · cases h
        exact .move hpc ⟨rfl, rfl, rfl, rfl, nofun⟩ (.keep _ _) (.keep _ _)
      · split at h
        · cases h
          exact .move hpc ⟨rfl, rfl, rfl, rfl, nofun⟩ (.keep _ _) (.keep _ _)
        · rename_i hfired
          cases h
          refine .move hpc ⟨rfl, rfl, rfl, rfl, ?_⟩ (.keep _ _) (.keep _ _)
          rintro m timeout' heq
          cases heq
          exact Bool.eq_false_of_not_eq_true hfired
  case h_9 n timeout hpc =>
      cases h
      exact .move hpc ⟨rfl, rfl, rfl, rfl, nofun⟩ (.keep _ _) (.keep _ _)
  case h_10 n hpc =>
      split at h
      · cases h
        exact .hear hpc ‹_›
      · cases h
        exact .move hpc ⟨rfl, rfl, rfl, rfl, nofun⟩ (.keep _ _) (.keep _ _)
  case h_11 n timeout hpc =>
      split at h
      · cases h
        exact .move hpc ⟨rfl, rfl, rfl, rfl, nofun⟩ (.keep _ _) (.keep _ _)
      · cases h
        exact .move hpc ⟨rfl, rfl, rfl, rfl, nofun⟩ (.keep _ _) (.keep _ _)
  case h_12 n timeout hpc =>
      split at h
      · cases h
        exact .move hpc ⟨rfl, rfl, rfl, rfl, nofun⟩ (.keep _ _) (.keep _ _)
      · cases h
        exact .move hpc ⟨rfl, rfl, rfl, rfl, nofun⟩ (.keep _ _) (.keep _ _)
  case h_13 n woken hpc =>
      obtain ⟨hfree, heq⟩ := Option.ite_none_right_eq_some.mp h
      cases heq
      exact .move hpc ⟨rfl, rfl, rfl, rfl, nofun⟩ (.keep _ _) (.take hfree)
  case h_14 n woken hpc =>
      split at h
      · cases h
        exact .withdraw hpc ‹_›
      · cases h
        refine .depart hpc ‹_› ?_
        rintro rfl
        exact hintime n (by rw [hpc]; rfl)
  case h_15 n woken hpc =>
      cases h
      exact .move hpc ⟨rfl, rfl, rfl, rfl, nofun⟩ (.keep _ _) (.release _)
  case h_16 n woken hpc =>
      obtain ⟨hfree, heq⟩ := Option.ite_none_right_eq_some.mp h
      cases heq
      exact .reacquire hpc hfree
  case h_17 n woken hpc =>
      split at h
      · cases h
        exact .move hpc ⟨rfl, rfl, rfl, rfl, nofun⟩ (.keep _ _) (.keep _ _)
      · cases h
        exact .move hpc ⟨rfl, rfl, rfl, rfl, nofun⟩ (.keep _ _) (.keep _ _)
  case h_18 n woken hpc =>
      cases h
      exact .move hpc ⟨rfl, rfl, rfl, rfl, nofun⟩ (.release _) (.keep _ _)
  case h_19 n woken hpc =>
      obtain ⟨hfree, heq⟩ := Option.ite_none_right_eq_some.mp h
      cases heq
      exact .move hpc ⟨rfl, rfl, rfl, rfl, nofun⟩ (.take hfree) (.keep _ _)
  case h_20 n woken hpc =>
      cases h
      exact .conclude hpc
  case h_21 all held hpc =>
      obtain ⟨hfree, heq⟩ := Option.ite_none_right_eq_some.mp h
      cases heq
      exact .move hpc ⟨rfl, rfl, rfl, rfl, nofun⟩ (.keep _ _) (.take hfree)
  case h_22 held hpc =>
      split at h
      · rename_i hnone
        cases h
        exact .nobody hpc (unlinkRandomItem_eq_none hnone)
      · rename_i n rest hsome
        cases h
        exact .pick hpc (unlinkRandomItem_perm hsome)
  case h_23 held hpc =>
      cases h
      exact .pickAll hpc (shuffleToVector_perm draws s.waiters)
  case h_24 job n rest hpc =>
      cases h
      exact .fire hpc
  case h_25 job n rest hpc =>
      cases h
      exact .wake hpc
  case h_26 job hpc =>
      cases h
      exact .finish hpc

theorem step_notifying {all : Bool} (hpc : s.pc t = .outside ∨ s.pc t = .holding) :
    Step s (s.goto t (.notifying all (s.pc t).holds)) := by
  rcases hpc with hpc | hpc <;> rw [hpc] <;>
    exact .move hpc ⟨rfl, rfl, rfl, rfl, nofun⟩ (.keep _ _) (.keep _ _)

theorem step_of_next {e : Event} (hintime : InTime s e) (h : s.next e = some s') :
    Step s s' := by
  cases e with
  | resume t expired draws => exact step_of_resume hintime h
  | lock t =>
      obtain ⟨hpc, heq⟩ := Option.ite_none_right_eq_some.mp h
      cases heq
      exact .move hpc ⟨rfl, rfl, rfl, rfl, nofun⟩ (.keep _ _) (.keep _ _)
  | unlock t =>
      obtain ⟨hpc, heq⟩ := Option.ite_none_right_eq_some.mp h
      cases heq
      exact .move hpc ⟨rfl, rfl, rfl, rfl, nofun⟩ (.release _) (.keep _ _)
  | wait t timeout =>
      obtain ⟨hpc, heq⟩ := Option.ite_none_right_eq_some.mp h
      cases heq
      split
      · exact .move hpc ⟨rfl, rfl, rfl, rfl, nofun⟩ (.keep _ _) (.keep _ _)
      · exact .move hpc ⟨rfl, rfl, rfl, rfl, nofun⟩ (.keep _ _) (.keep _ _)
  | notifyOne t | notifyAll t =>
      obtain ⟨hpc, heq⟩ := Option.ite_none_right_eq_some.mp h
      cases heq
      exact step_notifying hpc

end Inversion

end FaultyCondVar

end TwistSim
