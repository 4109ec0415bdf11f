/-
`LockFreeAdversary` under every interleaving: threads enter, are suspended by faults,
are resumed by the progress of others, and exit.  Atomic operations are single steps,
also those that are executed under `mutex_`.
-/
import TwistSim.FaultRandom
import TwistSim.Runs
import Mathlib.Algebra.Group.Int.Defs
import Mathlib.Algebra.Group.Nat.Defs

namespace TwistSim

namespace LockFreeAdversary

open FaultRandom

/-- The `RandomEvent`s. -/
inductive Ticker where
  | suspend | resume | yield
  deriving DecidableEq, Repr

structure Params where
  suspendedThreadLimit : Nat
  freq : Ticker → Nat

/-- A `WaitNode` on the stack of the thread that constructs it.  How often it was
linked, unlinked and `Set` is counted; it is not alive any more once `Await` has
returned, or when it goes unused. -/
structure WaitNode where
  owner : Nat
  ready : Bool
  links : Nat
  unlinks : Nat
  sets : Nat
  alive : Bool
  deriving DecidableEq, Repr

namespace WaitNode

def fresh (owner : Nat) : WaitNode := ⟨owner, false, 0, 0, 0, true⟩

def link (n : WaitNode) : WaitNode := { n with links := n.links + 1 }

def unlink (n : WaitNode) : WaitNode := { n with unlinks := n.unlinks + 1 }

/-- `OneShotEvent::Set`. -/
def set (n : WaitNode) : WaitNode := { n with ready := true, sets := n.sets + 1 }

def drop (n : WaitNode) : WaitNode := { n with alive := false }

end WaitNode

/-- Where a thread is in the code of the adversary; a node is named by its number. -/
inductive Pc where
  | outside
  /-- Between `Enter` and `Exit`, in the user's code. -/
  | running
  | exited
  /-- At the `fetch_sub` of `RandomEvent::Test`. -/
  | testing (e : Ticker)
  /-- At the store of `RandomEvent::Reset`. -/
  | resetting (e : Ticker)
  | countingYield
  /-- At the beginning of `SuspendThisThread`. -/
  | suspending
  /-- Before the critical section. -/
  | locking (n : Nat)
  /-- Under `mutex_`. -/
  | checkingLimit (n : Nat)
  | checkingCount (n : Nat)
  | checkingThreads (n count : Nat)
  | checkingSuspended (n total : Nat)
  | adding (n : Nat)
  /-- In `Await`, about to look at `ready_`. -/
  | awaiting (n : Nat)
  /-- In `Await`, on `ready_cv_`. -/
  | asleep (n : Nat)
  /-- `Await` has returned. -/
  | resumed
  | measuring
  /-- At the beginning of `ResumeThread`. -/
  | resuming (exits : Bool)
  /-- Under `mutex_`, before `Set`. -/
  | waking (exits : Bool) (n : Nat)
  deriving DecidableEq, Repr

namespace Pc

/-- Counted in `thread_count_`. -/
def entered : Pc → Bool
  | outside | exited | resuming true | waking true _ => false
  | _ => true

/-- Counted in `thread_count_`, or about to resume a thread on exit. -/
def present : Pc → Bool
  | outside | exited | waking true _ => false
  | _ => true

/-- Counted in `suspended_thread_count_`. -/
def suspended : Pc → Bool
  | awaiting _ | asleep _ | resumed => true
  | _ => false

/-- Holds `mutex_`. -/
def locks : Pc → Bool
  | checkingLimit _ | checkingCount _ | checkingThreads .. | checkingSuspended ..
  | adding _ | waking .. => true
  | _ => false

/-- What a thread in the method has to do with a node. -/
inductive Role where
  /-- The thread constructed the node and has not added it. -/
  | prepares
  | awaits
  /-- The thread unlinked the node and is about to `Set` it. -/
  | wakes
  deriving DecidableEq, Repr

def place : Pc → Option (Role × Nat)
  | locking n | checkingLimit n | checkingCount n | checkingThreads n _
  | checkingSuspended n _ | adding n => some (.prepares, n)
  | awaiting n | asleep n => some (.awaits, n)
  | waking _ n => some (.wakes, n)
  | _ => none

/-- Entered, and away from nodes and from `mutex_`. -/
def plain : Pc → Bool
  | running | testing _ | resetting _ | countingYield | suspending | measuring
  | resuming false => true
  | _ => false

end Pc

structure State where
  pc : Nat → Pc
  /-- `park_` of each thread. -/
  park : Nat → Int
  faultCount : Nat
  threadCount : Nat
  suspendedThreadCount : Nat
  /-- `left_` of each event, an `int`. -/
  left : Ticker → Int
  yieldCount : Nat
  mutex : Option Nat
  suspendedThreads : List Nat
  node : Nat → WaitNode
  /-- So many nodes have been constructed. -/
  nodes : Nat

/-- The methods are called, and a thread in a method goes on, with a number drawn. -/
inductive Event where
  | enter (t : Nat)
  | enablePark (t : Nat)
  | disablePark (t : Nat)
  | fault (t : Nat)
  | reportProgress (t : Nat)
  | exit (t : Nat)
  | resume (t : Nat) (draw : Nat)
  deriving DecidableEq, Repr

def toInt32 (x : Int) : Int := Int.bmod x (2 ^ 32)

/-- Where a thread goes when the event has fired, or has not. -/
def onTest : Ticker → Bool → Pc
  | .suspend, true => .suspending
  | .suspend, false => .testing .yield
  | .resume, true => .resuming false
  | .resume, false => .running
  | .yield, true => .countingYield
  | .yield, false => .running

/-- After `ResumeThread`. -/
def afterResume (exits : Bool) : Pc := if exits then .exited else .running

namespace State

def start : State where
  pc _ := .outside
  park _ := 0
  faultCount := 0
  threadCount := 0
  suspendedThreadCount := 0
  left _ := 1
  yieldCount := 0
  mutex := none
  suspendedThreads := []
  node _ := .fresh 0
  nodes := 0

def goto (s : State) (t : Nat) (pc : Pc) : State :=
  { s with pc := Function.update s.pc t pc }

def setNode (s : State) (n : Nat) (node : WaitNode) : State :=
  { s with node := Function.update s.node n node }

/-- The thread returns from `SuspendThisThread` without having been suspended. -/
def refuse (s : State) (t n : Nat) : State :=
  { (s.goto t .running).setNode n (s.node n).drop with mutex := none }

def resume (p : Params) (s : State) (t draw : Nat) : Option State :=
  match s.pc t with
  | .testing e =>
      some { s.goto t (if s.left e = 1 then .resetting e else onTest e false) with
        left := Function.update s.left e (toInt32 (s.left e - 1)) }
  | .resetting e =>
      some { s.goto t (onTest e true) with
        left := Function.update s.left e
          (toInt32 (randomUIntegerIn 1 (p.freq e) draw)) }
  | .countingYield =>
      some { s.goto t .running with yieldCount := (s.yieldCount + 1) % 2 ^ 64 }
  | .suspending =>
      if 0 < s.park t then
        some { (s.goto t (.locking s.nodes)).setNode s.nodes (.fresh t) with
          nodes := s.nodes + 1 }
      else some (s.goto t .running)
  | .locking n =>
      if s.mutex = none then some { s.goto t (.checkingLimit n) with mutex := some t }
      else none
  | .checkingLimit n =>
      -- Too many suspended threads?
      if p.suspendedThreadLimit ≤ s.suspendedThreadCount then some (s.refuse t n)
      else some (s.goto t (.checkingCount n))
  | .checkingCount n =>
      -- The operands of `>=` are evaluated in any order.
      if draw % 2 = 0 then some (s.goto t (.checkingThreads n s.suspendedThreadCount))
      else some (s.goto t (.checkingSuspended n s.threadCount))
  | .checkingThreads n count =>
      -- At least one thread should run
      if s.threadCount ≤ count + 1 then some (s.refuse t n)
      else some (s.goto t (.adding n))
  | .checkingSuspended n total =>
      if total ≤ s.suspendedThreadCount + 1 then some (s.refuse t n)
      else some (s.goto t (.adding n))
  | .adding n =>
      some { (s.goto t (.awaiting n)).setNode n (s.node n).link with
        suspendedThreads := s.suspendedThreads ++ [n]
        suspendedThreadCount := s.suspendedThreadCount + 1
        mutex := none }
  | .awaiting n =>
      if (s.node n).ready then some ((s.goto t .resumed).setNode n (s.node n).drop)
      else some (s.goto t (.asleep n))
  | .asleep n =>
      -- The wait may end without a notification.
      some (s.goto t (.awaiting n))
  | .resumed =>
      some { s.goto t .measuring with
        suspendedThreadCount := s.suspendedThreadCount - 1 }
  | .measuring => some (s.goto t .running)
  | .resuming exits =>
      if s.mutex = none then
        match unlinkRandomItem s.suspendedThreads draw with
        | none => some (s.goto t (afterResume exits))
        | some (n, rest) =>
            some { (s.goto t (.waking exits n)).setNode n (s.node n).unlink with
              suspendedThreads := rest
              mutex := some t }
      else none
  | .waking exits n =>
      some { (s.goto t (afterResume exits)).setNode n (s.node n).set with mutex := none }
  | .outside | .running | .exited => none

variable (p : Params) (threads : Nat)

def next (s : State) : Event → Option State
  | .enter t =>
      if 0 < t ∧ t ≤ threads ∧ s.pc t = .outside then
        some { s.goto t .running with threadCount := s.threadCount + 1 }
      else none
  | .enablePark t =>
      if s.pc t = .running then
        some { s with park := Function.update s.park t (s.park t + 1) }
      else none
  | .disablePark t =>
      if s.pc t = .running then
        some { s with park := Function.update s.park t (s.park t - 1) }
      else none
  | .fault t =>
      if s.pc t = .running then
        some { s.goto t (.testing .suspend) with
          faultCount := (s.faultCount + 1) % 2 ^ 64 }
      else none
  | .reportProgress t =>
      -- Wait-free on fast path, locking on slow path
      if s.pc t = .running then
        some (s.goto t (if 0 < s.suspendedThreadCount then .testing .resume else .running))
      else none
  | .exit t =>
      if s.pc t = .running then
        some { s.goto t (.resuming true) with threadCount := s.threadCount - 1 }
      else none
  | .resume t draw => s.resume p t draw

/-- The nodes that the next step of a thread in a method reads or writes. -/
def touches (s : State) (t : Nat) : List Nat :=
  match s.pc t with
  | .locking n | .checkingLimit n | .checkingCount n | .checkingThreads n _
  | .checkingSuspended n _ => [n]
  | .adding n => n :: s.suspendedThreads
  | .awaiting n | .asleep n => [n]
  | .resuming _ => s.suspendedThreads
  | .waking _ n => [n]
  | _ => []

/-- The thread is linked in `suspended_threads_`. -/
def Waiting (s : State) (t : Nat) : Prop :=
  ∃ n ∈ s.suspendedThreads, (s.node n).owner = t

end State

/-- The states that some run of `threads` threads can reach. -/
abbrev Reached (p : Params) (threads : Nat) : State → Prop :=
  Reach (State.next p threads) (fun _ _ => True) State.start

/-! ### What a step does -/

/-- The steps, up to what the numbers are for that nothing here depends on. -/
inductive Step (p : Params) (threads : Nat) (s : State) : State → Prop where
  | plain {t : Nat} {pc : Pc} (hfrom : (s.pc t).plain = true) (hto : pc.plain = true)
      (park : Nat → Int) (faults : Nat) (left : Ticker → Int) (yields : Nat) :
      Step p threads s { s.goto t pc with
        park := park, faultCount := faults, left := left, yieldCount := yields }
  | enter {t : Nat} (hpos : 0 < t) (hle : t ≤ threads) (hpc : s.pc t = .outside) :
      Step p threads s { s.goto t .running with threadCount := s.threadCount + 1 }
  | exit {t : Nat} (hpc : s.pc t = .running) :
      Step p threads s { s.goto t (.resuming true) with threadCount := s.threadCount - 1 }
  | construct {t : Nat} (hpc : s.pc t = .suspending) :
      Step p threads s
        { (s.goto t (.locking s.nodes)).setNode s.nodes (.fresh t) with
          nodes := s.nodes + 1 }
  | lock {t n : Nat} (hpc : s.pc t = .locking n) (hfree : s.mutex = none) :
      Step p threads s { s.goto t (.checkingLimit n) with mutex := some t }
  | belowLimit {t n : Nat} (hpc : s.pc t = .checkingLimit n)
      (hroom : s.suspendedThreadCount < p.suspendedThreadLimit) :
      Step p threads s (s.goto t (.checkingCount n))
  | refuse {t n : Nat} (hplace : (s.pc t).place = some (.prepares, n))
      (hlocks : (s.pc t).locks = true) : Step p threads s (s.refuse t n)
  | loadSuspended {t n : Nat} (hpc : s.pc t = .checkingCount n) :
      Step p threads s (s.goto t (.checkingThreads n s.suspendedThreadCount))
  | loadThreads {t n : Nat} (hpc : s.pc t = .checkingCount n) :
      Step p threads s (s.goto t (.checkingSuspended n s.threadCount))
  | spareThreads {t n count : Nat} (hpc : s.pc t = .checkingThreads n count)
      (hspare : count + 1 < s.threadCount) : Step p threads s (s.goto t (.adding n))
  | spareSuspended {t n total : Nat} (hpc : s.pc t = .checkingSuspended n total)
      (hspare : s.suspendedThreadCount + 1 < total) :
      Step p threads s (s.goto t (.adding n))
  | add {t n : Nat} (hpc : s.pc t = .adding n) :
      Step p threads s
        { (s.goto t (.awaiting n)).setNode n (s.node n).link with
          suspendedThreads := s.suspendedThreads ++ [n]
          suspendedThreadCount := s.suspendedThreadCount + 1
          mutex := none }
  | look {t n : Nat} {pc : Pc} (hfrom : (s.pc t).place = some (.awaits, n))
      (hto : pc.place = some (.awaits, n)) : Step p threads s (s.goto t pc)
  | wake {t n : Nat} (hpc : s.pc t = .awaiting n) (hready : (s.node n).ready = true) :
      Step p threads s ((s.goto t .resumed).setNode n (s.node n).drop)
  | leave {t : Nat} (hpc : s.pc t = .resumed) :
      Step p threads s { s.goto t .measuring with
        suspendedThreadCount := s.suspendedThreadCount - 1 }
  | nobody {t : Nat} (hpc : s.pc t = .resuming true) (hfree : s.mutex = none)
      (hempty : s.suspendedThreads = []) : Step p threads s (s.goto t .exited)
  | pick {t n : Nat} {exits : Bool} {rest : List Nat}
      (hpc : s.pc t = .resuming exits) (hfree : s.mutex = none)
      (hperm : (n :: rest).Perm s.suspendedThreads) :
      Step p threads s
        { (s.goto t (.waking exits n)).setNode n (s.node n).unlink with
          suspendedThreads := rest
          mutex := some t }
  | set {t n : Nat} {exits : Bool} (hpc : s.pc t = .waking exits n) :
      Step p threads s
        { (s.goto t (afterResume exits)).setNode n (s.node n).set with mutex := none }

section Inversion

variable {p : Params} {threads : Nat} {s s' : State}

theorem plain_onTest (e : Ticker) (fired : Bool) : (onTest e fired).plain = true := by
  cases e <;> cases fired <;> rfl

theorem Step.of_plain {t : Nat} {pc : Pc} (hfrom : (s.pc t).plain = true)
    (hto : pc.plain = true) : Step p threads s (s.goto t pc) :=
  .plain hfrom hto s.park s.faultCount s.left s.yieldCount

theorem goto_self (s : State) (t : Nat) : s.goto t (s.pc t) = s := by
  rw [State.goto, Function.update_eq_self]

theorem step_of_resume {t draw : Nat} (h : s.resume p t draw = some s') :
    Step p threads s s' := by
  unfold State.resume at h
  split at h
  case h_1 e hpc =>
      cases h
      refine .plain (by rw [hpc]; rfl) ?_ _ _ _ _
      split
      · rfl
      · exact plain_onTest e false
  case h_2 e hpc =>
      cases h
      exact .plain (by rw [hpc]; rfl) (plain_onTest e true) _ _ _ _
  case h_3 hpc =>
      cases h
      exact .plain (by rw [hpc]; rfl) rfl _ _ _ _
  case h_4 hpc =>
      split at h
      · cases h
        exact .construct hpc
      · cases h
        exact .of_plain (by rw [hpc]; rfl) rfl
  case h_5 n hpc =>
      split at h
      · cases h
        exact .lock hpc ‹_›
      · cases h
  case h_6 n hpc =>
      split at h
      · cases h
        exact .refuse (by rw [hpc]; rfl) (by rw [hpc]; rfl)
      · cases h
        exact .belowLimit hpc (Nat.lt_of_not_le ‹_›)
  case h_7 n hpc =>
      split at h
      · cases h
        exact .loadSuspended hpc
      · cases h
        exact .loadThreads hpc
  case h_8 n count hpc =>
      split at h
      · cases h
        exact .refuse (by rw [hpc]; rfl) (by rw [hpc]; rfl)
      · cases h
        exact .spareThreads hpc (Nat.lt_of_not_le ‹_›)
  case h_9 n total hpc =>
      split at h
      · cases h
        exact .refuse (by rw [hpc]; rfl) (by rw [hpc]; rfl)
      · cases h
        exact .spareSuspended hpc (Nat.lt_of_not_le ‹_›)
  case h_10 n hpc =>
      cases h
      exact .add hpc
  case h_11 n hpc =>
      split at h
      · cases h
        exact .wake hpc ‹_›
      · cases h
        exact .look (by rw [hpc]; rfl) rfl
  case h_12 n hpc =>
      cases h
      exact .look (by rw [hpc]; rfl) rfl
  case h_13 hpc =>
      cases h
      exact .leave hpc
  case h_14 hpc =>
      cases h
      exact .of_plain (by rw [hpc]; rfl) rfl
  case h_15 exits hpc =>
      split at h
      · rename_i hfree
        split at h
        · rename_i hnone
          cases h
          cases exits with
          | false => exact .of_plain (by rw [hpc]; rfl) rfl
          | true => exact .nobody hpc hfree (unlinkRandomItem_eq_none hnone)
        · rename_i n rest hsome
          cases h
          exact .pick hpc hfree (unlinkRandomItem_perm hsome)
      · cases h
  case h_16 exits n hpc =>
      cases h
      exact .set hpc
  case h_17 | h_18 | h_19 => cases h

theorem step_of_next {e : Event} (h : s.next p threads e = some s') :
    Step p threads s s' := by
  cases e with
  | resume t draw => exact step_of_resume h
  | enter t =>
      obtain ⟨⟨hpos, hle, hpc⟩, heq⟩ := Option.ite_none_right_eq_some.mp h
      cases heq
      exact .enter hpos hle hpc
  | exit t =>
      obtain ⟨hpc, heq⟩ := Option.ite_none_right_eq_some.mp h
      cases heq
      exact .exit hpc
  | fault t =>
      obtain ⟨hpc, heq⟩ := Option.ite_none_right_eq_some.mp h
      cases heq
      exact .plain (by rw [hpc]; rfl) rfl _ _ _ _
  | reportProgress t =>
      obtain ⟨hpc, heq⟩ := Option.ite_none_right_eq_some.mp h
      cases heq
      refine .of_plain (by rw [hpc]; rfl) ?_
      split <;> rfl
  | enablePark t | disablePark t =>
      obtain ⟨hpc, heq⟩ := Option.ite_none_right_eq_some.mp h
      cases heq
      have hplain : (s.pc t).plain = true := by rw [hpc]; rfl
      have hstep := @Step.plain p threads s t (s.pc t) hplain hplain
      rw [goto_self] at hstep
      exact hstep _ _ _ _

end Inversion

/-! ### The life of a node -/

/-- From the construction of a node, for the thread `t`, to its end; `w` resumes. -/
inductive Stage where
  | unborn
  | prepared (t : Nat)
  | queued (t : Nat)
  | picked (t w : Nat)
  | signalled (t : Nat)
  | refused (t : Nat)
  | returned (t : Nat)
  deriving DecidableEq, Repr

namespace Stage

def node : Stage → WaitNode
  | unborn => .fresh 0
  | prepared t => .fresh t
  | queued t => (WaitNode.fresh t).link
  | picked t _ => (WaitNode.fresh t).link.unlink
  | signalled t => (WaitNode.fresh t).link.unlink.set
  | refused t => (WaitNode.fresh t).drop
  | returned t => (WaitNode.fresh t).link.unlink.set.drop

/-- The thread `u` has this to do with the node. -/
def near : Stage → Nat → Pc.Role → Prop
  | prepared t, u, r => u = t ∧ r = .prepares
  | queued t, u, r | signalled t, u, r => u = t ∧ r = .awaits
  | picked t w, u, r => u = t ∧ r = .awaits ∨ u = w ∧ r = .wakes
  | _, _, _ => False

def linked : Stage → Bool
  | queued _ => true
  | _ => false

def born : Stage → Bool
  | unborn => false
  | _ => true

variable {g : Stage} {t n : Nat}

theorem eq_of_prepares (h : g.near t .prepares) : g = prepared t := by
  cases g <;> simp_all [near]

theorem eq_of_awaits (h : g.near t .awaits) :
    g = queued t ∨ (∃ w, g = picked t w) ∨ g = signalled t := by
  cases g <;> simp_all [near]

theorem eq_of_wakes (h : g.near t .wakes) : ∃ u, g = picked u t := by
  cases g <;> simp_all [near]

theorem eq_of_linked (h : g.linked = true) : ∃ t, g = queued t := by
  cases g with
  | queued t => exact ⟨t, rfl⟩
  | _ => exact absurd h Bool.false_ne_true

theorem alive_of_near {r : Pc.Role} (h : g.near t r) : g.node.alive = true := by
  cases g with
  | unborn | refused | returned => exact h.elim
  | _ => rfl

end Stage

/-- What the state says of a node is what its stage says. -/
structure At (s : State) (n : Nat) (g : Stage) : Prop where
  node : s.node n = g.node
  near : ∀ u r, (s.pc u).place = some (r, n) ↔ g.near u r
  linked : n ∈ s.suspendedThreads ↔ g.linked = true
  born : n < s.nodes ↔ g.born = true

structure Placed (s : State) : Prop where
  stage : ∀ n, ∃ g, At s n g
  nodup : s.suspendedThreads.Nodup

section Placed

variable {p : Params} {threads : Nat} {s s' : State} {t n : Nat} {pc : Pc}

theorem placed_start : Placed State.start where
  stage n := ⟨.unborn, {
    node := rfl
    near u r := ⟨fun h => (by cases h), False.elim⟩
    linked := ⟨fun h => (by cases h), fun h => (by cases h)⟩
    born := ⟨fun h => (by cases h), fun h => (by cases h)⟩ }⟩
  nodup := List.nodup_nil

/-- The thread goes on and has the same to do with the same node. -/
theorem Placed.move (h : Placed s) (hpc : s'.pc = Function.update s.pc t pc)
    (hplace : pc.place = (s.pc t).place)
    (hqueue : s'.suspendedThreads = s.suspendedThreads) (hnode : s'.node = s.node)
    (hnodes : s'.nodes = s.nodes) : Placed s' := by
  have hplaces : ∀ u, (s'.pc u).place = (s.pc u).place := by
    rw [hpc]
    exact update_cases (P := fun u (q : Pc) => q.place = (s.pc u).place) hplace fun _ _ => rfl
  refine ⟨fun n => ?_, hqueue ▸ h.nodup⟩
  obtain ⟨g, hg⟩ := h.stage n
  refine ⟨g, ?_, fun u r => ?_, ?_, ?_⟩
  · rw [hnode, hg.node]
  · rw [hplaces, hg.near]
  · rw [hqueue, hg.linked]
  · rw [hnodes, hg.born]

/-- One node passes from a stage to another one, by a step of a thread that has
nothing to do with other nodes. -/
theorem Placed.change {g : Stage} (h : Placed s) (hg : At s n g) (g' : Stage)
    (hpc : s'.pc = Function.update s.pc t pc)
    (hplace : ∀ r m, (s.pc t).place = some (r, m) ∨ pc.place = some (r, m) → m = n)
    (hself : ∀ r, pc.place = some (r, n) ↔ g'.near t r)
    (hothers : ∀ u r, u ≠ t → (g.near u r ↔ g'.near u r))
    (hnode : s'.node = Function.update s.node n g'.node)
    (hqueue : ∀ m, m ≠ n → (m ∈ s'.suspendedThreads ↔ m ∈ s.suspendedThreads))
    (hlinked : n ∈ s'.suspendedThreads ↔ g'.linked = true)
    (hnodes : ∀ m, m ≠ n → (m < s'.nodes ↔ m < s.nodes))
    (hborn : n < s'.nodes ↔ g'.born = true)
    (hnodup : s'.suspendedThreads.Nodup) : Placed s' := by
  refine ⟨fun m => ?_, hnodup⟩
  by_cases hm : m = n
  · subst hm
    refine ⟨g', ?_, ?_, hlinked, hborn⟩
    · rw [hnode, Function.update_self]
    · rw [hpc]
      refine update_cases
        (P := fun u (q : Pc) => ∀ r, q.place = some (r, m) ↔ g'.near u r) hself fun u hu r => ?_
      rw [hg.near, hothers u r hu]
  · obtain ⟨g₀, hg₀⟩ := h.stage m
    refine ⟨g₀, ?_, ?_, ?_, ?_⟩
    · rw [hnode, Function.update_of_ne hm, hg₀.node]
    · rw [hpc]
      refine update_cases (P := fun u (q : Pc) => ∀ r, q.place = some (r, m) ↔ g₀.near u r)
        (fun r => ?_) fun u _ r => hg₀.near u r
      constructor
      · exact fun hr => absurd (hplace r m (.inr hr)) hm
      · exact fun hr => absurd (hplace r m (.inl ((hg₀.near t r).mpr hr))) hm
    · rw [hqueue m hm, hg₀.linked]
    · rw [hnodes m hm, hg₀.born]

theorem place_self {q : Pc.Role} (hplace : pc.place = some (q, n)) (r : Pc.Role) :
    pc.place = some (r, n) ↔ t = t ∧ r = q := by
  rw [hplace]
  constructor
  · intro heq
    cases heq
    exact ⟨rfl, rfl⟩
  · rintro ⟨-, rfl⟩
    rfl

/-- The thread has to do with the one node only. -/
theorem only_place {node : Option (Pc.Role × Nat)} (q : Pc.Role)
    (h : node = some (q, n) ∨ node = none) {r : Pc.Role} {m : Nat}
    (hm : node = some (r, m)) : m = n := by
  rcases h with h | h <;> rw [h] at hm <;> cases hm
  rfl

theorem At.prepared {g : Stage} (hg : At s n g)
    (hplace : (s.pc t).place = some (.prepares, n)) : g = .prepared t :=
  Stage.eq_of_prepares ((hg.near t _).mp hplace)

theorem At.awaited {g : Stage} (hg : At s n g)
    (hplace : (s.pc t).place = some (.awaits, n)) :
    g = .queued t ∨ (∃ w, g = .picked t w) ∨ g = .signalled t :=
  Stage.eq_of_awaits ((hg.near t _).mp hplace)

theorem At.woken {g : Stage} (hg : At s n g)
    (hplace : (s.pc t).place = some (.wakes, n)) : ∃ u, g = .picked u t :=
  Stage.eq_of_wakes ((hg.near t _).mp hplace)

theorem At.queued {g : Stage} (hg : At s n g) (hmem : n ∈ s.suspendedThreads) :
    ∃ u, g = .queued u :=
  Stage.eq_of_linked (hg.linked.mp hmem)

/-- The node is neither constructed nor linked or unlinked. -/
theorem Placed.turn {g : Stage} (h : Placed s) (hg : At s n g) (g' : Stage)
    (hpc : s'.pc = Function.update s.pc t pc) (q : Pc.Role)
    (hfrom : (s.pc t).place = some (q, n)) (hto : pc.place = none)
    (haway : ∀ r, ¬ g'.near t r)
    (hothers : ∀ u r, u ≠ t → (g.near u r ↔ g'.near u r))
    (hnode : s'.node = Function.update s.node n g'.node)
    (hqueue : s'.suspendedThreads = s.suspendedThreads)
    (hlinked : g.linked = g'.linked)
    (hnodes : s'.nodes = s.nodes) (hborn : g.born = g'.born) : Placed s' := by
  apply h.change hg g' hpc
  · rintro r m (hm | hm)
    · exact only_place q (.inl hfrom) hm
    · exact only_place q (.inr hto) hm
  · intro r
    rw [hto]
    exact ⟨fun hr => (by cases hr), fun hr => absurd hr (haway r)⟩
  · exact hothers
  · exact hnode
  · exact fun m _ => by rw [hqueue]
  · rw [hqueue, hg.linked, hlinked]
  · exact fun m _ => by rw [hnodes]
  · rw [hnodes, hg.born, hborn]
  · exact hqueue ▸ h.nodup

/-- The next node has not been constructed yet. -/
theorem Placed.unborn (h : Placed s) : At s s.nodes .unborn := by
  obtain ⟨g, hg⟩ := h.stage s.nodes
  have hnot : ¬ g.born = true := mt hg.born.mpr (Nat.lt_irrefl _)
  cases g with
  | unborn => exact hg
  | _ => exact absurd rfl hnot

theorem Placed.construct (h : Placed s) (hpc : s.pc t = .suspending) :
    Placed { (s.goto t (.locking s.nodes)).setNode s.nodes (.fresh t) with
      nodes := s.nodes + 1 } := by
  have hg := h.unborn
  have hqueue : s.nodes ∉ s.suspendedThreads := mt hg.linked.mp Bool.false_ne_true
  apply h.change hg (.prepared t) rfl
  · rintro r m (hm | hm)
    · exact only_place .prepares (.inr (by rw [hpc]; rfl)) hm
    · exact only_place .prepares (.inl rfl) hm
  · exact place_self rfl
  · exact fun u r hu => ⟨False.elim, fun hr => absurd hr.1 hu⟩
  · rfl
  · exact fun _ _ => Iff.rfl
  · exact ⟨fun hmem => absurd hmem hqueue, fun hr => absurd hr Bool.false_ne_true⟩
  · intro m hm
    change m < s.nodes + 1 ↔ m < s.nodes
    omega
  · exact ⟨fun _ => rfl, fun _ => Nat.lt_succ_self s.nodes⟩
  · exact h.nodup

theorem Placed.refuse (h : Placed s) (hplace : (s.pc t).place = some (.prepares, n)) :
    Placed (s.refuse t n) := by
  obtain ⟨g, hg⟩ := h.stage n
  obtain rfl := hg.prepared hplace
  refine h.turn hg (.refused t) rfl .prepares hplace rfl (fun _ => id) ?_ ?_ rfl rfl
    rfl rfl
  · exact fun u r hu => ⟨fun hr => absurd hr.1 hu, False.elim⟩
  · change Function.update s.node n (s.node n).drop = _
    rw [hg.node]
    rfl

theorem Placed.add (h : Placed s) (hpc : s.pc t = .adding n) :
    Placed { (s.goto t (.awaiting n)).setNode n (s.node n).link with
      suspendedThreads := s.suspendedThreads ++ [n]
      suspendedThreadCount := s.suspendedThreadCount + 1
      mutex := none } := by
  have hplace : (s.pc t).place = some (.prepares, n) := by rw [hpc]; rfl
  obtain ⟨g, hg⟩ := h.stage n
  obtain rfl := hg.prepared hplace
  have hout : n ∉ s.suspendedThreads := mt hg.linked.mp Bool.false_ne_true
  apply h.change hg (.queued t) rfl
  · rintro r m (hm | hm)
    · exact only_place .prepares (.inl hplace) hm
    · exact only_place .awaits (.inl rfl) hm
  · exact place_self rfl
  · exact fun u r hu => ⟨fun hr => absurd hr.1 hu, fun hr => absurd hr.1 hu⟩
  · change Function.update s.node n (s.node n).link = _
    rw [hg.node]
    rfl
  · intro m hm
    change m ∈ s.suspendedThreads ++ [n] ↔ _
    rw [List.mem_append, List.mem_singleton, or_iff_left hm]
  · exact ⟨fun _ => rfl, fun _ => List.mem_append_right _ (List.mem_singleton_self n)⟩
  · exact fun _ _ => Iff.rfl
  · exact hg.born
  · exact List.nodup_append.mpr ⟨h.nodup, List.nodup_singleton n,
      fun a ha b hb heq => hout (List.mem_singleton.mp hb ▸ heq ▸ ha)⟩

theorem Placed.wake (h : Placed s) (hpc : s.pc t = .awaiting n)
    (hready : (s.node n).ready = true) :
    Placed ((s.goto t .resumed).setNode n (s.node n).drop) := by
  have hplace : (s.pc t).place = some (.awaits, n) := by rw [hpc]; rfl
  obtain ⟨g, hg⟩ := h.stage n
  have hset : g = .signalled t := by
    rw [hg.node] at hready
    rcases hg.awaited hplace with rfl | ⟨w, rfl⟩ | rfl
    · cases hready
    · cases hready
    · rfl
  subst hset
  refine h.turn hg (.returned t) rfl .awaits hplace rfl (fun _ => id) ?_ ?_ rfl rfl
    rfl rfl
  · exact fun u r hu => ⟨fun hr => absurd hr.1 hu, False.elim⟩
  · change Function.update s.node n (s.node n).drop = _
    rw [hg.node]
    rfl

theorem Placed.pick {exits : Bool} {rest : List Nat} (h : Placed s)
    (hpc : s.pc t = .resuming exits) (hperm : (n :: rest).Perm s.suspendedThreads) :
    Placed { (s.goto t (.waking exits n)).setNode n (s.node n).unlink with
      suspendedThreads := rest
      mutex := some t } := by
  have hplace : (s.pc t).place = none := by rw [hpc]; rfl
  have hmem : n ∈ s.suspendedThreads := hperm.subset List.mem_cons_self
  obtain ⟨hout, hrest⟩ := List.nodup_cons.mp (hperm.nodup_iff.mpr h.nodup)
  obtain ⟨g, hg⟩ := h.stage n
  obtain ⟨u, rfl⟩ := hg.queued hmem
  have hne : t ≠ u := by
    rintro rfl
    have hnear := (hg.near t .awaits).mpr ⟨rfl, rfl⟩
    rw [hplace] at hnear
    cases hnear
  apply h.change hg (.picked u t) rfl
  · rintro r m (hm | hm)
    · exact only_place .wakes (.inr hplace) hm
    · exact only_place .wakes (.inl rfl) hm
  · exact fun r => (place_self rfl r).trans (or_iff_right fun hr => hne hr.1).symm
  · exact fun v r hv => (or_iff_left fun hr => hv hr.1).symm
  · change Function.update s.node n (s.node n).unlink = _
    rw [hg.node]
    rfl
  · intro m hm
    rw [← hperm.mem_iff, List.mem_cons, or_iff_right hm]
  · exact ⟨fun hin => absurd hin hout, fun hr => absurd hr Bool.false_ne_true⟩
  · exact fun _ _ => Iff.rfl
  · exact hg.born
  · exact hrest

theorem place_afterResume (exits : Bool) : (afterResume exits).place = none := by
  cases exits <;> rfl

theorem Placed.set {exits : Bool} (h : Placed s) (hpc : s.pc t = .waking exits n) :
    Placed { (s.goto t (afterResume exits)).setNode n (s.node n).set with
      mutex := none } := by
  have hplace : (s.pc t).place = some (.wakes, n) := by rw [hpc]; rfl
  obtain ⟨g, hg⟩ := h.stage n
  obtain ⟨u, rfl⟩ := hg.woken hplace
  have hne : t ≠ u := by
    rintro rfl
    have hnear := (hg.near t .awaits).mpr (.inl ⟨rfl, rfl⟩)
    rw [hplace] at hnear
    cases hnear
  refine h.turn hg (.signalled u) rfl .wakes hplace (place_afterResume exits)
    (fun r hr => hne hr.1) ?_ ?_ rfl rfl rfl rfl
  · exact fun v r hv => or_iff_left fun hr => hv hr.1
  · change Function.update s.node n (s.node n).set = _
    rw [hg.node]
    rfl

theorem place_of_plain (h : pc.plain = true) : pc.place = none := by
  cases pc with
  | resuming exits => rfl
  | _ => first | rfl | cases h

theorem Step.placed (hstep : Step p threads s s') (h : Placed s) : Placed s' := by
  cases hstep with
  | plain hfrom hto park faults left yields =>
      exact h.move rfl (by rw [place_of_plain hfrom, place_of_plain hto]) rfl rfl rfl
  | enter _ _ hpc | exit hpc | lock hpc _ | belowLimit hpc _ | loadSuspended hpc
  | loadThreads hpc | spareThreads hpc _ | spareSuspended hpc _ | leave hpc
  | nobody hpc _ _ => exact h.move rfl (by rw [hpc]; rfl) rfl rfl rfl
  | construct hpc => exact h.construct hpc
  | refuse hplace _ => exact h.refuse hplace
  | add hpc => exact h.add hpc
  | look hfrom hto => exact h.move rfl (hto.trans hfrom.symm) rfl rfl rfl
  | wake hpc hready => exact h.wake hpc hready
  | pick hpc _ hperm => exact h.pick hpc hperm
  | set hpc => exact h.set hpc

end Placed

end LockFreeAdversary

end TwistSim
