/-
`test::WaitGroup` under every interleaving: one thread adds bodies and joins them,
every body runs in a thread of its own, which leaves the group without preemption.
A thread switches before a `Sync` action and when it waits on the futex.
-/
import TwistSim.Protocols

namespace TwistSim

namespace WaitGroup

/-- The object and the thread that it belongs to.  `left` is a `uint64_t`. -/
structure Group where
  owner : ThreadId
  left : SyncVar
  done : SyncVar
  apart : left.loc ≠ done.loc

/-- A `Sync` action on `left_`. -/
def Group.leftAction (g : Group) (type : ActionType) (value : Nat) (mo : MemoryOrder)
    (operation : String) : Action :=
  { g.left.action type value mo operation with size := 8 }

/-- Where a thread is in the code of the group: at a `Sync` that is about to be
executed, on the futex, or in the user's code.  A body carries its `index`. -/
inductive Pc where
  | outside
  | initLeft
  | initDone
  /-- The owner may add bodies, and join. -/
  | owns
  | storing
  /-- So many nodes are still to be spawned. -/
  | spawning (nodes : Nat)
  | parked
  | checking
  /-- `Join` has returned. -/
  | joined
  /-- In `RunUser`. -/
  | body (index : Nat)
  | subLoading (index : Nat)
  | subCommitting (index old : Nat)
  | finishing (index : Nat)
  /-- `AtThreadExit` has returned, and the node is deleted. -/
  | exited (index : Nat)
  deriving DecidableEq, Repr

/-- What the code of the group reads and writes. -/
inductive Object where
  | group
  | node (index : Nat)
  deriving DecidableEq, Repr

namespace Pc

/-- In the user's code. -/
def idle : Pc → Bool
  | outside | owns | joined | body _ => true
  | _ => false

/-- Between two points at which the thread may be switched out. -/
def exclusive : Pc → Bool
  | spawning _ | subCommitting .. | finishing _ | subLoading _ => true
  | _ => false

/-- In a method of the group, or in the owner's code. -/
def owning : Pc → Bool
  | initLeft | initDone | owns | storing | spawning _ | parked | checking | joined => true
  | _ => false

/-- The node that the thread has been spawned for. -/
def index : Pc → Option Nat
  | body i | subLoading i | subCommitting i _ | finishing i | exited i => some i
  | _ => none

/-- Not yet subtracted from `left_`. -/
def counted : Pc → Bool
  | body _ | subLoading _ | subCommitting .. => true
  | _ => false

/-- A body that has not left the group. -/
def present : Pc → Bool
  | body _ | subLoading _ | subCommitting .. | finishing _ => true
  | _ => false

/-- `left_` has been stored. -/
def started : Pc → Bool
  | spawning _ | parked | checking | joined => true
  | _ => false

/-- In `Join`, after `count_` was read. -/
def busy : Pc → Bool
  | storing | spawning _ | parked | checking => true
  | _ => false

/-- What the code reads and writes from here to the next switch. -/
def reads : Pc → List Object
  | spawning (nodes + 1) => [.group, .node nodes]
  | body i | subLoading i | subCommitting i _ | finishing i => [.group, .node i]
  | _ => [.group]

/-- How many of the nodes have no thread yet. -/
def unspawned (count : Nat) : Pc → Nat
  | spawning nodes => nodes
  | parked | checking | joined => 0
  | _ => count

end Pc

/-- The threads, `count_`, the nodes that have been deleted, and what was done by
bodies. -/
structure State where
  memory : Memory
  pc : ThreadId → Pc
  count : Nat
  deleted : List Nat
  log : List OldAccess

/-- What happens next: a thread does something in user code, the owner calls a
method, `RunUser` of a body returns, or a thread goes on.  The scheduler chooses
whether a wait fails spuriously. -/
inductive Event where
  | user (op : Op)
  | construct
  | add
  | join
  | exit (t : ThreadId)
  | resume (t : ThreadId) (spurious : Bool)
  deriving DecidableEq, Repr

namespace State

def start : State where
  memory := Memory.start
  pc _ := .outside
  count := 0
  deleted := []
  log := []

def goto (s : State) (t : ThreadId) (pc : Pc) : State :=
  { s with pc := Function.update s.pc t pc }

/-- Nobody else runs between two points at which a thread may be switched out. -/
def MayRun (s : State) (t : ThreadId) : Prop :=
  s.memory.hasThread t = true ∧
    ∀ u < s.memory.threadCount + 1, u ≠ t → (s.pc u).exclusive = false

instance (s : State) (t : ThreadId) : Decidable (s.MayRun t) := by
  unfold MayRun
  infer_instance

/-- Remember what is done by a body. -/
def note (s : State) (m : Memory) (op : Op) : List OldAccess :=
  if (s.pc op.performer).counted then m.record op :: s.log else s.log

/-- `delete this`. -/
def leave (s : State) (t : ThreadId) (index : Nat) : State :=
  { s.goto t (.exited index) with deleted := s.deleted ++ [index] }

variable (g : Group)

/-- `FutexWait(done_, 0)`. -/
def futexWait (s : State) (spurious : Bool) : Option State :=
  if spurious then some (s.goto g.owner .checking)
  else (s.memory.futexLoad g.done.futexLoc).map fun value =>
    s.goto g.owner (if value = 0 then .parked else .checking)

/-- `FutexWake(done_, 1)`. -/
def futexWake (s : State) (t : ThreadId) : Option State :=
  if s.pc g.owner = .parked then
    (s.memory.perform (.wake t g.owner)).map fun m =>
      { s.goto g.owner .checking with memory := m }
  else some s

/-- The thread executes its pending action and runs until the next one. -/
def resume (s : State) (t : ThreadId) (spurious : Bool) : Option State :=
  match s.pc t with
  | .initLeft =>
      (s.memory.reply t
          (g.leftAction .atomicInit 0 .relaxed "atomic::atomic")).map fun (_, m) =>
        { s.goto t .initDone with memory := m }
  | .initDone =>
      (s.memory.reply t (g.done.init 0)).map fun (_, m) =>
        { s.goto t .owns with memory := m }
  | .storing =>
      (s.memory.reply t
          (g.leftAction .atomicStore s.count .seqCst "atomic::store")).map fun (_, m) =>
        { s.goto t (.spawning s.count) with memory := m }
  | .spawning 0 => s.futexWait g spurious
  | .spawning (nodes + 1) =>
      -- The list starts with the node that was added last.
      let child := s.memory.threadCount + 1
      (s.memory.perform (.spawn t child)).map fun m =>
        { (s.goto t (.spawning nodes)).goto child (.body nodes) with memory := m }
  | .checking =>
      (s.memory.reply t (g.done.load .seqCst)).bind fun (value, m) =>
        let s := { s with memory := m }
        if value = 1 then some (s.goto t .joined) else s.futexWait g spurious
  | .subLoading index =>
      (s.memory.reply t
          (g.leftAction .atomicRmwLoad 0 .seqCst "atomic::fetch_sub")).map fun (old, m) =>
        { s.goto t (.subCommitting index old) with memory := m }
  | .subCommitting index old =>
      (s.memory.reply t
          (g.leftAction .atomicRmwCommit ((old + 2 ^ 64 - 1) % 2 ^ 64) .seqCst
            "atomic::fetch_sub")).map fun (_, m) =>
        let s := { s with memory := m }
        if old = 1 then s.goto t (.finishing index) else s.leave t index
  | .finishing index =>
      (s.memory.reply t (g.done.store 1 .seqCst)).bind fun (_, m) =>
        ({ s with memory := m }.futexWake g t).map fun (s : State) => s.leave t index
  | .outside | .owns | .parked | .joined | .body _ | .exited _ => none

def next (s : State) : Event → Option State
  | .user op =>
      if s.MayRun op.performer ∧ op.allowed (fun u => (s.pc u).idle) = true ∧
          Memory.touches g.left.loc op = false ∧
          Memory.touches g.done.loc op = false then
        (s.memory.perform op).map fun m =>
          { s with memory := m, log := s.note m op }
      else none
  | .construct =>
      if s.MayRun g.owner ∧ s.pc g.owner = .outside then
        some (s.goto g.owner .initLeft)
      else none
  | .add =>
      if s.MayRun g.owner ∧ s.pc g.owner = .owns then
        some { s with count := s.count + 1 }
      else none
  | .join =>
      if s.MayRun g.owner ∧ s.pc g.owner = .owns then
        some (s.goto g.owner (if s.count = 0 then .joined else .storing))
      else none
  | .exit t =>
      match s.pc t with
      | .body index =>
          -- The guard is taken before `AtThreadExit`.
          if s.MayRun t then some (s.goto t (.subLoading index)) else none
      | _ => none
  | .resume t spurious => if s.MayRun t then s.resume g t spurious else none

/-- What the step reads or writes. -/
def touched (s : State) : Event → List Object
  | .user _ | .construct => []
  | .add | .join => [.group]
  | .exit t | .resume t _ => (s.pc t).reads

/-- The object is still there. -/
def Alive (s : State) : Object → Prop
  | .group => (s.pc g.owner).owning = true ∧ s.pc g.owner ≠ .joined
  | .node i => i < s.count ∧ i ∉ s.deleted

end State

variable {g : Group} {s s' : State} {t : ThreadId}

/-! ### What a step can do -/

/-- A turn of the owner that creates no thread: where it is after it, and the memory. -/
inductive Turn (g : Group) (s : State) : Pc → Memory → Prop where
  | construct (hpc : s.pc g.owner = .outside) : Turn g s .initLeft s.memory
  | initLeft {value : Nat} {m : Memory} (hpc : s.pc g.owner = .initLeft)
      (h : s.memory.reply g.owner
          (g.leftAction .atomicInit 0 .relaxed "atomic::atomic") = some (value, m)) :
      Turn g s .initDone m
  | initDone {value : Nat} {m : Memory} (hpc : s.pc g.owner = .initDone)
      (h : s.memory.reply g.owner (g.done.init 0) = some (value, m)) :
      Turn g s .owns m
  | joinNothing (hpc : s.pc g.owner = .owns) (hcount : s.count = 0) :
      Turn g s .joined s.memory
  | join (hpc : s.pc g.owner = .owns) (hcount : s.count ≠ 0) :
      Turn g s .storing s.memory
  | store {value : Nat} {m : Memory} (hpc : s.pc g.owner = .storing)
      (h : s.memory.reply g.owner
          (g.leftAction .atomicStore s.count .seqCst "atomic::store") =
        some (value, m)) :
      Turn g s (.spawning s.count) m
  | wait {pc : Pc} (hpc : s.pc g.owner = .spawning 0)
      (hafter : pc = .checking ∨ pc = .parked ∧ s.memory.Word g.done.loc 0) :
      Turn g s pc s.memory
  | check {value : Nat} {pc : Pc} {m : Memory} (hpc : s.pc g.owner = .checking)
      (h : s.memory.reply g.owner (g.done.load .seqCst) = some (value, m))
      (hafter : pc = .joined ∧ value = 1 ∨ pc = .checking ∨
        pc = .parked ∧ value = 0) :
      Turn g s pc m

/-- A turn of the thread of a body that leaves the words alone. -/
inductive Pass (g : Group) (s : State) (t : ThreadId) : Pc → Memory → Prop where
  | exit {index : Nat} (hpc : s.pc t = .body index) :
      Pass g s t (.subLoading index) s.memory
  | load {index old : Nat} {m : Memory} (hpc : s.pc t = .subLoading index)
      (h : s.memory.reply t
          (g.leftAction .atomicRmwLoad 0 .seqCst "atomic::fetch_sub") = some (old, m)) :
      Pass g s t (.subCommitting index old) m

/-- The commit of `left_.fetch_sub(1)`. -/
def Commits (g : Group) (s : State) (t : ThreadId) (index old : Nat) (m : Memory) : Prop :=
  s.pc t = .subCommitting index old ∧ ∃ value,
    s.memory.reply t
        (g.leftAction .atomicRmwCommit ((old + 2 ^ 64 - 1) % 2 ^ 64) .seqCst
          "atomic::fetch_sub") = some (value, m)

/-- `done_.store(1)`. -/
def Finishes (g : Group) (s : State) (t : ThreadId) (index : Nat) (m : Memory) : Prop :=
  s.pc t = .finishing index ∧ ∃ value,
    s.memory.reply t (g.done.store 1 .seqCst) = some (value, m)

inductive Step (g : Group) (s : State) : State → Prop where
  | user {op : Op} {m : Memory} (hrun : s.MayRun op.performer)
      (hidle : op.allowed (fun u => (s.pc u).idle) = true)
      (hleft : Memory.touches g.left.loc op = false)
      (hdone : Memory.touches g.done.loc op = false)
      (h : s.memory.perform op = some m) :
      Step g s { s with memory := m, log := s.note m op }
  | add (hpc : s.pc g.owner = .owns) : Step g s { s with count := s.count + 1 }
  | turn {pc : Pc} {m : Memory} (hrun : s.MayRun g.owner) (h : Turn g s pc m) :
      Step g s { s.goto g.owner pc with memory := m }
  | spawn {nodes : Nat} {m : Memory} (hrun : s.MayRun g.owner)
      (hpc : s.pc g.owner = .spawning (nodes + 1))
      (h : s.memory.perform (.spawn g.owner (s.memory.threadCount + 1)) = some m) :
      Step g s { (s.goto g.owner (.spawning nodes)).goto (s.memory.threadCount + 1)
        (.body nodes) with memory := m }
  | pass {t : ThreadId} {pc : Pc} {m : Memory} (hrun : s.MayRun t)
      (h : Pass g s t pc m) : Step g s { s.goto t pc with memory := m }
  | commitLast {t : ThreadId} {index : Nat} {m : Memory} (hrun : s.MayRun t)
      (h : Commits g s t index 1 m) :
      Step g s { s.goto t (.finishing index) with memory := m }
  | commit {t : ThreadId} {index old : Nat} {m : Memory} (hrun : s.MayRun t)
      (hold : old ≠ 1) (h : Commits g s t index old m) :
      Step g s (State.leave { s with memory := m } t index)
  | finish {t : ThreadId} {index : Nat} {m : Memory} (hrun : s.MayRun t)
      (h : Finishes g s t index m) (hquiet : s.pc g.owner ≠ .parked) :
      Step g s (State.leave { s with memory := m } t index)
  | finishWakes {t : ThreadId} {index : Nat} {m m' : Memory} (hrun : s.MayRun t)
      (h : Finishes g s t index m) (hparked : s.pc g.owner = .parked)
      (hwake : m.perform (.wake t g.owner) = some m') :
      Step g s (State.leave { s.goto g.owner .checking with memory := m' } t index)

/-- Where the owner is after `FutexWait`. -/
theorem futexWait_cases {spurious : Bool} (h : s.futexWait g spurious = some s') :
    ∃ pc, s' = s.goto g.owner pc ∧
      (pc = .checking ∨ pc = .parked ∧ s.memory.Word g.done.loc 0) := by
  unfold State.futexWait at h
  split at h
  · cases h
    exact ⟨.checking, rfl, Or.inl rfl⟩
  · obtain ⟨value, hvalue, rfl⟩ := Option.map_eq_some_iff.mp h
    refine ⟨_, rfl, ?_⟩
    by_cases hzero : value = 0
    · subst hzero
      exact Or.inr ⟨rfl, Memory.futexLoad_word hvalue⟩
    · exact Or.inl (if_neg hzero)

theorem step_check {spurious : Bool} (hrun : s.MayRun g.owner)
    (hpc : s.pc g.owner = .checking)
    (h : s.resume g g.owner spurious = some s') : Step g s s' := by
  simp only [State.resume, hpc] at h
  obtain ⟨⟨value, m⟩, hreply, h⟩ := Option.bind_eq_some_iff.mp h
  dsimp only at h
  split at h
  · rename_i hone
    cases h
    exact Step.turn hrun (.check hpc hreply (Or.inl ⟨rfl, hone⟩))
  · obtain ⟨pc, rfl, hafter⟩ := futexWait_cases h
    refine Step.turn hrun (.check hpc hreply (Or.inr ?_))
    have hword := (Memory.load_spec (Memory.reply_ok hreply).2 (Or.inl rfl)).1
    have hsame := (Memory.load_spec (Memory.reply_ok hreply).2 (Or.inl rfl)).2.1
    exact hafter.imp_right fun ⟨hparked, hzero⟩ =>
      ⟨hparked, (hword.congr (congrFun hsame _)).unique hzero⟩

theorem step_finish {index : Nat} {spurious : Bool} (hrun : s.MayRun t)
    (hpc : s.pc t = .finishing index)
    (h : s.resume g t spurious = some s') : Step g s s' := by
  simp only [State.resume, hpc] at h
  obtain ⟨⟨value, m⟩, hreply, h⟩ := Option.bind_eq_some_iff.mp h
  obtain ⟨s₁, hwakes, rfl⟩ := Option.map_eq_some_iff.mp h
  unfold State.futexWake at hwakes
  split at hwakes
  · rename_i hparked
    obtain ⟨m', hwake, rfl⟩ := Option.map_eq_some_iff.mp hwakes
    exact Step.finishWakes hrun ⟨hpc, value, hreply⟩ hparked hwake
  · rename_i hquiet
    cases hwakes
    exact Step.finish hrun ⟨hpc, value, hreply⟩ hquiet

/-- What the owner does when it is resumed. -/
theorem step_owner {spurious : Bool} (hrun : s.MayRun g.owner)
    (howning : (s.pc g.owner).owning = true)
    (h : s.resume g g.owner spurious = some s') : Step g s s' := by
  cases hpc : s.pc g.owner with
  | initLeft =>
      simp only [State.resume, hpc] at h
      obtain ⟨⟨value, m⟩, hreply, rfl⟩ := Option.map_eq_some_iff.mp h
      exact Step.turn hrun (.initLeft hpc hreply)
  | initDone =>
      simp only [State.resume, hpc] at h
      obtain ⟨⟨value, m⟩, hreply, rfl⟩ := Option.map_eq_some_iff.mp h
      exact Step.turn hrun (.initDone hpc hreply)
  | storing =>
      simp only [State.resume, hpc] at h
      obtain ⟨⟨value, m⟩, hreply, rfl⟩ := Option.map_eq_some_iff.mp h
      exact Step.turn hrun (.store hpc hreply)
  | spawning nodes =>
      cases nodes with
      | zero =>
          simp only [State.resume, hpc] at h
          obtain ⟨pc, rfl, hafter⟩ := futexWait_cases h
          exact Step.turn hrun (.wait hpc hafter)
      | succ nodes =>
          simp only [State.resume, hpc] at h
          obtain ⟨m, hspawn, rfl⟩ := Option.map_eq_some_iff.mp h
          exact Step.spawn hrun hpc hspawn
  | checking => exact step_check hrun hpc h
  | owns | parked | joined =>
      simp only [State.resume, hpc] at h
      cases h
  | _ =>
      rw [hpc] at howning
      cases howning

theorem step_resume {spurious : Bool} (hrun : s.MayRun t)
    (howner : (s.pc t).owning = true → t = g.owner)
    (h : s.resume g t spurious = some s') : Step g s s' := by
  cases hpc : s.pc t with
  | subLoading index =>
      simp only [State.resume, hpc] at h
      obtain ⟨⟨old, m⟩, hreply, rfl⟩ := Option.map_eq_some_iff.mp h
      exact Step.pass hrun (.load hpc hreply)
  | subCommitting index old =>
      simp only [State.resume, hpc] at h
      obtain ⟨⟨value, m⟩, hreply, rfl⟩ := Option.map_eq_some_iff.mp h
      by_cases hold : old = 1
      · subst hold
        rw [if_pos rfl]
        exact Step.commitLast hrun ⟨hpc, value, hreply⟩
      · rw [if_neg hold]
        exact Step.commit hrun hold ⟨hpc, value, hreply⟩
  | finishing index => exact step_finish hrun hpc h
  | outside | body _ | exited _ =>
      simp only [State.resume, hpc] at h
      cases h
  | _ =>
      obtain rfl := howner (by rw [hpc]; rfl)
      exact step_owner hrun (by rw [hpc]; rfl) h

theorem step_of_next {e : Event}
    (howner : ∀ u, (s.pc u).owning = true → u = g.owner)
    (h : s.next g e = some s') : Step g s s' := by
  unfold State.next at h
  cases e with
  | user op =>
      dsimp only at h
      split at h
      · rename_i hcond
        obtain ⟨m, hperform, rfl⟩ := Option.map_eq_some_iff.mp h
        exact Step.user hcond.1 hcond.2.1 hcond.2.2.1 hcond.2.2.2 hperform
      · cases h
  | construct =>
      dsimp only at h
      split at h
      · rename_i hcond
        cases h
        exact Step.turn hcond.1 (.construct hcond.2)
      · cases h
  | add =>
      dsimp only at h
      split at h
      · rename_i hcond
        cases h
        exact Step.add hcond.2
      · cases h
  | join =>
      dsimp only at h
      split at h
      · rename_i hcond
        cases h
        by_cases hcount : s.count = 0
        · rw [if_pos hcount]
          exact Step.turn hcond.1 (.joinNothing hcond.2 hcount)
        · rw [if_neg hcount]
          exact Step.turn hcond.1 (.join hcond.2 hcount)
      · cases h
  | exit t =>
      dsimp only at h
      split at h
      · rename_i index hpc
        split at h
        · rename_i hrun
          cases h
          exact Step.pass hrun (.exit hpc)
        · cases h
      · cases h
  | resume t spurious =>
      dsimp only at h
      split at h
      · rename_i hrun
        exact step_resume hrun (howner t) h
      · cases h

/-! ### Threads and nodes -/

/-- How many nodes have no thread yet. -/
def State.unspawned (g : Group) (s : State) : Nat := (s.pc g.owner).unspawned s.count

/-- Who is where: every node has at most one thread, and it is deleted when this
thread leaves. -/
structure Placed (g : Group) (s : State) : Prop where
  fresh : ∀ u, s.pc u ≠ .outside → s.memory.hasThread u = true
  room : s.memory.threadCount ≤ maxThreads
  owner : ∀ u, (s.pc u).owning = true → u = g.owner
  alone : ∀ u w, (s.pc u).exclusive = true → (s.pc w).exclusive = true → u = w
  index : ∀ u w i, (s.pc u).index = some i → (s.pc w).index = some i → u = w
  nodes : ∀ i, (∃ u, (s.pc u).index = some i) ↔ s.unspawned g ≤ i ∧ i < s.count
  deleted : ∀ i, i ∈ s.deleted ↔
    ∃ u, (s.pc u).index = some i ∧ (s.pc u).present = false
  nodup : s.deleted.Nodup
  balance : tally (fun u => (s.pc u).present) s.memory.threadCount + s.unspawned g +
    s.deleted.length = s.count

theorem Placed.start : Placed g State.start where
  fresh u h := absurd rfl h
  room := by decide
  owner u h := Bool.noConfusion h
  alone u w h := Bool.noConfusion h
  index u w i h := nomatch h
  nodes i := by
    constructor
    · rintro ⟨u, hu⟩
      cases hu
    · exact fun hi => absurd hi.2 (Nat.not_lt_zero i)
  deleted i := ⟨fun h => absurd h List.not_mem_nil, fun ⟨_, h, _⟩ => nomatch h⟩
  nodup := List.nodup_nil
  balance := by
    show tally (fun _ => false) 1 + 0 + 0 = 0
    rfl

section Moves

variable {pc : Pc} {m : Memory}

theorem goto_pc_self (s : State) (t : ThreadId) (pc : Pc) : (s.goto t pc).pc t = pc :=
  Function.update_self _ _ _

theorem goto_pc_of_ne {u : ThreadId} (hu : u ≠ t) : (s.goto t pc).pc u = s.pc u :=
  Function.update_of_ne hu _ _

theorem goto_cases {P : ThreadId → Pc → Prop} (hself : P t pc)
    (hothers : ∀ u, u ≠ t → P u (s.pc u)) : ∀ u, P u ((s.goto t pc).pc u) :=
  update_cases hself hothers

theorem Placed.le (h : Placed g s) {u : ThreadId} (hpc : s.pc u ≠ .outside) :
    u ≤ s.memory.threadCount :=
  (Memory.hasThread_iff.mp (h.fresh u hpc)).2

theorem Placed.present_le (h : Placed g s) :
    ∀ u, (s.pc u).present = true → u ≤ s.memory.threadCount := by
  intro u hu
  refine h.le fun hpc => ?_
  rw [hpc] at hu
  cases hu

/-- While a thread runs, no other is between two points at which it may switch. -/
theorem Placed.others (h : Placed g s) (hrun : s.MayRun t) {u : ThreadId} (hu : u ≠ t) :
    (s.pc u).exclusive = false := by
  by_cases hpc : s.pc u = .outside
  · rw [hpc]
    rfl
  · exact hrun.2 u (Nat.lt_succ_of_le (h.le hpc)) hu

theorem Placed.memory {log : List OldAccess} (h : Placed g s)
    (hcount : s.memory.threadCount ≤ m.threadCount)
    (hroom : m.threadCount ≤ maxThreads) :
    Placed g { s with memory := m, log := log } where
  fresh u hu := Memory.hasThread.mono (h.fresh u hu) hcount
  room := hroom
  owner := h.owner
  alone := h.alone
  index := h.index
  nodes := h.nodes
  deleted := h.deleted
  nodup := h.nodup
  balance := by
    have hsame := tally_of_le (p := fun u => (s.pc u).present) hcount h.present_le
    show tally (fun u => (s.pc u).present) m.threadCount + _ + _ = _
    rw [hsame]
    exact h.balance

/-- A thread goes on for the same node, or in the code of the owner. -/
structure Stays (g : Group) (s : State) (t : ThreadId) (pc : Pc) : Prop where
  index : pc.index = (s.pc t).index
  present : pc.present = (s.pc t).present
  owning : pc.owning = true → t = g.owner
  unspawned : pc.unspawned s.count = (s.pc t).unspawned s.count

theorem Stays.of_pc {old : Pc} (hpc : s.pc t = old) (hindex : pc.index = old.index)
    (hpresent : pc.present = old.present) (howning : pc.owning = true → t = g.owner)
    (hunspawned : pc.unspawned s.count = old.unspawned s.count) : Stays g s t pc := by
  subst hpc
  exact ⟨hindex, hpresent, howning, hunspawned⟩

theorem Stays.unspawned_goto (h : Stays g s t pc) :
    (s.goto t pc).unspawned g = s.unspawned g := by
  unfold State.unspawned
  by_cases ht : g.owner = t
  · rw [ht, goto_pc_self]
    exact h.unspawned
  · rw [goto_pc_of_ne ht]
    rfl

theorem Placed.goto (h : Placed g s) (ht : s.memory.hasThread t = true)
    (hstays : Stays g s t pc)
    (halone : pc.exclusive = true → ∀ u, u ≠ t → (s.pc u).exclusive = false) :
    Placed g (s.goto t pc) := by
  have hindex : ∀ u, ((s.goto t pc).pc u).index = (s.pc u).index :=
    goto_cases (P := fun u pc => pc.index = (s.pc u).index) hstays.index fun _ _ => rfl
  have hpresent : ∀ u, ((s.goto t pc).pc u).present = (s.pc u).present :=
    goto_cases (P := fun u pc => pc.present = (s.pc u).present) hstays.present
      fun _ _ => rfl
  exact {
    fresh := goto_cases (P := fun u pc => pc ≠ .outside → s.memory.hasThread u = true)
      (fun _ => ht) fun u _ => h.fresh u
    room := h.room
    owner := goto_cases (P := fun u pc => pc.owning = true → u = g.owner) hstays.owning
      fun u _ => h.owner u
    alone := by
      intro u w hu hw
      by_cases hut : u = t
      · by_cases hwt : w = t
        · rw [hut, hwt]
        · rw [hut, goto_pc_self] at hu
          rw [goto_pc_of_ne hwt, halone hu w hwt] at hw
          cases hw
      · rw [goto_pc_of_ne hut] at hu
        by_cases hwt : w = t
        · rw [hwt, goto_pc_self] at hw
          rw [halone hw u hut] at hu
          cases hu
        · rw [goto_pc_of_ne hwt] at hw
          exact h.alone u w hu hw
    index := fun u w i hu hw => h.index u w i (hindex u ▸ hu) (hindex w ▸ hw)
    nodes := fun i => by
      simp only [hindex, hstays.unspawned_goto]
      exact h.nodes i
    deleted := fun i => by
      simp only [hindex, hpresent]
      exact h.deleted i
    nodup := h.nodup
    balance := by
      simp only [hpresent, hstays.unspawned_goto]
      exact h.balance }

theorem index_ne_owner (h : Placed g s) {i : Nat} (hindex : (s.pc t).index = some i) :
    t ≠ g.owner := by
  rintro rfl
  have hnode := (h.nodes i).mp ⟨_, hindex⟩
  unfold State.unspawned at hnode
  cases hpc : s.pc g.owner with
  | body _ | subLoading _ | subCommitting _ _ | finishing _ | exited _ =>
      rw [hpc] at hnode
      exact absurd hnode.2 (Nat.not_lt_of_le hnode.1)
  | _ =>
      rw [hpc] at hindex
      cases hindex

/-- The thread of a body leaves the group, and deletes its node. -/
theorem Placed.leave {i : Nat} (h : Placed g s) (ht : s.memory.hasThread t = true)
    (hnode : (s.pc t).index = some i) (hpresent : (s.pc t).present = true) :
    Placed g (s.leave t i) := by
  have hne := index_ne_owner h hnode
  have hindex : ∀ u, ((s.goto t (.exited i)).pc u).index = (s.pc u).index :=
    goto_cases (P := fun u pc => pc.index = (s.pc u).index) hnode.symm fun _ _ => rfl
  have hunspawned : (s.leave t i).unspawned g = s.unspawned g := by
    unfold State.unspawned State.leave
    dsimp only
    rw [goto_pc_of_ne hne.symm]
    rfl
  have hfresh : i ∉ s.deleted := by
    rw [h.deleted]
    rintro ⟨u, hu, habsent⟩
    rw [h.index u t i hu hnode, hpresent] at habsent
    cases habsent
  exact {
    fresh := goto_cases (P := fun u pc => pc ≠ .outside → s.memory.hasThread u = true)
      (fun _ => ht) fun u _ => h.fresh u
    room := h.room
    owner := goto_cases (P := fun u pc => pc.owning = true → u = g.owner)
      Bool.noConfusion fun u _ => h.owner u
    alone := by
      intro u w
      refine goto_cases (P := fun u pc => pc.exclusive = true →
        ((s.goto t (.exited i)).pc w).exclusive = true → u = w) Bool.noConfusion
        (fun u _ hu => ?_) u
      exact goto_cases (P := fun w pc => pc.exclusive = true → u = w) Bool.noConfusion
        (fun w _ => h.alone u w hu) w
    index := fun u w j hu hw => h.index u w j (hindex u ▸ hu) (hindex w ▸ hw)
    nodes := fun j => by
      rw [hunspawned]
      simp only [State.leave, hindex]
      exact h.nodes j
    deleted := fun j => by
      show j ∈ s.deleted ++ [i] ↔ ∃ u, ((s.goto t (.exited i)).pc u).index = some j ∧
        ((s.goto t (.exited i)).pc u).present = false
      simp only [hindex, List.mem_append, List.mem_singleton, h.deleted]
      constructor
      · rintro (⟨u, hu, habsent⟩ | rfl)
        · refine ⟨u, hu, ?_⟩
          rw [goto_pc_of_ne]
          · exact habsent
          · rintro rfl
            rw [hpresent] at habsent
            cases habsent
        · exact ⟨t, hnode, by rw [goto_pc_self]; rfl⟩
      · rintro ⟨u, hu, habsent⟩
        by_cases hut : u = t
        · subst hut
          exact Or.inr (Option.some.inj (hu.symm.trans hnode))
        · rw [goto_pc_of_ne hut] at habsent
          exact Or.inl ⟨u, hu, habsent⟩
    nodup := by
      refine List.nodup_append.mpr ⟨h.nodup, List.pairwise_singleton _ i, ?_⟩
      rintro j hj _ hi rfl
      rw [List.mem_singleton] at hi
      exact hfresh (hi ▸ hj)
    balance := by
      obtain ⟨hpos, hle⟩ := Memory.hasThread_iff.mp ht
      have hmove := @tally_move s.memory.threadCount t Pc s.pc (.exited i) Pc.present
        s.memory.threadCount h.present_le (Nat.le_refl _) hpos hle
      have hbalance := h.balance
      rw [hunspawned]
      rw [if_pos hpresent, if_neg (show ¬ (Pc.exited i).present = true from nofun)]
        at hmove
      show tally (fun u => (Function.update s.pc t (Pc.exited i) u).present)
        s.memory.threadCount + _ + (s.deleted ++ [i]).length = s.count
      rw [List.length_append, List.length_singleton]
      omega }

theorem Placed.add (h : Placed g s) (hpc : s.pc g.owner = .owns) :
    Placed g { s with count := s.count + 1 } := by
  have hbefore : s.unspawned g = s.count := by rw [State.unspawned, hpc]; rfl
  have hafter : State.unspawned g { s with count := s.count + 1 } = s.count + 1 := by
    simp only [State.unspawned, hpc]
    rfl
  exact {
    fresh := h.fresh
    room := h.room
    owner := h.owner
    alone := h.alone
    index := h.index
    nodes := fun i => by
      rw [hafter]
      have hnode := h.nodes i
      rw [hbefore] at hnode
      constructor
      · exact fun hu => absurd (hnode.mp hu).2 (Nat.not_lt_of_le (hnode.mp hu).1)
      · exact fun hi => absurd hi.2 (Nat.not_lt_of_le hi.1)
    deleted := h.deleted
    nodup := h.nodup
    balance := by
      have hbalance := h.balance
      rw [hbefore] at hbalance
      show tally (fun u => (s.pc u).present) s.memory.threadCount +
        State.unspawned g { s with count := s.count + 1 } + s.deleted.length = s.count + 1
      rw [hafter]
      omega }

/-- The states of the threads after a spawn. -/
theorem spawn_cases {nodes : Nat} {child : ThreadId} {P : ThreadId → Pc → Prop}
    (hchild : P child (.body nodes)) (howner : P g.owner (.spawning nodes))
    (hothers : ∀ u, u ≠ child → u ≠ g.owner → P u (s.pc u)) :
    ∀ u, P u (((s.goto g.owner (.spawning nodes)).goto child (.body nodes)).pc u) := by
  refine goto_cases hchild fun u huc => ?_
  by_cases hu : u = g.owner
  · rw [hu, goto_pc_self]
    exact howner
  · rw [goto_pc_of_ne hu]
    exact hothers u huc hu

theorem Placed.spawn {nodes : Nat} (h : Placed g s)
    (hpc : s.pc g.owner = .spawning (nodes + 1))
    (hspawn : s.memory.perform (.spawn g.owner (s.memory.threadCount + 1)) = some m) :
    Placed g { (s.goto g.owner (.spawning nodes)).goto (s.memory.threadCount + 1)
      (.body nodes) with memory := m } := by
  obtain ⟨m₁, hcreate, -, hle, hspawned⟩ := Memory.perform_spawn hspawn
  have hmore := (Memory.spawn_ok hcreate hle hspawned).2.1
  have hcount : s.memory.threadCount ≤ m.threadCount := hmore ▸ Nat.le_succ _
  have hroom := Memory.perform_maxThreads hspawn h.room
  clear hcreate hspawned
  have hnew : ∀ u, s.pc u ≠ .outside → u ≠ s.memory.threadCount + 1 :=
    fun u hu => Nat.ne_of_lt (Nat.lt_succ_of_le (h.le hu))
  generalize hchild : s.memory.threadCount + 1 = child at hnew hmore ⊢
  have hne : g.owner ≠ child := hnew _ (by rw [hpc]; exact Pc.noConfusion)
  have hout : s.pc child = .outside := by
    by_contra hpresent
    exact hnew child hpresent rfl
  have hbefore : s.unspawned g = nodes + 1 := by rw [State.unspawned, hpc]; rfl
  have hafter : State.unspawned g
      ((s.goto g.owner (.spawning nodes)).goto child (.body nodes)) = nodes := by
    unfold State.unspawned
    rw [goto_pc_of_ne hne, goto_pc_self]
    rfl
  have hunused : ∀ u, (s.pc u).index ≠ some nodes := by
    intro u hu
    have := ((h.nodes nodes).mp ⟨u, hu⟩).1
    rw [hbefore] at this
    exact absurd this (Nat.not_succ_le_self nodes)
  have hindex : ∀ u, u ≠ child →
      (((s.goto g.owner (.spawning nodes)).goto child (.body nodes)).pc u).index =
        (s.pc u).index :=
    spawn_cases (P := fun u pc => u ≠ child → pc.index = (s.pc u).index)
      (fun hfalse => absurd rfl hfalse) (fun _ => by rw [hpc]; rfl) fun _ _ _ _ => rfl
  have hself : (((s.goto g.owner (.spawning nodes)).goto child (.body nodes)).pc
      child).index = some nodes := by rw [goto_pc_self]; rfl
  exact {
    fresh := spawn_cases (P := fun u pc => pc ≠ .outside → m.hasThread u = true)
      (fun _ => Memory.hasThread_iff.mpr
        ⟨hchild ▸ Nat.succ_pos _, Nat.le_of_eq hmore.symm⟩)
      (fun _ => Memory.hasThread.mono
        (h.fresh g.owner (by rw [hpc]; exact Pc.noConfusion)) hcount)
      fun u _ _ hu => Memory.hasThread.mono (h.fresh u hu) hcount
    room := hroom
    owner := spawn_cases (P := fun u pc => pc.owning = true → u = g.owner)
      Bool.noConfusion (fun _ => rfl) fun u _ _ => h.owner u
    alone := by
      have honly : ∀ u, (((s.goto g.owner (.spawning nodes)).goto child
          (.body nodes)).pc u).exclusive = true → u = g.owner :=
        spawn_cases (P := fun u pc => pc.exclusive = true → u = g.owner)
          Bool.noConfusion (fun _ => rfl)
          fun u _ _ hu => h.alone u g.owner hu (by rw [hpc]; rfl)
      exact fun u w hu hw => (honly u hu).trans (honly w hw).symm
    index := by
      intro u w i hu hw
      by_cases huc : u = child
      · by_cases hwc : w = child
        · rw [huc, hwc]
        · rw [huc, hself] at hu
          cases hu
          exact absurd ((hindex w hwc).symm.trans hw) (hunused w)
      · by_cases hwc : w = child
        · rw [hwc, hself] at hw
          cases hw
          exact absurd ((hindex u huc).symm.trans hu) (hunused u)
        · exact h.index u w i ((hindex u huc).symm.trans hu)
            ((hindex w hwc).symm.trans hw)
    nodes := by
      intro i
      have hnode := h.nodes i
      have hbalance := h.balance
      rw [hbefore] at hnode hbalance
      show _ ↔ State.unspawned g
        ((s.goto g.owner (.spawning nodes)).goto child (.body nodes)) ≤ i ∧ i < s.count
      rw [hafter]
      constructor
      · rintro ⟨u, hu⟩
        by_cases huc : u = child
        · rw [huc] at hu
          cases hself.symm.trans hu
          omega
        · have := hnode.mp ⟨u, (hindex u huc).symm.trans hu⟩
          omega
      · intro hi
        by_cases hin : i = nodes
        · exact ⟨child, hin ▸ hself⟩
        · obtain ⟨u, hu⟩ := hnode.mpr (by omega)
          refine ⟨u, (hindex u ?_).trans hu⟩
          rintro rfl
          rw [hout] at hu
          cases hu
    deleted := by
      intro i
      refine (h.deleted i).trans ⟨?_, ?_⟩
      · rintro ⟨u, hu, habsent⟩
        refine ⟨u, ?_⟩
        rw [goto_pc_of_ne, goto_pc_of_ne]
        · exact ⟨hu, habsent⟩
        · rintro rfl
          rw [hpc] at hu
          cases hu
        · rintro rfl
          rw [hout] at hu
          cases hu
      · rintro ⟨u, hu, habsent⟩
        have huc : u ≠ child := by
          rintro rfl
          rw [goto_pc_self] at habsent
          cases habsent
        have huo : u ≠ g.owner := by
          rintro rfl
          rw [goto_pc_of_ne hne, goto_pc_self] at hu
          cases hu
        rw [goto_pc_of_ne huc, goto_pc_of_ne huo] at hu habsent
        exact ⟨u, hu, habsent⟩
    nodup := h.nodup
    balance := by
      have hbalance := h.balance
      rw [hbefore] at hbalance
      have hrest : tally (fun u => (((s.goto g.owner (.spawning nodes)).goto child
          (.body nodes)).pc u).present) s.memory.threadCount =
          tally (fun u => (s.pc u).present) s.memory.threadCount := by
        refine tally_congr fun u _ hu => ?_
        have huc : u ≠ child := hchild ▸ Nat.ne_of_lt (Nat.lt_succ_of_le hu)
        by_cases huo : u = g.owner
        · rw [huo, goto_pc_of_ne hne, goto_pc_self, hpc]
          rfl
        · rw [goto_pc_of_ne huc, goto_pc_of_ne huo]
      show tally (fun u => (((s.goto g.owner (.spawning nodes)).goto child
          (.body nodes)).pc u).present) m.threadCount + State.unspawned g
        ((s.goto g.owner (.spawning nodes)).goto child (.body nodes)) +
        s.deleted.length = s.count
      rw [hafter, hmore, ← hchild, tally, hchild, hrest, goto_pc_self,
        if_pos (show (Pc.body nodes).present = true from rfl)]
      omega }

/-- Where a turn takes the owner. -/
theorem Turn.stays (h : Turn g s pc m) :
    Stays g s g.owner pc ∧ m.threadCount = s.memory.threadCount := by
  cases h with
  | construct hpc => exact ⟨.of_pc hpc rfl rfl (fun _ => rfl) rfl, rfl⟩
  | initLeft hpc h | initDone hpc h | store hpc h =>
      exact ⟨.of_pc hpc rfl rfl (fun _ => rfl) rfl, Memory.reply_threadCount h⟩
  | joinNothing hpc hcount =>
      exact ⟨.of_pc hpc rfl rfl (fun _ => rfl) hcount.symm, rfl⟩
  | join hpc _ => exact ⟨.of_pc hpc rfl rfl (fun _ => rfl) rfl, rfl⟩
  | wait hpc hafter =>
      rcases hafter with rfl | ⟨rfl, -⟩ <;>
        exact ⟨.of_pc hpc rfl rfl (fun _ => rfl) rfl, rfl⟩
  | check hpc h hafter =>
      rcases hafter with ⟨rfl, -⟩ | rfl | ⟨rfl, -⟩ <;>
        exact ⟨.of_pc hpc rfl rfl (fun _ => rfl) rfl, Memory.reply_threadCount h⟩

theorem Pass.stays (h : Pass g s t pc m) :
    Stays g s t pc ∧ m.threadCount = s.memory.threadCount := by
  cases h with
  | exit hpc => exact ⟨.of_pc hpc rfl rfl Bool.noConfusion rfl, rfl⟩
  | load hpc h =>
      exact ⟨.of_pc hpc rfl rfl Bool.noConfusion rfl, Memory.reply_threadCount h⟩

/-- A turn of a thread that stays where it is, with another memory. -/
theorem Placed.move (h : Placed g s) (hrun : s.MayRun t) (hstays : Stays g s t pc)
    (hcount : m.threadCount = s.memory.threadCount) :
    Placed g { s.goto t pc with memory := m } :=
  (h.goto hrun.1 hstays fun _ _ hu => h.others hrun hu).memory
    (Nat.le_of_eq hcount.symm) (hcount ▸ h.room)

theorem Commits.spec {index old : Nat} (h : Commits g s t index old m) :
    (s.pc t).index = some index ∧ (s.pc t).present = true ∧
      m.threadCount = s.memory.threadCount := by
  obtain ⟨hpc, value, hreply⟩ := h
  rw [hpc]
  exact ⟨rfl, rfl, Memory.reply_threadCount hreply⟩

theorem Finishes.spec {index : Nat} (h : Finishes g s t index m) :
    (s.pc t).index = some index ∧ (s.pc t).present = true ∧
      m.threadCount = s.memory.threadCount := by
  obtain ⟨hpc, value, hreply⟩ := h
  rw [hpc]
  exact ⟨rfl, rfl, Memory.reply_threadCount hreply⟩

/-- Every step keeps the threads and the nodes apart. -/
theorem Placed.step (h : Placed g s) (hstep : Step g s s') : Placed g s' := by
  cases hstep with
  | user _ _ _ _ hperform =>
      exact h.memory (Memory.perform_threadCount hperform)
        (Memory.perform_maxThreads hperform h.room)
  | add hpc => exact h.add hpc
  | turn hrun hturn => exact h.move hrun hturn.stays.1 hturn.stays.2
  | spawn hrun hpc hspawn => exact h.spawn hpc hspawn
  | pass hrun hpass => exact h.move hrun hpass.stays.1 hpass.stays.2
  | commitLast hrun hcommit =>
      obtain ⟨-, -, hcount⟩ := hcommit.spec
      exact h.move hrun (.of_pc hcommit.1 rfl rfl Bool.noConfusion rfl) hcount
  | commit hrun _ hcommit =>
      obtain ⟨hindex, hpresent, hcount⟩ := hcommit.spec
      exact (h.memory (Nat.le_of_eq hcount.symm) (hcount ▸ h.room)).leave
        (Memory.hasThread.mono hrun.1 (Nat.le_of_eq hcount.symm)) hindex hpresent
  | finish hrun hfinish _ =>
      obtain ⟨hindex, hpresent, hcount⟩ := hfinish.spec
      exact (h.memory (Nat.le_of_eq hcount.symm) (hcount ▸ h.room)).leave
        (Memory.hasThread.mono hrun.1 (Nat.le_of_eq hcount.symm)) hindex hpresent
  | @finishWakes t index m m' hrun hfinish hparked hwake =>
      obtain ⟨hindex, hpresent, hcount⟩ := hfinish.spec
      have hgrown := Nat.le_trans (Nat.le_of_eq hcount.symm)
        (Memory.perform_threadCount hwake)
      have hne := index_ne_owner h hindex
      have hwoken : Placed g (s.goto g.owner .checking) :=
        h.goto (h.fresh _ (by rw [hparked]; exact Pc.noConfusion))
          (.of_pc hparked rfl rfl (fun _ => rfl) rfl) Bool.noConfusion
      have hmemory : Placed g { s.goto g.owner .checking with memory := m' } :=
        hwoken.memory hgrown
          (Memory.perform_maxThreads hwake (hcount ▸ h.room))
      refine hmemory.leave (Memory.hasThread.mono hrun.1 hgrown) ?_ ?_
      · exact (congrArg Pc.index (goto_pc_of_ne hne)).trans hindex
      · exact (congrArg Pc.present (goto_pc_of_ne hne)).trans hpresent

end Moves

/-! ### The words -/

/-- `Join` has stored the number of bodies. -/
def State.Running (g : Group) (s : State) : Prop :=
  (s.pc g.owner).started = true ∧ s.count ≠ 0

/-- `left_` counts down, and `done_` is set when nobody is left. -/
structure Counts (g : Group) (s : State) : Prop where
  busy : (s.pc g.owner).busy = true → s.count ≠ 0
  unset : s.pc g.owner = .owns ∨ s.pc g.owner = .storing → s.memory.Word g.done.loc 0
  left : s.Running g → (∀ u i, s.pc u ≠ .finishing i) →
    s.memory.Word g.left.loc (s.count - s.deleted.length)
  loaded : ∀ u i old, s.pc u = .subCommitting i old → s.memory.Word g.left.loc old
  done : s.Running g →
    s.memory.Word g.done.loc (if s.deleted.length = s.count then 1 else 0)
  finishing : ∀ u i, s.pc u = .finishing i →
    s.deleted.length + 1 = s.count ∧ s.memory.Word g.left.loc 0
  parked : s.pc g.owner = .parked → s.deleted.length ≠ s.count
  joined : s.pc g.owner = .joined → s.deleted.length = s.count

theorem Counts.start : Counts g State.start where
  busy h := Bool.noConfusion h
  unset h := by rcases h with h | h <;> cases h
  left h := Bool.noConfusion h.1
  loaded u i old h := Pc.noConfusion h
  done h := Bool.noConfusion h.1
  finishing u i h := Pc.noConfusion h
  parked h := Pc.noConfusion h
  joined h := Pc.noConfusion h

section Words

variable {pc : Pc} {m : Memory}

theorem Counts.memory {log : List OldAccess} (h : Counts g s)
    (hleft : m.atomics g.left.loc = s.memory.atomics g.left.loc)
    (hdone : m.atomics g.done.loc = s.memory.atomics g.done.loc) :
    Counts g { s with memory := m, log := log } where
  busy := h.busy
  unset hpc := (h.unset hpc).congr hdone
  left hrunning hnone := (h.left hrunning hnone).congr hleft
  loaded u i old hpc := (h.loaded u i old hpc).congr hleft
  done hrunning := (h.done hrunning).congr hdone
  finishing u i hpc := (h.finishing u i hpc).imp_right (·.congr hleft)
  parked := h.parked
  joined := h.joined

/-- A body has a thread only after `left_` was stored. -/
theorem Placed.running {i : Nat} (h : Placed g s) (hindex : (s.pc t).index = some i) :
    s.Running g := by
  obtain ⟨hle, hlt⟩ := (h.nodes i).mp ⟨t, hindex⟩
  refine ⟨?_, Nat.ne_of_gt (Nat.zero_lt_of_lt hlt)⟩
  unfold State.unspawned at hle
  cases hpc : s.pc g.owner with
  | spawning _ | parked | checking | joined => rfl
  | _ =>
      rw [hpc] at hle
      exact absurd hlt (Nat.not_lt_of_le hle)

/-- While the thread of a body runs, every body has a thread. -/
theorem Placed.unspawned_of_body {i : Nat} (h : Placed g s) (hrun : s.MayRun t)
    (hindex : (s.pc t).index = some i) : s.unspawned g = 0 := by
  have hstarted := (h.running hindex).1
  have hquiet := h.others hrun (index_ne_owner h hindex).symm
  unfold State.unspawned
  cases hpc : s.pc g.owner with
  | parked | checking | joined => rfl
  | spawning _ =>
      rw [hpc] at hquiet
      cases hquiet
  | _ =>
      rw [hpc] at hstarted
      cases hstarted

/-- While a body is there, the group is not finished. -/
theorem Placed.lt_of_present (h : Placed g s) (hpresent : (s.pc t).present = true) :
    s.deleted.length < s.count := by
  have hne : s.pc t ≠ .outside := by
    intro hpc
    rw [hpc] at hpresent
    cases hpresent
  obtain ⟨hpos, hle⟩ := Memory.hasThread_iff.mp (h.fresh t hne)
  have hsome := @tally_pos (fun u => (s.pc u).present) _ t hpresent hpos hle
  have hbalance := h.balance
  omega

/-- When the group is finished, every body has left it. -/
theorem Placed.absent (h : Placed g s) (hfinished : s.deleted.length = s.count) :
    ∀ u, (s.pc u).present = false := by
  intro u
  by_contra hpresent
  have := h.lt_of_present (Bool.eq_true_of_not_eq_false hpresent)
  omega

/-- While the owner or a body runs, nobody else has loaded or finished. -/
theorem Placed.quiet (h : Placed g s) (hrun : s.MayRun t) {u : ThreadId} (hu : u ≠ t)
    (i : Nat) : s.pc u ≠ .finishing i ∧ ∀ old, s.pc u ≠ .subCommitting i old := by
  have hquiet := h.others hrun hu
  constructor
  · intro hpc
    rw [hpc] at hquiet
    cases hquiet
  · intro old hpc
    rw [hpc] at hquiet
    cases hquiet

theorem Placed.unfinished (h : Placed g s) (hrun : s.MayRun t)
    (hpc : ∀ i, s.pc t ≠ .finishing i) : ∀ u i, s.pc u ≠ .finishing i := by
  intro u i hu
  by_cases hut : u = t
  · exact hpc i (hut ▸ hu)
  · exact (h.quiet hrun hut i).1 hu

/-- Only the thread that runs can have loaded or finished. -/
theorem Placed.goto_loaded {P : Nat → Prop} (h : Placed g s) (hrun : s.MayRun t)
    (hself : ∀ i old, pc = .subCommitting i old → P old) :
    ∀ u i old, (s.goto t pc).pc u = .subCommitting i old → P old :=
  goto_cases (P := fun _ pc => ∀ i old, pc = .subCommitting i old → P old) hself
    fun _ hu i old hpc => absurd hpc ((h.quiet hrun hu i).2 old)

theorem Placed.goto_finishing {P : Prop} (h : Placed g s) (hrun : s.MayRun t)
    (hself : ∀ i, pc = .finishing i → P) :
    ∀ u i, (s.goto t pc).pc u = .finishing i → P :=
  goto_cases (P := fun _ pc => ∀ i, pc = .finishing i → P) hself
    fun _ hu i hpc => absurd hpc (h.quiet hrun hu i).1

theorem Placed.goto_quiet (h : Placed g s) (hrun : s.MayRun t)
    (hself : ∀ i, pc ≠ .finishing i ∧ ∀ old, pc ≠ .subCommitting i old) :
    ∀ u i, (s.goto t pc).pc u ≠ .finishing i ∧
      ∀ old, (s.goto t pc).pc u ≠ .subCommitting i old :=
  goto_cases (P := fun _ pc => ∀ i, pc ≠ .finishing i ∧
    ∀ old, pc ≠ .subCommitting i old) hself fun _ hu i => h.quiet hrun hu i

theorem Placed.spawn_quiet {nodes : Nat} {child : ThreadId} (h : Placed g s)
    (hrun : s.MayRun g.owner) : ∀ u i,
      ((s.goto g.owner (.spawning nodes)).goto child (.body nodes)).pc u ≠ .finishing i ∧
        ∀ old, ((s.goto g.owner (.spawning nodes)).goto child (.body nodes)).pc u ≠
          .subCommitting i old :=
  spawn_cases (P := fun _ pc => ∀ i, pc ≠ .finishing i ∧
    ∀ old, pc ≠ .subCommitting i old) (fun _ => ⟨Pc.noConfusion, fun _ => Pc.noConfusion⟩)
    (fun _ => ⟨Pc.noConfusion, fun _ => Pc.noConfusion⟩)
    fun _ _ hu i => h.quiet hrun hu i

theorem Counts.add (h : Counts g s) (hplaced : Placed g s)
    (hpc : s.pc g.owner = .owns) : Counts g { s with count := s.count + 1 } := by
  have hstopped : ∀ u i, (s.pc u).index ≠ some i := by
    intro u i hindex
    have hstarted := (hplaced.running hindex).1
    rw [hpc] at hstarted
    cases hstarted
  exact {
    busy := fun hbusy => absurd hbusy (by rw [hpc]; decide)
    unset := h.unset
    left := fun hrunning => absurd hrunning.1 (by
      show ¬ (s.pc g.owner).started = true
      rw [hpc]
      decide)
    loaded := h.loaded
    done := fun hrunning => absurd hrunning.1 (by
      show ¬ (s.pc g.owner).started = true
      rw [hpc]
      decide)
    finishing := fun u i hu => absurd (congrArg Pc.index hu) (hstopped u i)
    parked := fun hu => absurd (hpc.symm.trans hu) (by decide)
    joined := fun hu => absurd (hpc.symm.trans hu) (by decide) }

/-- A step of the owner, after which no body is between its load and the end. -/
theorem counts_of_owner {s' : State} (hpc : s'.pc g.owner = pc)
    (hnone : ∀ u i, s'.pc u ≠ .finishing i ∧ ∀ old, s'.pc u ≠ .subCommitting i old)
    (hbusy : pc.busy = true → s'.count ≠ 0)
    (hunset : pc = .owns ∨ pc = .storing → s'.memory.Word g.done.loc 0)
    (hwords : pc.started = true → s'.count ≠ 0 →
      s'.memory.Word g.left.loc (s'.count - s'.deleted.length) ∧
        s'.memory.Word g.done.loc (if s'.deleted.length = s'.count then 1 else 0))
    (hparked : pc = .parked → s'.deleted.length ≠ s'.count)
    (hjoined : pc = .joined → s'.deleted.length = s'.count) : Counts g s' := by
  subst hpc
  exact {
    busy := hbusy
    unset := hunset
    left := fun hrunning _ => (hwords hrunning.1 hrunning.2).1
    loaded := fun u i old hu => absurd hu ((hnone u i).2 old)
    done := fun hrunning => (hwords hrunning.1 hrunning.2).2
    finishing := fun u i hu => absurd hu (hnone u i).1
    parked := hparked
    joined := hjoined }

/-- While the owner runs, both words are known. -/
theorem Counts.words (h : Counts g s) (hplaced : Placed g s) (hrun : s.MayRun g.owner)
    (hstarted : (s.pc g.owner).started = true) (hcount : s.count ≠ 0) :
    s.memory.Word g.left.loc (s.count - s.deleted.length) ∧
      s.memory.Word g.done.loc (if s.deleted.length = s.count then 1 else 0) := by
  refine ⟨h.left ⟨hstarted, hcount⟩ (hplaced.unfinished hrun fun i hpc => ?_),
    h.done ⟨hstarted, hcount⟩⟩
  rw [hpc] at hstarted
  cases hstarted

/-- What a turn of the owner does to the words, and what they tell it. -/
theorem Turn.words (h : Turn g s pc m) (hcounts : Counts g s) (hplaced : Placed g s)
    (hrun : s.MayRun g.owner) :
    (pc.busy = true → s.count ≠ 0) ∧
      (pc = .owns ∨ pc = .storing → m.Word g.done.loc 0) ∧
      (pc.started = true → s.count ≠ 0 →
        m.Word g.left.loc (s.count - s.deleted.length) ∧
          m.Word g.done.loc (if s.deleted.length = s.count then 1 else 0)) ∧
      (pc = .parked → s.deleted.length ≠ s.count) ∧
      (pc = .joined → s.deleted.length = s.count) := by
  have hbalance := hplaced.balance
  unfold State.unspawned at hbalance
  cases h with
  | construct hpc | initLeft hpc _ => simp [Pc.busy, Pc.started]
  | initDone hpc h =>
      have hword := Memory.init_spec (Memory.reply_ok h).2 rfl
      exact ⟨Bool.noConfusion, fun _ => hword, Bool.noConfusion, Pc.noConfusion,
        Pc.noConfusion⟩
  | joinNothing hpc hcount =>
      refine ⟨Bool.noConfusion, by simp, fun _ hne => absurd hcount hne,
        Pc.noConfusion, fun _ => ?_⟩
      rw [hcount] at hbalance ⊢
      omega
  | join hpc hcount =>
      exact ⟨fun _ => hcount, fun _ => hcounts.unset (Or.inl hpc), Bool.noConfusion,
        Pc.noConfusion, Pc.noConfusion⟩
  | @store value m hpc h =>
      have hcount := hcounts.busy (by rw [hpc]; rfl)
      obtain ⟨hword, hothers, -⟩ := Memory.store_spec (Memory.reply_ok h).2 rfl
      have hunset := (hcounts.unset (Or.inr hpc)).congr (hothers _ g.apart.symm)
      have hnobody : s.deleted.length = 0 := by
        rw [hpc] at hbalance
        simp only [Pc.unspawned] at hbalance
        omega
      refine ⟨fun _ => hcount, by simp, fun _ _ => ⟨?_, ?_⟩, Pc.noConfusion,
        Pc.noConfusion⟩
      · rw [hnobody]
        exact hword
      · rw [hnobody, if_neg hcount.symm]
        exact hunset
  | @wait pc hpc hafter =>
      have hcount := hcounts.busy (by rw [hpc]; rfl)
      have hwords := hcounts.words hplaced hrun (by rw [hpc]; rfl)
      rcases hafter with rfl | ⟨rfl, hzero⟩
      · exact ⟨fun _ => hcount, by simp, fun _ => hwords, Pc.noConfusion, Pc.noConfusion⟩
      · refine ⟨fun _ => hcount, by simp, fun _ => hwords, fun _ hfinished => ?_,
          Pc.noConfusion⟩
        have hone := (hwords hcount).2
        rw [if_pos hfinished] at hone
        exact absurd (hone.unique hzero) (by decide)
  | @check value pc m hpc h hafter =>
      have hcount := hcounts.busy (by rw [hpc]; rfl)
      have hwords := hcounts.words hplaced hrun (by rw [hpc]; rfl) hcount
      obtain ⟨hvalue, hsame, -⟩ := Memory.load_spec (Memory.reply_ok h).2 (Or.inl rfl)
      have hkept : m.Word g.left.loc (s.count - s.deleted.length) ∧
          m.Word g.done.loc (if s.deleted.length = s.count then 1 else 0) :=
        ⟨hwords.1.congr (congrFun hsame _), hwords.2.congr (congrFun hsame _)⟩
      have hread := hvalue.unique hwords.2
      rcases hafter with ⟨rfl, rfl⟩ | rfl | ⟨rfl, rfl⟩
      · refine ⟨Bool.noConfusion, by simp, fun _ _ => hkept, Pc.noConfusion, fun _ => ?_⟩
        by_contra hunfinished
        rw [if_neg hunfinished] at hread
        cases hread
      · exact ⟨fun _ => hcount, by simp, fun _ _ => hkept, Pc.noConfusion, Pc.noConfusion⟩
      · refine ⟨fun _ => hcount, by simp, fun _ _ => hkept, fun _ hfinished => ?_,
          Pc.noConfusion⟩
        rw [if_pos hfinished] at hread
        cases hread

theorem Turn.owning (h : Turn g s pc m) : pc.owning = true := by
  cases h with
  | wait _ hafter => rcases hafter with rfl | ⟨rfl, -⟩ <;> rfl
  | check _ _ hafter => rcases hafter with ⟨rfl, -⟩ | rfl | ⟨rfl, -⟩ <;> rfl
  | _ => rfl

theorem owning_quiet (h : pc.owning = true) (i : Nat) :
    pc ≠ .finishing i ∧ ∀ old, pc ≠ .subCommitting i old := by
  constructor
  · rintro rfl
    cases h
  · rintro old rfl
    cases h

theorem Counts.turn (h : Counts g s) (hplaced : Placed g s) (hrun : s.MayRun g.owner)
    (hturn : Turn g s pc m) : Counts g { s.goto g.owner pc with memory := m } := by
  obtain ⟨hbusy, hunset, hwords, hparked, hjoined⟩ := hturn.words h hplaced hrun
  exact counts_of_owner (goto_pc_self _ _ _)
    (hplaced.goto_quiet hrun (owning_quiet hturn.owning)) hbusy hunset hwords hparked
    hjoined

theorem Counts.spawn {nodes : Nat} (h : Counts g s) (hplaced : Placed g s)
    (hrun : s.MayRun g.owner) (hpc : s.pc g.owner = .spawning (nodes + 1))
    (hspawn : s.memory.perform (.spawn g.owner (s.memory.threadCount + 1)) = some m) :
    Counts g { (s.goto g.owner (.spawning nodes)).goto (s.memory.threadCount + 1)
      (.body nodes) with memory := m } := by
  have hcount := h.busy (by rw [hpc]; rfl)
  have hwords := h.words hplaced hrun (by rw [hpc]; rfl) hcount
  have hle := hplaced.le (u := g.owner) (by rw [hpc]; exact Pc.noConfusion)
  have howner : (((s.goto g.owner (.spawning nodes)).goto (s.memory.threadCount + 1)
      (.body nodes)).pc g.owner) = .spawning nodes := by
    rw [goto_pc_of_ne (Nat.ne_of_lt (Nat.lt_succ_of_le hle)), goto_pc_self]
  exact counts_of_owner howner (hplaced.spawn_quiet hrun) (fun _ => hcount) (by simp)
    (fun _ _ => ⟨Memory.perform_word rfl hspawn hwords.1,
      Memory.perform_word rfl hspawn hwords.2⟩) Pc.noConfusion Pc.noConfusion

/-- While a body is there, the word that it will decrement is what is left. -/
theorem Counts.loaded_eq {i old : Nat} (h : Counts g s) (hplaced : Placed g s)
    (hrun : s.MayRun t) (hpc : s.pc t = .subCommitting i old) :
    old = s.count - s.deleted.length ∧ s.deleted.length < s.count ∧ old ≤ maxThreads := by
  have hindex : (s.pc t).index = some i := by rw [hpc]; rfl
  have hlt := hplaced.lt_of_present (t := t) (by rw [hpc]; rfl)
  have hleft := h.left (hplaced.running hindex)
    (hplaced.unfinished hrun fun _ hu => Pc.noConfusion (hpc.symm.trans hu))
  have heq := (h.loaded t i old hpc).unique hleft
  have hbalance := hplaced.balance
  rw [hplaced.unspawned_of_body hrun hindex] at hbalance
  have htally := @tally_le (fun u => (s.pc u).present) s.memory.threadCount
  have hroom := hplaced.room
  exact ⟨heq, hlt, by omega⟩

/-- A step of a body leaves the owner in `Join`, perhaps awake. -/
theorem counts_of_body {s' : State} {i : Nat} (hplaced : Placed g s)
    (hcounts : Counts g s) (hindex : (s.pc t).index = some i)
    (hpresent : (s.pc t).present = true)
    (howner : s'.pc g.owner = s.pc g.owner ∨ s'.pc g.owner = .checking)
    (hcount : s'.count = s.count)
    (hleft : (∀ u j, s'.pc u ≠ .finishing j) →
      s'.memory.Word g.left.loc (s'.count - s'.deleted.length))
    (hloaded : ∀ u j old, s'.pc u = .subCommitting j old → s'.memory.Word g.left.loc old)
    (hdone : s'.memory.Word g.done.loc (if s'.deleted.length = s'.count then 1 else 0))
    (hfinishing : ∀ u j, s'.pc u = .finishing j →
      s'.deleted.length + 1 = s'.count ∧ s'.memory.Word g.left.loc 0)
    (hparked : s'.pc g.owner = .parked → s'.deleted.length ≠ s'.count) :
    Counts g s' := by
  obtain ⟨hstarted, hne⟩ := hplaced.running hindex
  have hstarted' : (s'.pc g.owner).started = true := by
    rcases howner with howner | howner
    · rw [howner]
      exact hstarted
    · rw [howner]
      rfl
  have hunset : ¬ (s'.pc g.owner = .owns ∨ s'.pc g.owner = .storing) := by
    rintro (hpc | hpc) <;> rw [hpc] at hstarted' <;> cases hstarted'
  have hjoined : s'.pc g.owner ≠ .joined := by
    rcases howner with howner | howner
    · rw [howner]
      intro hpc
      have := hcounts.joined hpc
      exact absurd (hplaced.lt_of_present hpresent) (by omega)
    · rw [howner]
      exact Pc.noConfusion
  exact {
    busy := fun _ => by rw [hcount]; exact hne
    unset := fun hpc => absurd hpc hunset
    left := fun _ => hleft
    loaded := hloaded
    done := fun _ => hdone
    finishing := hfinishing
    parked := hparked
    joined := fun hpc => absurd hpc hjoined }

theorem Counts.pass (h : Counts g s) (hplaced : Placed g s) (hrun : s.MayRun t)
    (hpass : Pass g s t pc m) : Counts g { s.goto t pc with memory := m } := by
  cases hpass with
  | @exit i hpc =>
      have hindex : (s.pc t).index = some i := by rw [hpc]; rfl
      have hrunning := hplaced.running hindex
      have hnone := hplaced.unfinished hrun fun _ hu => Pc.noConfusion (hpc.symm.trans hu)
      have hsame : (s.goto t (.subLoading i)).pc g.owner = s.pc g.owner := goto_pc_of_ne
        (index_ne_owner hplaced hindex).symm
      exact counts_of_body hplaced h hindex (by rw [hpc]; rfl) (Or.inl hsame) rfl
        (fun _ => h.left hrunning hnone)
        (hplaced.goto_loaded hrun fun _ _ => Pc.noConfusion) (h.done hrunning)
        (hplaced.goto_finishing hrun fun _ => Pc.noConfusion)
        fun hu => h.parked (hsame.symm.trans hu)
  | @load i old m hpc hreply =>
      have hindex : (s.pc t).index = some i := by rw [hpc]; rfl
      have hrunning := hplaced.running hindex
      have hnone := hplaced.unfinished hrun fun _ hu => Pc.noConfusion (hpc.symm.trans hu)
      have hsame : (s.goto t (.subCommitting i old)).pc g.owner = s.pc g.owner := goto_pc_of_ne
        (index_ne_owner hplaced hindex).symm
      obtain ⟨hword, hatomics, -⟩ :=
        Memory.load_spec (Memory.reply_ok hreply).2 (Or.inr rfl)
      refine counts_of_body hplaced h hindex (by rw [hpc]; rfl) (Or.inl hsame) rfl
        (fun _ => (h.left hrunning hnone).congr (congrFun hatomics _))
        (hplaced.goto_loaded hrun fun _ _ heq => ?_)
        ((h.done hrunning).congr (congrFun hatomics _))
        (hplaced.goto_finishing hrun fun _ => Pc.noConfusion)
        fun hu => h.parked (hsame.symm.trans hu)
      cases heq
      exact hword.congr (congrFun hatomics _)

/-- The last body has subtracted itself. -/
theorem Counts.commitLast {i : Nat} (h : Counts g s) (hplaced : Placed g s)
    (hrun : s.MayRun t) (hcommit : Commits g s t i 1 m) :
    Counts g { s.goto t (.finishing i) with memory := m } := by
  obtain ⟨hindex, hpresent, -⟩ := hcommit.spec
  obtain ⟨hpc, value, hreply⟩ := hcommit
  obtain ⟨hone, hlt, -⟩ := h.loaded_eq hplaced hrun hpc
  have hlast : s.deleted.length + 1 = s.count := by omega
  obtain ⟨hword, hothers, -⟩ := Memory.commit_spec (Memory.reply_ok hreply).2 rfl
  have hsame : (s.goto t (.finishing i)).pc g.owner = s.pc g.owner := goto_pc_of_ne
    (index_ne_owner hplaced hindex).symm
  exact counts_of_body hplaced h hindex hpresent (Or.inl hsame) rfl
    (fun hnone => absurd (goto_pc_self s t (.finishing i)) (hnone t i))
    (hplaced.goto_loaded hrun fun _ _ => Pc.noConfusion)
    ((h.done (hplaced.running hindex)).congr (hothers _ g.apart.symm))
    (hplaced.goto_finishing hrun fun _ _ => ⟨hlast, hword⟩)
    fun hu => h.parked (hsame.symm.trans hu)

/-- A body that is not the last has subtracted itself, and leaves. -/
theorem Counts.commit {i old : Nat} (h : Counts g s) (hplaced : Placed g s)
    (hrun : s.MayRun t) (hold : old ≠ 1) (hcommit : Commits g s t i old m) :
    Counts g (State.leave { s with memory := m } t i) := by
  obtain ⟨hindex, hpresent, -⟩ := hcommit.spec
  obtain ⟨hpc, value, hreply⟩ := hcommit
  obtain ⟨heq, hlt, hsmall⟩ := h.loaded_eq hplaced hrun hpc
  obtain ⟨hword, hothers, -⟩ := Memory.commit_spec (Memory.reply_ok hreply).2 rfl
  have hsame : (s.goto t (.exited i)).pc g.owner = s.pc g.owner := goto_pc_of_ne
    (index_ne_owner hplaced hindex).symm
  have hlength : (s.deleted ++ [i]).length = s.deleted.length + 1 := by
    rw [List.length_append, List.length_singleton]
  have hunfinished : (s.deleted ++ [i]).length ≠ s.count := by omega
  have hdone := (h.done (hplaced.running hindex)).congr (hothers _ g.apart.symm)
  rw [if_neg (Nat.ne_of_lt hlt)] at hdone
  refine counts_of_body hplaced h hindex hpresent (Or.inl hsame) rfl (fun _ => ?_)
    (hplaced.goto_loaded hrun fun _ _ => Pc.noConfusion) ?_
    (hplaced.goto_finishing hrun fun _ => Pc.noConfusion) fun _ => hunfinished
  · show m.Word g.left.loc (s.count - (s.deleted ++ [i]).length)
    have hvalue : (old + 2 ^ 64 - 1) % 2 ^ 64 =
        s.count - (s.deleted ++ [i]).length := by
      simp only [maxThreads] at hsmall
      omega
    exact hvalue ▸ hword
  · show m.Word g.done.loc (if (s.deleted ++ [i]).length = s.count then 1 else 0)
    rw [if_neg hunfinished]
    exact hdone

/-- The threads after the last body has left and may have woken the owner. -/
structure Departs (g : Group) (s s' : State) (t : ThreadId) (i : Nat) : Prop where
  finishing : s.pc t = .finishing i
  self : s'.pc t = .exited i
  others : ∀ u, u ≠ t → s'.pc u = s.pc u ∨ u = g.owner ∧ s'.pc u = .checking
  count : s'.count = s.count
  deleted : s'.deleted = s.deleted ++ [i]
  log : s'.log = s.log

theorem departs {i : Nat} (hpc : s.pc t = .finishing i) (m : Memory) :
    Departs g s (State.leave { s with memory := m } t i) t i :=
  ⟨hpc, goto_pc_self _ _ _, fun _ hu => Or.inl (goto_pc_of_ne hu), rfl, rfl, rfl⟩

theorem departs_wakes {i : Nat} (hpc : s.pc t = .finishing i) (m : Memory) :
    Departs g s (State.leave { s.goto g.owner .checking with memory := m } t i) t i := by
  refine ⟨hpc, goto_pc_self _ _ _, fun u hu => ?_, rfl, rfl, rfl⟩
  have hrest : (State.leave { s.goto g.owner .checking with memory := m } t i).pc u =
      (s.goto g.owner .checking).pc u := goto_pc_of_ne hu
  rw [hrest]
  by_cases huo : u = g.owner
  · exact Or.inr ⟨huo, huo ▸ goto_pc_self _ _ _⟩
  · exact Or.inl (goto_pc_of_ne huo)

theorem Departs.quiet {i : Nat} (h : Departs g s s' t i) (hplaced : Placed g s)
    (hrun : s.MayRun t) (u : ThreadId) (j : Nat) :
    s'.pc u ≠ .finishing j ∧ ∀ old, s'.pc u ≠ .subCommitting j old := by
  by_cases hut : u = t
  · rw [hut, h.self]
    exact ⟨Pc.noConfusion, fun _ => Pc.noConfusion⟩
  · rcases h.others u hut with hsame | ⟨-, hchecking⟩
    · rw [hsame]
      exact hplaced.quiet hrun hut j
    · rw [hchecking]
      exact ⟨Pc.noConfusion, fun _ => Pc.noConfusion⟩

/-- The last body has stored `1`. -/
theorem Departs.counts {i : Nat} (h : Departs g s s' t i) (hcounts : Counts g s)
    (hplaced : Placed g s) (hrun : s.MayRun t)
    (hleft : s'.memory.atomics g.left.loc = s.memory.atomics g.left.loc)
    (hdone : s'.memory.Word g.done.loc 1) (hparked : s'.pc g.owner ≠ .parked) :
    Counts g s' := by
  have hindex : (s.pc t).index = some i := by rw [h.finishing]; rfl
  obtain ⟨hlast, hzero⟩ := hcounts.finishing t i h.finishing
  have hfinished : s'.deleted.length = s'.count := by
    rw [h.deleted, h.count, List.length_append, List.length_singleton]
    exact hlast
  have howner := (h.others g.owner (index_ne_owner hplaced hindex).symm).imp_right And.right
  refine counts_of_body hplaced hcounts hindex (by rw [h.finishing]; rfl) howner h.count
    (fun _ => ?_) (fun u j old hu => absurd hu ((h.quiet hplaced hrun u j).2 old)) ?_
    (fun u j hu => absurd hu (h.quiet hplaced hrun u j).1) fun hu => absurd hu hparked
  · rw [hfinished, Nat.sub_self]
    exact hzero.congr hleft
  · rw [if_pos hfinished]
    exact hdone

/-- Every step keeps the words right. -/
theorem Counts.step (h : Counts g s) (hplaced : Placed g s) (hstep : Step g s s') :
    Counts g s' := by
  cases hstep with
  | user _ _ hleft hdone hperform =>
      exact h.memory (Memory.exec_atomics hleft (Memory.perform_ok hperform))
        (Memory.exec_atomics hdone (Memory.perform_ok hperform))
  | add hpc => exact h.add hplaced hpc
  | turn hrun hturn => exact h.turn hplaced hrun hturn
  | spawn hrun hpc hspawn => exact h.spawn hplaced hrun hpc hspawn
  | pass hrun hpass => exact h.pass hplaced hrun hpass
  | commitLast hrun hcommit => exact h.commitLast hplaced hrun hcommit
  | commit hrun hold hcommit => exact h.commit hplaced hrun hold hcommit
  | @finish t i m hrun hfinish hquiet =>
      obtain ⟨hpc, value, hreply⟩ := hfinish
      obtain ⟨hword, hothers, -⟩ := Memory.store_spec (Memory.reply_ok hreply).2 rfl
      refine (departs hpc m).counts h hplaced hrun (hothers _ g.apart) hword ?_
      have hne := index_ne_owner hplaced (t := t) (by rw [hpc]; rfl)
      exact fun hu => hquiet ((goto_pc_of_ne hne.symm).symm.trans hu)
  | @finishWakes t i m m' hrun hfinish hparked hwake =>
      obtain ⟨hpc, value, hreply⟩ := hfinish
      obtain ⟨hword, hothers, -⟩ := Memory.store_spec (Memory.reply_ok hreply).2 rfl
      have hsame : m'.atomics g.left.loc = m.atomics g.left.loc :=
        Memory.exec_atomics rfl (Memory.perform_ok hwake)
      refine (departs_wakes hpc m').counts h hplaced hrun
        (hsame.trans (hothers _ g.apart)) (Memory.perform_word rfl hwake hword) ?_
      have hne := index_ne_owner hplaced (t := t) (by rw [hpc]; rfl)
      intro hu
      have := (goto_pc_of_ne hne.symm).symm.trans hu
      rw [goto_pc_self] at this
      cases this

end Words

end WaitGroup

end TwistSim
