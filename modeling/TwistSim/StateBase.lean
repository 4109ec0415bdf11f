/-
`thread::StateBase` under every interleaving: one thread constructs a `thread` and
joins or detaches it once, the other runs and leaves without preemption, and whoever
comes last destroys the shared state.
-/
import TwistSim.Protocols

namespace TwistSim

namespace StateBase

/-- Where the owner of the `thread` object is: at a `Sync` that is about to be
executed, on the futex, or in the user's code. -/
inductive Parent where
  | outside
  | initializing
  | spawning
  /-- The `thread` object has its state. -/
  | has
  | joinLoading
  | parked
  | detachLoading
  | detachCommitting (old : Nat)
  | destroying (joins : Bool)
  | joined
  | detached
  deriving DecidableEq, Repr

namespace Parent

/-- In the user's code. -/
def idle : Parent → Bool
  | outside | has | joined | detached => true
  | _ => false

/-- Between two points at which the thread may be switched out. -/
def exclusive : Parent → Bool
  | spawning | detachCommitting _ => true
  | _ => false

/-- Has neither joined nor detached. -/
def holds : Parent → Bool
  | has | joinLoading | parked | detachLoading | detachCommitting _ => true
  | _ => false

/-- `join` or `detach` has returned. -/
def finished : Parent → Bool
  | joined | detached => true
  | _ => false

end Parent

/-- Where the new thread is in `Entry`. -/
inductive Child where
  | unborn
  /-- In `RunUser`. -/
  | running
  /-- In the destructors of its thread-locals. -/
  | destructing
  | subLoading
  | subCommitting (old : Nat)
  | destroying
  /-- `AtThreadExit` has returned. -/
  | exited
  deriving DecidableEq, Repr

namespace Child

/-- In the user's code, or not there yet. -/
def idle : Child → Bool
  | unborn | running | destructing => true
  | _ => false

/-- In `AtThreadExit`, which is not preempted. -/
def exclusive : Child → Bool
  | subLoading | subCommitting _ | destroying => true
  | _ => false

/-- Has not subtracted itself yet. -/
def present : Child → Bool
  | running | destructing | subLoading | subCommitting _ => true
  | _ => false

end Child

/-- Both threads, how often the state has been destroyed, and what was done by the
new thread before `AtThreadExit`. -/
structure State where
  memory : Memory
  parent : Parent
  child : Child
  id : ThreadId
  destroyed : Nat
  log : List OldAccess

/-- What happens next: a thread does something in user code, the owner constructs,
joins or detaches, `RunUser` or the destructors of the new thread return, or one of
the two goes on.  The scheduler chooses whether a wait fails spuriously. -/
inductive Event where
  | user (op : Op)
  | construct
  | join
  | detach
  | returns
  | exit
  | resumeParent (spurious : Bool)
  | resumeChild
  deriving DecidableEq, Repr

namespace State

def start : State where
  memory := Memory.start
  parent := .outside
  child := .unborn
  id := 0
  destroyed := 0
  log := []

variable (p : ThreadId) (v : SyncVar)

/-- Nobody else runs between two points at which a thread may be switched out. -/
def MayRun (s : State) (t : ThreadId) : Prop :=
  s.memory.hasThread t = true ∧ (t = p ∨ s.parent.exclusive = false) ∧
    (t = s.id ∨ s.child.exclusive = false)

instance (s : State) (t : ThreadId) : Decidable (s.MayRun p t) := by
  unfold MayRun
  infer_instance

def idle (s : State) (t : ThreadId) : Bool :=
  (t != p || s.parent.idle) && (t != s.id || s.child.idle)

/-- Remember what is done by the new thread. -/
def note (s : State) (m : Memory) (op : Op) : List OldAccess :=
  if s.child.present && op.performer == s.id then m.record op :: s.log else s.log

/-- `FutexWait(sync, 2)`. -/
def futexWait (s : State) (spurious : Bool) : Option State :=
  if spurious then some { s with parent := .joinLoading }
  else (s.memory.futexLoad v.futexLoc).map fun value =>
    { s with parent := if value = 2 then .parked else .joinLoading }

/-- `FutexWake(sync, 1)`. -/
def futexWake (s : State) : Option State :=
  if s.parent = .parked then
    (s.memory.perform (.wake s.id p)).map fun m =>
      { s with memory := m, parent := .joinLoading }
  else some s

/-- `FetchSub(1)`. -/
def fetchSub (old : Nat) : Action :=
  v.rmwCommit ((old + 2 ^ 32 - 1) % 2 ^ 32) .acqRel "atomic::fetch_sub"

/-- The owner executes its pending action and runs until the next one. -/
def resumeParent (s : State) (spurious : Bool) : Option State :=
  match s.parent with
  | .initializing =>
      (s.memory.reply p (v.init 2)).map fun (_, m) =>
        { s with memory := m, parent := .spawning }
  | .spawning =>
      let child := s.memory.threadCount + 1
      (s.memory.perform (.spawn p child)).map fun m =>
        { s with memory := m, parent := .has, child := .running, id := child }
  | .joinLoading =>
      (s.memory.reply p (v.load .acquire)).bind fun (value, m) =>
        let s := { s with memory := m }
        if value = 2 then s.futexWait v spurious
        else some { s with parent := .destroying true }
  | .detachLoading =>
      (s.memory.reply p (v.rmwLoad .acqRel "atomic::fetch_sub")).map fun (old, m) =>
        { s with memory := m, parent := .detachCommitting old }
  | .detachCommitting old =>
      (s.memory.reply p (fetchSub v old)).map fun (_, m) =>
        { s with
          memory := m
          parent := if old = 1 then .destroying false else .detached }
  | .destroying joins =>
      (s.memory.reply p v.destroy).map fun (_, m) =>
        { s with
          memory := m
          parent := if joins then .joined else .detached
          destroyed := s.destroyed + 1 }
  | .outside | .has | .parked | .joined | .detached => none

/-- So does the new thread. -/
def resumeChild (s : State) : Option State :=
  match s.child with
  | .subLoading =>
      (s.memory.reply s.id (v.rmwLoad .acqRel "atomic::fetch_sub")).map fun (old, m) =>
        { s with memory := m, child := .subCommitting old }
  | .subCommitting old =>
      (s.memory.reply s.id (fetchSub v old)).bind fun (_, m) =>
        let s := { s with memory := m }
        if old = 1 then some { s with child := .destroying }
        else (s.futexWake p).map fun s => { s with child := .exited }
  | .destroying =>
      (s.memory.reply s.id v.destroy).map fun (_, m) =>
        { s with memory := m, child := .exited, destroyed := s.destroyed + 1 }
  | .unborn | .running | .destructing | .exited => none

def next (s : State) : Event → Option State
  | .user op =>
      if s.MayRun p op.performer ∧ op.allowed (s.idle p) = true ∧
          Memory.touches v.loc op = false then
        (s.memory.perform op).map fun m =>
          { s with memory := m, log := s.note m op }
      else none
  | .construct =>
      if s.MayRun p p ∧ s.parent = .outside then
        some { s with parent := .initializing }
      else none
  | .join =>
      if s.MayRun p p ∧ s.parent = .has then
        some { s with parent := .joinLoading }
      else none
  | .detach =>
      -- The system call only marks the thread.
      if s.MayRun p p ∧ s.parent = .has then
        some { s with parent := .detachLoading }
      else none
  | .returns =>
      if s.MayRun p s.id ∧ s.child = .running then
        some { s with child := .destructing }
      else none
  | .exit =>
      -- The guard is taken before `AtThreadExit`.
      if s.MayRun p s.id ∧ s.child = .destructing then
        some { s with child := .subLoading }
      else none
  | .resumeParent spurious => if s.MayRun p p then s.resumeParent p v spurious else none
  | .resumeChild => if s.MayRun p s.id then s.resumeChild p v else none

end State

variable {p : ThreadId} {v : SyncVar} {s s' : State}

/-! ### What a step can do -/

inductive Step (p : ThreadId) (v : SyncVar) (s : State) : State → Prop where
  | user {op : Op} {m : Memory} (hrun : s.MayRun p op.performer)
      (hidle : op.allowed (s.idle p) = true) (htouch : Memory.touches v.loc op = false)
      (h : s.memory.perform op = some m) :
      Step p v s { s with memory := m, log := s.note m op }
  | construct (hrun : s.MayRun p p) (hpc : s.parent = .outside) :
      Step p v s { s with parent := .initializing }
  | init {value : Nat} {m : Memory} (hrun : s.MayRun p p)
      (hpc : s.parent = .initializing)
      (h : s.memory.reply p (v.init 2) = some (value, m)) :
      Step p v s { s with memory := m, parent := .spawning }
  | spawn {m : Memory} (hrun : s.MayRun p p) (hpc : s.parent = .spawning)
      (h : s.memory.perform (.spawn p (s.memory.threadCount + 1)) = some m) :
      Step p v s
        { s with
          memory := m
          parent := .has
          child := .running
          id := s.memory.threadCount + 1 }
  | enter {parent : Parent} (hrun : s.MayRun p p) (hpc : s.parent = .has)
      (hto : parent = .joinLoading ∨ parent = .detachLoading) :
      Step p v s { s with parent := parent }
  | wait {parent : Parent} {m : Memory} (hrun : s.MayRun p p)
      (hpc : s.parent = .joinLoading)
      (h : s.memory.reply p (v.load .acquire) = some (2, m))
      (hto : parent = .joinLoading ∨ parent = .parked) :
      Step p v s { s with memory := m, parent := parent }
  | join {value : Nat} {m : Memory} (hrun : s.MayRun p p) (hpc : s.parent = .joinLoading)
      (h : s.memory.reply p (v.load .acquire) = some (value, m)) (hne : value ≠ 2) :
      Step p v s { s with memory := m, parent := .destroying true }
  | detachLoad {old : Nat} {m : Memory} (hrun : s.MayRun p p)
      (hpc : s.parent = .detachLoading)
      (h : s.memory.reply p (v.rmwLoad .acqRel "atomic::fetch_sub") = some (old, m)) :
      Step p v s { s with memory := m, parent := .detachCommitting old }
  | detachCommit {old value : Nat} {m : Memory} (hrun : s.MayRun p p)
      (hpc : s.parent = .detachCommitting old)
      (h : s.memory.reply p (State.fetchSub v old) = some (value, m)) :
      Step p v s
        { s with
          memory := m
          parent := if old = 1 then .destroying false else .detached }
  | destroy {joins : Bool} {value : Nat} {m : Memory} (hrun : s.MayRun p p)
      (hpc : s.parent = .destroying joins)
      (h : s.memory.reply p v.destroy = some (value, m)) :
      Step p v s
        { s with
          memory := m
          parent := if joins then .joined else .detached
          destroyed := s.destroyed + 1 }
  | leave {child : Child} (hrun : s.MayRun p s.id)
      (hto : s.child = .running ∧ child = .destructing ∨
        s.child = .destructing ∧ child = .subLoading) :
      Step p v s { s with child := child }
  | subLoad {old : Nat} {m : Memory} (hrun : s.MayRun p s.id) (hpc : s.child = .subLoading)
      (h : s.memory.reply s.id (v.rmwLoad .acqRel "atomic::fetch_sub") = some (old, m)) :
      Step p v s { s with memory := m, child := .subCommitting old }
  | subLast {value : Nat} {m : Memory} (hrun : s.MayRun p s.id)
      (hpc : s.child = .subCommitting 1)
      (h : s.memory.reply s.id (State.fetchSub v 1) = some (value, m)) :
      Step p v s { s with memory := m, child := .destroying }
  | sub {old value : Nat} {m : Memory} (hrun : s.MayRun p s.id)
      (hpc : s.child = .subCommitting old) (hold : old ≠ 1)
      (h : s.memory.reply s.id (State.fetchSub v old) = some (value, m))
      (hquiet : s.parent ≠ .parked) :
      Step p v s { s with memory := m, child := .exited }
  | subWakes {old value : Nat} {m m' : Memory} (hrun : s.MayRun p s.id)
      (hpc : s.child = .subCommitting old) (hold : old ≠ 1)
      (h : s.memory.reply s.id (State.fetchSub v old) = some (value, m))
      (hparked : s.parent = .parked) (hwake : m.perform (.wake s.id p) = some m') :
      Step p v s { s with memory := m', parent := .joinLoading, child := .exited }
  | childDestroys {value : Nat} {m : Memory} (hrun : s.MayRun p s.id)
      (hpc : s.child = .destroying)
      (h : s.memory.reply s.id v.destroy = some (value, m)) :
      Step p v s { s with memory := m, child := .exited, destroyed := s.destroyed + 1 }

theorem futexWait_cases {spurious : Bool} (h : s.futexWait v spurious = some s') :
    ∃ parent, s' = { s with parent := parent } ∧
      (parent = .joinLoading ∨ parent = .parked) := by
  unfold State.futexWait at h
  split at h
  · cases h
    exact ⟨.joinLoading, rfl, Or.inl rfl⟩
  · obtain ⟨value, -, rfl⟩ := Option.map_eq_some_iff.mp h
    refine ⟨_, rfl, ?_⟩
    by_cases htwo : value = 2
    · exact Or.inr (if_pos htwo)
    · exact Or.inl (if_neg htwo)

theorem step_resumeParent {spurious : Bool} (hrun : s.MayRun p p)
    (h : s.resumeParent p v spurious = some s') : Step p v s s' := by
  cases hpc : s.parent with
  | outside | has | parked | joined | detached =>
      simp only [State.resumeParent, hpc] at h
      cases h
  | initializing =>
      simp only [State.resumeParent, hpc] at h
      obtain ⟨⟨value, m⟩, hreply, rfl⟩ := Option.map_eq_some_iff.mp h
      exact Step.init hrun hpc hreply
  | spawning =>
      simp only [State.resumeParent, hpc] at h
      obtain ⟨m, hspawn, rfl⟩ := Option.map_eq_some_iff.mp h
      exact Step.spawn hrun hpc hspawn
  | joinLoading =>
      simp only [State.resumeParent, hpc] at h
      obtain ⟨⟨value, m⟩, hreply, h⟩ := Option.bind_eq_some_iff.mp h
      dsimp only at h
      split at h
      · rename_i htwo
        subst htwo
        obtain ⟨parent, rfl, hto⟩ := futexWait_cases h
        exact Step.wait hrun hpc hreply hto
      · rename_i hne
        cases h
        exact Step.join hrun hpc hreply hne
  | detachLoading =>
      simp only [State.resumeParent, hpc] at h
      obtain ⟨⟨old, m⟩, hreply, rfl⟩ := Option.map_eq_some_iff.mp h
      exact Step.detachLoad hrun hpc hreply
  | detachCommitting old =>
      simp only [State.resumeParent, hpc] at h
      obtain ⟨⟨value, m⟩, hreply, rfl⟩ := Option.map_eq_some_iff.mp h
      exact Step.detachCommit hrun hpc hreply
  | destroying joins =>
      simp only [State.resumeParent, hpc] at h
      obtain ⟨⟨value, m⟩, hreply, rfl⟩ := Option.map_eq_some_iff.mp h
      exact Step.destroy hrun hpc hreply

theorem step_resumeChild (hrun : s.MayRun p s.id)
    (h : s.resumeChild p v = some s') : Step p v s s' := by
  cases hpc : s.child with
  | unborn | running | destructing | exited =>
      simp only [State.resumeChild, hpc] at h
      cases h
  | subLoading =>
      simp only [State.resumeChild, hpc] at h
      obtain ⟨⟨old, m⟩, hreply, rfl⟩ := Option.map_eq_some_iff.mp h
      exact Step.subLoad hrun hpc hreply
  | subCommitting old =>
      simp only [State.resumeChild, hpc] at h
      obtain ⟨⟨value, m⟩, hreply, h⟩ := Option.bind_eq_some_iff.mp h
      dsimp only at h
      split at h
      · rename_i hone
        cases h
        subst hone
        exact Step.subLast hrun hpc hreply
      · rename_i hold
        obtain ⟨s₁, hwakes, rfl⟩ := Option.map_eq_some_iff.mp h
        unfold State.futexWake at hwakes
        dsimp only at hwakes
        split at hwakes
        · rename_i hparked
          obtain ⟨m', hwake, rfl⟩ := Option.map_eq_some_iff.mp hwakes
          exact Step.subWakes hrun hpc hold hreply hparked hwake
        · rename_i hquiet
          cases hwakes
          exact Step.sub hrun hpc hold hreply hquiet
  | destroying =>
      simp only [State.resumeChild, hpc] at h
      obtain ⟨⟨value, m⟩, hreply, rfl⟩ := Option.map_eq_some_iff.mp h
      exact Step.childDestroys hrun hpc hreply

theorem step_of_next {e : Event} (h : s.next p v e = some s') : Step p v s s' := by
  unfold State.next at h
  cases e with
  | user op =>
      dsimp only at h
      split at h
      · rename_i hcond
        obtain ⟨m, hperform, rfl⟩ := Option.map_eq_some_iff.mp h
        exact Step.user hcond.1 hcond.2.1 hcond.2.2 hperform
      · cases h
  | construct =>
      dsimp only at h
      split at h
      · rename_i hcond
        cases h
        exact Step.construct hcond.1 hcond.2
      · cases h
  | join =>
      dsimp only at h
      split at h
      · rename_i hcond
        cases h
        exact Step.enter hcond.1 hcond.2 (Or.inl rfl)
      · cases h
  | detach =>
      dsimp only at h
      split at h
      · rename_i hcond
        cases h
        exact Step.enter hcond.1 hcond.2 (Or.inr rfl)
      · cases h
  | returns =>
      dsimp only at h
      split at h
      · rename_i hcond
        cases h
        exact Step.leave hcond.1 (Or.inl ⟨hcond.2, rfl⟩)
      · cases h
  | exit =>
      dsimp only at h
      split at h
      · rename_i hcond
        cases h
        exact Step.leave hcond.1 (Or.inr ⟨hcond.2, rfl⟩)
      · cases h
  | resumeParent spurious =>
      dsimp only at h
      split at h
      · rename_i hrun
        exact step_resumeParent hrun h
      · cases h
  | resumeChild =>
      dsimp only at h
      split at h
      · rename_i hrun
        exact step_resumeChild hrun h
      · cases h

/-! ### Who is last -/

/-- Where both threads can be, what `sync` says there, and how often the state has
been destroyed. -/
inductive Shape (parent : Parent) (child : Child) (destroyed : Nat) (W : Nat → Prop) :
    Prop where
  | before (hparent : parent = .outside ∨ parent = .initializing)
      (hchild : child = .unborn) (hdestroyed : destroyed = 0)
  | made (hparent : parent = .spawning) (hchild : child = .unborn)
      (hdestroyed : destroyed = 0) (hword : W 2)
  | both (hparent : parent.holds = true)
      (hold : ∀ old, parent = .detachCommitting old → old = 2)
      (hchild : child.present = true) (hold' : ∀ old, child = .subCommitting old → old = 2)
      (hdestroyed : destroyed = 0) (hword : W 2)
  | left (hparent : parent.holds = true) (hquiet : parent ≠ .parked)
      (hold : ∀ old, parent = .detachCommitting old → old = 1)
      (hchild : child = .exited) (hdestroyed : destroyed = 0) (hword : W 1)
  | detached (hparent : parent = .detached) (hchild : child.present = true)
      (hold : ∀ old, child = .subCommitting old → old = 1) (hdestroyed : destroyed = 0)
      (hword : W 1)
  | parentLast {joins : Bool} (hparent : parent = .destroying joins)
      (hchild : child = .exited) (hdestroyed : destroyed = 0)
  | childLast (hparent : parent = .detached) (hchild : child = .destroying)
      (hdestroyed : destroyed = 0)
  | over (hparent : parent.finished = true) (hchild : child = .exited)
      (hdestroyed : destroyed = 1)

theorem Shape.mono {parent : Parent} {child : Child} {destroyed : Nat}
    {W W' : Nat → Prop} (h : Shape parent child destroyed W)
    (hword : ∀ value, W value → W' value) : Shape parent child destroyed W' := by
  cases h with
  | before hparent hchild hdestroyed => exact .before hparent hchild hdestroyed
  | made hparent hchild hdestroyed hvalue =>
      exact .made hparent hchild hdestroyed (hword _ hvalue)
  | both hparent hold hchild hold' hdestroyed hvalue =>
      exact .both hparent hold hchild hold' hdestroyed (hword _ hvalue)
  | left hparent hquiet hold hchild hdestroyed hvalue =>
      exact .left hparent hquiet hold hchild hdestroyed (hword _ hvalue)
  | detached hparent hchild hold hdestroyed hvalue =>
      exact .detached hparent hchild hold hdestroyed (hword _ hvalue)
  | parentLast hparent hchild hdestroyed => exact .parentLast hparent hchild hdestroyed
  | childLast hparent hchild hdestroyed => exact .childLast hparent hchild hdestroyed
  | «over» hparent hchild hdestroyed => exact .over hparent hchild hdestroyed

/-- Before the owner has joined or detached. -/
theorem Shape.of_holds {parent : Parent} {child : Child} {destroyed : Nat}
    {W : Nat → Prop} (h : Shape parent child destroyed W) (hparent : parent.holds = true) :
    destroyed = 0 ∧
      (child.present = true ∧ W 2 ∧ (∀ old, parent = .detachCommitting old → old = 2) ∧
          (∀ old, child = .subCommitting old → old = 2) ∨
        child = .exited ∧ W 1 ∧ (∀ old, parent = .detachCommitting old → old = 1) ∧
          parent ≠ .parked) := by
  cases h with
  | both _ hold hchild hold' hdestroyed hword =>
      exact ⟨hdestroyed, Or.inl ⟨hchild, hword, hold, hold'⟩⟩
  | left _ hquiet hold hchild hdestroyed hword =>
      exact ⟨hdestroyed, Or.inr ⟨hchild, hword, hold, hquiet⟩⟩
  | before hpc =>
      rcases hpc with hpc | hpc <;> rw [hpc] at hparent <;> cases hparent
  | made hpc | detached hpc | parentLast hpc | childLast hpc =>
      rw [hpc] at hparent
      cases hparent
  | «over» hpc =>
      cases parent with
      | joined | detached => cases hparent
      | _ => cases hpc

/-- Before the new thread has subtracted itself. -/
theorem Shape.of_present {parent : Parent} {child : Child} {destroyed : Nat}
    {W : Nat → Prop} (h : Shape parent child destroyed W) (hchild : child.present = true) :
    destroyed = 0 ∧
      (parent.holds = true ∧ W 2 ∧ (∀ old, parent = .detachCommitting old → old = 2) ∧
          (∀ old, child = .subCommitting old → old = 2) ∨
        parent = .detached ∧ W 1 ∧ ∀ old, child = .subCommitting old → old = 1) := by
  cases h with
  | both hparent hold _ hold' hdestroyed hword =>
      exact ⟨hdestroyed, Or.inl ⟨hparent, hword, hold, hold'⟩⟩
  | detached hparent _ hold hdestroyed hword =>
      exact ⟨hdestroyed, Or.inr ⟨hparent, hword, hold⟩⟩
  | before _ hpc | made _ hpc | left _ _ _ hpc | parentLast _ hpc | childLast _ hpc
  | «over» _ hpc =>
      rw [hpc] at hchild
      cases hchild

structure Safe (p : ThreadId) (v : SyncVar) (s : State) : Prop where
  parent : s.parent ≠ .outside → s.memory.hasThread p = true
  child : s.child ≠ .unborn → s.memory.hasThread s.id = true ∧ s.id ≠ p
  shape : Shape s.parent s.child s.destroyed (s.memory.Word v.loc)

theorem Safe.start : Safe p v State.start where
  parent h := absurd rfl h
  child h := absurd rfl h
  shape := .before (Or.inl rfl) rfl rfl

/-- While the owner runs, the new thread is not in `AtThreadExit`. -/
theorem Safe.childQuiet (h : Safe p v s) (hrun : s.MayRun p p) :
    s.child.exclusive = false := by
  by_cases hchild : s.child = .unborn
  · rw [hchild]
    rfl
  · exact hrun.2.2.resolve_left (h.child hchild).2.symm

theorem Safe.parentQuiet (h : Safe p v s) (hrun : s.MayRun p s.id)
    (hchild : s.child ≠ .unborn) : s.parent.exclusive = false :=
  hrun.2.1.resolve_left (h.child hchild).2

section Moves

variable {parent : Parent} {child : Child} {m : Memory} {destroyed : Nat}

/-- A step of threads that exist. -/
theorem Safe.move {log : List OldAccess} (h : Safe p v s)
    (hcount : s.memory.threadCount ≤ m.threadCount)
    (hparent : parent ≠ .outside → s.parent ≠ .outside ∨ s.memory.hasThread p = true)
    (hchild : child ≠ .unborn → s.child ≠ .unborn)
    (hshape : Shape parent child destroyed (m.Word v.loc)) :
    Safe p v
      { s with
        memory := m
        parent := parent
        child := child
        destroyed := destroyed
        log := log } where
  parent hpc := Memory.hasThread.mono ((hparent hpc).elim h.parent id) hcount
  child hpc := (h.child (hchild hpc)).imp_left (Memory.hasThread.mono · hcount)
  shape := hshape

/-- A load leaves the word, and tells what it is. -/
theorem load_keeps {t : ThreadId} {value : Nat} {action : Action}
    (hreply : s.memory.reply t action = some (value, m)) (hloc : action.loc = v.loc)
    (htype : action.type = .atomicLoad ∨ action.type = .atomicRmwLoad) :
    s.memory.Word v.loc value ∧ ∀ n, s.memory.Word v.loc n → m.Word v.loc n := by
  obtain ⟨hword, hatomics, -⟩ := Memory.load_spec (Memory.reply_ok hreply).2 htype
  rw [hloc] at hword
  exact ⟨hword, fun n hn => hn.congr (congrFun hatomics _)⟩

theorem fetchSub_spec {t : ThreadId} {old value : Nat}
    (hreply : s.memory.reply t (State.fetchSub v old) = some (value, m)) :
    m.Word v.loc ((old + 2 ^ 32 - 1) % 2 ^ 32) :=
  (Memory.commit_spec (Memory.reply_ok hreply).2 rfl).1

theorem not_committing (h : parent.exclusive = false) (P : Nat → Prop) :
    ∀ old, parent = .detachCommitting old → P old := by
  rintro old rfl
  cases h

theorem not_subCommitting (h : child.exclusive = false) (P : Nat → Prop) :
    ∀ old, child = .subCommitting old → P old := by
  rintro old rfl
  cases h

theorem Safe.user {op : Op} (h : Safe p v s) (htouch : Memory.touches v.loc op = false)
    (hperform : s.memory.perform op = some m) :
    Safe p v { s with memory := m, log := s.note m op } :=
  h.move (Memory.perform_threadCount hperform) Or.inl id
    (h.shape.mono fun _ => Memory.perform_word htouch hperform)

/-- Before the thread is there. -/
theorem Shape.of_unborn {W : Nat → Prop} (h : Shape parent child destroyed W)
    (hparent : parent = .outside ∨ parent = .initializing ∨ parent = .spawning) :
    child = .unborn ∧ destroyed = 0 ∧ (parent = .spawning → W 2) := by
  cases h with
  | before hpc hchild hdestroyed =>
      refine ⟨hchild, hdestroyed, ?_⟩
      rintro rfl
      rcases hpc with hpc | hpc <;> cases hpc
  | made _ hchild hdestroyed hword => exact ⟨hchild, hdestroyed, fun _ => hword⟩
  | both hpc | left hpc | «over» hpc =>
      rcases hparent with rfl | rfl | rfl <;> cases hpc
  | detached hpc | parentLast hpc | childLast hpc =>
      rw [hpc] at hparent
      rcases hparent with hparent | hparent | hparent <;> cases hparent

theorem Safe.init {value : Nat} (h : Safe p v s) (hrun : s.MayRun p p)
    (hpc : s.parent = .initializing)
    (hreply : s.memory.reply p (v.init 2) = some (value, m)) :
    Safe p v { s with memory := m, parent := .spawning } := by
  obtain ⟨hchild, hdestroyed, -⟩ := h.shape.of_unborn (Or.inr (Or.inl hpc))
  exact h.move (Nat.le_of_eq (Memory.reply_threadCount hreply).symm)
    (fun _ => Or.inr hrun.1) id
    (.made rfl hchild hdestroyed (Memory.init_spec (Memory.reply_ok hreply).2 rfl))

theorem Safe.spawn (h : Safe p v s) (hrun : s.MayRun p p) (hpc : s.parent = .spawning)
    (hspawn : s.memory.perform (.spawn p (s.memory.threadCount + 1)) = some m) :
    Safe p v
      { s with
        memory := m
        parent := .has
        child := .running
        id := s.memory.threadCount + 1 } := by
  obtain ⟨m₁, hcreate, -, hle, hspawned⟩ := Memory.perform_spawn hspawn
  have hmore := (Memory.spawn_ok hcreate hle hspawned).2.1
  obtain ⟨-, hdestroyed, hword⟩ := h.shape.of_unborn (Or.inr (Or.inr hpc))
  exact {
    parent := fun _ => Memory.hasThread.mono hrun.1 (Memory.perform_threadCount hspawn)
    child := fun _ => ⟨Memory.hasThread_iff.mpr ⟨Nat.succ_pos _, Nat.le_of_eq hmore.symm⟩,
      Nat.ne_of_gt (Nat.lt_succ_of_le hle)⟩
    shape := .both rfl (fun _ => Parent.noConfusion) rfl (fun _ => Child.noConfusion)
      hdestroyed (Memory.perform_word rfl hspawn (hword hpc)) }

theorem Safe.enter (h : Safe p v s) (hpc : s.parent = .has)
    (hto : parent = .joinLoading ∨ parent = .detachLoading) :
    Safe p v { s with parent := parent } := by
  have hplace : parent.holds = true ∧ parent.exclusive = false ∧ parent ≠ .parked := by
    rcases hto with rfl | rfl <;> exact ⟨rfl, rfl, Parent.noConfusion⟩
  refine h.move (Nat.le_refl _) (fun _ => Or.inl (by rw [hpc]; exact Parent.noConfusion))
    id ?_
  obtain ⟨hdestroyed, ⟨hchild, hword, -, hold⟩ | ⟨hchild, hword, -, -⟩⟩ :=
    h.shape.of_holds (by rw [hpc]; rfl)
  · exact .both hplace.1 (not_committing hplace.2.1 _) hchild hold hdestroyed hword
  · exact .left hplace.1 hplace.2.2 (not_committing hplace.2.1 _) hchild hdestroyed hword

/-- The owner has found that the thread is not completed. -/
theorem Safe.wait (h : Safe p v s) (hpc : s.parent = .joinLoading)
    (hreply : s.memory.reply p (v.load .acquire) = some (2, m))
    (hto : parent = .joinLoading ∨ parent = .parked) :
    Safe p v { s with memory := m, parent := parent } := by
  have hplace : parent.holds = true ∧ parent.exclusive = false := by
    rcases hto with rfl | rfl <;> exact ⟨rfl, rfl⟩
  obtain ⟨hvalue, hkeeps⟩ := load_keeps hreply rfl (Or.inl rfl)
  refine h.move (Nat.le_of_eq (Memory.reply_threadCount hreply).symm)
    (fun _ => Or.inl (by rw [hpc]; exact Parent.noConfusion)) id ?_
  obtain ⟨hdestroyed, ⟨hchild, hword, -, hold⟩ | ⟨-, hword, -, -⟩⟩ :=
    h.shape.of_holds (by rw [hpc]; rfl)
  · exact .both hplace.1 (not_committing hplace.2 _) hchild hold hdestroyed (hkeeps _ hword)
  · exact absurd (hvalue.unique hword) (by decide)

/-- Any other value tells that the thread has subtracted itself. -/
theorem Safe.join {value : Nat} (h : Safe p v s) (hpc : s.parent = .joinLoading)
    (hreply : s.memory.reply p (v.load .acquire) = some (value, m)) (hne : value ≠ 2) :
    s.child = .exited ∧ Safe p v { s with memory := m, parent := .destroying true } := by
  obtain ⟨hvalue, -⟩ := load_keeps hreply rfl (Or.inl rfl)
  obtain ⟨hdestroyed, ⟨-, hword, -, -⟩ | ⟨hchild, -, -, -⟩⟩ :=
    h.shape.of_holds (by rw [hpc]; rfl)
  · exact absurd (hvalue.unique hword) hne
  · refine ⟨hchild, ?_⟩
    exact h.move (Nat.le_of_eq (Memory.reply_threadCount hreply).symm)
      (fun _ => Or.inl (by rw [hpc]; exact Parent.noConfusion)) id
      (.parentLast rfl hchild hdestroyed)

theorem Safe.detachLoad {old : Nat} (h : Safe p v s) (hpc : s.parent = .detachLoading)
    (hreply : s.memory.reply p (v.rmwLoad .acqRel "atomic::fetch_sub") = some (old, m)) :
    Safe p v { s with memory := m, parent := .detachCommitting old } := by
  obtain ⟨hvalue, hkeeps⟩ := load_keeps hreply rfl (Or.inr rfl)
  refine h.move (Nat.le_of_eq (Memory.reply_threadCount hreply).symm)
    (fun _ => Or.inl (by rw [hpc]; exact Parent.noConfusion)) id ?_
  obtain ⟨hdestroyed, ⟨hchild, hword, -, hold⟩ | ⟨hchild, hword, -, -⟩⟩ :=
    h.shape.of_holds (by rw [hpc]; rfl)
  · refine .both rfl (fun old' heq => ?_) hchild hold hdestroyed (hkeeps _ hword)
    cases heq
    exact hvalue.unique hword
  · refine .left rfl Parent.noConfusion (fun old' heq => ?_) hchild hdestroyed
      (hkeeps _ hword)
    cases heq
    exact hvalue.unique hword

theorem Safe.detachCommit {old value : Nat} (h : Safe p v s) (hrun : s.MayRun p p)
    (hpc : s.parent = .detachCommitting old)
    (hreply : s.memory.reply p (State.fetchSub v old) = some (value, m)) :
    Safe p v
      { s with
        memory := m
        parent := if old = 1 then .destroying false else .detached } := by
  have hword := fetchSub_spec hreply
  refine h.move (Nat.le_of_eq (Memory.reply_threadCount hreply).symm)
    (fun _ => Or.inl (by rw [hpc]; exact Parent.noConfusion)) id ?_
  obtain ⟨hdestroyed, ⟨hchild, -, hold, -⟩ | ⟨hchild, -, hold, -⟩⟩ :=
    h.shape.of_holds (by rw [hpc]; rfl)
  · obtain rfl := hold old hpc
    exact .detached rfl hchild (not_subCommitting (h.childQuiet hrun) _) hdestroyed hword
  · obtain rfl := hold old hpc
    exact .parentLast rfl hchild hdestroyed

/-- The owner destroys the state when the new thread has left. -/
theorem Safe.destroy {joins : Bool} {value : Nat} (h : Safe p v s)
    (hpc : s.parent = .destroying joins)
    (hreply : s.memory.reply p v.destroy = some (value, m)) :
    Safe p v
      { s with
        memory := m
        parent := if joins then .joined else .detached
        destroyed := s.destroyed + 1 } := by
  refine h.move (Nat.le_of_eq (Memory.reply_threadCount hreply).symm)
    (fun _ => Or.inl (by rw [hpc]; exact Parent.noConfusion)) id ?_
  cases h.shape with
  | parentLast _ hchild hdestroyed =>
      refine .over ?_ hchild (by rw [hdestroyed])
      cases joins <;> rfl
  | before hparent =>
      rcases hparent with hparent | hparent <;> cases hpc.symm.trans hparent
  | made hparent | detached hparent | childLast hparent => cases hpc.symm.trans hparent
  | both hparent | left hparent | «over» hparent =>
      rw [hpc] at hparent
      cases hparent

theorem Safe.leave (h : Safe p v s)
    (hto : s.child = .running ∧ child = .destructing ∨
      s.child = .destructing ∧ child = .subLoading) :
    Safe p v { s with child := child } := by
  have hplace : s.child.present = true ∧ child.present = true ∧
      ∀ P : Nat → Prop, ∀ old, child = .subCommitting old → P old := by
    rcases hto with ⟨hpc, rfl⟩ | ⟨hpc, rfl⟩ <;> rw [hpc] <;>
      exact ⟨rfl, rfl, fun _ _ => Child.noConfusion⟩
  obtain ⟨hbefore, hafter, hold'⟩ := hplace
  refine h.move (Nat.le_refl _) Or.inl (fun _ hpc => ?_) ?_
  · rw [hpc] at hbefore
    cases hbefore
  · obtain ⟨hdestroyed, ⟨hparent, hword, hold, -⟩ | ⟨hparent, hword, -⟩⟩ :=
      h.shape.of_present hbefore
    · exact .both hparent hold hafter (hold' _) hdestroyed hword
    · exact .detached hparent hafter (hold' _) hdestroyed hword

theorem Safe.subLoad {old : Nat} (h : Safe p v s) (hpc : s.child = .subLoading)
    (hreply : s.memory.reply s.id (v.rmwLoad .acqRel "atomic::fetch_sub") =
      some (old, m)) :
    Safe p v { s with memory := m, child := .subCommitting old } := by
  obtain ⟨hvalue, hkeeps⟩ := load_keeps hreply rfl (Or.inr rfl)
  refine h.move (Nat.le_of_eq (Memory.reply_threadCount hreply).symm) Or.inl
    (fun _ => by rw [hpc]; exact Child.noConfusion) ?_
  obtain ⟨hdestroyed, ⟨hparent, hword, hold, -⟩ | ⟨hparent, hword, -⟩⟩ :=
    h.shape.of_present (by rw [hpc]; rfl)
  · refine .both hparent hold rfl (fun old' heq => ?_) hdestroyed (hkeeps _ hword)
    cases heq
    exact hvalue.unique hword
  · refine .detached hparent rfl (fun old' heq => ?_) hdestroyed (hkeeps _ hword)
    cases heq
    exact hvalue.unique hword

/-- The thread was detached, and destroys the state. -/
theorem Safe.subLast {value : Nat} (h : Safe p v s) (hpc : s.child = .subCommitting 1)
    (hreply : s.memory.reply s.id (State.fetchSub v 1) = some (value, m)) :
    Safe p v { s with memory := m, child := .destroying } := by
  refine h.move (Nat.le_of_eq (Memory.reply_threadCount hreply).symm) Or.inl
    (fun _ => by rw [hpc]; exact Child.noConfusion) ?_
  obtain ⟨hdestroyed, ⟨-, -, -, hold⟩ | ⟨hparent, -, -⟩⟩ :=
    h.shape.of_present (by rw [hpc]; rfl)
  · exact absurd (hold 1 hpc) (by decide)
  · exact .childLast hparent rfl hdestroyed

/-- The thread leaves, and whoever waits for it is awake. -/
theorem Safe.sub {old : Nat} (h : Safe p v s) (hrun : s.MayRun p s.id)
    (hpc : s.child = .subCommitting old) (hold : old ≠ 1)
    (hcount : s.memory.threadCount ≤ m.threadCount)
    (hword : m.Word v.loc ((old + 2 ^ 32 - 1) % 2 ^ 32))
    (hto : parent = s.parent ∧ s.parent ≠ .parked ∨
      s.parent = .parked ∧ parent = .joinLoading) :
    Safe p v { s with memory := m, parent := parent, child := .exited } := by
  have hquiet := h.parentQuiet hrun (by rw [hpc]; exact Child.noConfusion)
  obtain ⟨hdestroyed, ⟨hparent, -, -, htwo⟩ | ⟨-, -, hone⟩⟩ :=
    h.shape.of_present (by rw [hpc]; rfl)
  · obtain rfl := htwo old hpc
    have hplace : parent.holds = true ∧ parent ≠ .parked ∧ parent.exclusive = false ∧
        (parent ≠ .outside → s.parent ≠ .outside) := by
      rcases hto with ⟨rfl, hne⟩ | ⟨hparked, rfl⟩
      · exact ⟨hparent, hne, hquiet, id⟩
      · rw [hparked]
        exact ⟨rfl, Parent.noConfusion, rfl, fun _ => Parent.noConfusion⟩
    refine h.move hcount (fun hne => Or.inl (hplace.2.2.2 hne))
      (fun _ => by rw [hpc]; exact Child.noConfusion) ?_
    exact .left hplace.1 hplace.2.1 (not_committing hplace.2.2.1 _) rfl hdestroyed hword
  · exact absurd (hone old hpc) hold

theorem Safe.childDestroys {value : Nat} (h : Safe p v s) (hpc : s.child = .destroying)
    (hreply : s.memory.reply s.id v.destroy = some (value, m)) :
    Safe p v
      { s with memory := m, child := .exited, destroyed := s.destroyed + 1 } := by
  refine h.move (Nat.le_of_eq (Memory.reply_threadCount hreply).symm) Or.inl
    (fun _ => by rw [hpc]; exact Child.noConfusion) ?_
  cases h.shape with
  | childLast hparent _ hdestroyed =>
      exact .over (by rw [hparent]; rfl) rfl (by rw [hdestroyed])
  | before _ hchild | made _ hchild | left _ _ _ hchild | parentLast _ hchild
  | «over» _ hchild => cases hpc.symm.trans hchild
  | both _ _ hchild | detached _ hchild =>
      rw [hpc] at hchild
      cases hchild

end Moves

/-- Every step keeps the shape. -/
theorem Safe.step (h : Safe p v s) (hstep : Step p v s s') : Safe p v s' := by
  cases hstep with
  | user _ _ htouch hperform => exact h.user htouch hperform
  | construct hrun hpc =>
      refine h.move (Nat.le_refl _) (fun _ => Or.inr hrun.1) id ?_
      obtain ⟨hchild, hdestroyed, -⟩ := h.shape.of_unborn (Or.inl hpc)
      exact .before (Or.inr rfl) hchild hdestroyed
  | init hrun hpc hreply => exact h.init hrun hpc hreply
  | spawn hrun hpc hspawn => exact h.spawn hrun hpc hspawn
  | enter _ hpc hto => exact h.enter hpc hto
  | wait _ hpc hreply hto => exact h.wait hpc hreply hto
  | join _ hpc hreply hne => exact (h.join hpc hreply hne).2
  | detachLoad _ hpc hreply => exact h.detachLoad hpc hreply
  | detachCommit hrun hpc hreply => exact h.detachCommit hrun hpc hreply
  | destroy _ hpc hreply => exact h.destroy hpc hreply
  | leave _ hto => exact h.leave hto
  | subLoad _ hpc hreply => exact h.subLoad hpc hreply
  | subLast _ hpc hreply => exact h.subLast hpc hreply
  | sub hrun hpc hold hreply hquiet =>
      exact h.sub hrun hpc hold (Nat.le_of_eq (Memory.reply_threadCount hreply).symm)
        (fetchSub_spec hreply) (Or.inl ⟨rfl, hquiet⟩)
  | subWakes hrun hpc hold hreply hparked hwake =>
      refine h.sub hrun hpc hold ?_ (Memory.perform_word rfl hwake (fetchSub_spec hreply))
        (Or.inr ⟨hparked, rfl⟩)
      exact (Nat.le_of_eq (Memory.reply_threadCount hreply).symm).trans
        (Memory.perform_threadCount hwake)
  | childDestroys _ hpc hreply => exact h.childDestroys hpc hreply

/-! ### Order -/

/-- What the threads know of what the new thread did before `AtThreadExit`. -/
structure Ordered (p : ThreadId) (v : SyncVar) (s : State) : Prop where
  own : s.memory.OwnEpochs
  attributed : ∀ a ∈ s.log, s.memory.Attributed a
  made : ∀ a ∈ s.log, s.child ≠ .unborn
  present : s.child.present = true → ∀ a ∈ s.log, s.memory.Knows s.id a
  carried : s.child = .exited → s.parent.holds = true →
    ∀ a ∈ s.log, s.memory.Carries v.loc a
  joining : s.parent = .destroying true ∨ s.parent = .joined →
    ∀ a ∈ s.log, s.memory.Knows p a

theorem Ordered.start : Ordered p v State.start where
  own _ _ := Nat.zero_le _
  attributed _ ha := absurd ha List.not_mem_nil
  made _ ha := absurd ha List.not_mem_nil
  present h := Bool.noConfusion h
  carried h := Child.noConfusion h
  joining h := by rcases h with h | h <;> cases h

section Order

variable {parent : Parent} {child : Child} {m : Memory} {destroyed : Nat}

/-- While the owner joins, the new thread has exited. -/
theorem Safe.exited (h : Safe p v s)
    (hpc : s.parent = .destroying true ∨ s.parent = .joined) : s.child = .exited := by
  have hparent : s.parent.holds = false ∧ s.parent ≠ .detached ∧ s.parent ≠ .outside ∧
      s.parent ≠ .initializing ∧ s.parent ≠ .spawning := by
    rcases hpc with hpc | hpc <;> rw [hpc] <;> exact ⟨rfl, Parent.noConfusion,
      Parent.noConfusion, Parent.noConfusion, Parent.noConfusion⟩
  obtain ⟨hholds, hdetached, houtside, hinitializing, hspawning⟩ := hparent
  cases h.shape with
  | before hparent => exact absurd hparent (not_or.mpr ⟨houtside, hinitializing⟩)
  | made hparent => exact absurd hparent hspawning
  | both hparent | left hparent => exact absurd (hholds.symm.trans hparent) (by decide)
  | detached hparent | childLast hparent => exact absurd hparent hdetached
  | parentLast _ hchild | «over» _ hchild => exact hchild

theorem Safe.parent_le (h : Safe p v s)
    (hpc : s.parent = .destroying true ∨ s.parent = .joined) :
    p ≤ s.memory.threadCount := by
  refine (Memory.hasThread_iff.mp (h.parent ?_)).2
  rcases hpc with hpc | hpc <;> rw [hpc] <;> exact Parent.noConfusion

theorem present_ne_unborn (h : child.present = true) : child ≠ .unborn := by
  rintro rfl
  cases h

theorem Safe.id_le (h : Safe p v s) (hpc : s.child.present = true) :
    s.id ≤ s.memory.threadCount :=
  (Memory.hasThread_iff.mp (h.child (present_ne_unborn hpc)).1).2

/-- Nobody forgets, and nothing is added. -/
theorem Ordered.move (ho : Ordered p v s) (h : Safe p v s) (hgrows : s.memory.Grows m)
    (hmade : s.child ≠ .unborn → child ≠ .unborn)
    (hpresent : child.present = true → s.child.present = true)
    (hcarried : child = .exited → parent.holds = true →
      ∀ a ∈ s.log, m.Carries v.loc a)
    (hjoining : parent = .destroying true ∨ parent = .joined →
      (s.parent = .destroying true ∨ s.parent = .joined) ∨ ∀ a ∈ s.log, m.Knows p a) :
    Ordered p v
      { s with
        memory := m
        parent := parent
        child := child
        destroyed := destroyed } where
  own := hgrows.own ho.own
  attributed a ha := hgrows.attributed (ho.attributed a ha)
  made a ha := hmade (ho.made a ha)
  present hpc a ha :=
    hgrows.knows (h.id_le (hpresent hpc)) (ho.present (hpresent hpc) a ha)
  carried := hcarried
  joining hpc a ha := by
    rcases hjoining hpc with hold | hnew
    · exact hgrows.knows (h.parent_le hold) (ho.joining hold a ha)
    · exact hnew a ha

theorem Ordered.user {op : Op} (ho : Ordered p v s) (h : Safe p v s)
    (hroomy : s.memory.Roomy) (hrun : s.MayRun p op.performer)
    (htouch : Memory.touches v.loc op = false)
    (hperform : s.memory.perform op = some m) :
    Ordered p v { s with memory := m, log := s.note m op } := by
  have hgrows := Memory.perform_grows hroomy hperform
  have hthread := Memory.hasThread_iff.mp (Memory.hasThread.mono hrun.1 hgrows.threadCount)
  have hnote : ∀ a ∈ s.note m op, a ∈ s.log ∨
      a = m.record op ∧ s.child.present = true ∧ op.performer = s.id := by
    intro a ha
    unfold State.note at ha
    split at ha
    · rename_i hcond
      rw [Bool.and_eq_true, beq_iff_eq] at hcond
      exact (List.mem_cons.mp ha).symm.imp_right fun heq => ⟨heq, hcond⟩
    · exact Or.inl ha
  have hgone : s.child = .exited → ∀ a ∈ s.note m op, a ∈ s.log := by
    intro hexited a ha
    refine (hnote a ha).resolve_right fun hnew => ?_
    have hpresent := hnew.2.1
    rw [hexited] at hpresent
    cases hpresent
  exact {
    own := hgrows.own ho.own
    attributed := fun a ha => by
      rcases hnote a ha with ha | ⟨rfl, -⟩
      · exact hgrows.attributed (ho.attributed a ha)
      · exact hthread
    made := fun a ha => by
      rcases hnote a ha with ha | ⟨-, hpresent, -⟩
      · exact ho.made a ha
      · exact present_ne_unborn hpresent
    present := fun hpresent a ha => by
      rcases hnote a ha with ha | ⟨rfl, -, hself⟩
      · exact hgrows.knows (h.id_le hpresent) (ho.present hpresent a ha)
      · rw [← hself]
        exact (hgrows.own ho.own).knows_currAccess hthread.2 _
    carried := fun hexited hholds a ha => Memory.perform_carries htouch hperform
      (ho.carried hexited hholds a (hgone hexited a ha))
    joining := fun hpc a ha => hgrows.knows (h.parent_le hpc)
      (ho.joining hpc a (hgone (h.exited hpc) a ha)) }

/-- A step of the owner. -/
theorem Ordered.owner (ho : Ordered p v s) (h : Safe p v s) (hgrows : s.memory.Grows m)
    (hatomics : parent.holds = true →
      s.parent.holds = true ∧ m.atomics = s.memory.atomics)
    (hjoining : parent = .destroying true ∨ parent = .joined →
      (s.parent = .destroying true ∨ s.parent = .joined) ∨ ∀ a ∈ s.log, m.Knows p a) :
    Ordered p v { s with memory := m, parent := parent, destroyed := destroyed } := by
  refine ho.move h hgrows id id (fun hexited hholds a ha => ?_) hjoining
  obtain ⟨hbefore, hsame⟩ := hatomics hholds
  exact (ho.carried hexited hbefore a ha).congr (congrFun hsame _)

/-- The owner learns of everything when it finds that the thread has left. -/
theorem Ordered.join {value : Nat} (ho : Ordered p v s) (h : Safe p v s)
    (hroomy : s.memory.Roomy) (hpc : s.parent = .joinLoading)
    (hreply : s.memory.reply p (v.load .acquire) = some (value, m)) (hne : value ≠ 2) :
    Ordered p v { s with memory := m, parent := .destroying true } := by
  obtain ⟨-, -, hlearns⟩ := Memory.load_spec (Memory.reply_ok hreply).2 (Or.inl rfl)
  have hexited := (h.join hpc hreply hne).1
  refine ho.owner h (Memory.reply_grows hroomy hreply) Bool.noConfusion fun _ => Or.inr ?_
  intro a ha
  have hcarried := ho.carried hexited (by rw [hpc]; rfl) a ha
  exact (hlearns a (ho.attributed a ha) hcarried).2 rfl

/-- The thread leaves what it did in `sync`. -/
theorem Ordered.sub {old value : Nat} {m' : Memory} (ho : Ordered p v s)
    (h : Safe p v s) (hroomy : s.memory.Roomy) (hrun : s.MayRun p s.id)
    (hpc : s.child = .subCommitting old)
    (hreply : s.memory.reply s.id (State.fetchSub v old) = some (value, m))
    (hgrows : s.memory.Grows m') (hsame : m'.atomics v.loc = m.atomics v.loc)
    (hto : parent = s.parent ∨ parent = .joinLoading) :
    Ordered p v { s with memory := m', parent := parent, child := .exited } := by
  obtain ⟨-, -, -, hreleases⟩ := Memory.commit_spec (Memory.reply_ok hreply).2 rfl
  have hroom := hroomy.hasRoom (Memory.hasThread_iff.mp hrun.1).2
  refine ho.move h hgrows (fun _ => Child.noConfusion) Bool.noConfusion
    (fun _ _ a ha => ?_) fun hparent => ?_
  · refine Memory.Carries.congr (hreleases hroom rfl a (ho.attributed a ha) ?_) hsame
    exact ho.present (by rw [hpc]; rfl) a ha
  · rcases hto with rfl | rfl
    · exact Or.inl hparent
    · rcases hparent with hparent | hparent <;> cases hparent

/-- Every step keeps the order, as long as no clock overflows. -/
theorem Ordered.step (ho : Ordered p v s) (h : Safe p v s) (hroomy : s.memory.Roomy)
    (hstep : Step p v s s') : Ordered p v s' := by
  cases hstep with
  | user hrun _ htouch hperform => exact ho.user h hroomy hrun htouch hperform
  | construct _ hpc =>
      refine ho.owner h (Memory.Grows.refl _) Bool.noConfusion fun hparent => ?_
      rcases hparent with hparent | hparent <;> cases hparent
  | init _ hpc hreply =>
      refine ho.owner h (Memory.reply_grows hroomy hreply) Bool.noConfusion fun hparent => ?_
      rcases hparent with hparent | hparent <;> cases hparent
  | spawn _ hpc hspawn =>
      have hnone : ∀ a, a ∉ s.log := fun a ha =>
        ho.made a ha (h.shape.of_unborn (Or.inr (Or.inr hpc))).1
      have hgrows := Memory.perform_grows hroomy hspawn
      exact ⟨hgrows.own ho.own, fun a ha => hgrows.attributed (ho.attributed a ha),
        fun _ _ => Child.noConfusion, fun _ a ha => absurd ha (hnone a),
        Child.noConfusion, fun _ a ha => absurd ha (hnone a)⟩
  | enter _ hpc hto =>
      refine ho.owner h (Memory.Grows.refl _) (fun _ => ⟨by rw [hpc]; rfl, rfl⟩) ?_
      rintro (hparent | hparent) <;> rcases hto with rfl | rfl <;> cases hparent
  | wait _ hpc hreply hto =>
      have hatomics := (Memory.load_spec (Memory.reply_ok hreply).2 (Or.inl rfl)).2.1
      refine ho.owner h (Memory.reply_grows hroomy hreply)
        (fun _ => ⟨by rw [hpc]; rfl, hatomics⟩) ?_
      rintro (hparent | hparent) <;> rcases hto with rfl | rfl <;> cases hparent
  | join _ hpc hreply hne => exact ho.join h hroomy hpc hreply hne
  | detachLoad _ hpc hreply =>
      have hatomics := (Memory.load_spec (Memory.reply_ok hreply).2 (Or.inr rfl)).2.1
      refine ho.owner h (Memory.reply_grows hroomy hreply)
        (fun _ => ⟨by rw [hpc]; rfl, hatomics⟩) ?_
      rintro (hparent | hparent) <;> cases hparent
  | detachCommit _ hpc hreply =>
      refine ho.owner h (Memory.reply_grows hroomy hreply) (fun hholds => ?_) ?_
      · split at hholds <;> cases hholds
      · rintro (hparent | hparent) <;> split at hparent <;> cases hparent
  | @destroy joins value m _ hpc hreply =>
      refine ho.owner h (Memory.reply_grows hroomy hreply) (fun hholds => ?_)
        fun hparent => ?_
      · cases joins <;> cases hholds
      · cases joins with
        | false => rcases hparent with hparent | hparent <;> cases hparent
        | true => exact Or.inl (Or.inl hpc)
  | leave _ hto =>
      refine ho.move h (Memory.Grows.refl _) (fun _ hpc => ?_) (fun _ => ?_)
        (fun hexited => ?_) Or.inl
      · rcases hto with ⟨-, rfl⟩ | ⟨-, rfl⟩ <;> cases hpc
      · rcases hto with ⟨hpc, -⟩ | ⟨hpc, -⟩ <;> rw [hpc] <;> rfl
      · rcases hto with ⟨-, rfl⟩ | ⟨-, rfl⟩ <;> cases hexited
  | subLoad _ hpc hreply =>
      exact ho.move h (Memory.reply_grows hroomy hreply) (fun _ => Child.noConfusion)
        (fun _ => by rw [hpc]; rfl) Child.noConfusion Or.inl
  | subLast _ hpc hreply =>
      exact ho.move h (Memory.reply_grows hroomy hreply) (fun _ => Child.noConfusion)
        Bool.noConfusion Child.noConfusion Or.inl
  | sub hrun hpc _ hreply _ =>
      exact ho.sub h hroomy hrun hpc hreply (Memory.reply_grows hroomy hreply) rfl
        (Or.inl rfl)
  | @subWakes old value m m' hrun hpc _ hreply hparked hwake =>
      obtain ⟨-, hne⟩ := h.child (by rw [hpc]; exact Child.noConfusion)
      have hwaiter := h.parent (by rw [hparked]; exact Parent.noConfusion)
      have hroom := Memory.wakeRoom_of_write hroomy (Or.inr rfl) hreply hwaiter hne.symm
      exact ho.sub h hroomy hrun hpc hreply
        ((Memory.reply_grows hroomy hreply).trans (Memory.perform_wake_grows hroom hwake))
        (Memory.exec_atomics rfl (Memory.perform_ok hwake)) (Or.inr rfl)
  | childDestroys _ hpc hreply =>
      refine ho.move h (Memory.reply_grows hroomy hreply) (fun _ => Child.noConfusion)
        Bool.noConfusion (fun _ hholds => ?_) Or.inl
      cases h.shape with
      | childLast hparent =>
          rw [hparent] at hholds
          cases hholds
      | before _ hchild | made _ hchild | left _ _ _ hchild | parentLast _ hchild
      | «over» _ hchild => cases hpc.symm.trans hchild
      | both _ _ hchild | detached _ hchild =>
          rw [hpc] at hchild
          cases hchild

end Order

/-! ### What the shared state promises -/

namespace State

/-- Is the thread in `DestroySelf`? -/
def destroying (s : State) : Nat :=
  (if (∃ joins, s.parent = .destroying joins) then 1 else 0) +
    if s.child = .destroying then 1 else 0

/-- `DestroySelf` runs at most once, and has run once when both sides are done. -/
def DestroyedOnce (s : State) : Prop :=
  s.destroyed + s.destroying ≤ 1 ∧
    (s.parent.finished = true → s.child = .exited → s.destroyed = 1)

/-- Whatever the two threads do next with the state, it is still there. -/
def Sound (p : ThreadId) (v : SyncVar) (s : State) : Prop :=
  ∀ e s', s.next p v e = some s' → (∀ op, e ≠ .user op) → s.destroyed = 0

/-- `Join` returns when `RunUser` and the destructors of the thread have returned, and
a parked owner waits for a thread that has not left. -/
def Joins (s : State) : Prop :=
  (s.parent = .joined → s.child = .exited) ∧
    (s.parent = .parked → s.child.present = true)

/-- When `Join` has returned, the owner comes after all that the thread did. -/
def InOrder (p : ThreadId) (s : State) : Prop :=
  s.parent = .joined → ∀ a ∈ s.log, s.memory.happensBefore a p = true

end State

theorem Safe.destroyedOnce (h : Safe p v s) : s.DestroyedOnce := by
  unfold State.DestroyedOnce State.destroying
  cases h.shape with
  | before hparent hchild hdestroyed =>
      rcases hparent with hparent | hparent <;> simp [hparent, hchild, hdestroyed]
  | made hparent hchild hdestroyed _ => simp [hparent, hchild, hdestroyed]
  | both hparent _ hchild _ hdestroyed _ =>
      have hother : s.child ≠ .destroying ∧ s.child ≠ .exited := by
        constructor <;> intro hpc <;> rw [hpc] at hchild <;> cases hchild
      simp only [hdestroyed, hother, if_false]
      refine ⟨by split <;> decide, fun _ hpc => hpc.elim⟩
  | left hparent _ _ hchild hdestroyed _ =>
      have hother : ¬ ∃ joins, s.parent = .destroying joins := by
        rintro ⟨joins, hpc⟩
        rw [hpc] at hparent
        cases hparent
      simp only [hdestroyed, hother, hchild, if_false]
      refine ⟨by decide, fun hfinished => ?_⟩
      cases hpc : s.parent with
      | joined | detached =>
          rw [hpc] at hparent
          cases hparent
      | _ =>
          rw [hpc] at hfinished
          cases hfinished
  | detached hparent hchild _ hdestroyed _ =>
      have hother : s.child ≠ .destroying ∧ s.child ≠ .exited := by
        constructor <;> intro hpc <;> rw [hpc] at hchild <;> cases hchild
      simp [hparent, hother, hdestroyed]
  | parentLast hparent hchild hdestroyed =>
      simp [hparent, hchild, hdestroyed, Parent.finished]
  | childLast hparent hchild hdestroyed => simp [hparent, hchild, hdestroyed]
  | «over» hparent hchild hdestroyed =>
      have hother : ¬ ∃ joins, s.parent = .destroying joins := by
        rintro ⟨joins, hpc⟩
        rw [hpc] at hparent
        cases hparent
      simp [hother, hchild, hdestroyed]

/-- When the state is destroyed, both threads are done with it. -/
theorem Safe.finished (h : Safe p v s) (hdestroyed : s.destroyed ≠ 0) :
    s.parent.finished = true ∧ s.child = .exited := by
  cases h.shape with
  | «over» hparent hchild => exact ⟨hparent, hchild⟩
  | before _ _ hzero | made _ _ hzero | both _ _ _ _ hzero | left _ _ _ _ hzero
  | detached _ _ _ hzero | parentLast _ _ hzero | childLast _ _ hzero =>
      exact absurd hzero hdestroyed

theorem Safe.sound (h : Safe p v s) : s.Sound p v := by
  intro e s' hnext huser
  by_contra hdestroyed
  obtain ⟨hparent, hchild⟩ := h.finished hdestroyed
  have hplace : s.parent = .joined ∨ s.parent = .detached := by
    cases hpc : s.parent with
    | joined => exact Or.inl rfl
    | detached => exact Or.inr rfl
    | _ =>
        rw [hpc] at hparent
        cases hparent
  unfold State.next at hnext
  cases e with
  | user op => exact huser op rfl
  | construct | join | detach =>
      dsimp only at hnext
      split at hnext
      · rename_i hcond
        rcases hplace with hplace | hplace <;> cases hplace.symm.trans hcond.2
      · cases hnext
  | returns | exit =>
      dsimp only at hnext
      split at hnext
      · rename_i hcond
        cases hchild.symm.trans hcond.2
      · cases hnext
  | resumeParent spurious =>
      dsimp only at hnext
      split at hnext
      · unfold State.resumeParent at hnext
        rcases hplace with hplace | hplace <;> rw [hplace] at hnext <;> cases hnext
      · cases hnext
  | resumeChild =>
      dsimp only at hnext
      split at hnext
      · unfold State.resumeChild at hnext
        rw [hchild] at hnext
        cases hnext
      · cases hnext

theorem Safe.joins (h : Safe p v s) : s.Joins := by
  refine ⟨fun hjoined => h.exited (Or.inr hjoined), fun hparked => ?_⟩
  obtain ⟨-, ⟨hchild, -⟩ | ⟨-, -, -, hquiet⟩⟩ := h.shape.of_holds (by rw [hparked]; rfl)
  · exact hchild
  · exact absurd hparked hquiet

theorem reach_safe {C : State → Event → Prop}
    (h : Reach (State.next p v) C State.start s) : Safe p v s :=
  h.invariant Safe.start fun _ _ _ hsafe _ hnext => hsafe.step (step_of_next hnext)

theorem reach_ordered
    (h : Reach (State.next p v) (fun s _ => s.memory.Roomy) State.start s) :
    Ordered p v s :=
  (h.invariant (I := fun s => Safe p v s ∧ Ordered p v s) ⟨Safe.start, Ordered.start⟩
    fun _ _ _ hs hroomy hnext => ⟨hs.1.step (step_of_next hnext),
      hs.2.step hs.1 hroomy (step_of_next hnext)⟩).2

/-- The state of a thread is destroyed once, by the last of the two that use it; `Join`
waits for the thread and is not forgotten, and as long as no clock overflows it comes
after all that the thread did. -/
theorem stateBase_correct
    (h : Reach (State.next p v) (fun _ _ => True) State.start s) :
    s.DestroyedOnce ∧ s.Sound p v ∧ s.Joins ∧
      (Reach (State.next p v) (fun s _ => s.memory.Roomy) State.start s →
        s.InOrder p) := by
  have hsafe := reach_safe h
  refine ⟨hsafe.destroyedOnce, hsafe.sound, hsafe.joins, fun hroomy hjoined a ha => ?_⟩
  exact Memory.happensBefore_iff.mpr ((reach_ordered hroomy).joining (Or.inr hjoined) a ha)

/-! ### Runs -/

/-- The `sync` of the state, and a variable of the user. -/
def exampleSync : SyncVar := ⟨16, ⟨"main.cpp", "main", 1⟩⟩

def counter : SyncVar := ⟨48, ⟨"main.cpp", "main", 2⟩⟩

/-- The main thread starts a thread and waits for it; the thread makes an access. -/
def waiting : List Event :=
  [.user (.sync 1 (counter.init 0)), .construct, .resumeParent false, .resumeParent false,
   .join, .resumeParent false, .user (.access 2 ⟨64, .init, counter.site⟩)]

/-- The thread leaves, and `Join` returns. -/
def leaving : List Event :=
  [.returns, .exit, .resumeChild, .resumeChild, .resumeParent false, .resumeParent false]

theorem stateBase_correct_joined :
    ∃ s, Reach (State.next 1 exampleSync) (fun s _ => s.memory.Roomy) State.start s ∧
      s.parent = .joined ∧ s.log.length = 1 ∧ s.DestroyedOnce ∧ s.InOrder 1 := by
  obtain ⟨s, hreach, hpc, hlog⟩ := @exists_reach _ _ (State.next 1 exampleSync)
    (fun s _ => s.memory.Roomy) State.start _ (waiting ++ leaving)
    (fun s => s.parent = .joined ∧ s.log.length = 1) _ (by decide)
  have hcorrect := stateBase_correct (hreach.mono fun _ _ _ => trivial)
  exact ⟨s, hreach, hpc, hlog, hcorrect.1, hcorrect.2.2.2 hreach⟩

theorem mem_note {op : Op} {m : Memory} {a : OldAccess} (ha : a ∈ s.log) :
    a ∈ s.note m op := by
  unfold State.note
  split
  · exact List.mem_cons_of_mem _ ha
  · exact ha

/-- Nothing is forgotten. -/
theorem Step.log {a : OldAccess} (h : Step p v s s') (ha : a ∈ s.log) : a ∈ s'.log := by
  cases h with
  | user _ _ _ _ => exact mem_note ha
  | _ => exact ha

/-- The thread keeps loading its counter. -/
def State.loadingLog (s : State) : Nat → List OldAccess
  | 0 => s.log
  | k + 1 => (s.memory.advanced s.id (k + 1)).record (.sync s.id counter.debugLoad) ::
      s.loadingLog k

def State.loading (s : State) (k : Nat) : State :=
  { s with memory := s.memory.advanced s.id k, log := s.loadingLog k }

theorem mem_loadingLog {a : OldAccess} (ha : a ∈ s.log) (k : Nat) :
    a ∈ s.loadingLog k := by
  induction k with
  | zero => exact ha
  | succ k ih => exact List.mem_cons_of_mem _ ih

theorem reach_loading
    (h : Reach (State.next 1 exampleSync) (fun _ _ => True) State.start s)
    (hrun : s.MayRun 1 s.id) (hpc : s.child = .running) {value : Nat}
    (hword : s.memory.Word counter.loc value) (k : Nat) :
    Reach (State.next 1 exampleSync) (fun _ _ => True) State.start
      (s.loading (k + 1)) := by
  have hne : s.id ≠ 1 :=
    ((reach_safe h).child (by rw [hpc]; exact Child.noConfusion)).2
  have hstep : ∀ (m : Memory) (log : List OldAccess), m.Word counter.loc value →
      m.threadCount = s.memory.threadCount →
      State.next 1 exampleSync { s with memory := m, log := log }
          (.user (.sync s.id counter.debugLoad)) =
        some { s with
          memory := m.ticked s.id
          log := (m.ticked s.id).record (.sync s.id counter.debugLoad) :: log } := by
    intro m log hword hcount
    have hthread := Memory.hasThread.mono hrun.1 (Nat.le_of_eq hcount.symm)
    have hmay : State.MayRun 1 { s with memory := m, log := log } s.id :=
      ⟨hthread, hrun.2⟩
    have hidle : State.idle 1 s s.id = true := by
      simp [State.idle, hne, hpc, Child.idle]
    unfold State.next
    dsimp only
    rw [if_pos ⟨hmay, hidle, rfl⟩, Memory.perform_debugLoad hthread hword]
    simp [State.note, Op.performer, Op.thread, hpc, Child.present]
  induction k with
  | zero =>
      exact h.step (e := .user (.sync s.id counter.debugLoad)) trivial (hstep _ _ hword rfl)
  | succ k ih =>
      refine ih.step (e := .user (.sync s.id counter.debugLoad)) trivial ?_
      have hnext := hstep (s.memory.advanced s.id (k + 1)) (s.loadingLog (k + 1)) hword rfl
      rw [Memory.advanced_ticked] at hnext
      exact hnext

def afterAccess : State :=
  (runEvents (State.next 1 exampleSync) (fun _ _ => True) waiting State.start).getD
    State.start

theorem reach_afterAccess :
    Reach (State.next 1 exampleSync) (fun _ _ => True) State.start afterAccess := by
  refine @reach_of_run _ _ _ _ _ _ waiting _ _ Reach.start ?_
  obtain ⟨s, hrun⟩ := Option.isSome_iff_exists.mp
    (show (runEvents (State.next 1 exampleSync) (fun _ _ => True) waiting
      State.start).isSome = true by decide)
  rw [afterAccess, hrun]
  rfl

/-- With 2^32 ticks a thread comes to an epoch before its access: the owner joins it
and does not come after the access. -/
theorem thread_joined_before_access :
    ¬ ∀ s, Reach (State.next 1 exampleSync) (fun _ _ => True) State.start s →
      s.InOrder 1 := by
  intro hclaim
  have hword : afterAccess.memory.Word counter.loc 0 := Memory.word_iff.mp (by decide)
  have hloads := reach_loading reach_afterAccess (by decide) (by decide) hword (2 ^ 32 - 5)
  obtain ⟨s, hreach, hjoined, hbefore⟩ :=
    @exists_reach _ _ (State.next 1 exampleSync) (fun _ _ => True)
      (afterAccess.loading (2 ^ 32 - 4)) _ leaving
      (fun s => s.parent = .joined ∧
        s.memory.happensBefore ⟨64, .init, 2, 2, counter.site⟩ 1 = false) _
      (by decide +kernel)
  obtain ⟨hall, hlog⟩ := hreach.invariant
    (I := fun s => Reach (State.next 1 exampleSync) (fun _ _ => True) State.start s ∧
      (⟨64, .init, 2, 2, counter.site⟩ : OldAccess) ∈ s.log)
    ⟨hloads, mem_loadingLog (by decide) _⟩ fun s e s' hs _ hnext =>
      ⟨hs.1.step trivial hnext, (step_of_next hnext).log hs.2⟩
  cases hbefore.symm.trans (hclaim s hall hjoined _ hlog)

end StateBase

end TwistSim
