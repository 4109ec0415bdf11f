/-
Interleavings of memory-model operations and the happens-before relation on
them.  The relation is defined from the operations alone, never from clocks.
-/
import TwistSim.MemoryModel
import Mathlib.Logic.Relation

namespace TwistSim

/-- The operations of the memory model. -/
inductive Op where
  | spawn (parent child : ThreadId)
  | wake (waker waiter : ThreadId)
  | sync (thread : ThreadId) (action : Action)
  | access (thread : ThreadId) (access : Access)
  | malloc (thread : ThreadId) (addr : Addr) (size : Nat)
      (scope : Option SourceLocation)
  | free (thread : ThreadId) (addr : Addr)
  deriving DecidableEq, Repr

namespace Op

/-- The thread an operation belongs to: a spawn is the first event of the child,
and a wake is an event of the waiter. -/
def thread : Op → Nat
  | spawn _ child => child
  | wake _ waiter => waiter
  | sync thread _ | access thread _ | malloc thread .. | free thread _ => thread

def ticks : Op → Bool
  | malloc .. | free .. => false
  | _ => true

/-- Operations are performed by threads that exist; a child gets the next id. -/
def wellScoped (threadCount : Nat) : Op → Bool
  | spawn parent child =>
      decide (0 < parent ∧ parent ≤ threadCount ∧ child = threadCount + 1)
  | wake waker waiter =>
      decide (0 < waker ∧ waker ≤ threadCount ∧ 0 < waiter ∧
        waiter ≤ threadCount)
  | op => decide (0 < op.thread ∧ op.thread ≤ threadCount)

def location : Op → Addr
  | sync _ action => action.loc
  | access _ a => a.loc
  | malloc _ addr _ _ | free _ addr => addr
  | _ => 0

def isLoad : Op → Bool
  | sync _ action => action.type == .atomicLoad || action.type == .atomicRmwLoad
  | _ => false

def storesTo (loc : Addr) : Op → Bool
  | sync _ action =>
      action.loc == loc &&
        (action.type == .atomicStore || action.type == .atomicRmwCommit)
  | _ => false

/-- A write that does not continue the release sequences on `loc`. -/
def startsOver (loc : Addr) : Op → Bool
  | sync _ action =>
      action.loc == loc &&
        (action.type == .atomicStore || action.type == .atomicInit)
  | _ => false

def isFence : Op → Bool
  | sync _ action => action.type == .atomicThreadFence
  | _ => false

/-- Release operations: stores, read-modify-writes and fences. -/
def releases : Op → Bool
  | sync _ action =>
      action.mo.isReleaseOrder &&
        (action.type == .atomicStore || action.type == .atomicRmwCommit ||
          action.type == .atomicThreadFence)
  | _ => false

/-- Acquire operations: loads, read-modify-writes and fences. -/
def acquires : Op → Bool
  | sync _ action =>
      action.mo.isAcquireOrder &&
        (action.type == .atomicLoad || action.type == .atomicRmwLoad ||
          action.type == .atomicThreadFence)
  | _ => false

def frees (addr : Addr) : Op → Bool
  | free _ addr' => addr' == addr
  | _ => false

end Op

/-! ### Runs of the memory model -/

namespace Memory

/-- Before the first operation there is the main thread only. -/
def start : Memory := { empty with threadCount := 1 }

def exec (m : Memory) (op : Op) : Except Stop (Option OldAccess × Memory) :=
  if op.wellScoped m.threadCount then
    match op with
    | .spawn parent child =>
        match m.createThread with
        | .error p => .error (.panic p)
        | .ok (_, m) => (m.spawn parent child).map fun m => (none, m)
    | .wake waker waiter => (m.wake waker waiter).map fun m => (none, m)
    | .sync thread action =>
        (m.syncCall thread action).map fun reply => (none, reply.2)
    | .access thread access => m.accessNonAtomicVar thread access
    | .malloc thread addr size scope =>
        .ok (none, m.malloc thread addr size scope)
    | .free thread addr => .ok (none, m.free thread addr)
  else .error (.panic (.undefined "no such thread"))

/-- The race reports of a run, one per operation, and its last state. -/
def run : List Op → Memory → Except Stop (List (Option OldAccess) × Memory)
  | [], m => .ok ([], m)
  | op :: ops, m =>
      match m.exec op with
      | .error e => .error e
      | .ok (race, m) =>
          (run ops m).map fun result => (race :: result.1, result.2)

end Memory

/-- The operation at a position of the interleaving. -/
def opAt (tr : List Op) (i : Nat) : Op := tr.getD i (.free 0 0)

/-- What holds of the start and is kept by every operation holds around every
operation of a run. -/
theorem Memory.run_invariant {tr : List Op} {m₀ final : Memory}
    {races : List (Option OldAccess)} {P : Nat → Memory → Prop}
    (hrun : Memory.run tr m₀ = .ok (races, final)) (hinit : P 0 m₀)
    (hstep : ∀ n m race m', n < tr.length → P n m →
      m.exec (opAt tr n) = .ok (race, m') → races[n]? = some race → P (n + 1) m')
    {j : Nat} (hj : j < tr.length) :
    ∃ m race m', P j m ∧ m.exec (opAt tr j) = .ok (race, m') ∧
      races[j]? = some race := by
  induction tr generalizing m₀ races P j with
  | nil => exact absurd hj (Nat.not_lt_zero j)
  | cons op ops ih =>
      rw [Memory.run] at hrun
      cases hexec : m₀.exec op with
      | error e =>
          rw [hexec] at hrun
          cases hrun
      | ok first =>
          obtain ⟨race, m₁⟩ := first
          rw [hexec] at hrun
          obtain ⟨⟨rest, last⟩, hrest, heq⟩ := map_eq_ok hrun
          cases heq
          cases j with
          | zero => exact ⟨m₀, race, m₁, hinit, hexec, rfl⟩
          | succ j =>
              have hfirst := hstep 0 m₀ race m₁ (Nat.zero_lt_succ _) hinit hexec rfl
              apply ih hrest hfirst _ (Nat.lt_of_succ_lt_succ hj)
              intro n m race' m' hn hP hexec' hrace
              exact hstep (n + 1) m race' m' (Nat.succ_lt_succ hn) hP hexec' hrace

/-! ### Happens-before -/

/-- Which operations act as fences: in the standard only fences do; the folded
rules let every release operation act as a release fence as well, and every
acquire operation as an acquire fence. -/
inductive FenceRules where
  | standard | folded
  deriving DecidableEq, Repr

def FenceRules.releaseFence (rules : FenceRules) (op : Op) : Bool :=
  op.releases && (op.isFence || rules == .folded)

def FenceRules.acquireFence (rules : FenceRules) (op : Op) : Bool :=
  op.acquires && (op.isFence || rules == .folded)

section Relations

variable (rules : FenceRules) (tr : List Op)

def SameThread (i j : Nat) : Prop := (opAt tr i).thread = (opAt tr j).thread

/-- `s` is the release side of the store `x`: the store itself, or a release
fence sequenced before it. -/
def Publishes (s x : Nat) : Prop :=
  (s = x ∧ (opAt tr s).releases = true) ∨
    (s < x ∧ SameThread tr s x ∧ rules.releaseFence (opAt tr s) = true)

/-- The load `y` reads from the release sequence headed by the store `x`. -/
def ReadsFrom (x y : Nat) : Prop :=
  x < y ∧ (opAt tr y).isLoad = true ∧
    (opAt tr x).storesTo (opAt tr y).location = true ∧
    ∀ z < y, x < z → (opAt tr z).startsOver (opAt tr y).location = false

/-- `t` is the acquire side of the load `y`: the load itself, or an acquire
fence sequenced after it. -/
def Observes (y t : Nat) : Prop :=
  (t = y ∧ (opAt tr t).acquires = true) ∨
    (y < t ∧ SameThread tr y t ∧ rules.acquireFence (opAt tr t) = true)

def SynchronizesWith (s t : Nat) : Prop :=
  ∃ y < t + 1, ∃ x < y,
    Publishes rules tr s x ∧ ReadsFrom tr x y ∧ Observes rules tr y t

/-- The edges into an operation that come from the kind of that operation:
the spawning thread so far, the release operations of the waker, the last
`free` of the address. -/
def SpecialEdge (i j : Nat) : Prop :=
  match opAt tr j with
  | .spawn parent _ => (opAt tr i).thread = parent
  | .wake waker _ => (opAt tr i).thread = waker ∧ (opAt tr i).releases = true
  | .malloc _ addr _ _ =>
      (opAt tr i).frees addr = true ∧
        ∀ k < j, i < k → (opAt tr k).frees addr = false
  | _ => False

def Direct (i j : Nat) : Prop :=
  i < j ∧ (SameThread tr i j ∨ SpecialEdge tr i j ∨
    SynchronizesWith rules tr i j)

def HappensBefore (i j : Nat) : Prop := Relation.TransGen (Direct rules tr) i j

/-- Two accesses of different threads to one location, one of them a write. -/
def Conflicting (i j : Nat) : Prop :=
  match opAt tr i, opAt tr j with
  | .access t a, .access u b =>
      t ≠ u ∧ a.loc = b.loc ∧ Memory.conflict a.type b.type = true
  | _, _ => False

instance (i j : Nat) : Decidable (SameThread tr i j) := by
  unfold SameThread
  infer_instance

instance (s x : Nat) : Decidable (Publishes rules tr s x) := by
  unfold Publishes
  infer_instance

instance (x y : Nat) : Decidable (ReadsFrom tr x y) := by
  unfold ReadsFrom
  infer_instance

instance (y t : Nat) : Decidable (Observes rules tr y t) := by
  unfold Observes
  infer_instance

instance (s t : Nat) : Decidable (SynchronizesWith rules tr s t) := by
  unfold SynchronizesWith
  infer_instance

instance (i j : Nat) : Decidable (SpecialEdge tr i j) := by
  unfold SpecialEdge
  split <;> infer_instance

instance (i j : Nat) : Decidable (Direct rules tr i j) := by
  unfold Direct
  infer_instance

instance (i j : Nat) : Decidable (Conflicting tr i j) := by
  unfold Conflicting
  split <;> infer_instance

end Relations

variable {rules : FenceRules} {tr : List Op}

theorem direct_lt (i j : Nat) (h : Direct rules tr i j) : i < j := h.1

theorem releaseFence_mono {op : Op}
    (h : FenceRules.standard.releaseFence op = true) :
    rules.releaseFence op = true := by
  cases rules with
  | standard => exact h
  | folded =>
      simp only [FenceRules.releaseFence, Bool.and_eq_true] at h ⊢
      exact ⟨h.1, by simp⟩

theorem acquireFence_mono {op : Op}
    (h : FenceRules.standard.acquireFence op = true) :
    rules.acquireFence op = true := by
  cases rules with
  | standard => exact h
  | folded =>
      simp only [FenceRules.acquireFence, Bool.and_eq_true] at h ⊢
      exact ⟨h.1, by simp⟩

/-- The folded rules only add edges. -/
theorem Direct.mono {i j : Nat} (h : Direct .standard tr i j) :
    Direct rules tr i j := by
  obtain ⟨hlt, hsame | hspecial | ⟨y, hy, x, hx, hpub, hread, hobs⟩⟩ := h
  · exact ⟨hlt, Or.inl hsame⟩
  · exact ⟨hlt, Or.inr (Or.inl hspecial)⟩
  · refine ⟨hlt, Or.inr (Or.inr ⟨y, hy, x, hx, ?_, hread, ?_⟩)⟩
    · rcases hpub with hself | ⟨hsx, hthread, hfence⟩
      · exact Or.inl hself
      · exact Or.inr ⟨hsx, hthread, releaseFence_mono hfence⟩
    · rcases hobs with hself | ⟨hyt, hthread, hfence⟩
      · exact Or.inl hself
      · exact Or.inr ⟨hyt, hthread, acquireFence_mono hfence⟩

theorem HappensBefore.mono {i j : Nat} (h : HappensBefore .standard tr i j) :
    HappensBefore rules tr i j :=
  Relation.TransGen.mono (fun _ _ => Direct.mono) i j h

theorem HappensBefore.lt {i j : Nat} (h : HappensBefore rules tr i j) :
    i < j := by
  induction h with
  | single h => exact h.1
  | tail _ h ih => exact Nat.lt_trans ih h.1

/-- A set that contains everything directly before its members contains
everything that happens before them. -/
theorem HappensBefore.mem_of_closed {S : Set Nat}
    (hclosed : ∀ j ∈ S, ∀ i < j, Direct rules tr i j → i ∈ S) {i j : Nat}
    (h : HappensBefore rules tr i j) (hj : j ∈ S) : i ∈ S := by
  induction h using Relation.TransGen.head_induction_on with
  | single h => exact hclosed _ hj _ h.1 h
  | head h _ ih => exact hclosed _ ih _ h.1 h

end TwistSim
