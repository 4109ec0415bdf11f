/-
The clocks of the memory model track the folded happens-before relation: after
any run, each stored clock represents the past it is meant to represent.
-/
import TwistSim.ClockInvariant

namespace TwistSim

/-- Only the threads `1, .., k` have acted before position `n`. -/
def Scoped (tr : List Op) (n k : Nat) : Prop :=
  ∀ i < n, 0 < (opAt tr i).thread ∧ (opAt tr i).thread ≤ k

structure TracksThread (tr : List Op) (n : Nat) (t : Nat)
    (ctx : ThreadContext) : Prop where
  current : (timeline tr).Represents n ctx.current (hbPast tr (ownEvents tr n t))
  release :
    (timeline tr).Represents n ctx.release (hbPast tr (releaseEvents tr n t))
  acquire :
    (timeline tr).Represents n ctx.acquire (hbPast tr (observedEvents tr n t))
  epoch : ctx.epoch = (timeline tr).tickCount n (t - 1)

def TracksAtomics (tr : List Op) (n : Nat) (m : Memory) : Prop :=
  ∀ loc atomic, m.atomics loc = some atomic →
    (timeline tr).Represents n atomic.lastStore.clock
      (hbPast tr (storedEvents tr n loc))

def TracksAllocs (tr : List Op) (n : Nat) (m : Memory) : Prop :=
  ∀ addr, (timeline tr).Represents n (m.getShadowAllocation addr).free
    (hbPast tr (freedEvents tr n addr))

/-- After the first `n` operations of `tr` the memory model is in state `m`,
and its clocks mean what they should. -/
structure Tracks (tr : List Op) (n : Nat) (m : Memory) : Prop where
  wellScoped : Scoped tr n m.threadCount
  threads : ∀ t, 0 < t → TracksThread tr n t (m.sync t)
  atomics : TracksAtomics tr n m
  allocs : TracksAllocs tr n m

variable {tr : List Op} {n k : Nat}

/-! ### Clock operations over the threads that exist -/

theorem tickCount_beyond (hscoped : Scoped tr n k) {i : Nat} (hi : k ≤ i) :
    (timeline tr).tickCount n i = 0 := by
  apply Timeline.tickCount_eq_zero
  intro j hj _ heq
  have hbounds := hscoped j hj
  change (opAt tr j).thread - 1 = i at heq
  omega

section Clocks

variable {c d : VectorClock} {S T : Set Nat}

theorem Represents.beyond (hscoped : Scoped tr n k)
    (h : (timeline tr).Represents n c S) {i : Nat} (hi : k ≤ i) : c i = 0 := by
  have hbound := h.bounded i
  rw [tickCount_beyond hscoped hi] at hbound
  exact Nat.le_zero.mp hbound

theorem Represents.join (hscoped : Scoped tr n k)
    (hS : (timeline tr).Represents n c S) (hT : (timeline tr).Represents n d T) :
    (timeline tr).Represents n (VectorClock.join k c d) (S ∪ T) := by
  have heq : VectorClock.join k c d = fun i => max (c i) (d i) := by
    funext i
    by_cases hi : i < k
    · simp [VectorClock.join, hi]
    · simp [VectorClock.join, hi, Represents.beyond hscoped hT (Nat.le_of_not_lt hi)]
  rw [heq]
  exact hS.union hT

theorem Represents.assign (hscoped : Scoped tr n k)
    (hS : (timeline tr).Represents n c S) (hT : (timeline tr).Represents n d T) :
    (timeline tr).Represents n (VectorClock.assign k c d) T := by
  have heq : VectorClock.assign k c d = d := by
    funext i
    by_cases hi : i < k
    · simp [VectorClock.assign, hi]
    · have hi' := Nat.le_of_not_lt hi
      simp [VectorClock.assign, hi, Represents.beyond hscoped hS hi',
        Represents.beyond hscoped hT hi']
  rw [heq]
  exact hT

/-- The next operation is not in the past of earlier ones. -/
theorem not_mem_hbPast (hS : ∀ s ∈ S, s < n) : n ∉ hbPast tr S :=
  fun hmem => Nat.lt_irrefl n (past_lt direct_lt hS hmem)

theorem Represents.advance (h : (timeline tr).Represents n c (hbPast tr S))
    (hS : ∀ s ∈ S, s < n) : (timeline tr).Represents (n + 1) c (hbPast tr S) :=
  h.step (not_mem_hbPast hS)

end Clocks

/-! ### Components that an operation leaves alone -/

theorem TracksThread.idle {t : Nat} {ctx : ThreadContext}
    (h : TracksThread tr n t ctx) (ht : 0 < t) (hthread : 0 < (opAt tr n).thread)
    (hne : (opAt tr n).thread ≠ t) : TracksThread tr (n + 1) t ctx where
  current := by
    rw [ownEvents_other hne]
    exact Represents.advance h.current fun s hs => hs.1
  release := by
    rw [releaseEvents_idle (Or.inl hne)]
    exact Represents.advance h.release fun s hs => hs.1
  acquire := by
    rw [observedEvents_idle (Or.inl hne)]
    exact Represents.advance h.acquire observedEvents_lt
  epoch := by
    have hslot : (timeline tr).thread n ≠ t - 1 := by
      change (opAt tr n).thread - 1 ≠ t - 1
      omega
    simp [Timeline.tickCount, hslot, h.epoch]

theorem TracksAtomics.idle {m m' : Memory} (h : TracksAtomics tr n m)
    (heq : m'.atomics = m.atomics)
    (hstore : ∀ loc, (opAt tr n).storesTo loc = false)
    (hover : ∀ loc, (opAt tr n).startsOver loc = false) :
    TracksAtomics tr (n + 1) m' := by
  intro loc atomic hatomic
  rw [heq] at hatomic
  rw [storedEvents_idle (hstore loc) (hover loc)]
  exact Represents.advance (h loc atomic hatomic) storedEvents_lt

/-- One atomic was replaced. -/
theorem TracksAtomics.update {m m' : Memory} (h : TracksAtomics tr n m)
    {loc : Addr} {atomic : AtomicVar}
    (heq : m'.atomics = Function.update m.atomics loc (some atomic))
    (hnew : (timeline tr).Represents (n + 1) atomic.lastStore.clock
      (hbPast tr (storedEvents tr (n + 1) loc)))
    (hstore : ∀ loc', loc' ≠ loc → (opAt tr n).storesTo loc' = false)
    (hover : ∀ loc', loc' ≠ loc → (opAt tr n).startsOver loc' = false) :
    TracksAtomics tr (n + 1) m' := by
  intro loc' atomic' hatomic
  rw [heq] at hatomic
  by_cases hloc : loc' = loc
  · subst hloc
    rw [Function.update_self, Option.some.injEq] at hatomic
    subst hatomic
    exact hnew
  · rw [Function.update_of_ne hloc] at hatomic
    rw [storedEvents_idle (hstore loc' hloc) (hover loc' hloc)]
    exact Represents.advance (h loc' atomic' hatomic) storedEvents_lt

theorem TracksAllocs.idle {m m' : Memory} (h : TracksAllocs tr n m)
    (heq : m'.allocs = m.allocs) (hfree : ∀ addr, (opAt tr n).frees addr = false) :
    TracksAllocs tr (n + 1) m' := by
  intro addr
  have hsame : m'.getShadowAllocation addr = m.getShadowAllocation addr := by
    simp [Memory.getShadowAllocation, heq]
  rw [hsame, freedEvents_idle (hfree addr)]
  exact Represents.advance (h addr) fun s hs => hs.1

/-- What is left to show for an operation is its own thread, the atomics and
the allocations. -/
theorem Tracks.step {m m' : Memory} (h : Tracks tr n m)
    (hcount : m.threadCount ≤ m'.threadCount)
    (hpos : 0 < (opAt tr n).thread) (hle : (opAt tr n).thread ≤ m'.threadCount)
    (hsync : ∀ t, t ≠ (opAt tr n).thread → m'.sync t = m.sync t)
    (hself : TracksThread tr (n + 1) (opAt tr n).thread
      (m'.sync (opAt tr n).thread))
    (hatomics : TracksAtomics tr (n + 1) m')
    (hallocs : TracksAllocs tr (n + 1) m') : Tracks tr (n + 1) m' where
  wellScoped i hi := by
    rcases Nat.lt_succ_iff_lt_or_eq.mp hi with hlt | rfl
    · have hold := h.wellScoped i hlt
      exact ⟨hold.1, hold.2.trans hcount⟩
    · exact ⟨hpos, hle⟩
  threads t ht := by
    by_cases heq : t = (opAt tr n).thread
    · subst heq
      exact hself
    · rw [hsync t heq]
      exact (h.threads t ht).idle ht hpos (Ne.symm heq)
  atomics := hatomics
  allocs := hallocs

/-! ### The current clock of the thread that acts -/

section Current

variable {c a : VectorClock}

theorem acquiredEvents_eq (hacq : (opAt tr n).acquires = true) :
    acquiredEvents tr n = observedEvents tr (n + 1) (opAt tr n).thread := by
  ext i
  simp [acquiredEvents, hacq]

theorem acquiredEvents_empty (hacq : (opAt tr n).acquires = false) :
    acquiredEvents tr n = ∅ := by
  ext i
  simp [acquiredEvents, hacq]

/-- An operation that acquires nothing adds itself. -/
theorem Represents.own_plain (hspecial : specialEvents tr n = ∅)
    (hacq : (opAt tr n).acquires = false)
    (h : (timeline tr).Represents (n + 1) c
      (insert n (hbPast tr (ownEvents tr n (opAt tr n).thread)))) :
    (timeline tr).Represents (n + 1) c
      (hbPast tr (ownEvents tr (n + 1) (opAt tr n).thread)) := by
  rw [hbPast_ownEvents_self, hspecial, acquiredEvents_empty hacq]
  simpa [hbPast, past_empty] using h

/-- An acquire operation adds itself and what its thread has observed. -/
theorem Represents.own_acquire (hscoped : Scoped tr (n + 1) k)
    (hspecial : specialEvents tr n = ∅) (hacq : (opAt tr n).acquires = true)
    (hc : (timeline tr).Represents (n + 1) c
      (insert n (hbPast tr (ownEvents tr n (opAt tr n).thread))))
    (ha : (timeline tr).Represents (n + 1) a
      (hbPast tr (observedEvents tr (n + 1) (opAt tr n).thread))) :
    (timeline tr).Represents (n + 1) (VectorClock.join k c a)
      (hbPast tr (ownEvents tr (n + 1) (opAt tr n).thread)) := by
  have hjoin := Represents.join hscoped hc ha
  rw [hbPast_ownEvents_self, hspecial, acquiredEvents_eq hacq]
  simpa [hbPast, past_empty, Set.insert_union] using hjoin

end Current

end TwistSim
