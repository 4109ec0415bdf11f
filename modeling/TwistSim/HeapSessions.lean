/-
Sessions of the isolated memory: any order of resets, allocations, frees of live
pointers, and stacks taken and given back.  What every reachable session keeps,
and where its blocks and stacks lie.
-/
import TwistSim.HeapSteps
import Mathlib.Logic.Relation
import Mathlib.Algebra.Order.BigOperators.Group.List
import Mathlib.Algebra.GroupWithZero.Nat

namespace TwistSim.Isolated

open Extents

/-- The memory and what its users hold: `live` pointers with their requested
sizes, every pointer `returned` since the last `Reset`, and the stacks
`taken`. -/
structure Session where
  memory : Memory
  live : List (Nat × Nat)
  returned : List Nat
  taken : List Nat
  ready : Bool

/-- Before anything has been allocated. -/
def Session.fresh (segment : Segment) (minStackSize : Nat) : Session :=
  ⟨Memory.fresh segment minStackSize, [], [], [], false⟩

/-- The session after a `Reset` that left `m`. -/
def Session.restart (s : Session) (m : Memory) : Session :=
  { s with memory := m, live := [], returned := [], ready := true }

/-- One call between two resets. -/
inductive Session.Works (s : Session) : Session → Prop where
  | allocate (size p : Nat) (context : AllocContext) (m : Memory) (hready : s.ready)
      (h : allocate size context s.memory = .ok (some p) m) :
      s.Works
        { s with memory := m, live := (p, size) :: s.live, returned := p :: s.returned }
  | overflow (size : Nat) (context : AllocContext) (m : Memory) (hready : s.ready)
      (h : allocate size context s.memory = .ok none m) :
      s.Works { s with memory := m }
  | free (p size : Nat) (m : Memory) (u : Unit) (hready : s.ready) (hlive : (p, size) ∈ s.live)
      (h : free p s.memory = .ok u m) :
      s.Works { s with memory := m, live := s.live.erase (p, size) }
  | allocateStack (stack : Nat) (m : Memory)
      (h : allocateStack s.memory = .ok (some stack) m) :
      s.Works { s with memory := m, taken := stack :: s.taken }
  | noStack (m : Memory) (h : allocateStack s.memory = .ok none m) :
      s.Works { s with memory := m }
  | freeStack (stack : Nat) (m : Memory) (u : Unit) (hstack : stack ∈ s.taken)
      (h : freeStack stack s.memory = .ok u m) :
      s.Works { s with memory := m, taken := s.taken.erase stack }

/-- One call. -/
inductive Session.Next (s : Session) : Session → Prop where
  | works (t : Session) (h : s.Works t) : s.Next t
  | boot (size start : Nat) (m : Memory)
      (h : allocateBootBlock size s.memory = .ok start m) :
      s.Next { s with memory := m, live := [], returned := [], ready := false }
  | reset (m : Memory) (u : Unit) (h : reset s.memory = .ok u m) : s.Next (s.restart m)

/-- The memory that a call leaves, whether it returns or not. -/
def resultMemory {α : Type} : EStateM.Result Stop Memory α → Memory
  | .ok _ m => m
  | .error _ m => m

def Session.Reached (segment : Segment) (minStackSize : Nat) (s : Session) : Prop :=
  Relation.ReflTransGen Session.Next (Session.fresh segment minStackSize) s

/-! ### Stacks -/

/-- The stacks, free and allocated, lie apart from each other above the heap. -/
structure Memory.Stacked (m : Memory) (taken : List Nat) : Prop where
  size_pos : 0 < m.stackSize
  inside : ∀ a ∈ m.pool ++ taken,
    m.segment.down ≤ a ∧ a + m.stackSize ≤ m.segment.segment.stop
  apart : (m.pool ++ taken).Pairwise
    fun a b => a + m.stackSize ≤ b ∨ b + m.stackSize ≤ a

namespace Memory.Stacked

variable {m m' : Memory} {taken taken' : List Nat}

theorem perm (h : m.Stacked taken) (hsegment : m'.segment = m.segment)
    (hsize : m'.stackSize = m.stackSize)
    (hperm : (m'.pool ++ taken').Perm (m.pool ++ taken)) : m'.Stacked taken' where
  size_pos := hsize ▸ h.size_pos
  inside a ha := by
    rw [hsegment, hsize]
    exact h.inside a (hperm.mem_iff.mp ha)
  apart := by
    rw [hsize]
    exact (hperm.pairwise_iff fun hab => hab.symm).mpr h.apart

theorem mono (h : m.Stacked taken) (hsegment : m'.segment.segment = m.segment.segment)
    (hdown : m'.segment.down = m.segment.down) (hsize : m'.stackSize = m.stackSize)
    (hpool : m'.pool = m.pool) : m'.Stacked taken where
  size_pos := hsize ▸ h.size_pos
  inside := by
    rw [hpool, hdown, hsize, hsegment]
    exact h.inside
  apart := by
    rw [hpool, hsize]
    exact h.apart

theorem onward (h : m.Stacked taken) (hon : m.Onward m') : m'.Stacked taken :=
  h.mono hon.segment_eq hon.ahead.down_eq hon.stackSize_eq hon.pool_eq

end Memory.Stacked

theorem tryDown_some {s : SharedSegment} {size : Nat} (h : size ≤ s.spaceLeft) :
    ∃ s', s.tryDown size = some s' ∧ s'.segment = s.segment ∧ s'.up = s.up ∧
      s'.down + size = s.down := by
  rw [SharedSegment.tryDown, dif_neg (Nat.not_lt.mpr h)]
  refine ⟨_, rfl, rfl, rfl, ?_⟩
  rw [SharedSegment.spaceLeft] at h
  exact Nat.sub_add_cancel (Nat.le_trans h (Nat.sub_le _ _))

theorem tryDown_none {s : SharedSegment} {size : Nat} (h : s.spaceLeft < size) :
    s.tryDown size = none := by
  rw [SharedSegment.tryDown, dif_pos h]

/-- The stack allocator leaves the heap alone. -/
structure Memory.SameHeap (m m' : Memory) : Prop where
  headers : m'.headers = m.headers
  index : m'.index = m.index
  next : m'.next = m.next
  freeLists : m'.freeLists = m.freeLists
  stat : m'.stat = m.stat
  segment : m'.segment.segment = m.segment.segment
  up : m'.segment.up = m.segment.up

theorem Memory.SameHeap.tiled {m m' : Memory} (h : m.SameHeap m') (ht : m.Tiled) :
    m'.Tiled :=
  ht.reheader h.segment h.up h.index h.next (fun _ _ => by rw [h.headers]; exact ⟨rfl, rfl⟩)
    (by rw [h.headers])

theorem Memory.SameHeap.filed {m m' : Memory} {live : List (Nat × Nat)} {hands : List Nat}
    (h : m.SameHeap m') (hf : m.Filed hands live) : m'.Filed hands live :=
  hf.reheader (by rw [h.index]) h.freeLists fun _ _ _ => by rw [h.headers]

theorem allocateStack_some {m m' : Memory} {stack : Nat} {taken : List Nat}
    (h : m.Stacked taken) (hrun : allocateStack m = .ok (some stack) m') :
    m'.Stacked (stack :: taken) ∧ m.SameHeap m' := by
  cases hpool : m.pool with
  | cons first pool =>
    simp only [allocateStack, bind_apply, get_apply, hpool, set_apply, pure_apply,
      EStateM.Result.ok.injEq, Option.some.injEq] at hrun
    obtain ⟨rfl, rfl⟩ := hrun
    refine ⟨h.perm rfl rfl ?_, rfl, rfl, rfl, rfl, rfl, rfl, rfl⟩
    rw [hpool]
    exact List.perm_middle
  | nil =>
    by_cases hspace : m.stackSize ≤ m.segment.spaceLeft
    · obtain ⟨s, hs, hsegment, hup, hdown⟩ := tryDown_some hspace
      simp only [allocateStack, bind_apply, get_apply, hpool, hs, set_apply, pure_apply,
        EStateM.Result.ok.injEq, Option.some.injEq] at hrun
      obtain ⟨rfl, rfl⟩ := hrun
      refine ⟨?_, rfl, rfl, rfl, rfl, rfl, hsegment, hup⟩
      have hbelow : s.down + m.stackSize = m.segment.down := hdown
      constructor
      case size_pos => exact h.size_pos
      case inside =>
        intro a ha
        have hinside := h.inside
        simp only [hpool, List.nil_append, List.mem_cons] at ha hinside
        rcases ha with rfl | ha
        · refine ⟨Nat.le_refl _, ?_⟩
          show s.down + m.stackSize ≤ s.segment.stop
          rw [hbelow, hsegment]
          exact m.segment.down_le_stop
        · have := hinside a ha
          show s.down ≤ a ∧ a + m.stackSize ≤ s.segment.stop
          rw [hsegment]
          omega
      case apart =>
        have hapart := h.apart
        have hinside := h.inside
        simp only [hpool, List.nil_append] at hapart hinside ⊢
        refine List.pairwise_cons.mpr ⟨fun b hb => .inl ?_, hapart⟩
        exact hbelow ▸ (hinside b hb).1
    · simp [allocateStack, hpool, tryDown_none (Nat.not_le.mp hspace)] at hrun

theorem allocateStack_none {m m' : Memory} (hrun : allocateStack m = .ok none m') : m' = m := by
  cases hpool : m.pool with
  | cons first pool => simp [allocateStack, hpool] at hrun
  | nil =>
    cases hdown : m.segment.tryDown m.stackSize with
    | none =>
      simp only [allocateStack, bind_apply, get_apply, hpool, hdown, pure_apply,
        EStateM.Result.ok.injEq] at hrun
      exact hrun.2.symm
    | some segment => simp [allocateStack, hpool, hdown] at hrun

/-! ### Statistics -/

/-- The counters, modulo the word size, against what is outstanding. -/
structure AllocatorStat.Counts (stat : AllocatorStat) (live : List (Nat × Nat)) : Prop where
  alloc_eq : stat.allocCount = sizeAdd stat.freeCount live.length
  bytes_eq : stat.userBytesAllocated =
    sizeAdd stat.userBytesFreed (live.map Prod.snd).sum
  freeCount_lt : stat.freeCount < 2 ^ 64
  bytesFreed_lt : stat.userBytesFreed < 2 ^ 64

theorem sizeAdd_lt (a b : Nat) : sizeAdd a b < 2 ^ 64 := Nat.mod_lt _ (by decide)

theorem sizeAdd_assoc (a b c : Nat) : sizeAdd (sizeAdd a b) c = sizeAdd a (b + c) := by
  simp only [sizeAdd]
  omega

theorem sizeSub_sizeAdd {a b : Nat} (ha : a < 2 ^ 64) (hb : b < 2 ^ 64) :
    sizeSub (sizeAdd a b) a = b := by
  simp only [sizeSub, sizeAdd]
  omega

namespace AllocatorStat.Counts

variable {stat stat' : AllocatorStat} {live : List (Nat × Nat)} {p size : Nat}

theorem zero : AllocatorStat.zero.Counts [] := ⟨rfl, rfl, by decide, by decide⟩

theorem congr (h : stat.Counts live) (heq : stat'.toHeapStat = stat.toHeapStat) :
    stat'.Counts live := by
  obtain ⟨halloc, hbytes, hcount, hfreed⟩ := h
  constructor <;> rw [heq] <;> assumption

theorem allocate (h : stat.Counts live)
    (heq : stat'.toHeapStat =
      { stat.toHeapStat with
        allocCount := sizeAdd stat.allocCount 1
        userBytesAllocated := sizeAdd stat.userBytesAllocated size }) :
    stat'.Counts ((p, size) :: live) where
  alloc_eq := by
    simp only [heq, h.alloc_eq, List.length_cons]
    exact sizeAdd_assoc _ _ _
  bytes_eq := by
    simp only [heq, h.bytes_eq, List.map_cons, List.sum_cons]
    rw [sizeAdd_assoc, Nat.add_comm size]
  freeCount_lt := by simpa only [heq] using h.freeCount_lt
  bytesFreed_lt := by simpa only [heq] using h.bytesFreed_lt

theorem free (h : stat.Counts live) (hlive : (p, size) ∈ live)
    (heq : stat'.toHeapStat =
      { stat.toHeapStat with
        freeCount := sizeAdd stat.freeCount 1
        userBytesFreed := sizeAdd stat.userBytesFreed size }) :
    stat'.Counts (live.erase (p, size)) where
  alloc_eq := by
    have hlength : (live.erase (p, size)).length + 1 = live.length :=
      List.length_erase_add_one hlive
    simp only [heq, h.alloc_eq]
    rw [sizeAdd_assoc, Nat.add_comm 1, hlength]
  bytes_eq := by
    have hsum : size + ((live.erase (p, size)).map Prod.snd).sum =
        (live.map Prod.snd).sum :=
      ((List.perm_cons_erase hlive).map Prod.snd).sum_eq.symm
    simp only [heq, h.bytes_eq]
    rw [sizeAdd_assoc, hsum]
  freeCount_lt := by
    simp only [heq]
    exact sizeAdd_lt _ _
  bytesFreed_lt := by
    simp only [heq]
    exact sizeAdd_lt _ _

end AllocatorStat.Counts

/-! ### Every reachable session -/

/-- The heap of a session that has one. -/
structure Session.Heaped (s : Session) : Prop where
  tiled : s.memory.Tiled
  filed : s.memory.Filed [] s.live
  counts : s.memory.stat.Counts s.live
  returned : ∀ p ∈ s.returned, ∃ block ∈ s.memory.index.blocks,
    p = data block ∧ (s.memory.headers block).service = false

structure Session.Sound (s : Session) : Prop where
  stacked : s.memory.Stacked s.taken
  heaped : s.ready → s.Heaped

variable {s t : Session} {segment : Segment} {minStackSize : Nat}

theorem returned_onward {m m' : Memory} {returned : List Nat} (hon : m.Onward m')
    (h : ∀ p ∈ returned, ∃ block ∈ m.index.blocks,
      p = data block ∧ (m.headers block).service = false) :
    ∀ p ∈ returned, ∃ block ∈ m'.index.blocks,
      p = data block ∧ (m'.headers block).service = false := by
  intro p hp
  obtain ⟨block, hblock, hdata, hservice⟩ := h p hp
  obtain ⟨hblock', hservice'⟩ := hon.users block hblock hservice
  exact ⟨block, hblock', hdata, hservice'⟩

/-- `Free` of a live pointer that returns. -/
theorem free_frees {p size : Nat} {m : Memory} {u : Unit} (h : s.Heaped)
    (hlive : (p, size) ∈ s.live) (hrun : free p s.memory = .ok u m) :
    ∃ block, p = data block ∧ s.memory.Frees s.live block size m := by
  obtain ⟨block, -, -, rfl, -⟩ := h.filed.live_block _ hlive
  refine ⟨block, rfl, ?_⟩
  by_cases hroomy : s.memory.Roomy block
  · obtain ⟨m', heq, hfrees⟩ := free_live_ok h.tiled h.filed hlive hroomy
    rw [heq] at hrun
    cases hrun
    exact hfrees
  · obtain ⟨p, m', heq, -⟩ := free_live_fails h.tiled h.filed hlive hroomy
    rw [heq] at hrun
    cases hrun

/-- A call that moves memory on keeps the heap. -/
theorem Session.Heaped.stack (h : s.Heaped) {m : Memory} {taken : List Nat}
    (hsame : s.memory.SameHeap m) : Session.Heaped { s with memory := m, taken := taken } where
  tiled := hsame.tiled h.tiled
  filed := hsame.filed h.filed
  counts := h.counts.congr (by rw [hsame.stat])
  returned := by
    show ∀ p ∈ s.returned, _
    rw [hsame.index, hsame.headers]
    exact h.returned

theorem works_sound (h : s.Sound) (hworks : s.Works t) : t.Sound := by
  cases hworks with
  | allocate size p context m hready hrun =>
    have hheap := h.heaped hready
    have hallocates := @allocates s.memory s.live size context hheap.tiled hheap.filed
    rw [hrun] at hallocates
    cases hallocates with
    | block p m hfresh hlt hblock ht hf hon hcount =>
      refine ⟨h.stacked.onward hon, fun _ => ⟨ht, hf, hheap.counts.allocate hcount, ?_⟩⟩
      intro q hq
      rcases List.mem_cons.mp hq with rfl | hq
      · exact hblock
      · exact returned_onward hon hheap.returned q hq
  | overflow size context m hready hrun =>
    have hheap := h.heaped hready
    have hallocates := @allocates s.memory s.live size context hheap.tiled hheap.filed
    rw [hrun] at hallocates
    cases hallocates
    exact h
  | free p size m u hready hlive hrun =>
    have hheap := h.heaped hready
    obtain ⟨block, rfl, hfrees⟩ := free_frees hheap hlive hrun
    exact ⟨h.stacked.onward hfrees.onward, fun _ => ⟨hfrees.tiled, hfrees.filed,
      hheap.counts.free hlive hfrees.count, returned_onward hfrees.onward hheap.returned⟩⟩
  | allocateStack stack m hrun =>
    obtain ⟨hstacked, hsame⟩ := allocateStack_some h.stacked hrun
    exact ⟨hstacked, fun hready => (h.heaped hready).stack hsame⟩
  | noStack m hrun =>
    obtain rfl := allocateStack_none hrun
    exact h
  | freeStack stack m u hstack hrun =>
    cases hrun
    refine ⟨h.stacked.perm rfl rfl ?_, fun hready =>
      (h.heaped hready).stack ⟨rfl, rfl, rfl, rfl, rfl, rfl, rfl⟩⟩
    exact List.perm_middle.symm.trans ((List.perm_cons_erase hstack).symm.append_left _)

theorem restart_sound {m : Memory} {u : Unit} (h : s.memory.Stacked s.taken)
    (hrun : reset s.memory = .ok u m) : (s.restart m).Sound := by
  have hblank := reset_blank hrun
  refine ⟨h.mono hblank.segment_eq hblank.down_eq hblank.stackSize_eq hblank.pool_eq,
    fun _ => ⟨hblank.tiled, hblank.filed, ?_, nofun⟩⟩
  show m.stat.Counts []
  rw [hblank.stat_eq]
  exact .zero

theorem next_sound (h : s.Sound) (hnext : s.Next t) : t.Sound := by
  cases hnext with
  | works t hworks => exact works_sound h hworks
  | boot size start m hrun =>
    obtain ⟨_, _, hget, hrun⟩ := bind_ok hrun
    cases hget
    obtain ⟨ok, m₁, htry, hrun₁⟩ := bind_ok hrun
    cases ok with
    | false => cases hrun₁
    | true =>
      cases hrun₁
      obtain ⟨s', rfl, hsegment, -, hdown⟩ := of_trySetUp htry
      exact ⟨h.stacked.mono hsegment hdown rfl rfl, nofun⟩
  | reset m u hrun => exact restart_sound h.stacked hrun

theorem fresh_sound : (Session.fresh segment minStackSize).Sound where
  stacked := by
    refine ⟨?_, nofun, List.Pairwise.nil⟩
    show 0 < chooseStackSize minStackSize
    rw [chooseStackSize]
    omega
  heaped := nofun

/-- Between any two calls of any session. -/
theorem reached_sound (h : Session.Reached segment minStackSize s) : s.Sound := by
  induction h with
  | refl => exact fresh_sound
  | tail _ hnext ih => exact next_sound ih hnext

theorem works_of_sound (h : s.Sound) (hrun : Relation.ReflTransGen Session.Works s t) :
    t.Sound := by
  induction hrun with
  | refl => exact h
  | tail _ hworks ih => exact works_sound ih hworks

end TwistSim.Isolated
