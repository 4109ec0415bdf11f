/-
What the heap reports: leaks at the end of the main thread, double frees, and
the death of the simulator when a free list cannot grow.
-/
import TwistSim.HeapSessions
import Mathlib.Algebra.Order.Ring.Nat
import Mathlib.Algebra.Group.Action.Defs

namespace TwistSim.Isolated

variable {s : Session} {segment : Segment} {minStackSize : Nat} {m : Memory}
  {live : List (Nat × Nat)} {hands : List Nat}

/-! ### Leaks -/

theorem live_length_le (ht : m.Tiled) (hf : m.Filed hands live) :
    live.length ≤ indexCapacity := by
  have hsub : live.map Prod.fst ⊆ m.index.blocks.map data := by
    intro p hp
    obtain ⟨q, hq, rfl⟩ := List.mem_map.mp hp
    obtain ⟨b, hb, -, hdata, -⟩ := hf.live_block q hq
    exact List.mem_map.mpr ⟨b, hb, hdata.symm⟩
  have hle := (List.subperm_of_subset hf.live_nodup hsub).length_le
  rw [List.length_map, List.length_map] at hle
  exact Nat.le_trans hle ht.fits

theorem live_sum_lt (ht : m.Tiled) (hf : m.Filed hands live) :
    (live.map Prod.snd).sum < 2 ^ 64 := by
  have hle : (live.map Prod.snd).sum ≤ (live.map Prod.snd).length • allocSizeLimit := by
    refine List.sum_le_card_nsmul _ _ fun size hsize => ?_
    obtain ⟨p, hp, rfl⟩ := List.mem_map.mp hsize
    obtain ⟨b, -, -, -, huse⟩ := hf.live_block p hp
    exact Nat.le_of_lt huse.size_lt
  have hlength := live_length_le ht hf
  rw [List.length_map, smul_eq_mul] at hle
  simp only [indexCapacity, allocSizeLimit] at hlength hle
  omega

/-- The differences of the counters are exact, although the counters wrap. -/
theorem stat_exact (h : s.Heaped) :
    sizeSub s.memory.stat.allocCount s.memory.stat.freeCount = s.live.length ∧
      sizeSub s.memory.stat.userBytesAllocated s.memory.stat.userBytesFreed =
        (s.live.map Prod.snd).sum := by
  have hlength := live_length_le h.tiled h.filed
  have hsum := live_sum_lt h.tiled h.filed
  rw [h.counts.alloc_eq, h.counts.bytes_eq]
  refine ⟨sizeSub_sizeAdd h.counts.freeCount_lt ?_, sizeSub_sizeAdd h.counts.bytesFreed_lt hsum⟩
  simp only [indexCapacity] at hlength
  omega

theorem counts_equal_iff (h : s.Heaped) :
    s.memory.stat.allocCount = s.memory.stat.freeCount ↔ s.live = [] := by
  have hlength := live_length_le h.tiled h.filed
  have hlt := h.counts.freeCount_lt
  rw [h.counts.alloc_eq, ← List.length_eq_zero_iff]
  simp only [sizeAdd, indexCapacity] at hlength ⊢
  omega

/-- What `CheckMemory` leaves, given the live allocations. -/
def leakOutcome (live : List (Nat × Nat)) (sim : Sim) :
    Interaction Call Call.Reply (Except Thrown Unit × Sim) :=
  if live = [] then .ret (.ok (), sim)
  else .ret (.error .sysAbortEx,
    { sim with
      stderr := sim.stderr ++
        s!"Memory leaks: {(live.map Prod.snd).sum} byte(s) leaked in {live.length} allocation(s)\n" ++
        String.join (sim.allocations.map (Kernel.leakReport sim))
      status := some .memoryLeak })

theorem sysAbort_isolated {α : Type} {status : Status} {sim : Sim}
    (hisolation : sim.params.isolation) :
    (Kernel.sysAbort status : KernelM α) sim =
      .ret (.error .sysAbortEx, { sim with status := some status }) := by
  unfold Kernel.sysAbort
  show (ite _ _ _ : KernelM α) sim = _
  rw [if_pos hisolation]
  rfl

theorem checkMemory_eq (h : s.Heaped) {sim : Sim} (hisolation : sim.params.isolation)
    (hburnt : sim.burntThreads = 0) :
    Kernel.checkMemory s.memory.stat.toHeapStat sim = leakOutcome s.live sim := by
  obtain ⟨hcount, hbytes⟩ := stat_exact h
  have hiff := counts_equal_iff h
  unfold Kernel.checkMemory
  show (ite _ _ _ : KernelM Unit) sim = _
  by_cases hlive : s.live = []
  · have hequal := hiff.mpr hlive
    rw [leakOutcome, if_pos hlive, if_neg (by simp [hequal])]
    rfl
  · have hdiffer := mt hiff.mp hlive
    rw [leakOutcome, if_neg hlive, if_pos (by simp [hisolation, hburnt, hdiffer]), ← hcount,
      ← hbytes]
    exact @sysAbort_isolated Unit .memoryLeak { sim with stderr := _ } hisolation

/-! ### Double frees -/

/-- A pointer that was returned and is not outstanding belongs to a free block. -/
theorem returned_available (h : s.Heaped) {p : Nat} (hreturned : p ∈ s.returned)
    (hfreed : p ∉ s.live.map Prod.fst) :
    ∃ block ∈ s.memory.index.blocks, p = data block ∧
      (s.memory.headers block).state = .available := by
  obtain ⟨block, hblock, hdata, hservice⟩ := h.returned p hreturned
  refine ⟨block, hblock, hdata, ?_⟩
  cases h.filed.placed block hblock List.not_mem_nil with
  | live size hlive huse =>
    exact absurd (List.mem_map.mpr ⟨_, hlive, hdata.symm⟩) hfreed
  | free hidle hfree => exact hidle.state_eq
  | serving hserving => cases hservice.symm.trans hserving.service_eq

theorem free_twice (h : s.Heaped) {p : Nat} (hreturned : p ∈ s.returned)
    (hfreed : p ∉ s.live.map Prod.fst) :
    free p s.memory = .error
      (.abort .memoryDoubleFree "Corrupted user memory: block already freed") s.memory := by
  obtain ⟨block, hblock, rfl, hstate⟩ := returned_available h hreturned hfreed
  rw [free_eq h.tiled hblock, freeBlock_available hstate]

theorem free_live_not_double (h : s.Heaped) {p : Nat × Nat} (hp : p ∈ s.live) (text : String)
    (m : Memory) : free p.1 s.memory ≠ .error (.abort .memoryDoubleFree text) m := by
  obtain ⟨block, -, -, hdata, -⟩ := h.filed.live_block p hp
  have hlive : (data block, p.2) ∈ s.live := hdata ▸ hp
  rw [hdata]
  by_cases hroomy : s.memory.Roomy block
  · obtain ⟨m', heq, -⟩ := free_live_ok h.tiled h.filed hlive hroomy
    rw [heq]
    nofun
  · obtain ⟨p, m', heq, -⟩ := free_live_fails h.tiled h.filed hlive hroomy
    rw [heq]
    nofun

/-- In every session the counters tell exactly what is outstanding, `CheckMemory`
reports exactly that, and `Free` tells freed pointers from live ones. -/
theorem heap_reports_exact (hreached : Session.Reached segment minStackSize s)
    (hready : s.ready) :
    (sizeSub s.memory.stat.allocCount s.memory.stat.freeCount = s.live.length ∧
      sizeSub s.memory.stat.userBytesAllocated s.memory.stat.userBytesFreed =
        (s.live.map Prod.snd).sum) ∧
      (∀ sim : Sim, sim.params.isolation → sim.burntThreads = 0 →
        Kernel.checkMemory s.memory.stat.toHeapStat sim = leakOutcome s.live sim) ∧
      (∀ p ∈ s.returned, p ∉ s.live.map Prod.fst →
        free p s.memory = .error
          (.abort .memoryDoubleFree "Corrupted user memory: block already freed") s.memory) ∧
      ∀ p ∈ s.live, ∀ text m,
        free p.1 s.memory ≠ .error (.abort .memoryDoubleFree text) m := by
  have hheap := (reached_sound hreached).heaped hready
  exact ⟨stat_exact hheap, fun _ => checkMemory_eq hheap, fun _ => free_twice hheap,
    fun _ => free_live_not_double hheap⟩

/-! ### Frees -/

/-- The block of `p` is on the free list of its class. -/
def Memory.OnFreeList (m : Memory) (p : Nat) : Prop :=
  (m.headers (p - headerSize)).state = .available ∧
    p - headerSize ∈ (m.freeLists (m.headers (p - headerSize)).klass).items

/-- `Free` succeeds, or else leaves the statistics and the header as they were. -/
structure Session.FreesWell (s : Session) (p : Nat) : Prop where
  completes : ∃ m, free p s.memory = .ok ⟨⟩ m ∧ m.OnFreeList p
  unchanged : ¬s.memory.Roomy (p - headerSize) →
    (resultMemory (free p s.memory)).stat = s.memory.stat ∧
      (resultMemory (free p s.memory)).headers (p - headerSize) =
        s.memory.headers (p - headerSize)

/-- Freeing a live pointer succeeds exactly if its free list has a free slot or
its array can grow: there is space for a larger one and for the header behind
it, and the index is not full. -/
theorem free_succeeds_iff (hreached : Session.Reached segment minStackSize s)
    (hready : s.ready) {p size : Nat} (hlive : (p, size) ∈ s.live) :
    s.FreesWell p ↔ s.memory.Roomy (p - headerSize) := by
  have hheap := (reached_sound hreached).heaped hready
  obtain ⟨block, -, -, rfl, -⟩ := hheap.filed.live_block _ hlive
  have hback : data block - headerSize = block := Nat.add_sub_cancel ..
  rw [hback]
  constructor
  · rintro ⟨⟨m, heq, -⟩, -⟩
    by_contra hroomy
    obtain ⟨p, m', hfails, -⟩ := free_live_fails hheap.tiled hheap.filed hlive hroomy
    rw [hfails] at heq
    cases heq
  · intro hroomy
    obtain ⟨m, heq, hfrees⟩ := free_live_ok hheap.tiled hheap.filed hlive hroomy
    refine ⟨⟨m, heq, ?_⟩, fun hnot => absurd hroomy (hback ▸ hnot)⟩
    rw [Memory.OnFreeList, hback, hfrees.klass_eq]
    exact ⟨hfrees.idle.state_eq, hfrees.listed⟩

/-! One byte allocated in a segment without room for anything more. -/

def fullSegment : Segment := ⟨16, indexBytes + 48, alignment_pos, by decide⟩

def fullHeap : Memory :=
  resultMemory (allocate 1 ⟨none⟩ (resultMemory (reset (Memory.fresh fullSegment 0))))

def fullSession : Session :=
  ⟨fullHeap, [(32 + indexBytes, 1)], [32 + indexBytes], [], true⟩

theorem fullSession_reached : Session.Reached fullSegment 0 fullSession :=
  .tail (.single (.reset _ ⟨⟩ rfl))
    (.works _ (.allocate 1 (32 + indexBytes) ⟨none⟩ fullHeap rfl rfl))

theorem heap_reports_exact_full :
    (sizeSub fullSession.memory.stat.allocCount fullSession.memory.stat.freeCount = fullSession.live.length ∧
      sizeSub fullSession.memory.stat.userBytesAllocated fullSession.memory.stat.userBytesFreed =
        (fullSession.live.map Prod.snd).sum) ∧
      (∀ sim : Sim, sim.params.isolation → sim.burntThreads = 0 →
        Kernel.checkMemory fullSession.memory.stat.toHeapStat sim = leakOutcome fullSession.live sim) ∧
      (∀ p ∈ fullSession.returned, p ∉ fullSession.live.map Prod.fst →
        free p fullSession.memory = .error
          (.abort .memoryDoubleFree "Corrupted user memory: block already freed") fullSession.memory) ∧
      ∀ p ∈ fullSession.live, ∀ text m,
        free p.1 fullSession.memory ≠ .error (.abort .memoryDoubleFree text) m :=
  heap_reports_exact fullSession_reached rfl

theorem free_succeeds_iff_full :
    fullSession.FreesWell (32 + indexBytes) ↔
      fullSession.memory.Roomy (32 + indexBytes - headerSize) :=
  free_succeeds_iff fullSession_reached rfl List.mem_cons_self

/-- Why a call does not return. -/
def resultStop {α : Type} : EStateM.Result Stop Memory α → Option Stop
  | .ok _ _ => none
  | .error e _ => some e

/-- Freeing that byte dereferences a null block, after it has been counted. -/
theorem free_dereferences_null :
    Session.Reached fullSegment 0 fullSession ∧
      (32 + indexBytes, 1) ∈ fullSession.live ∧
      resultStop (free (32 + indexBytes) fullSession.memory) =
        some (.panic (.undefined "dereference of a null block")) ∧
      (resultMemory (free (32 + indexBytes) fullSession.memory)).stat.freeCount = 1 ∧
      fullSession.memory.stat.freeCount = 0 := by
  refine ⟨fullSession_reached, List.mem_cons_self, ?_, ?_, ?_⟩ <;> decide +kernel

end TwistSim.Isolated
