/-
Where the blocks of a session lie: the user ranges of live blocks are apart from
each other, from everything the allocator keeps in the segment, and from the
stacks.  Only `Reset` can write a header where a stack is.
-/
import TwistSim.HeapSessions

namespace TwistSim.Isolated

open Extents

variable {s t : Session} {segment : Segment} {minStackSize : Nat}

/-- `Size()` of the block that holds the data at `p`. -/
def Memory.room (m : Memory) (p : Nat) : Nat :=
  blockSize (m.headers (p - headerSize)).klass

/-- The user range of a live pointer. -/
def Memory.range (m : Memory) (p : Nat) : Set Nat := span p (m.room p)

/-- A live pointer's range stays clear of everything else in the segment. -/
structure Session.Clear (s : Session) (p size : Nat) : Prop where
  aligned : p % alignment = 0
  large : size ≤ s.memory.room p
  inside : s.memory.segment.segment.begin ≤ p ∧
    p + s.memory.room p ≤ s.memory.segment.segment.stop
  headers : ∀ block ∈ s.memory.index.blocks,
    Disjoint (s.memory.range p) (span block headerSize)
  arrays : ∀ klass < classes, ∀ buf, (s.memory.freeLists klass).buf = some buf →
    Disjoint (s.memory.range p) (span buf (toBytes (s.memory.freeLists klass).capacity))
  index : Disjoint (s.memory.range p) (span s.memory.index.array indexBytes)
  stack : ∀ stack ∈ s.taken,
    Disjoint (s.memory.range p) (span stack s.memory.stackSize)

structure Session.Apart (s : Session) : Prop where
  clear : ∀ p ∈ s.live, s.Clear p.1 p.2
  pairwise : s.live.Pairwise fun p q => Disjoint (s.memory.range p.1) (s.memory.range q.1)

/-- The header at `next` lies on no allocated stack. -/
def Memory.ClearAhead (m : Memory) (taken : List Nat) : Prop :=
  ∀ stack ∈ taken, Disjoint (span m.next headerSize) (span stack m.stackSize)

/-- A call either leaves `next` where it is or writes its header clear of the
stacks. -/
def Session.WritesClear {α : Type} (s : Session) (call : HeapM α) : Prop :=
  (resultMemory (call s.memory)).next = s.memory.next ∨
    (resultMemory (call s.memory)).ClearAhead s.taken

/-- What holds of a session between two calls, and of its next call. -/
structure Session.Safe (s : Session) : Prop where
  apart : s.Apart
  fresh : ∀ size context p m, allocate size context s.memory = .ok (some p) m →
    p ∉ s.live.map Prod.fst
  allocate_clear : ∀ size context, s.WritesClear (allocate size context)
  free_clear : ∀ p ∈ s.live, s.WritesClear (free p.1)

section Blocks

variable {m : Memory} {live : List (Nat × Nat)} {block size : Nat}

@[simp] theorem room_data (m : Memory) (block : Nat) :
    m.room (data block) = blockSize (m.headers block).klass := by
  rw [Memory.room, data, Nat.add_sub_cancel]

theorem data_end_le (ht : m.Tiled) (hmem : block ∈ m.index.blocks) :
    m.base + headerSize ≤ data block ∧ data block + m.room (data block) ≤ m.next := by
  have hbounds := ht.tiles.bounds hmem
  simp only [Memory.extent, headerSize] at hbounds
  rw [room_data]
  simp only [data, headerSize]
  omega

/-- The ranges of two blocks are apart, and so are a range and a header. -/
theorem range_apart (ht : m.Tiled) {b c : Nat} (hb : b ∈ m.index.blocks)
    (hc : c ∈ m.index.blocks) (hne : b ≠ c) :
    data b + m.room (data b) ≤ c ∨ c + headerSize + m.room (data c) ≤ b := by
  have hapart := ht.apart hb hc hne
  simp only [Memory.extent] at hapart
  rw [room_data, room_data]
  simp only [data]
  omega

theorem range_header_apart (ht : m.Tiled) {b c : Nat} (hb : b ∈ m.index.blocks)
    (hc : c ∈ m.index.blocks) : Disjoint (m.range (data b)) (span c headerSize) := by
  refine disjoint_span ?_
  by_cases heq : b = c
  · subst heq
    exact .inr (Nat.le_refl _)
  · have hapart := range_apart ht hb hc heq
    simp only [data, headerSize] at hapart ⊢
    omega

theorem range_disjoint (ht : m.Tiled) {b c n : Nat} (hb : b ∈ m.index.blocks)
    (hc : c ∈ m.index.blocks) (hne : b ≠ c) (hn : n ≤ m.room (data c)) :
    Disjoint (m.range (data b)) (span (data c) n) := by
  refine disjoint_span ?_
  have hapart := range_apart ht hb hc hne
  simp only [data, headerSize] at hapart hn ⊢
  omega

end Blocks

theorem apart_of_sound (h : s.Sound) (hready : s.ready) : s.Apart := by
  obtain ⟨ht, hf, -, -⟩ := h.heaped hready
  constructor
  case clear =>
    intro p hp
    obtain ⟨block, hmem, -, hdata, huse⟩ := hf.live_block p hp
    have hend := data_end_le ht hmem
    have hbegin := ht.begin_le
    have hdown := ht.next_le_down
    have hstop := s.memory.segment.down_le_stop
    simp only [Memory.base, indexBytes, indexCapacity, headerSize] at hend
    rw [hdata]
    constructor
    case aligned =>
      have hmod := Nat.mod_eq_zero_of_dvd (ht.dvd.1 block hmem)
      simp only [data, headerSize, alignment]
      omega
    case large =>
      rw [room_data]
      exact huse.size_le
    case inside => omega
    case headers => exact fun c hc => range_header_apart ht hmem hc
    case arrays =>
      intro klass hklass buf hbuf
      by_cases hcap : (s.memory.freeLists klass).capacity = 0
      · rw [hcap]
        exact disjoint_span_zero _ _
      · obtain ⟨c, hc, -, hbuf', hserving, hfits⟩ := hf.backed klass hklass hcap
        rw [hbuf, Option.some.injEq] at hbuf'
        rw [hbuf']
        refine range_disjoint ht hmem hc ?_ (by rw [room_data]; exact hfits)
        rintro rfl
        cases huse.service_eq.symm.trans hserving.service_eq
    case index =>
      refine disjoint_span (.inr ?_)
      simp only [indexBytes, indexCapacity]
      omega
    case stack =>
      intro stack hstack
      have hinside := (h.stacked.inside stack (List.mem_append_right _ hstack)).1
      exact disjoint_span (.inl (by omega))
  case pairwise =>
    have hnodup := hf.live_nodup
    rw [List.Nodup, List.pairwise_map] at hnodup
    refine hnodup.imp_of_mem fun {p q} hp hq hne => ?_
    obtain ⟨b, hb, -, hdata, -⟩ := hf.live_block p hp
    obtain ⟨c, hc, -, hdata', -⟩ := hf.live_block q hq
    rw [hdata, hdata'] at hne ⊢
    exact range_disjoint ht hb hc (fun heq => hne (by rw [heq])) (Nat.le_refl _)

theorem writesClear_of_ahead {α : Type} {call : HeapM α} (h : s.Sound)
    (hahead : s.memory.Ahead (resultMemory (call s.memory))) : s.WritesClear call := by
  refine hahead.clear.imp id fun hclear stack hstack => ?_
  have hinside := (h.stacked.inside stack (List.mem_append_right _ hstack)).1
  exact disjoint_span (.inl (Nat.le_trans hclear hinside))

theorem safe_of_sound (h : s.Sound) (hready : s.ready) : s.Safe := by
  have hheap := h.heaped hready
  have hallocates := fun size context =>
    @allocates s.memory s.live size context hheap.tiled hheap.filed
  constructor
  case apart => exact apart_of_sound h hready
  case fresh =>
    intro size context p m hrun
    have hcase := hallocates size context
    rw [hrun] at hcase
    cases hcase
    assumption
  case allocate_clear =>
    intro size context
    refine writesClear_of_ahead h ?_
    cases hrun : allocate size context s.memory with
    | ok p m =>
      have hcase := hallocates size context
      rw [hrun] at hcase
      cases hcase with
      | block p m hfresh hlt hblock ht hf hon hcount => exact hon.ahead
      | overflow => exact .refl _
    | error e m =>
      have hcase := hallocates size context
      rw [hrun] at hcase
      cases hcase
      assumption
  case free_clear =>
    intro p hp
    refine writesClear_of_ahead h ?_
    obtain ⟨block, -, -, hdata, -⟩ := hheap.filed.live_block p hp
    have hlive : (data block, p.2) ∈ s.live := hdata ▸ hp
    rw [hdata]
    by_cases hroomy : s.memory.Roomy block
    · obtain ⟨m', heq, hfrees⟩ := free_live_ok hheap.tiled hheap.filed hlive hroomy
      rw [heq]
      exact hfrees.onward.ahead
    · obtain ⟨p, m', heq, hahead, -⟩ := free_live_fails hheap.tiled hheap.filed hlive hroomy
      rw [heq]
      exact hahead

/-- From a `Reset` to the next one live blocks, stacks and the allocator's own
data never overlap; the header that `Reset` itself writes is clear of the stacks
exactly if they leave it room, which `Reset`, unlike `NewBlock`, does not check. -/
theorem heap_clear_of_stacks {m : Memory} {u : Unit}
    (hreached : Session.Reached segment minStackSize s) (hreset : reset s.memory = .ok u m) :
    (m.ClearAhead s.taken ∧
      ∀ t, Relation.ReflTransGen Session.Works (s.restart m) t → t.Safe) ↔
      ∀ stack ∈ s.taken, s.memory.resetNext + headerSize ≤ stack := by
  have hsound := reached_sound hreached
  have hblank := reset_blank hreset
  have hrestart := restart_sound hsound.stacked hreset
  have hinside := hrestart.stacked.inside
  constructor
  · rintro ⟨hclear, -⟩ stack hstack
    have hle := (hinside stack (List.mem_append_right _ hstack)).1
    have hnext := hblank.tiled.next_le_down
    have hpos := hrestart.stacked.size_pos
    rw [← hblank.next_eq]
    refine (apart_of_disjoint (by decide) hpos (hclear stack hstack)).resolve_right ?_
    show ¬stack + m.stackSize ≤ m.next
    have hle' : m.segment.down ≤ stack := hle
    have hpos' : 0 < m.stackSize := hpos
    omega
  · intro hroom
    refine ⟨fun stack hstack => disjoint_span (.inl ?_), fun t hrun => ?_⟩
    · rw [hblank.next_eq]
      exact hroom stack hstack
    · have hready : t.ready := by
        induction hrun with
        | refl => rfl
        | tail _ hworks ih => cases hworks <;> exact ih
      exact safe_of_sound (works_of_sound hrestart hrun) hready

/-! A segment with room for the index and one stack, and for nothing else. -/

def tightSegment : Segment := ⟨16, indexBytes + 64 * 1024, alignment_pos, by decide⟩

/-- The stack of the main thread is taken first. -/
def tightSession : Session :=
  { Session.fresh tightSegment 0 with
    memory := resultMemory (allocateStack (Memory.fresh tightSegment 0))
    taken := [16 + indexBytes] }

def tightHeap : Memory := resultMemory (reset tightSession.memory)

theorem tightSession_reached : Session.Reached tightSegment 0 tightSession :=
  .single (.works _ (.allocateStack _ _ rfl))

theorem tightHeap_reset : reset tightSession.memory = .ok ⟨⟩ tightHeap := rfl

theorem heap_clear_of_stacks_tight :
    (tightHeap.ClearAhead tightSession.taken ∧
      ∀ t, Relation.ReflTransGen Session.Works (tightSession.restart tightHeap) t → t.Safe) ↔
      ∀ stack ∈ tightSession.taken, tightSession.memory.resetNext + headerSize ≤ stack :=
  heap_clear_of_stacks tightSession_reached tightHeap_reset

/-- `Reset` writes the first header over the lowest bytes of that stack. -/
theorem reset_header_on_stack :
    Session.Reached tightSegment 0 tightSession ∧
      reset tightSession.memory = .ok ⟨⟩ tightHeap ∧
      ¬tightHeap.ClearAhead tightSession.taken := by
  refine ⟨tightSession_reached, tightHeap_reset, fun hclear => ?_⟩
  have hdisjoint := hclear (16 + indexBytes) List.mem_cons_self
  have hnext : tightHeap.next = 16 + indexBytes := by decide +kernel
  have hsize : tightHeap.stackSize = 64 * 1024 := by decide +kernel
  rw [hnext, hsize] at hdisjoint
  have happart := apart_of_disjoint (by decide) (by omega) hdisjoint
  simp only [headerSize] at happart
  omega

end TwistSim.Isolated
