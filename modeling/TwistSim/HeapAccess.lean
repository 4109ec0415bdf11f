/-
Heap access checks: the index finds the block of an address by binary search,
and an access is allowed up to the end of the requested bytes, as long as the
end of the access does not wrap around.
-/
import TwistSim.HeapSessions

namespace TwistSim.Isolated

open Extents

variable {s : Session} {segment : Segment} {minStackSize : Nat} {m : Memory}
  {live : List (Nat × Nat)} {addr size : Nat}

/-- `addr` is one of the user bytes of `block`. -/
def Memory.Covers (m : Memory) (block addr : Nat) : Prop :=
  data block ≤ addr ∧ addr < userDataEnd m block

/-- Requested bytes never reach past their block. -/
def Memory.Snug (m : Memory) : Prop :=
  ∀ block ∈ m.index.blocks, (m.headers block).userSize ≤ blockSize (m.headers block).klass

theorem snug_of_filed (h : m.Filed [] live) : m.Snug := by
  intro block hblock
  cases h.placed block hblock List.not_mem_nil with
  | live size hlive huse =>
    rw [huse.userSize_eq]
    exact huse.size_le
  | free hidle hfree =>
    rw [hidle.userSize_eq]
    exact Nat.zero_le _
  | serving hserving =>
    rw [hserving.userSize_eq]
    exact Nat.zero_le _

section Lookup

variable {b c : Nat}

theorem userDataEnd_le (hsnug : m.Snug) (hb : b ∈ m.index.blocks) :
    userDataEnd m b ≤ b + m.extent b := by
  have hle := hsnug b hb
  simp only [userDataEnd, data, Memory.extent]
  omega

/-- Blocks below `c` end before it. -/
theorem userDataEnd_le_of_lt (ht : m.Tiled) (hsnug : m.Snug) (hb : b ∈ m.index.blocks)
    (hc : c ∈ m.index.blocks) (hlt : b < c) : userDataEnd m b ≤ c := by
  refine Nat.le_trans (userDataEnd_le hsnug hb) ?_
  refine (ht.apart hb hc (Nat.ne_of_lt hlt)).resolve_right fun hle => ?_
  exact absurd (Nat.le_trans (Nat.le_add_right c _) hle) (Nat.not_le.mpr hlt)

theorem head_le (ht : m.Tiled) (hhead : m.index.blocks.head? = some c)
    (hb : b ∈ m.index.blocks) : c ≤ b := by
  obtain ⟨rest, hblocks⟩ := List.head?_eq_some_iff.mp hhead
  have hordered := ht.ordered
  rw [hblocks] at hb hordered
  rcases List.mem_cons.mp hb with rfl | hrest
  · exact Nat.le_refl _
  · exact Nat.le_of_lt ((List.pairwise_cons.mp hordered).1 b hrest)

theorem le_last (ht : m.Tiled) (hlast : m.index.blocks.getLast? = some c)
    (hb : b ∈ m.index.blocks) : b ≤ c := by
  obtain ⟨init, hblocks⟩ := List.getLast?_eq_some_iff.mp hlast
  have hordered := ht.ordered
  rw [hblocks] at hb hordered
  rcases List.mem_append.mp hb with hinit | hlast'
  · exact Nat.le_of_lt ((List.pairwise_append.mp hordered).2.2 b hinit c List.mem_cons_self)
  · exact Nat.le_of_eq (List.mem_singleton.mp hlast')

/-- The lower bound comes right after the last block that starts below the address. -/
theorem lowerBound_spec (ht : m.Tiled) {iter : Nat}
    (hlower : lowerBound m.index.blocks addr = iter + 1) :
    ∃ candidate, m.index.blocks[iter]? = some candidate ∧ candidate < addr ∧
      ∀ b ∈ m.index.blocks, b < addr → b ≤ candidate := by
  have hle : lowerBound m.index.blocks addr ≤ m.index.blocks.length := List.findIdx_le_length
  have hiter : iter < m.index.blocks.length := by omega
  have hget := List.getElem?_eq_getElem hiter
  refine ⟨_, hget, (findIdx_le_crosses ht.ordered hget).mp ?_, fun b hb hlt => ?_⟩
  · rw [← lowerBound, hlower]
    exact Nat.lt_succ_self iter
  obtain ⟨i, hi, rfl⟩ := List.mem_iff_getElem.mp hb
  have hbelow := (findIdx_le_crosses ht.ordered (List.getElem?_eq_getElem hi)).mpr hlt
  rw [← lowerBound, hlower] at hbelow
  have hi' : i ≤ iter := Nat.lt_succ_iff.mp hbelow
  rcases Nat.lt_or_eq_of_le hi' with hlt' | rfl
  · exact Nat.le_of_lt (List.pairwise_iff_getElem.mp ht.ordered i iter hi hiter hlt')
  · exact Nat.le_refl _

/-- `Lookup` always returns, with the block whose user bytes contain the address. -/
theorem lookup_spec (ht : m.Tiled) (hsnug : m.Snug) (addr : Nat) :
    ∃ found, lookup m addr = .ok found ∧
      ∀ b, found = some b ↔ b ∈ m.index.blocks ∧ m.Covers b addr := by
  have hnone : (∀ b ∈ m.index.blocks, ¬m.Covers b addr) →
      ∀ b, (none : Option Nat) = some b ↔ b ∈ m.index.blocks ∧ m.Covers b addr :=
    fun hno b => ⟨nofun, fun ⟨hb, hcovers⟩ => absurd hcovers (hno b hb)⟩
  cases hhead : m.index.blocks.head? with
  | none =>
    have hempty := List.head?_eq_none_iff.mp hhead
    exact ⟨none, by simp [lookup, hhead], hnone (by simp [hempty])⟩
  | some first =>
    cases hlast : m.index.blocks.getLast? with
    | none =>
      rw [List.getLast?_eq_none_iff.mp hlast] at hhead
      cases hhead
    | some last =>
      simp only [lookup, hhead, hlast]
      by_cases hfirst : addr < data first
      · refine ⟨none, by rw [if_pos hfirst], hnone fun b hb hcovers => ?_⟩
        have hle := head_le ht hhead hb
        have hdata := hcovers.1
        simp only [data] at hfirst hdata
        omega
      rw [if_neg hfirst]
      by_cases hend : userDataEnd m last ≤ addr
      · refine ⟨none, by rw [if_pos hend], hnone fun b hb hcovers => ?_⟩
        have hmem := List.mem_of_getLast? hlast
        rcases Nat.lt_or_eq_of_le (le_last ht hlast hb) with hlt | rfl
        · have hbefore := userDataEnd_le_of_lt ht hsnug hb hmem hlt
          have hcovered := hcovers.2
          simp only [userDataEnd, data] at hend hbefore hcovered
          omega
        · exact absurd hcovers.2 (Nat.not_lt.mpr hend)
      rw [if_neg hend]
      cases hlower : lowerBound m.index.blocks addr with
      | zero =>
        -- the first block starts below the address
        have hfirst' : m.index.blocks[0]? = some first := List.head?_eq_getElem?.symm.trans hhead
        have hcross := (@findIdx_le_crosses _ ht.ordered _ addr _ hfirst').mpr (by
          simp only [data, headerSize] at hfirst
          omega)
        exact absurd hcross (by rw [← lowerBound, hlower]; exact Nat.lt_irrefl _)
      | succ iter =>
        obtain ⟨candidate, hget, hbelow, hmax⟩ := lowerBound_spec ht hlower
        have hmem := List.mem_of_getElem? hget
        -- no other block covers the address
        have honly : ∀ b ∈ m.index.blocks, m.Covers b addr → b = candidate := by
          intro b hb hcovers
          have hlt : b < addr := by
            have := hcovers.1
            simp only [data, headerSize] at this
            omega
          rcases Nat.lt_or_eq_of_le (hmax b hb hlt) with hless | heq
          · have hbefore := userDataEnd_le_of_lt ht hsnug hb hmem hless
            have := hcovers.2
            omega
          · exact heq
        simp only [hget]
        by_cases hcovers : m.Covers candidate addr
        · refine ⟨some candidate, if_pos hcovers, fun b => ?_⟩
          constructor
          · rintro ⟨⟩
            exact ⟨hmem, hcovers⟩
          · rintro ⟨hb, hb'⟩
            rw [honly b hb hb']
        · refine ⟨none, if_neg hcovers, hnone fun b hb hb' => hcovers ?_⟩
          rwa [← honly b hb hb']

end Lookup

/-! ### Access -/

/-- The blocks with user bytes are the live ones. -/
theorem covers_iff (hf : m.Filed [] live) {addr limit : Nat} :
    (∃ b ∈ m.index.blocks, m.Covers b addr ∧ (m.headers b).state = .allocated ∧
      limit ≤ userDataEnd m b) ↔
      ∃ p ∈ live, p.1 ≤ addr ∧ addr < p.1 + p.2 ∧ limit ≤ p.1 + p.2 := by
  constructor
  · rintro ⟨b, hb, ⟨hbegin, hend⟩, hstate, hlimit⟩
    have hzero : (m.headers b).userSize ≠ 0 := by
      intro hzero
      rw [userDataEnd, hzero] at hend
      omega
    cases hf.placed b hb List.not_mem_nil with
    | live size hlive huse =>
      rw [userDataEnd, huse.userSize_eq] at hend hlimit
      exact ⟨_, hlive, hbegin, hend, hlimit⟩
    | free hidle hfree => exact absurd hidle.userSize_eq hzero
    | serving hserving => exact absurd hserving.userSize_eq hzero
  · rintro ⟨p, hp, hbegin, hend, hlimit⟩
    obtain ⟨b, hb, -, hdata, huse⟩ := hf.live_block p hp
    have hdataEnd : userDataEnd m b = p.1 + p.2 := by
      rw [userDataEnd, huse.userSize_eq, hdata]
    exact ⟨b, hb, ⟨hdata ▸ hbegin, hdataEnd ▸ hend⟩, huse.state_eq, hdataEnd ▸ hlimit⟩

/-- `Access` compares the wrapped end of the access. -/
theorem access_eq (ht : m.Tiled) (hf : m.Filed [] live) :
    access m addr size = .ok (decide (∃ p ∈ live, p.1 ≤ addr ∧ addr < p.1 + p.2 ∧
      (addr + size) % 2 ^ 64 ≤ p.1 + p.2)) := by
  obtain ⟨found, heq, hspec⟩ := lookup_spec ht (snug_of_filed hf) addr
  have hiff := @covers_iff m live hf addr ((addr + size) % 2 ^ 64)
  rw [access, heq]
  cases found with
  | none =>
    have hno : ¬∃ p ∈ live, p.1 ≤ addr ∧ addr < p.1 + p.2 ∧
        (addr + size) % 2 ^ 64 ≤ p.1 + p.2 := by
      rw [← hiff]
      rintro ⟨b, hb, hcovers, -⟩
      cases (hspec b).mpr ⟨hb, hcovers⟩
    simp only [hno, decide_false]
    rfl
  | some b =>
    obtain ⟨hb, hcovers⟩ := (hspec b).mp rfl
    refine congrArg Except.ok (decide_eq_decide.mpr ?_)
    rw [← hiff]
    constructor
    · rintro ⟨hstate, hlimit⟩
      exact ⟨b, hb, hcovers, hstate, hlimit⟩
    · rintro ⟨c, hc, hcovers', hstate, hlimit⟩
      obtain rfl := Option.some.inj ((hspec c).mpr ⟨hc, hcovers'⟩)
      exact ⟨hstate, hlimit⟩

/-- The whole range is inside the requested bytes of one live allocation. -/
def Session.Owns (s : Session) (addr size : Nat) : Prop :=
  ∃ p ∈ s.live, p.1 ≤ addr ∧ addr + size ≤ p.1 + p.2

instance (s : Session) (addr size : Nat) : Decidable (s.Owns addr size) :=
  inferInstanceAs (Decidable (∃ p ∈ s.live, p.1 ≤ addr ∧ addr + size ≤ p.1 + p.2))

theorem live_end_lt (h : s.Heaped) {p : Nat × Nat} (hp : p ∈ s.live) :
    p.1 + p.2 < 2 ^ 64 := by
  obtain ⟨b, hb, -, hdata, huse⟩ := h.filed.live_block p hp
  have hend := userDataEnd_le (snug_of_filed h.filed) hb
  have hbounds := (h.tiled.tiles.bounds hb).2
  have hnext := h.tiled.next_le_down
  have hdown := s.memory.segment.down_le_stop
  have hfits := s.memory.segment.segment.fits
  rw [userDataEnd, huse.userSize_eq, ← hdata] at hend
  simp only [Segment.stop] at hdown
  omega

/-- The index never fails, and `Access` is exact except on ranges that start in a
live allocation and wrap around the address space: those it allows. -/
theorem access_exact (hreached : Session.Reached segment minStackSize s) (hready : s.ready)
    {addr size : Nat} (hpos : 1 ≤ size) (hsize : size < 2 ^ 64) :
    (∃ found, lookup s.memory addr = .ok found) ∧
      (access s.memory addr size = .ok (decide (s.Owns addr size)) ↔
        ∀ p ∈ s.live, p.1 ≤ addr → addr < p.1 + p.2 → addr + size < 2 ^ 64) := by
  have hheap := (reached_sound hreached).heaped hready
  obtain ⟨found, hlookup, -⟩ := lookup_spec hheap.tiled (snug_of_filed hheap.filed) addr
  refine ⟨⟨found, hlookup⟩, ?_⟩
  rw [access_eq hheap.tiled hheap.filed, Except.ok.injEq, decide_eq_decide]
  constructor
  · intro hexact p hp hbegin hend
    by_contra hwrap
    have hmod : (addr + size) % 2 ^ 64 ≤ p.1 + p.2 := by omega
    obtain ⟨q, hq, -, hq'⟩ := hexact.mp ⟨p, hp, hbegin, hend, hmod⟩
    have := live_end_lt hheap hq
    omega
  · intro hnowrap
    constructor
    · rintro ⟨p, hp, hbegin, hend, hlimit⟩
      have := hnowrap p hp hbegin hend
      rw [Nat.mod_eq_of_lt this] at hlimit
      exact ⟨p, hp, hbegin, hlimit⟩
    · rintro ⟨p, hp, hbegin, hlimit⟩
      have hend := live_end_lt hheap hp
      exact ⟨p, hp, hbegin, by omega, by rw [Nat.mod_eq_of_lt (by omega)]; exact hlimit⟩

/-! One byte allocated in a small segment. -/

def byteSegment : Segment := ⟨16, indexBytes + 1024, alignment_pos, by decide⟩

def byteHeap : Memory :=
  resultMemory (allocate 1 ⟨none⟩ (resultMemory (reset (Memory.fresh byteSegment 0))))

def byteSession : Session :=
  ⟨byteHeap, [(32 + indexBytes, 1)], [32 + indexBytes], [], true⟩

theorem byteSession_reached : Session.Reached byteSegment 0 byteSession :=
  .tail (.single (.reset _ ⟨⟩ rfl))
    (.works _ (.allocate 1 (32 + indexBytes) ⟨none⟩ byteHeap rfl rfl))

theorem access_exact_byte :
    (∃ found, lookup byteSession.memory 32 = .ok found) ∧
      (access byteSession.memory 32 1 = .ok (decide (byteSession.Owns 32 1)) ↔
        ∀ p ∈ byteSession.live, p.1 ≤ 32 → 32 < p.1 + p.2 → 32 + 1 < 2 ^ 64) :=
  access_exact byteSession_reached rfl (by decide) (by decide)

/-- An access that wraps past that byte's own address is allowed. -/
theorem access_wraps :
    Session.Reached byteSegment 0 byteSession ∧
      access byteSession.memory (32 + indexBytes) (2 ^ 64 - 1) = .ok true ∧
      ¬byteSession.Owns (32 + indexBytes) (2 ^ 64 - 1) := by
  refine ⟨byteSession_reached, by decide +kernel, ?_⟩
  rintro ⟨p, hp, -, hend⟩
  obtain rfl := List.mem_singleton.mp hp
  simp only at hend
  omega

end TwistSim.Isolated
