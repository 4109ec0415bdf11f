/-
What the operations of the allocator do to the layout and to the books:
`Reset`, `Allocate`, and `Free` of a live pointer with the free list's own
allocation.
-/
import TwistSim.HeapBooks
import Mathlib.Data.List.GetD
import Mathlib.Data.List.Perm.Basic

namespace TwistSim.Isolated

variable {m m' : Memory} {live : List (Nat × Nat)} {hands : List Nat}

/-! ### Size classes -/

theorem getSizeClass_of {userSize klass : Nat} (hfour : 4 ≤ klass) (hlt : klass < 32)
    (hle : userSize ≤ blockSize klass)
    (hleast : ∀ k, 4 ≤ k → k < klass → blockSize k < userSize) :
    getSizeClass userSize m = .ok klass m := by
  have hfind : (List.range' 4 28).find? (fun k => userSize ≤ blockSize k) = some klass := by
    rw [List.find?_range'_eq_some]
    refine ⟨by simpa using hle, by rw [List.mem_range'_1]; omega, ?_⟩
    intro k hk hlt'
    simpa using hleast k hk hlt'
  simp [getSizeClass, hfind, Nat.not_lt.mpr hfour]

/-- Every size up to the largest block has a class. -/
theorem getSizeClass_ok {userSize : Nat} (h : userSize ≤ blockSize 31) :
    ∃ klass, 4 ≤ klass ∧ klass < classes ∧ userSize ≤ blockSize klass ∧
      ∀ m, getSizeClass userSize m = .ok klass m := by
  have hsome : ((List.range' 4 28).find? fun k => userSize ≤ blockSize k).isSome := by
    rw [List.find?_isSome]
    exact ⟨31, by decide, by simpa using h⟩
  obtain ⟨klass, hfind⟩ := Option.isSome_iff_exists.mp hsome
  obtain ⟨hle, hmem, hleast⟩ := List.find?_range'_eq_some.mp hfind
  rw [List.mem_range'_1] at hmem
  refine ⟨klass, by omega, by simp only [classes]; omega, by simpa using hle, fun m => ?_⟩
  refine getSizeClass_of (by omega) (by omega) (by simpa using hle) fun k hk hlt => ?_
  simpa using hleast k hk hlt

/-- The class of a power of two is its exponent. -/
theorem getSizeClass_pow {klass : Nat} (hfour : 4 ≤ klass) (hlt : klass < classes) :
    getSizeClass (blockSize klass) m = .ok klass m :=
  getSizeClass_of hfour hlt (Nat.le_refl _) fun _ _ hk =>
    Nat.pow_lt_pow_right (by decide) hk

/-! ### Free lists -/

/-- Popping takes one entry out, whichever end or index it comes from. -/
theorem popFrom_perm {items rest : List Nat} {context : AllocContext} {block : Nat}
    (h : popFrom items context = some (block, rest)) : items.Perm (block :: rest) := by
  rw [popFrom] at h
  cases hlast : items.getLast? with
  | none => simp [hlast] at h
  | some last =>
    have hitems : items = items.dropLast ++ [last] := by
      obtain ⟨init, rfl⟩ := List.getLast?_eq_some_iff.mp hlast
      simp
    cases hrandom : context.random with
    | none =>
      simp only [hlast, hrandom, Option.some.injEq, Prod.mk.injEq] at h
      obtain ⟨rfl, rfl⟩ := h
      exact (List.Perm.of_eq hitems).trans List.perm_append_comm
    | some random =>
      simp only [hlast, hrandom, Option.some.injEq, Prod.mk.injEq] at h
      obtain ⟨hblock, hrest⟩ := h
      have hpos : 0 < items.length := by rw [hitems]; simp
      have hindex : random % items.length < items.length := Nat.mod_lt _ hpos
      have hblock' : items[random % items.length] = block := by
        rw [← hblock, List.getD_eq_getElem _ _ hindex]
      -- the swapped list still ends in `last`
      have hset : items.set (random % items.length) last = rest ++ [last] := by
        have hend : (items.set (random % items.length) last).getLast? = some last := by
          rw [List.getLast?_eq_getElem?, List.length_set, List.getElem?_set]
          split
          · simp
          · rw [← List.getLast?_eq_getElem?, hlast]
        obtain ⟨init, hinit⟩ := List.getLast?_eq_some_iff.mp hend
        rw [hinit, List.dropLast_concat] at hrest
        rw [hinit, hrest]
      have herase : rest.Perm (items.eraseIdx (random % items.length)) := by
        have hperm := List.set_perm_cons_eraseIdx hindex last
        rw [hset] at hperm
        exact (List.perm_cons last).mp (List.perm_append_comm.trans hperm)
      calc items
          |>.Perm (items[random % items.length] :: items.eraseIdx (random % items.length)) :=
            (List.getElem_cons_eraseIdx_perm hindex).symm
        _ |>.Perm (block :: rest) := by rw [hblock']; exact herase.symm.cons _

/-! ### Reset -/

/-- Where `Reset` puts the first block. -/
def Memory.resetNext (m : Memory) : Nat := align (align m.segment.up + indexBytes)

/-- A heap after `Reset`, over the stacks there were before. -/
structure Memory.Blank (m m' : Memory) : Prop where
  tiled : m'.Tiled
  filed : m'.Filed [] []
  blocks_eq : m'.index.blocks = []
  stat_eq : m'.stat = AllocatorStat.zero
  next_eq : m'.next = m.resetNext
  segment_eq : m'.segment.segment = m.segment.segment
  down_eq : m'.segment.down = m.segment.down
  pool_eq : m'.pool = m.pool
  stackSize_eq : m'.stackSize = m.stackSize

theorem of_brkReset {u : Unit} (h : brkReset m = .ok u m') :
    ∃ s : SharedSegment, s.segment = m.segment.segment ∧ s.up = m.resetNext ∧
      s.down = m.segment.down ∧
      m' =
        { m with
          segment := s
          index := ⟨align m.segment.up, []⟩
          next := m.resetNext
          headers := Function.update m.headers m.resetNext BlockHeader.zero } := by
  simp only [brkReset] at h
  obtain ⟨_, _, hget, h₁⟩ := bind_ok h
  cases hget
  obtain ⟨first, m₁, hfirst, h₂⟩ := bind_ok h₁
  obtain ⟨_, _, hverify, h₃⟩ := bind_ok h₂
  obtain ⟨rfl, rfl⟩ := verify_ok hverify
  obtain ⟨s₁, rfl, hsegment₁, hup₁, hdown₁⟩ := of_trySetUp hfirst
  obtain ⟨second, m₂, hsecond, h₄⟩ := bind_ok h₃
  obtain ⟨_, _, hverify, h₅⟩ := bind_ok h₄
  obtain ⟨rfl, rfl⟩ := verify_ok hverify
  obtain ⟨s₂, rfl, hsegment₂, hup₂, hdown₂⟩ := of_tryUp hsecond
  obtain ⟨_, _, hmodify, h₆⟩ := bind_ok h₅
  cases hmodify
  obtain ⟨_, _, hget, h₇⟩ := bind_ok h₆
  cases hget
  obtain ⟨_, _, hmodify, h₈⟩ := bind_ok h₇
  cases hmodify
  obtain ⟨third, m₃, hthird, h₉⟩ := bind_ok h₈
  obtain ⟨_, _, hverify, h₁₀⟩ := bind_ok h₉
  obtain ⟨rfl, rfl⟩ := verify_ok hverify
  obtain ⟨s₃, rfl, hsegment₃, hup₃, hdown₃⟩ := of_trySetUp hthird
  obtain ⟨_, _, hset, h₁₁⟩ := bind_ok h₁₀
  cases hset
  obtain ⟨-, rfl⟩ := verify_ok h₁₁
  have hnext : align s₂.up = m.resetNext := by
    rw [Memory.resetNext, hup₂]
    exact congrArg (fun up => align (up + indexBytes)) hup₁
  refine ⟨s₃, hsegment₃.trans (hsegment₂.trans hsegment₁), hup₃.trans hnext,
    hdown₃.trans (hdown₂.trans hdown₁), ?_⟩
  rw [hnext]

/-- `Reset` lays an empty heap above the old break. -/
theorem reset_blank {u : Unit} (h : reset m = .ok u m') : m.Blank m' := by
  obtain ⟨_, m₁, hbrk, h⟩ := bind_ok h
  cases h
  obtain ⟨s, hsegment, hup, hdown, rfl⟩ := of_brkReset hbrk
  have hmod := align_mod m.segment.up
  have hnext : m.resetNext = align m.segment.up + indexBytes := by
    refine align_of_aligned ?_
    simp only [indexBytes, indexCapacity]
    omega
  constructor
  case tiled =>
    constructor
    case begin_le =>
      show s.segment.begin ≤ align m.segment.up
      rw [hsegment]
      exact Nat.le_trans m.segment.begin_le_up (le_align _)
    case aligned => exact hmod
    case tiles => exact hnext.symm
    case up_eq => exact hup
    case sound => simp
    case fits => exact Nat.zero_le _
    case ahead => exact Function.update_self ..
  case filed =>
    have hempty : ∀ k < classes,
        (if k < classes then FreeList.empty else m.freeLists k) = FreeList.empty :=
      fun k hk => if_pos hk
    constructor
    case live_nodup => exact List.nodup_nil
    case live_block => simp
    case listed =>
      intro k hk b hb
      simp only [hempty k hk] at hb
      cases hb
    case items_nodup =>
      intro k hk
      simp only [hempty k hk]
      exact List.nodup_nil
    case placed => simp
    case items_le =>
      intro k hk
      simp only [hempty k hk]
      exact Nat.le_refl _
    case capacity_eq =>
      intro k hk
      simp only [hempty k hk]
      exact .inl rfl
    case backed =>
      intro k hk hcap
      simp only [hempty k hk] at hcap
      exact absurd rfl hcap
    case apart =>
      intro k hk k' hk' hcap
      simp only [hempty k hk] at hcap
      exact absurd rfl hcap
  case blocks_eq => rfl
  case stat_eq => rfl
  case next_eq => rfl
  case segment_eq => exact hsegment
  case down_eq => exact hdown
  case pool_eq => rfl
  case stackSize_eq => rfl

/-! ### Allocate -/

/-- What an operation leaves as it was, and the blocks that stay user blocks. -/
structure Memory.Onward (m m' : Memory) : Prop where
  segment_eq : m'.segment.segment = m.segment.segment
  array_eq : m'.index.array = m.index.array
  stackSize_eq : m'.stackSize = m.stackSize
  pool_eq : m'.pool = m.pool
  ahead : m.Ahead m'
  users : ∀ block ∈ m.index.blocks, (m.headers block).service = false →
    block ∈ m'.index.blocks ∧ (m'.headers block).service = false

theorem Memory.Grown.onward {header : BlockHeader} (h : m.Grown header m') (ht : m.Tiled)
    (hsame : m.SameBooks m') : m.Onward m' where
  segment_eq := h.segment_eq
  array_eq := by rw [h.index_eq]
  stackSize_eq := hsame.stackSize
  pool_eq := hsame.pool
  ahead := h.toAhead
  users block hblock hservice := by
    rw [h.index_eq, h.headers_eq block (ht.lt_next hblock)]
    exact ⟨List.mem_append_left _ hblock, hservice⟩

/-- The memory after `Allocate` has set the metadata of `block`. -/
def Memory.handOut (m : Memory) (block userSize : Nat) : Memory :=
  { m with
    nextId := (m.nextId + 1) % 2 ^ 32
    headers := Function.update m.headers block
      { m.headers block with
        state := .allocated, service := false, userSize,
        allocId := (m.nextId + 1) % 2 ^ 32 }
    stat :=
      { m.stat with
        allocCount := sizeAdd m.stat.allocCount 1
        bytesAllocated := sizeAdd m.stat.bytesAllocated (blockSize (m.headers block).klass)
        userBytesAllocated := sizeAdd m.stat.userBytesAllocated userSize } }

theorem allocate_large {userSize : Nat} {context : AllocContext}
    (h : allocSizeLimit ≤ userSize) :
    allocate userSize context m = .error (.abort .libraryAssert
      "Assertion \"user_size < kAllocSizeLimit\" failed: \"Allocation is too large\"") m := by
  simp [allocate, h]

/-- `Allocate` is `GetFreeBlock` and the metadata. -/
theorem allocate_eq {userSize klass : Nat} {context : AllocContext}
    (h : userSize < allocSizeLimit) (hklass : getSizeClass userSize m = .ok klass m) :
    allocate userSize context m = match getFreeBlock klass context m with
      | .ok none m' => .ok none m'
      | .ok (some block) m' => .ok (some (data block)) (m'.handOut block userSize)
      | .error e m' => .error e m' := by
  simp only [allocate, if_neg (Nat.not_le.mpr h), bind_apply, hklass]
  cases getFreeBlock klass context m with
  | error e m' => rfl
  | ok found m' =>
    cases found with
    | none => rfl
    | some block => simp [Memory.handOut]

/-- Handing out a block in hand. -/
theorem handOut_filed {block size : Nat} (ht : m.Tiled) (h : m.Filed [block] live)
    (hmem : block ∈ m.index.blocks) (hle : size ≤ blockSize (m.headers block).klass)
    (hlt : size < allocSizeLimit) :
    data block ∉ live.map Prod.fst ∧ (m.handOut block size).Tiled ∧
      (m.handOut block size).Filed [] ((data block, size) :: live) := by
  have hother : ∀ b, b ≠ block → (m.handOut block size).headers b = m.headers b :=
    fun b hne => Function.update_of_ne hne _ _
  have hself : (m.handOut block size).headers block =
      { m.headers block with
        state := .allocated, service := false, userSize := size,
        allocId := (m.nextId + 1) % 2 ^ 32 } := Function.update_self ..
  have hfiled : (m.handOut block size).Filed [block] live :=
    h.reheader rfl rfl fun b _ hb => hother b fun heq => hb (List.mem_singleton.mpr heq)
  have huse : ((m.handOut block size).headers block).InUse size := by
    rw [hself]
    exact ⟨rfl, rfl, rfl, hle, hlt⟩
  obtain ⟨hfresh, hgiven⟩ := hfiled.give hmem List.not_mem_nil huse
  refine ⟨hfresh, ht.reheader rfl rfl rfl rfl (fun b _ => ?_) ?_, hgiven⟩
  · by_cases heq : b = block
    · rw [heq, hself]
      exact ⟨rfl, rfl⟩
    · rw [hother b heq]
      exact ⟨rfl, rfl⟩
  · exact hother m.next (Nat.ne_of_gt (ht.lt_next hmem))

/-- What `Allocate` may do. -/
inductive Memory.Allocates (m : Memory) (live : List (Nat × Nat)) (size : Nat) :
    EStateM.Result Stop Memory (Option Nat) → Prop where
  | block (p : Nat) (m' : Memory) (hfresh : p ∉ live.map Prod.fst) (hlt : size < allocSizeLimit)
      (hblock : ∃ block ∈ m'.index.blocks, p = data block ∧
        (m'.headers block).service = false)
      (ht : m'.Tiled) (hf : m'.Filed [] ((p, size) :: live)) (hon : m.Onward m')
      (hcount : m'.stat.toHeapStat =
        { m.stat.toHeapStat with
          allocCount := sizeAdd m.stat.allocCount 1
          userBytesAllocated := sizeAdd m.stat.userBytesAllocated size }) :
      m.Allocates live size (.ok (some p) m')
  | overflow : m.Allocates live size (.ok none m)
  | stopped (e : Stop) (m' : Memory) (hahead : m.Ahead m')
      (hstop : ∀ text, e ≠ .abort .memoryDoubleFree text) :
      m.Allocates live size (.error e m')

theorem allocates_handOut {m₁ : Memory} {block size : Nat} (ht : m₁.Tiled)
    (hf : m₁.Filed [block] live) (hmem : block ∈ m₁.index.blocks)
    (hle : size ≤ blockSize (m₁.headers block).klass) (hlt : size < allocSizeLimit)
    (hon : m.Onward m₁) (hstat : m₁.stat = m.stat) :
    m.Allocates live size (.ok (some (data block)) (m₁.handOut block size)) := by
  obtain ⟨hfresh, htiled, hfiled⟩ := handOut_filed ht hf hmem hle hlt
  have hservice : ((m₁.handOut block size).headers block).service = false := by
    rw [Memory.handOut]
    simp
  refine .block _ _ hfresh hlt ⟨block, hmem, rfl, hservice⟩ htiled hfiled ?_ ?_
  · refine ⟨hon.segment_eq, hon.array_eq, hon.stackSize_eq, hon.pool_eq,
      ⟨hon.ahead.down_eq, hon.ahead.clear⟩, fun b hb hserv => ?_⟩
    obtain ⟨hb', hserv'⟩ := hon.users b hb hserv
    refine ⟨hb', ?_⟩
    by_cases heq : b = block
    · rw [heq]
      exact hservice
    · rw [Memory.handOut]
      simpa [heq] using hserv'
  · rw [Memory.handOut, hstat]

/-- `Allocate` pops a free block of its class or carves a new one, or fails and
leaves the memory alone, or ends the simulation. -/
theorem allocates {size : Nat} {context : AllocContext} (ht : m.Tiled)
    (hf : m.Filed [] live) : m.Allocates live size (allocate size context m) := by
  by_cases hlarge : allocSizeLimit ≤ size
  · rw [allocate_large hlarge]
    exact .stopped _ _ (.refl m) (by simp)
  have hlt := Nat.not_le.mp hlarge
  obtain ⟨klass, hfour, hklass, hle, hclass⟩ := @getSizeClass_ok size
    (Nat.le_trans (Nat.le_of_lt hlt) (by decide))
  rw [allocate_eq hlt (hclass m)]
  cases hpop : popFrom (m.freeLists klass).items context with
  | some popped =>
    obtain ⟨block, rest⟩ := popped
    have hperm := popFrom_perm hpop
    obtain ⟨hmem, -, hkb, hidle⟩ :=
      hf.listed klass hklass block (hperm.mem_iff.mpr List.mem_cons_self)
    simp only [getFreeBlock, tryPop, bind_apply, get_apply, hpop, setFreeList_apply, pure_apply]
    refine allocates_handOut (ht.reheader rfl rfl rfl rfl (fun _ _ => ⟨rfl, rfl⟩) rfl)
      (hf.pop hklass hperm rfl rfl rfl) hmem (by rw [hkb]; exact hle) hlt ?_ rfl
    exact ⟨rfl, rfl, rfl, rfl, ⟨rfl, .inl rfl⟩, fun b hb hserv => ⟨hb, hserv⟩⟩
  | none =>
    simp only [getFreeBlock, tryPop, bind_apply, get_apply, hpop, pure_apply]
    by_cases hspace : blockSize klass + 2 * headerSize ≤ m.segment.spaceLeft
    · by_cases hfits : m.index.blocks.length < indexCapacity
      · obtain ⟨m₁, heq, hgrown, hsame⟩ := newBlock_grows ht hfour hspace hfits
        rw [heq]
        have htiled := ht.grow ⟨hfour, hklass, rfl⟩ hgrown
        refine allocates_handOut htiled (hf.grow ht hgrown hsame.freeLists) ?_ ?_ hlt
          (hgrown.onward ht hsame) hsame.stat
        · rw [hgrown.index_eq]
          simp
        · rw [hgrown.header_eq]
          exact hle
      · obtain ⟨m₁, heq, hahead, -⟩ := newBlock_full ht hfour hspace hfits
        rw [heq]
        exact .stopped _ _ hahead (by simp)
    · rw [newBlock_overflow ht (Nat.not_le.mp hspace)]
      exact .overflow

/-! ### The array of a free list -/

theorem items_length_le {klass : Nat} (hf : m.Filed hands live) (hklass : klass < classes) :
    (m.freeLists klass).items.length ≤ m.index.blocks.length :=
  (List.subperm_of_subset (hf.items_nodup klass hklass)
    fun _ hb => (hf.listed klass hklass _ hb).mem).length_le

theorem newCapacity_pow {capacity : Nat} (h : capacity = 0 ∨ ∃ j, capacity = 2 ^ (j + 3)) :
    ∃ j, newCapacity capacity = 2 ^ (j + 3) := by
  rcases h with rfl | ⟨j, rfl⟩
  · exact ⟨0, rfl⟩
  · refine ⟨j + 1, ?_⟩
    rw [newCapacity, if_neg (Nat.ne_of_gt (Nat.two_pow_pos _)), ← Nat.pow_succ]

theorem lt_newCapacity (capacity : Nat) : capacity < newCapacity capacity := by
  rw [newCapacity]
  split <;> omega

/-- A full free list's next array is a whole block of some class. -/
theorem newCapacity_class {klass : Nat} (ht : m.Tiled) (hf : m.Filed hands live)
    (hklass : klass < classes)
    (hfull : (m.freeLists klass).items.length = (m.freeLists klass).capacity) :
    ∃ k, 4 ≤ k ∧ k < classes ∧
      toBytes (newCapacity (m.freeLists klass).capacity) = blockSize k := by
  obtain ⟨j, hj⟩ := newCapacity_pow (hf.capacity_eq klass hklass)
  have hcap : (m.freeLists klass).capacity ≤ indexCapacity :=
    hfull ▸ Nat.le_trans (items_length_le hf hklass) ht.fits
  have hbound : 2 ^ (j + 3) ≤ 2 ^ 21 := by
    rw [← hj, newCapacity]
    simp only [indexCapacity] at hcap
    split <;> omega
  have hle := (Nat.pow_le_pow_iff_right (by decide)).mp hbound
  refine ⟨j + 6, by omega, by simp only [classes]; omega, ?_⟩
  rw [hj, toBytes, blockSize]
  exact (Nat.pow_add 2 (j + 3) 3).symm

/-- There is room for another array. -/
def Memory.CanGrow (m : Memory) (klass : Nat) : Prop :=
  toBytes (newCapacity (m.freeLists klass).capacity) + 2 * headerSize ≤ m.segment.spaceLeft ∧
    m.index.blocks.length < indexCapacity

/-- A full free list gets a larger array. -/
structure Memory.Resized (m : Memory) (klass : Nat) (m' : Memory) : Prop where
  onward : m.Onward m'
  stat_eq : m'.stat = m.stat
  headers_eq : ∀ block ∈ m.index.blocks,
    block ∈ m'.index.blocks ∧ m'.headers block = m.headers block
  items_eq : (m'.freeLists klass).items = (m.freeLists klass).items
  roomy : (m'.freeLists klass).items.length < (m'.freeLists klass).capacity

/-- The header of a block that `NewBuffer` takes. -/
def BlockHeader.asService (header : BlockHeader) : BlockHeader :=
  { header with state := .allocated, service := true }

def Memory.markService (m : Memory) (block : Nat) : Memory :=
  { m with headers := Function.update m.headers block (m.headers block).asService }

/-- The array of a free list is a new block, marked as a service block. -/
theorem newBuffer_eq {capacity k : Nat} (hclass : getSizeClass (toBytes capacity) m = .ok k m) :
    newBuffer capacity m = match newBlock k m with
      | .ok none m' => .error (.panic (.undefined "dereference of a null block")) m'
      | .ok (some block) m' => .ok (data block) (m'.markService block)
      | .error e m' => .error e m' := by
  simp only [newBuffer, bind_apply, hclass]
  cases newBlock k m with
  | error e m' => rfl
  | ok found m' => cases found <;> rfl

theorem resizeBuffer_ok {klass : Nat} (ht : m.Tiled) (hf : m.Filed hands live)
    (hhands : ∀ block ∈ hands, block ∈ m.index.blocks) (hklass : klass < classes)
    (hfull : (m.freeLists klass).items.length = (m.freeLists klass).capacity)
    (hgrow : m.CanGrow klass) :
    ∃ m', resizeBuffer klass m = .ok ⟨⟩ m' ∧ m'.Tiled ∧ m'.Filed hands live ∧
      m.Resized klass m' := by
  obtain ⟨k, hfour, hk, hbytes⟩ := newCapacity_class ht hf hklass hfull
  obtain ⟨hspace, hfits⟩ := hgrow
  obtain ⟨m₁, heq, hgrown, hsame⟩ := newBlock_grows ht hfour (hbytes ▸ hspace) hfits
  have hclass : getSizeClass (toBytes (newCapacity (m.freeLists klass).capacity)) m =
      .ok k m := by
    rw [hbytes]
    exact getSizeClass_pow hfour hk
  have hnew : m.next ∈ m₁.index.blocks := by
    rw [hgrown.index_eq]
    simp
  have hnotIn : m.next ∉ hands := fun hin => Nat.lt_irrefl _ (ht.lt_next (hhands _ hin))
  have hself : (m₁.markService m.next).headers m.next = (m₁.headers m.next).asService :=
    Function.update_self ..
  have hother : ∀ b, b ≠ m.next → (m₁.markService m.next).headers b = m₁.headers b :=
    fun b hne => Function.update_of_ne hne _ _
  have hlist : m₁.freeLists klass = m.freeLists klass := by rw [hsame.freeLists]
  have htiled := ht.grow ⟨hfour, hk, rfl⟩ hgrown
  have hfiled : (m₁.markService m.next).Filed (m.next :: hands) live :=
    (hf.grow ht hgrown hsame.freeLists).reheader rfl rfl fun b _ hb =>
      hother b fun heq => hb (heq ▸ List.mem_cons_self)
  have hresize : resizeBuffer klass m = .ok ⟨⟩
      { m₁.markService m.next with
        freeLists := Function.update m₁.freeLists klass
          { m₁.freeLists klass with
            buf := some (data m.next)
            capacity := newCapacity (m.freeLists klass).capacity } } := by
    simp only [resizeBuffer, bind_apply, get_apply, newBuffer_eq hclass, heq, setFreeList_apply]
    rfl
  refine ⟨_, hresize, ?_, ?_, ?_⟩
  · refine htiled.reheader rfl rfl rfl rfl (fun b _ => ?_)
      (hother _ (Nat.ne_of_gt (htiled.lt_next hnew)))
    by_cases hb : b = m.next
    · subst hb
      have hklass' := congrArg BlockHeader.klass hself
      have hcanary := congrArg BlockHeader.canary hself
      exact ⟨hklass', hcanary⟩
    · exact ⟨congrArg BlockHeader.klass (hother b hb), congrArg BlockHeader.canary (hother b hb)⟩
  · refine hfiled.serve hnew hnotIn ?_ hklass ?_ (newCapacity_pow (hf.capacity_eq klass hklass))
      ?_ rfl rfl rfl
    · rw [hself, hgrown.header_eq, ht.ahead]
      exact ⟨rfl, rfl, rfl⟩
    · show (m₁.freeLists klass).items.length ≤ _
      rw [hlist, hfull]
      exact Nat.le_of_lt (lt_newCapacity _)
    · rw [hself, hgrown.header_eq]
      exact Nat.le_of_eq hbytes
  · have hon := hgrown.onward ht hsame
    have hold : ∀ b ∈ m.index.blocks, b ≠ m.next :=
      fun b hb => Nat.ne_of_lt (ht.lt_next hb)
    constructor
    case onward =>
      refine ⟨hon.segment_eq, hon.array_eq, hon.stackSize_eq, hon.pool_eq,
        ⟨hon.ahead.down_eq, hon.ahead.clear⟩, fun b hb hserv => ?_⟩
      obtain ⟨hb', hserv'⟩ := hon.users b hb hserv
      exact ⟨hb', (congrArg BlockHeader.service (hother b (hold b hb))).trans hserv'⟩
    case stat_eq => exact hsame.stat
    case headers_eq =>
      intro b hb
      refine ⟨?_, (hother b (hold b hb)).trans (hgrown.headers_eq b (ht.lt_next hb))⟩
      show b ∈ m₁.index.blocks
      rw [hgrown.index_eq]
      exact List.mem_append_left _ hb
    case items_eq => simp [hlist]
    case roomy => simp [hlist, hfull, lt_newCapacity]

/-- Without room for the array the simulator dies, with the statistics as they
were when it tried. -/
theorem resizeBuffer_fails {klass : Nat} (ht : m.Tiled) (hf : m.Filed hands live)
    (hklass : klass < classes)
    (hfull : (m.freeLists klass).items.length = (m.freeLists klass).capacity)
    (hgrow : ¬m.CanGrow klass) :
    ∃ p m', resizeBuffer klass m = .error (.panic p) m' ∧ m.Ahead m' ∧ m'.stat = m.stat := by
  obtain ⟨k, hfour, hk, hbytes⟩ := newCapacity_class ht hf hklass hfull
  have hclass : getSizeClass (toBytes (newCapacity (m.freeLists klass).capacity)) m =
      .ok k m := by
    rw [hbytes]
    exact getSizeClass_pow hfour hk
  by_cases hspace : blockSize k + 2 * headerSize ≤ m.segment.spaceLeft
  · have hfits : ¬m.index.blocks.length < indexCapacity :=
      fun hfits => hgrow ⟨hbytes ▸ hspace, hfits⟩
    obtain ⟨m₁, heq, hahead, hsame⟩ := newBlock_full ht hfour hspace hfits
    refine ⟨.verify "Block index overflow", m₁, ?_, hahead, hsame.stat⟩
    simp only [resizeBuffer, bind_apply, get_apply, newBuffer_eq hclass, heq]
  · refine ⟨.undefined "dereference of a null block", m, ?_, .refl m, rfl⟩
    simp only [resizeBuffer, bind_apply, get_apply, newBuffer_eq hclass,
      newBlock_overflow ht (Nat.not_le.mp hspace)]

/-! ### Free -/

/-- The memory after `Free` has updated the statistics and the header. -/
def Memory.retire (m : Memory) (block : Nat) : Memory :=
  { m with
    headers := Function.update m.headers block
      { m.headers block with state := .available, userSize := 0 }
    stat :=
      { m.stat with
        freeCount := sizeAdd m.stat.freeCount 1
        userBytesFreed := sizeAdd m.stat.userBytesFreed (m.headers block).userSize
        bytesFreed := sizeAdd m.stat.bytesFreed (blockSize (m.headers block).klass) } }

/-- Every pointer that `Allocate` returned passes the checks of `Free`. -/
theorem getFreedBlock_data {block : Nat} (ht : m.Tiled) (hmem : block ∈ m.index.blocks) :
    getFreedBlock (data block) m = .ok block m := by
  have hbounds := ht.tiles.bounds hmem
  have hbegin := ht.begin_le
  have hup := ht.up_eq
  have hpos := blockSize_pos (m.headers block).klass
  have hmod := Nat.mod_eq_zero_of_dvd (ht.dvd.1 block hmem)
  have hcanary := (ht.sound block hmem).canary_eq
  simp only [Memory.base, Memory.extent, headerSize] at hbounds
  have hfrom : m.segment.segment.begin ≤ data block ∧ data block < m.segment.up := by
    simp only [data, headerSize]
    omega
  have haligned : isAligned (data block) = true := by
    rw [isAligned_iff, data, headerSize]
    omega
  have habove : m.segment.segment.begin + headerSize ≤ data block := by
    simp only [data]
    omega
  have hnext : data block < m.next := by rw [← hup]; exact hfrom.2
  have hback : data block - headerSize = block := Nat.add_sub_cancel ..
  simp [getFreedBlock, hfrom, haligned, habove, hnext, hback, hcanary]

theorem free_eq {block : Nat} (ht : m.Tiled) (hmem : block ∈ m.index.blocks) :
    free (data block) m = freeBlock block m := by
  have hne : data block ≠ 0 := by simp only [data, headerSize]; omega
  simp [free, hne, getFreedBlock_data ht hmem]

theorem freeBlock_available {block : Nat} (h : (m.headers block).state = .available) :
    freeBlock block m =
      .error (.abort .memoryDoubleFree "Corrupted user memory: block already freed") m := by
  simp [freeBlock, h]

theorem freeBlock_eq {block : Nat} (h : (m.headers block).state = .allocated)
    (hklass : (m.headers block).klass < classes) :
    freeBlock block m = push (m.headers block).klass block (m.retire block) := by
  simp [freeBlock, h, hklass, Memory.retire]

/-- The memory with `block` at the end of the free list of `klass`. -/
def Memory.pushed (m : Memory) (klass block : Nat) : Memory :=
  { m with
    freeLists := Function.update m.freeLists klass
      { m.freeLists klass with items := (m.freeLists klass).items ++ [block] } }

theorem push_roomy {klass block : Nat}
    (h : (m.freeLists klass).items.length < (m.freeLists klass).capacity) :
    push klass block m = .ok ⟨⟩ (m.pushed klass block) := by
  simp [push, Nat.ne_of_lt h, Memory.pushed]

theorem push_full {klass block : Nat}
    (h : (m.freeLists klass).items.length = (m.freeLists klass).capacity) :
    push klass block m = match resizeBuffer klass m with
      | .ok _ m' => .ok ⟨⟩ (m'.pushed klass block)
      | .error e m' => .error e m' := by
  simp only [push, bind_apply, get_apply, if_pos h]
  cases resizeBuffer klass m <;> rfl

/-- The free list of the block has room for it, or for a larger array. -/
def Memory.Roomy (m : Memory) (block : Nat) : Prop :=
  let list := m.freeLists (m.headers block).klass
  list.items.length < list.capacity ∨ m.CanGrow (m.headers block).klass

/-- A live block freed: its class's free list has it now. -/
structure Memory.Frees (m : Memory) (live : List (Nat × Nat)) (block size : Nat)
    (m' : Memory) : Prop where
  tiled : m'.Tiled
  filed : m'.Filed [] (live.erase (data block, size))
  onward : m.Onward m'
  count : m'.stat.toHeapStat =
    { m.stat.toHeapStat with
      freeCount := sizeAdd m.stat.freeCount 1
      userBytesFreed := sizeAdd m.stat.userBytesFreed size }
  idle : (m'.headers block).Idle
  klass_eq : (m'.headers block).klass = (m.headers block).klass
  listed : block ∈ (m'.freeLists (m.headers block).klass).items

theorem retire_filed {block size : Nat} (ht : m.Tiled) (hf : m.Filed [] live)
    (hlive : (data block, size) ∈ live) :
    (m.retire block).Tiled ∧ (m.retire block).Filed [block] (live.erase (data block, size)) ∧
      ((m.retire block).headers block).Idle ∧ m.Onward (m.retire block) := by
  obtain ⟨hmem, -, huse⟩ := hf.inUse hlive
  have hself : (m.retire block).headers block =
      { m.headers block with state := .available, userSize := 0 } := Function.update_self ..
  have hother : ∀ b, b ≠ block → (m.retire block).headers b = m.headers b :=
    fun b hne => Function.update_of_ne hne _ _
  refine ⟨ht.reheader rfl rfl rfl rfl (fun b _ => ?_) (hother _ (Nat.ne_of_gt (ht.lt_next hmem))),
    (hf.take hlive).reheader rfl rfl fun b _ hb => hother b fun heq =>
      hb (heq ▸ List.mem_cons_self), ?_, ⟨rfl, rfl, rfl, rfl, ⟨rfl, .inl rfl⟩,
      fun b hb hserv => ⟨hb, ?_⟩⟩⟩
  · by_cases hb : b = block
    · rw [hb, hself]
      exact ⟨rfl, rfl⟩
    · rw [hother b hb]
      exact ⟨rfl, rfl⟩
  · rw [hself]
    exact ⟨rfl, huse.service_eq, rfl⟩
  · by_cases hb' : b = block
    · rw [hb', hself]
      exact huse.service_eq
    · rwa [hother b hb']

theorem Memory.Onward.trans {m₁ m₂ : Memory} (h : m.Onward m₁) (h' : m₁.Onward m₂)
    (hnext : m₁.next = m.next) : m.Onward m₂ where
  segment_eq := h'.segment_eq.trans h.segment_eq
  array_eq := h'.array_eq.trans h.array_eq
  stackSize_eq := h'.stackSize_eq.trans h.stackSize_eq
  pool_eq := h'.pool_eq.trans h.pool_eq
  ahead := by
    refine ⟨h'.ahead.down_eq.trans h.ahead.down_eq, ?_⟩
    rw [← hnext, ← h.ahead.down_eq]
    exact h'.ahead.clear
  users b hb hserv := by
    obtain ⟨hb', hserv'⟩ := h.users b hb hserv
    exact h'.users b hb' hserv'

/-- Putting a retired block on its free list, which has room. -/
theorem frees_put {m₁ : Memory} {block size : Nat} (ht : m₁.Tiled)
    (hf : m₁.Filed [block] (live.erase (data block, size)))
    (hmem : block ∈ m₁.index.blocks) (hidle : (m₁.headers block).Idle)
    (hkb : (m₁.headers block).klass = (m.headers block).klass)
    (hroom : (m₁.freeLists (m.headers block).klass).items.length <
      (m₁.freeLists (m.headers block).klass).capacity)
    (hon : m.Onward m₁)
    (hcount : m₁.stat.toHeapStat =
      { m.stat.toHeapStat with
        freeCount := sizeAdd m.stat.freeCount 1
        userBytesFreed := sizeAdd m.stat.userBytesFreed size }) :
    m.Frees live block size (m₁.pushed (m.headers block).klass block) where
  tiled := ht.reheader rfl rfl rfl rfl (fun _ _ => ⟨rfl, rfl⟩) rfl
  filed := hf.put hmem List.not_mem_nil hidle hkb (hkb ▸ (ht.sound block hmem).lt_classes)
    hroom rfl rfl rfl
  onward := ⟨hon.segment_eq, hon.array_eq, hon.stackSize_eq, hon.pool_eq,
    ⟨hon.ahead.down_eq, hon.ahead.clear⟩, hon.users⟩
  count := hcount
  idle := hidle
  klass_eq := hkb
  listed := by simp [Memory.pushed]

/-- `Free` of a live pointer returns when its free list has room or can grow. -/
theorem free_live_ok {block size : Nat} (ht : m.Tiled) (hf : m.Filed [] live)
    (hlive : (data block, size) ∈ live) (hroomy : m.Roomy block) :
    ∃ m', free (data block) m = .ok ⟨⟩ m' ∧ m.Frees live block size m' := by
  obtain ⟨hmem, -, huse⟩ := hf.inUse hlive
  have hklass := (ht.sound block hmem).lt_classes
  obtain ⟨htiled, hfiled, hidle, hon⟩ := retire_filed ht hf hlive
  have hkb : ((m.retire block).headers block).klass = (m.headers block).klass := by
    simp [Memory.retire]
  have hcount : (m.retire block).stat.toHeapStat =
      { m.stat.toHeapStat with
        freeCount := sizeAdd m.stat.freeCount 1
        userBytesFreed := sizeAdd m.stat.userBytesFreed size } := by
    simp only [Memory.retire, huse.userSize_eq]
  rw [free_eq ht hmem, freeBlock_eq huse.state_eq hklass]
  by_cases hroom : (m.freeLists (m.headers block).klass).items.length <
      (m.freeLists (m.headers block).klass).capacity
  · rw [push_roomy (m := m.retire block) hroom]
    exact ⟨_, rfl, frees_put htiled hfiled hmem hidle hkb hroom hon hcount⟩
  · have hfull : ((m.retire block).freeLists (m.headers block).klass).items.length =
        ((m.retire block).freeLists (m.headers block).klass).capacity :=
      Nat.le_antisymm (hf.items_le _ hklass) (Nat.not_lt.mp hroom)
    obtain ⟨m₁, heq, ht₁, hf₁, hresized⟩ := resizeBuffer_ok htiled hfiled
      (fun b hb => (List.mem_singleton.mp hb) ▸ hmem) hklass hfull (hroomy.resolve_left hroom)
    obtain ⟨hmem₁, hheader₁⟩ := hresized.headers_eq block hmem
    rw [push_full hfull, heq]
    refine ⟨_, rfl, frees_put ht₁ hf₁ hmem₁ (hheader₁ ▸ hidle) (hheader₁ ▸ hkb) hresized.roomy
      (hon.trans hresized.onward rfl) ?_⟩
    rw [hresized.stat_eq]
    exact hcount

/-- Otherwise the simulator dies, after it has counted the block as freed. -/
theorem free_live_fails {block size : Nat} (ht : m.Tiled) (hf : m.Filed [] live)
    (hlive : (data block, size) ∈ live) (hroomy : ¬m.Roomy block) :
    ∃ p m', free (data block) m = .error (.panic p) m' ∧ m.Ahead m' ∧
      m'.stat.freeCount = sizeAdd m.stat.freeCount 1 := by
  obtain ⟨hmem, -, huse⟩ := hf.inUse hlive
  have hklass := (ht.sound block hmem).lt_classes
  obtain ⟨htiled, hfiled, -, hon⟩ := retire_filed ht hf hlive
  have hroom := not_or.mp hroomy
  have hfull : ((m.retire block).freeLists (m.headers block).klass).items.length =
      ((m.retire block).freeLists (m.headers block).klass).capacity :=
    Nat.le_antisymm (hf.items_le _ hklass) (Nat.not_lt.mp hroom.1)
  obtain ⟨p, m', heq, hahead, hstat⟩ := resizeBuffer_fails htiled hfiled hklass hfull hroom.2
  refine ⟨p, m', ?_, ⟨hahead.down_eq, hahead.clear⟩, by rw [hstat]; rfl⟩
  rw [free_eq ht hmem, freeBlock_eq huse.state_eq hklass, push_full hfull, heq]

end TwistSim.Isolated
