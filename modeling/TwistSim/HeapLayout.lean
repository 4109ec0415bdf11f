/-
The layout of the heap: the blocks of the index fill it without gaps, the next
block's header is written ahead, and a new block only extends the picture.
-/
import TwistSim.IsolatedMemory
import TwistSim.Extents

namespace TwistSim.Isolated

open Extents

variable {α β : Type} {m m' : Memory}

/-! ### Running the allocator -/

@[simp] theorem bind_apply (x : HeapM α) (f : α → HeapM β) (m : Memory) :
    (x >>= f) m = match x m with
      | .ok a m' => f a m'
      | .error e m' => .error e m' := by
  show EStateM.bind x f m = _
  rw [EStateM.bind]
  cases x m <;> rfl

@[simp] theorem map_apply (f : α → β) (x : HeapM α) (m : Memory) :
    (f <$> x) m = match x m with
      | .ok a m' => .ok (f a) m'
      | .error e m' => .error e m' := by
  show EStateM.map f x m = _
  rw [EStateM.map]
  cases x m <;> rfl

@[simp] theorem pure_apply (a : α) (m : Memory) : (pure a : HeapM α) m = .ok a m := rfl

@[simp] theorem get_apply (m : Memory) : (get : HeapM Memory) m = .ok m m := rfl

@[simp] theorem set_apply (m m' : Memory) : (set m' : HeapM PUnit) m = .ok ⟨⟩ m' := rfl

@[simp] theorem modify_apply (f : Memory → Memory) (m : Memory) :
    (modify f : HeapM PUnit) m = .ok ⟨⟩ (f m) := rfl

@[simp] theorem throw_apply (e : Stop) (m : Memory) :
    (throw e : HeapM α) m = .error e m := rfl

@[simp] theorem verify_apply (cond : Bool) (error : String) (m : Memory) :
    verify cond error m =
      if cond then .ok ⟨⟩ m else .error (.panic (.verify error)) m := by
  cases cond <;> rfl

@[simp] theorem setHeader_apply (block : Nat) (header : BlockHeader) (m : Memory) :
    setHeader block header m =
      .ok ⟨⟩ { m with headers := Function.update m.headers block header } := rfl

@[simp] theorem setFreeList_apply (klass : Nat) (list : FreeList) (m : Memory) :
    setFreeList klass list m =
      .ok ⟨⟩ { m with freeLists := Function.update m.freeLists klass list } := rfl

theorem bind_ok {x : HeapM α} {f : α → HeapM β} {b : β} (h : (x >>= f) m = .ok b m') :
    ∃ a m₁, x m = .ok a m₁ ∧ f a m₁ = .ok b m' := by
  rw [bind_apply] at h
  cases hx : x m with
  | ok a m₁ => exact ⟨a, m₁, rfl, by rwa [hx] at h⟩
  | error e m₁ =>
    rw [hx] at h
    cases h

theorem verify_ok {cond : Bool} {error : String} {u : Unit}
    (h : verify cond error m = .ok u m') : cond = true ∧ m' = m := by
  rw [verify_apply] at h
  cases cond with
  | false => cases h
  | true =>
    cases h
    exact ⟨rfl, rfl⟩

/-! ### Alignment -/

theorem isAligned_iff {ptr : Nat} : isAligned ptr = true ↔ ptr % 16 = 0 := by
  simp [isAligned, alignment]

theorem alignLoop_eq {fuel : Nat} {ptr : Nat} (hfuel : (16 - ptr % 16) % 16 ≤ fuel) :
    alignLoop fuel ptr = ptr + (16 - ptr % 16) % 16 := by
  induction fuel generalizing ptr with
  | zero => simp only [alignLoop]; omega
  | succ fuel ih =>
    rw [alignLoop]
    by_cases haligned : ptr % 16 = 0
    · rw [if_pos (isAligned_iff.mpr haligned)]
      omega
    · rw [if_neg (by rwa [isAligned_iff]), ih (by omega)]
      omega

theorem align_eq (ptr : Nat) : align ptr = ptr + (16 - ptr % 16) % 16 :=
  alignLoop_eq (by simp only [alignment]; omega)

theorem align_mod (ptr : Nat) : align ptr % 16 = 0 := by
  rw [align_eq]; omega

theorem le_align (ptr : Nat) : ptr ≤ align ptr := by
  rw [align_eq]; omega

theorem align_of_aligned {ptr : Nat} (h : ptr % 16 = 0) : align ptr = ptr := by
  rw [align_eq]; omega

/-! ### The segment -/

theorem tryUp_some {s : SharedSegment} {size : Nat} (h : size ≤ s.spaceLeft) :
    ∃ s', s.tryUp size = some s' ∧ s'.segment = s.segment ∧ s'.up = s.up + size ∧
      s'.down = s.down := by
  rw [SharedSegment.tryUp, dif_neg (Nat.not_lt.mpr h)]
  exact ⟨_, rfl, rfl, rfl, rfl⟩

theorem tryUp_none {s : SharedSegment} {size : Nat} (h : s.spaceLeft < size) :
    s.tryUp size = none := by
  rw [SharedSegment.tryUp, dif_pos h]

/-- Moving the break up succeeds exactly below the stacks. -/
theorem trySetUp_ok {ptr : Nat} (hup : m.segment.up ≤ ptr) (hdown : ptr ≤ m.segment.down) :
    ∃ s : SharedSegment, trySetUp ptr m = .ok true { m with segment := s } ∧
      s.segment = m.segment.segment ∧ s.up = ptr ∧ s.down = m.segment.down := by
  obtain ⟨s, hs, hsegment, hup', hdown'⟩ := @tryUp_some m.segment (ptr - m.segment.up)
    (Nat.sub_le_sub_right hdown _)
  refine ⟨s, ?_, hsegment, by omega, hdown'⟩
  simp [trySetUp, tryUp, Nat.not_lt.mpr hup, hs]

theorem of_tryUp {size : Nat} (h : tryUp size m = .ok true m') :
    ∃ s : SharedSegment, m' = { m with segment := s } ∧ s.segment = m.segment.segment ∧
      s.up = m.segment.up + size ∧ s.down = m.segment.down := by
  by_cases hspace : size ≤ m.segment.spaceLeft
  · obtain ⟨s, hs, hsegment, hup, hdown⟩ := tryUp_some hspace
    simp [tryUp, hs] at h
    exact ⟨s, h.symm, hsegment, hup, hdown⟩
  · simp [tryUp, tryUp_none (Nat.not_le.mp hspace)] at h

theorem of_trySetUp {ptr : Nat} (h : trySetUp ptr m = .ok true m') :
    ∃ s : SharedSegment, m' = { m with segment := s } ∧ s.segment = m.segment.segment ∧
      s.up = ptr ∧ s.down = m.segment.down := by
  by_cases hup : ptr < m.segment.up
  · simp [trySetUp, hup] at h
  · have htry : tryUp (ptr - m.segment.up) m = .ok true m' := by
      simpa [trySetUp, hup] using h
    obtain ⟨s, rfl, hsegment, hup', hdown⟩ := of_tryUp htry
    exact ⟨s, rfl, hsegment, by omega, hdown⟩

/-! ### Tiling -/

/-- A header that `Init` wrote. -/
structure BlockHeader.Sound (header : BlockHeader) : Prop where
  four_le : 4 ≤ header.klass
  lt_classes : header.klass < classes
  canary_eq : header.canary = canaryValue

/-- A block with its header. -/
def Memory.extent (m : Memory) (block : Nat) : Nat :=
  headerSize + blockSize (m.headers block).klass

/-- Where the blocks start: behind the array of the index. -/
def Memory.base (m : Memory) : Nat := m.index.array + indexBytes

/-- The heap since `Reset`. -/
structure Memory.Tiled (m : Memory) : Prop where
  begin_le : m.segment.segment.begin ≤ m.index.array
  aligned : m.index.array % 16 = 0
  tiles : Tiles m.extent m.base m.index.blocks m.next
  up_eq : m.segment.up = m.next
  sound : ∀ block ∈ m.index.blocks, (m.headers block).Sound
  fits : m.index.blocks.length ≤ indexCapacity
  ahead : m.headers m.next = BlockHeader.zero

theorem sixteen_dvd_blockSize {klass : Nat} (h : 4 ≤ klass) : 16 ∣ blockSize klass :=
  Nat.pow_dvd_pow 2 h

theorem blockSize_pos (klass : Nat) : 0 < blockSize klass := Nat.two_pow_pos klass

/-- `m'` is `m` with one more block, which has the header `header`. -/
structure Memory.Grown (m : Memory) (header : BlockHeader) (m' : Memory) : Prop where
  segment_eq : m'.segment.segment = m.segment.segment
  down_eq : m'.segment.down = m.segment.down
  up_eq : m'.segment.up = m'.next
  next_eq : m'.next = m.next + (headerSize + blockSize header.klass)
  index_eq : m'.index = { m.index with blocks := m.index.blocks ++ [m.next] }
  header_eq : m'.headers m.next = header
  headers_eq : ∀ block, block < m.next → m'.headers block = m.headers block
  ahead_eq : m'.headers m'.next = BlockHeader.zero
  room : m'.next + headerSize ≤ m'.segment.down
  fits : m.index.blocks.length < indexCapacity

namespace Memory.Tiled

variable {block : Nat}

theorem lt_next (h : m.Tiled) (hblock : block ∈ m.index.blocks) : block < m.next := by
  have := (h.tiles.bounds hblock).2
  simp only [extent, headerSize] at this
  omega

theorem base_mod (h : m.Tiled) : m.base % 16 = 0 := by
  have := h.aligned
  simp only [base, indexBytes, indexCapacity]
  omega

theorem dvd (h : m.Tiled) :
    (∀ block ∈ m.index.blocks, 16 ∣ block) ∧ 16 ∣ m.next :=
  h.tiles.dvd (Nat.dvd_of_mod_eq_zero h.base_mod) fun block hblock =>
    Nat.dvd_add ⟨1, rfl⟩ (sixteen_dvd_blockSize (h.sound block hblock).four_le)

theorem next_mod (h : m.Tiled) : m.next % 16 = 0 := Nat.mod_eq_zero_of_dvd h.dvd.2

theorem spaceLeft_eq (h : m.Tiled) : m.segment.spaceLeft = m.segment.down - m.next := by
  rw [SharedSegment.spaceLeft, h.up_eq]

theorem next_le_down (h : m.Tiled) : m.next ≤ m.segment.down :=
  h.up_eq ▸ m.segment.up_le_down

/-- Two blocks, headers included, are the same one or do not overlap. -/
theorem apart (h : m.Tiled) {b c : Nat} (hb : b ∈ m.index.blocks)
    (hc : c ∈ m.index.blocks) (hne : b ≠ c) :
    b + m.extent b ≤ c ∨ c + m.extent c ≤ b :=
  h.tiles.apart hb hc hne

theorem ordered (h : m.Tiled) : m.index.blocks.Pairwise (· < ·) :=
  h.tiles.ordered.imp fun {b c} hle => by
    simp only [extent, headerSize] at hle
    omega

/-- Only headers below `next` matter, and of those only what `Init` wrote. -/
theorem reheader (h : m.Tiled) (hsegment : m'.segment.segment = m.segment.segment)
    (hup : m'.segment.up = m.segment.up) (hindex : m'.index = m.index) (hnext : m'.next = m.next)
    (hheaders : ∀ block ∈ m.index.blocks, (m'.headers block).klass = (m.headers block).klass ∧
      (m'.headers block).canary = (m.headers block).canary)
    (hahead : m'.headers m.next = m.headers m.next) : m'.Tiled where
  begin_le := by rw [hsegment, hindex]; exact h.begin_le
  aligned := by rw [hindex]; exact h.aligned
  tiles := by
    rw [base, hindex, hnext]
    refine h.tiles.congr fun block hblock => ?_
    simp only [extent, (hheaders block hblock).1]
  up_eq := by rw [hup, hnext]; exact h.up_eq
  sound := by
    rw [hindex]
    intro block hblock
    obtain ⟨hklass, hcanary⟩ := hheaders block hblock
    have hsound := h.sound block hblock
    exact ⟨hklass ▸ hsound.four_le, hklass ▸ hsound.lt_classes, hcanary ▸ hsound.canary_eq⟩
  fits := by rw [hindex]; exact h.fits
  ahead := by rw [hnext, hahead]; exact h.ahead

theorem grow {header : BlockHeader} (h : m.Tiled) (hsound : header.Sound)
    (hgrown : m.Grown header m') : m'.Tiled where
  begin_le := by rw [hgrown.segment_eq, hgrown.index_eq]; exact h.begin_le
  aligned := by rw [hgrown.index_eq]; exact h.aligned
  tiles := by
    have hblocks : m'.index.blocks = m.index.blocks ++ [m.next] := by rw [hgrown.index_eq]
    have hnext : m'.next = m.next + m'.extent m.next := by
      rw [hgrown.next_eq, extent, hgrown.header_eq]
    have hbase : m'.base = m.base := by rw [base, base, hgrown.index_eq]
    rw [hblocks, hnext, hbase]
    refine (h.tiles.congr fun block hblock => ?_).append
    rw [extent, extent, hgrown.headers_eq block (h.lt_next hblock)]
  up_eq := hgrown.up_eq
  sound := by
    rw [hgrown.index_eq]
    intro block hblock
    rcases List.mem_append.mp hblock with hold | hnew
    · rw [hgrown.headers_eq block (h.lt_next hold)]
      exact h.sound block hold
    · rw [List.mem_singleton.mp hnew, hgrown.header_eq]
      exact hsound
  fits := by
    rw [hgrown.index_eq, List.length_append]
    exact hgrown.fits
  ahead := hgrown.ahead_eq

end Memory.Tiled

/-! ### A new block -/

/-- The rest of the memory is left alone. -/
structure Memory.SameBooks (m m' : Memory) : Prop where
  freeLists : m'.freeLists = m.freeLists
  nextId : m'.nextId = m.nextId
  stat : m'.stat = m.stat
  stackSize : m'.stackSize = m.stackSize
  pool : m'.pool = m.pool

/-- What `NewBlock` did to the memory, whether it returned or not. -/
structure Memory.Ahead (m m' : Memory) : Prop where
  down_eq : m'.segment.down = m.segment.down
  clear : m'.next = m.next ∨ m'.next + headerSize ≤ m.segment.down

theorem Memory.Ahead.refl (m : Memory) : m.Ahead m := ⟨rfl, .inl rfl⟩

/-- The header of a new block before anyone takes it. -/
def BlockHeader.carved (ahead : BlockHeader) (klass : Nat) : BlockHeader :=
  { ahead with klass, canary := canaryValue }

theorem newBlock_overflow {klass : Nat} (h : m.Tiled)
    (hspace : m.segment.spaceLeft < blockSize klass + 2 * headerSize) :
    newBlock klass m = .ok none m := by
  have haligned := isAligned_iff.mpr h.next_mod
  have hreserve : m.segment.spaceLeft < blockSize klass + headerSize + headerSize := by omega
  simp [newBlock, haligned, hreserve]

/-- The memory when a new block enters the index. -/
def Memory.extended (m : Memory) (klass : Nat) (segment : SharedSegment) : Memory :=
  { m with
    segment
    next := m.next + (headerSize + blockSize klass)
    headers := Function.update
      (Function.update m.headers m.next ((m.headers m.next).carved klass))
      (m.next + (headerSize + blockSize klass)) BlockHeader.zero }

/-- With room for the block and the header behind it, only the index decides. -/
theorem newBlock_eq {klass : Nat} (h : m.Tiled) (hklass : 4 ≤ klass)
    (hspace : blockSize klass + 2 * headerSize ≤ m.segment.spaceLeft) :
    ∃ s : SharedSegment, s.segment = m.segment.segment ∧
      s.up = m.next + (headerSize + blockSize klass) ∧ s.down = m.segment.down ∧
      newBlock klass m = match insert m.next (m.extended klass s) with
        | .ok _ m' => .ok (some m.next) m'
        | .error e m' => .error e m' := by
  have haligned := isAligned_iff.mpr h.next_mod
  have hreserve : ¬m.segment.spaceLeft < blockSize klass + headerSize + headerSize := by omega
  have hspace' := h.spaceLeft_eq
  have hdown := h.next_le_down
  have hnew : align (m.next + (blockSize klass + headerSize)) =
      m.next + (headerSize + blockSize klass) := by
    rw [Nat.add_comm headerSize]
    refine align_of_aligned ?_
    have hnext := h.next_mod
    have hsize := Nat.mod_eq_zero_of_dvd (sixteen_dvd_blockSize hklass)
    simp only [headerSize]
    omega
  obtain ⟨s, htry, hsegment, hup, hdown'⟩ :=
    @trySetUp_ok m (m.next + (headerSize + blockSize klass))
      (by rw [h.up_eq]; omega) (by simp only [headerSize] at hspace ⊢; omega)
  refine ⟨s, hsegment, hup, hdown', ?_⟩
  simp [newBlock, haligned, hreserve, hnew, htry, Memory.extended, BlockHeader.carved]
  generalize insert m.next _ = inserted
  cases inserted <;> rfl

theorem insert_ok {block : Nat} (hfits : m.index.blocks.length < indexCapacity)
    (hlast : ∀ last ∈ m.index.blocks, last < block) :
    insert block m =
      .ok ⟨⟩ { m with index := { m.index with blocks := m.index.blocks ++ [block] } } := by
  cases hget : m.index.blocks.getLast? with
  | none => simp [insert, hfits, hget]
  | some last =>
    have hlt := hlast last (List.mem_of_getLast? hget)
    simp [insert, hfits, hget, hlt]

theorem insert_full {block : Nat} (hfits : ¬m.index.blocks.length < indexCapacity) :
    insert block m = .error (.panic (.verify "Block index overflow")) m := by
  simp [insert, hfits]

/-- A new block starts at `next`; the header behind it is written ahead. -/
theorem newBlock_grows {klass : Nat} (h : m.Tiled) (hklass : 4 ≤ klass)
    (hspace : blockSize klass + 2 * headerSize ≤ m.segment.spaceLeft)
    (hfits : m.index.blocks.length < indexCapacity) :
    ∃ m', newBlock klass m = .ok (some m.next) m' ∧
      m.Grown ((m.headers m.next).carved klass) m' ∧ m.SameBooks m' := by
  obtain ⟨s, hsegment, hup, hdown, heq⟩ := newBlock_eq h hklass hspace
  have hbelow : ∀ last ∈ (m.extended klass s).index.blocks, last < m.next :=
    fun last hlast => h.lt_next hlast
  rw [insert_ok (m := m.extended klass s) hfits hbelow] at heq
  have hspace' := h.spaceLeft_eq
  have hpos := blockSize_pos klass
  refine ⟨_, heq, ?_, ⟨rfl, rfl, rfl, rfl, rfl⟩⟩
  constructor
  case segment_eq => exact hsegment
  case down_eq => exact hdown
  case up_eq => exact hup
  case next_eq => rfl
  case index_eq => rfl
  case header_eq =>
    show Function.update _ _ _ m.next = _
    rw [Function.update_of_ne (by omega), Function.update_self]
  case headers_eq =>
    intro block hlt
    show Function.update _ _ _ block = _
    rw [Function.update_of_ne (by omega), Function.update_of_ne (by omega)]
  case ahead_eq => exact Function.update_self ..
  case room =>
    show m.next + (headerSize + blockSize klass) + headerSize ≤ s.down
    have := h.next_le_down
    simp only [headerSize] at hspace ⊢
    omega
  case fits => exact hfits

/-- A full index ends the simulation after the new header has been written. -/
theorem newBlock_full {klass : Nat} (h : m.Tiled) (hklass : 4 ≤ klass)
    (hspace : blockSize klass + 2 * headerSize ≤ m.segment.spaceLeft)
    (hfull : ¬m.index.blocks.length < indexCapacity) :
    ∃ m', newBlock klass m = .error (.panic (.verify "Block index overflow")) m' ∧
      m.Ahead m' ∧ m.SameBooks m' := by
  obtain ⟨s, -, -, hdown, heq⟩ := newBlock_eq h hklass hspace
  rw [insert_full (m := m.extended klass s) hfull] at heq
  have hspace' := h.spaceLeft_eq
  refine ⟨_, heq, ⟨hdown, .inr ?_⟩, ⟨rfl, rfl, rfl, rfl, rfl⟩⟩
  show m.next + (headerSize + blockSize klass) + headerSize ≤ m.segment.down
  have := h.next_le_down
  simp only [headerSize] at hspace ⊢
  omega

theorem Memory.Grown.toAhead {header : BlockHeader} (h : m.Grown header m') : m.Ahead m' :=
  ⟨h.down_eq, .inr (h.down_eq ▸ h.room)⟩

end TwistSim.Isolated
