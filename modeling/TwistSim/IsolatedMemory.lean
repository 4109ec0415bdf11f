/-
The isolated user memory: one segment in which the heap grows up and the stacks
grow down, the heap's block index and size classes, and its free lists, whose
arrays are blocks of the same heap.  Addresses are natural numbers.
-/
import TwistSim.SystemCalls

namespace TwistSim.Isolated

/-! ### Alignment -/

def alignment : Nat := 16

theorem alignment_pos : 0 < alignment := by decide

def isAligned (ptr : Nat) : Bool := ptr % alignment == 0

/-- The loop of `Align`; it stops within `fuel` turns. -/
def alignLoop : Nat → Nat → Nat
  | 0, ptr => ptr
  | fuel + 1, ptr => if isAligned ptr then ptr else alignLoop fuel (ptr + 1)

def align (ptr : Nat) : Nat := alignLoop alignment ptr

/-! ### The shared segment -/

/-- `Segment`, a view of mapped memory. -/
structure Segment where
  begin : Nat
  size : Nat
  begin_pos : 0 < begin
  fits : begin + size < 2 ^ 64

/-- `End()`. -/
def Segment.stop (s : Segment) : Nat := s.begin + s.size

structure SharedSegment where
  segment : Segment
  up : Nat
  down : Nat
  begin_le_up : segment.begin ≤ up
  up_le_down : up ≤ down
  down_le_stop : down ≤ segment.stop

namespace SharedSegment

/-- The constructor, `Reset`. -/
def reset (segment : Segment) : SharedSegment where
  segment := segment
  up := segment.begin
  down := segment.stop
  begin_le_up := Nat.le_refl _
  up_le_down := Nat.le_add_right _ _
  down_le_stop := Nat.le_refl _

def spaceLeft (s : SharedSegment) : Nat := s.down - s.up

theorem add_le_down (s : SharedSegment) {size : Nat} (hsize : ¬s.spaceLeft < size) :
    s.up + size ≤ s.down :=
  (Nat.le_sub_iff_add_le' s.up_le_down).mp (Nat.not_lt.mp hsize)

def tryUp (s : SharedSegment) (size : Nat) : Option SharedSegment :=
  if hsize : s.spaceLeft < size then none
  else some
    { s with
      up := s.up + size
      begin_le_up := Nat.le_trans s.begin_le_up (Nat.le_add_right _ _)
      up_le_down := s.add_le_down hsize }

def tryDown (s : SharedSegment) (size : Nat) : Option SharedSegment :=
  if hsize : s.spaceLeft < size then none
  else some
    { s with
      down := s.down - size
      up_le_down := Nat.le_sub_of_add_le (s.add_le_down hsize)
      down_le_stop := Nat.le_trans (Nat.sub_le _ _) s.down_le_stop }

end SharedSegment

/-! ### Blocks -/

/-- `SizeClassifier::BlockSize`. -/
def blockSize (klass : Nat) : Nat := 2 ^ klass

def classes : Nat := 32

inductive BlockState where
  | allocated | available
  deriving DecidableEq, Repr

structure BlockHeader where
  state : BlockState
  klass : Nat
  service : Bool
  userSize : Nat
  allocId : Nat
  canary : Nat
  deriving DecidableEq, Repr

/-- A header filled with zero bytes. -/
def BlockHeader.zero : BlockHeader := ⟨.allocated, 0, false, 0, 0, 0⟩

/-- `sizeof(BlockHeader)`. -/
def headerSize : Nat := 16

/-- `kCanary`. -/
def canaryValue : Nat := 0xAAAAAAAA

/-- `Block::Data`. -/
def data (block : Nat) : Nat := block + headerSize

/-! ### The state behind the allocators -/

/-- `BlockIndex`: the address of its array and the blocks in it. -/
structure BlockIndex where
  array : Nat
  blocks : List Nat
  deriving DecidableEq, Repr

def indexCapacity : Nat := 1024 * 1024

/-- `kSizeBytes`. -/
def indexBytes : Nat := indexCapacity * 8

/-- `BlockVectorFreeList`: its buffer and the first `size_` blocks in it. -/
structure FreeList where
  buf : Option Nat
  items : List Nat
  capacity : Nat
  deriving DecidableEq, Repr

def FreeList.empty : FreeList := ⟨none, [], 0⟩

structure AllocatorStat extends HeapStat where
  bytesAllocated : Nat
  bytesFreed : Nat
  deriving DecidableEq, Repr

def AllocatorStat.zero : AllocatorStat := ⟨⟨0, 0, 0, 0⟩, 0, 0⟩

/-- `Memory`: the segment, the headers in it, the fields of the heap allocator
and its parts, and the free stacks of the stack allocator. -/
structure Memory where
  segment : SharedSegment
  headers : Nat → BlockHeader
  index : BlockIndex
  next : Nat
  freeLists : Nat → FreeList
  nextId : Nat
  stat : AllocatorStat
  stackSize : Nat
  pool : List Nat

/-- `AllocContext`. -/
structure AllocContext where
  random : Option Nat
  deriving DecidableEq, Repr

abbrev HeapM := EStateM Stop Memory

/-- `WHEELS_VERIFY` and `___TWIST_ALLOCATOR_VERIFY`. -/
def verify (cond : Bool) (error : String) : HeapM Unit :=
  if cond then pure () else throw (.panic (.verify error))

def setHeader (block : Nat) (header : BlockHeader) : HeapM Unit :=
  modify fun m => { m with headers := Function.update m.headers block header }

def setFreeList (klass : Nat) (list : FreeList) : HeapM Unit :=
  modify fun m => { m with freeLists := Function.update m.freeLists klass list }

/-- `SharedSegment::TryUp`; the pointer it returns is null exactly if it fails. -/
def tryUp (size : Nat) : HeapM Bool := do
  let m ← get
  match m.segment.tryUp size with
  | none => pure false
  | some segment => do
      set { m with segment }
      pure true

def trySetUp (ptr : Nat) : HeapM Bool := do
  let m ← get
  if ptr < m.segment.up then
    throw (.panic (.assertion "Pointer should be at least UpPtr()"))
  else tryUp (ptr - m.segment.up)

/-! ### The block index -/

/-- `BlockIndex::Insert`. -/
def insert (block : Nat) : HeapM Unit := do
  let m ← get
  verify (m.index.blocks.length < indexCapacity) "Block index overflow"
  match m.index.blocks.getLast? with
  | none => pure ()
  | some last => verify (last < block) "Unordered insert to block index"
  set { m with index := { m.index with blocks := m.index.blocks ++ [block] } }

/-- `Block::UserDataEnd`. -/
def userDataEnd (m : Memory) (block : Nat) : Nat :=
  data block + (m.headers block).userSize

/-- `std::lower_bound` over the index: how many blocks come before the first one
that is not below `addr`. -/
def lowerBound (blocks : List Nat) (addr : Nat) : Nat :=
  blocks.findIdx fun block => addr ≤ block

/-- `BlockIndex::Lookup`. -/
def lookup (m : Memory) (addr : Nat) : Except Panic (Option Nat) :=
  match m.index.blocks.head?, m.index.blocks.getLast? with
  | some first, some last =>
      if addr < data first then .ok none
      else if userDataEnd m last ≤ addr then .ok none
      else
        match lowerBound m.index.blocks addr with
        | 0 => .error (.verify "Broken block index")
        | iter + 1 =>
            match m.index.blocks[iter]? with
            | some candidate =>
                if data candidate ≤ addr ∧ addr < userDataEnd m candidate then
                  .ok (some candidate)
                else .ok none
            | none => .error (.undefined "read past the block index")
  | _, _ => .ok none

/-! ### BrkAllocator -/

/-- `BrkAllocator::NewBlock`. -/
def newBlock (klass : Nat) : HeapM (Option Nat) := do
  let m ← get
  verify (isAligned m.next) "Invalid alignment"
  -- block header + payload
  let totalBlockSize := blockSize klass + headerSize
  -- + _next_ block header
  let reserveBytes := totalBlockSize + headerSize
  if m.segment.spaceLeft < reserveBytes then pure none
  else do
    let block := m.next
    let newNext := align (block + totalBlockSize)
    if ← trySetUp newNext then do
      modify fun m => { m with next := newNext }
      -- Init
      let m ← get
      setHeader block { m.headers block with klass, canary := canaryValue }
      setHeader newNext BlockHeader.zero
      insert block
      pure (some block)
    else pure none

/-- `BrkAllocator::GetFreedBlock`. -/
def getFreedBlock (ptr : Nat) : HeapM Nat := do
  let m ← get
  verify (m.segment.segment.begin ≤ ptr ∧ ptr < m.segment.up)
    "Invalid user pointer: not from heap"
  verify (isAligned ptr) "Invalid user pointer: unaligned"
  verify (m.segment.segment.begin + headerSize ≤ ptr) "Invalid user pointer"
  verify (ptr < m.next) "Invalid user pointer: not allocated"
  let block := ptr - headerSize
  verify ((m.headers block).canary == canaryValue) "Corrupted memory: block canary is dead"
  pure block

/-- `BrkAllocator::Reset`. -/
def brkReset : HeapM Unit := do
  let m ← get
  let array := align m.segment.up
  verify (← trySetUp array) "Broken allocator"
  verify (← tryUp indexBytes) "Cannot reserve space for index"
  modify fun m => { m with index := ⟨array, []⟩ }
  let m ← get
  let next := align m.segment.up
  modify fun m => { m with next }
  verify (← trySetUp next) "Broken allocator"
  setHeader next BlockHeader.zero
  verify (isAligned next) "Invalid alignment"

/-! ### Size classes and free lists -/

/-- `SizeClassifier::GetSizeClass`. -/
def getSizeClass (userSize : Nat) : HeapM Nat :=
  match (List.range' 4 28).find? fun k => userSize ≤ blockSize k with
  | some klass => pure (if klass < 4 then 4 else klass)
  | none => throw (.panic (.unreachable "Too big to fail"))

def newCapacity (curr : Nat) : Nat := if curr = 0 then 8 else curr * 2

/-- `ToBytes`. -/
def toBytes (items : Nat) : Nat := items * 8

/-- `NewBuffer`; it does not check the block that it gets. -/
def newBuffer (capacity : Nat) : HeapM Nat := do
  let klass ← getSizeClass (toBytes capacity)
  match ← newBlock klass with
  | none => throw (.panic (.undefined "dereference of a null block"))
  | some block => do
      let m ← get
      setHeader block { m.headers block with state := .allocated, service := true }
      pure (data block)

/-- `ResizeBuffer` of the free list of `klass`: the blocks are copied, the old
buffer is leaked. -/
def resizeBuffer (klass : Nat) : HeapM Unit := do
  let m ← get
  let capacity := newCapacity (m.freeLists klass).capacity
  let buf ← newBuffer capacity
  let m ← get
  setFreeList klass { m.freeLists klass with buf := some buf, capacity }

def push (klass : Nat) (block : Nat) : HeapM Unit := do
  let m ← get
  if (m.freeLists klass).items.length = (m.freeLists klass).capacity then
    resizeBuffer klass
  let m ← get
  let list := m.freeLists klass
  setFreeList klass { list with items := list.items ++ [block] }

/-- `TryPopBack` and `TryPopSome`: the popped block and the rest. -/
def popFrom (items : List Nat) (context : AllocContext) : Option (Nat × List Nat) :=
  match items.getLast?, context.random with
  | none, _ => none
  | some last, none => some (last, items.dropLast)
  | some last, some random =>
      let index := random % items.length
      some (items.getD index last, (items.set index last).dropLast)

def tryPop (klass : Nat) (context : AllocContext) : HeapM (Option Nat) := do
  let m ← get
  match popFrom (m.freeLists klass).items context with
  | none => pure none
  | some (block, items) => do
      setFreeList klass { m.freeLists klass with items }
      pure (some block)

/-! ### Allocator -/

def allocSizeLimit : Nat := 2 ^ 30

/-- `++counter`, `counter += n` of a `size_t`. -/
def sizeAdd (a b : Nat) : Nat := (a + b) % 2 ^ 64

def getFreeBlock (klass : Nat) (context : AllocContext) : HeapM (Option Nat) := do
  match ← tryPop klass context with
  | some block => pure (some block)
  | none => newBlock klass

def allocate (userSize : Nat) (context : AllocContext) : HeapM (Option Nat) := do
  if allocSizeLimit ≤ userSize then
    throw (.abort .libraryAssert
      "Assertion \"user_size < kAllocSizeLimit\" failed: \"Allocation is too large\"")
  let klass ← getSizeClass userSize
  match ← getFreeBlock klass context with
  | none => pure none
  | some block => do
      modify fun m => { m with nextId := (m.nextId + 1) % 2 ^ 32 }
      let m ← get
      setHeader block
        { m.headers block with
          state := .allocated, service := false, userSize, allocId := m.nextId }
      modify fun m =>
        { m with stat :=
          { m.stat with
            allocCount := sizeAdd m.stat.allocCount 1
            bytesAllocated :=
              sizeAdd m.stat.bytesAllocated (blockSize (m.headers block).klass)
            userBytesAllocated := sizeAdd m.stat.userBytesAllocated userSize } }
      pure (some (data block))

/-- `Allocator::Free` of a block. -/
def freeBlock (block : Nat) : HeapM Unit := do
  let m ← get
  let header := m.headers block
  if header.state ≠ .allocated then
    throw (.abort .memoryDoubleFree "Corrupted user memory: block already freed")
  verify (header.klass < classes) "Corrupted user memory: corrupted block header"
  modify fun m =>
    { m with stat :=
      { m.stat with
        freeCount := sizeAdd m.stat.freeCount 1
        userBytesFreed := sizeAdd m.stat.userBytesFreed header.userSize
        bytesFreed := sizeAdd m.stat.bytesFreed (blockSize header.klass) } }
  setHeader block { header with state := .available, userSize := 0 }
  push header.klass block

/-- `Allocator::Free`. -/
def free (ptr : Nat) : HeapM Unit := do
  if ptr = 0 then pure ()
  else freeBlock (← getFreedBlock ptr)

/-- `Allocator::Access`; the sum of a pointer and a size is a machine word. -/
def access (m : Memory) (addr : Nat) (size : Nat) : Except Panic Bool := do
  match ← lookup m addr with
  | none => .ok false
  | some block =>
      .ok ((m.headers block).state = .allocated ∧
        (addr + size) % 2 ^ 64 ≤ userDataEnd m block)

/-- `Allocator::Reset`. -/
def reset : HeapM Unit := do
  brkReset
  modify fun m =>
    { m with
      freeLists := fun klass => if klass < classes then FreeList.empty else m.freeLists klass
      nextId := 0
      stat := AllocatorStat.zero }

/-! ### The boot block -/

/-- The doubling loop of `AllocateBootBlock`; it ends within `fuel` turns. -/
def bootBlockLoop : Nat → Nat → Nat → Nat
  | 0, _, cur => cur
  | fuel + 1, size, cur => if cur < size then bootBlockLoop fuel size (cur * 2) else cur

/-- `AllocateBootBlock`, for the allocator itself. -/
def allocateBootBlock (size : Nat) : HeapM Nat := do
  let m ← get
  let start := align m.segment.up
  if ← trySetUp (start + bootBlockLoop size size 16) then pure start
  else throw (.panic (.verify "Cannot bootstrap malloc allocator"))

/-! ### Stacks -/

def chooseStackSize (minSize : Nat) : Nat := max minSize (64 * 1024)

/-- `StackAllocator::Allocate`. -/
def allocateStack : HeapM (Option Nat) := do
  let m ← get
  match m.pool with
  | stack :: pool => do
      set { m with pool }
      pure (some stack)
  | [] =>
      match m.segment.tryDown m.stackSize with
      | some segment => do
          set { m with segment }
          pure (some segment.down)
      | none => pure none

/-- `StackAllocator::Free`. -/
def freeStack (stack : Nat) : HeapM Unit :=
  modify fun m => { m with pool := stack :: m.pool }

/-- The memory before the first allocation. -/
def Memory.fresh (segment : Segment) (minStackSize : Nat) : Memory where
  segment := SharedSegment.reset segment
  headers _ := BlockHeader.zero
  index := ⟨0, []⟩
  next := 0
  freeLists _ := FreeList.empty
  nextId := 0
  stat := AllocatorStat.zero
  stackSize := chooseStackSize minStackSize
  pool := []

end TwistSim.Isolated
