/-
The books of the heap: every block is live, free or an array of a free list, but
for those that the allocator has in hand.  Each move of a block between these
places is one lemma.
-/
import TwistSim.HeapLayout
import Mathlib.Data.List.Nodup

namespace TwistSim.Isolated

/-- The header of a live user block of which `size` bytes were requested. -/
structure BlockHeader.InUse (header : BlockHeader) (size : Nat) : Prop where
  state_eq : header.state = .allocated
  service_eq : header.service = false
  userSize_eq : header.userSize = size
  size_le : size ≤ blockSize header.klass
  size_lt : size < allocSizeLimit

structure BlockHeader.Idle (header : BlockHeader) : Prop where
  state_eq : header.state = .available
  service_eq : header.service = false
  userSize_eq : header.userSize = 0

/-- The header of a block that holds the array of a free list. -/
structure BlockHeader.Serving (header : BlockHeader) : Prop where
  state_eq : header.state = .allocated
  service_eq : header.service = true
  userSize_eq : header.userSize = 0

/-- The places where a block can be. -/
inductive Memory.Place (m : Memory) (live : List (Nat × Nat)) (block : Nat) : Prop where
  | live (size : Nat) (hlive : (data block, size) ∈ live)
      (huse : (m.headers block).InUse size)
  | free (hidle : (m.headers block).Idle)
      (hfree : block ∈ (m.freeLists (m.headers block).klass).items)
  | serving (hserving : (m.headers block).Serving)

/-- An entry of the free list of `klass`. -/
structure Memory.Listed (m : Memory) (hands : List Nat) (klass block : Nat) : Prop where
  mem : block ∈ m.index.blocks
  notIn : block ∉ hands
  klass_eq : (m.headers block).klass = klass
  idle : (m.headers block).Idle

/-- The array of a free list. -/
structure Memory.Backs (m : Memory) (hands : List Nat) (list : FreeList)
    (block : Nat) : Prop where
  mem : block ∈ m.index.blocks
  notIn : block ∉ hands
  buf_eq : list.buf = some (data block)
  serving : (m.headers block).Serving
  fits : toBytes list.capacity ≤ blockSize (m.headers block).klass

/-- The books balance, with the blocks `hands` in hand and the user allocations
`live` outstanding. -/
structure Memory.Filed (m : Memory) (hands : List Nat) (live : List (Nat × Nat)) : Prop where
  live_nodup : (live.map Prod.fst).Nodup
  live_block : ∀ p ∈ live, ∃ block ∈ m.index.blocks,
    block ∉ hands ∧ p.1 = data block ∧ (m.headers block).InUse p.2
  listed : ∀ klass < classes, ∀ block ∈ (m.freeLists klass).items,
    m.Listed hands klass block
  items_nodup : ∀ klass < classes, (m.freeLists klass).items.Nodup
  placed : ∀ block ∈ m.index.blocks, block ∉ hands → m.Place live block
  items_le : ∀ klass < classes,
    (m.freeLists klass).items.length ≤ (m.freeLists klass).capacity
  capacity_eq : ∀ klass < classes,
    (m.freeLists klass).capacity = 0 ∨ ∃ j, (m.freeLists klass).capacity = 2 ^ (j + 3)
  backed : ∀ klass < classes, (m.freeLists klass).capacity ≠ 0 →
    ∃ block, m.Backs hands (m.freeLists klass) block
  apart : ∀ klass < classes, ∀ klass' < classes, (m.freeLists klass).capacity ≠ 0 →
    (m.freeLists klass').capacity ≠ 0 →
    (m.freeLists klass).buf = (m.freeLists klass').buf → klass = klass'

namespace Memory.Filed

variable {m m' : Memory} {hands : List Nat} {live : List (Nat × Nat)}
  {block klass size : Nat}

/-- Headers of blocks in hand do not matter. -/
theorem reheader (h : m.Filed hands live) (hblocks : m'.index.blocks = m.index.blocks)
    (hlists : m'.freeLists = m.freeLists)
    (hheaders : ∀ b ∈ m.index.blocks, b ∉ hands → m'.headers b = m.headers b) :
    m'.Filed hands live where
  live_nodup := h.live_nodup
  live_block p hp := by
    obtain ⟨b, hb, hhand, hdata, huse⟩ := h.live_block p hp
    exact ⟨b, hblocks ▸ hb, hhand, hdata, by rwa [hheaders b hb hhand]⟩
  listed k hk b hb := by
    rw [hlists] at hb
    obtain ⟨hmem, hhand, hklass, hidle⟩ := h.listed k hk b hb
    have hsame := hheaders b hmem hhand
    exact ⟨hblocks ▸ hmem, hhand, by rwa [hsame], by rwa [hsame]⟩
  items_nodup := by rw [hlists]; exact h.items_nodup
  placed b hb hhand := by
    rw [hblocks] at hb
    have hsame := hheaders b hb hhand
    cases h.placed b hb hhand with
    | live size hlive huse => exact .live size hlive (by rwa [hsame])
    | free hidle hfree => exact .free (by rwa [hsame]) (by rwa [hsame, hlists])
    | serving hserving => exact .serving (by rwa [hsame])
  items_le := by rw [hlists]; exact h.items_le
  capacity_eq := by rw [hlists]; exact h.capacity_eq
  backed k hk hcap := by
    rw [hlists] at hcap ⊢
    obtain ⟨b, hmem, hhand, hbuf, hserving, hfits⟩ := h.backed k hk hcap
    have hsame := hheaders b hmem hhand
    exact ⟨b, hblocks ▸ hmem, hhand, hbuf, by rwa [hsame], by rwa [hsame]⟩
  apart := by rw [hlists]; exact h.apart

/-- A new block comes into hand. -/
theorem grow {header : BlockHeader} (h : m.Filed hands live) (ht : m.Tiled)
    (hgrown : m.Grown header m') (hlists : m'.freeLists = m.freeLists) :
    m'.Filed (m.next :: hands) live := by
  have hblocks : ∀ b, b ∈ m'.index.blocks ↔ b ∈ m.index.blocks ∨ b = m.next := by
    intro b
    rw [hgrown.index_eq]
    simp
  have hsame : ∀ b ∈ m.index.blocks, m'.headers b = m.headers b :=
    fun b hb => hgrown.headers_eq b (ht.lt_next hb)
  have hhands : ∀ b ∈ m.index.blocks, b ∉ hands → b ∉ m.next :: hands := by
    intro b hb hhand hmem
    rcases List.mem_cons.mp hmem with rfl | hin
    · exact Nat.lt_irrefl _ (ht.lt_next hb)
    · exact hhand hin
  constructor
  case live_nodup => exact h.live_nodup
  case live_block =>
    intro p hp
    obtain ⟨b, hb, hhand, hdata, huse⟩ := h.live_block p hp
    exact ⟨b, (hblocks b).mpr (.inl hb), hhands b hb hhand, hdata, by rwa [hsame b hb]⟩
  case listed =>
    intro k hk b hb
    rw [hlists] at hb
    obtain ⟨hmem, hhand, hklass, hidle⟩ := h.listed k hk b hb
    exact ⟨(hblocks b).mpr (.inl hmem), hhands b hmem hhand, by rwa [hsame b hmem],
      by rwa [hsame b hmem]⟩
  case items_nodup => rw [hlists]; exact h.items_nodup
  case placed =>
    intro b hb hhand
    have hmem : b ∈ m.index.blocks := by
      refine ((hblocks b).mp hb).resolve_right fun hnew => hhand ?_
      rw [hnew]
      exact List.mem_cons_self
    cases h.placed b hmem (fun hin => hhand (List.mem_cons_of_mem _ hin)) with
    | live size hlive huse => exact .live size hlive (by rwa [hsame b hmem])
    | free hidle hfree =>
      exact .free (by rwa [hsame b hmem]) (by rwa [hsame b hmem, hlists])
    | serving hserving => exact .serving (by rwa [hsame b hmem])
  case items_le => rw [hlists]; exact h.items_le
  case capacity_eq => rw [hlists]; exact h.capacity_eq
  case backed =>
    intro k hk hcap
    rw [hlists] at hcap ⊢
    obtain ⟨b, hmem, hhand, hbuf, hserving, hfits⟩ := h.backed k hk hcap
    exact ⟨b, (hblocks b).mpr (.inl hmem), hhands b hmem hhand, hbuf, by rwa [hsame b hmem],
      by rwa [hsame b hmem]⟩
  case apart => rw [hlists]; exact h.apart

theorem notMem_cons {a b : Nat} {l : List Nat} : a ∉ b :: l ↔ a ≠ b ∧ a ∉ l :=
  List.mem_cons.not.trans not_or

theorem data_inj {b c : Nat} (h : data b = data c) : b = c := Nat.add_right_cancel h

/-- A block in hand becomes a user allocation. -/
theorem give (h : m.Filed (block :: hands) live) (hmem : block ∈ m.index.blocks)
    (hhand : block ∉ hands) (huse : (m.headers block).InUse size) :
    data block ∉ live.map Prod.fst ∧ m.Filed hands ((data block, size) :: live) := by
  have hfresh : data block ∉ live.map Prod.fst := by
    intro hin
    obtain ⟨p, hp, heq⟩ := List.mem_map.mp hin
    obtain ⟨b, -, hb, hdata, -⟩ := h.live_block p hp
    exact hb (by rw [data_inj (hdata.symm.trans heq)]; exact List.mem_cons_self)
  refine ⟨hfresh, ?_⟩
  constructor
  case live_nodup => exact List.nodup_cons.mpr ⟨hfresh, h.live_nodup⟩
  case live_block =>
    intro p hp
    rcases List.mem_cons.mp hp with rfl | hp
    · exact ⟨block, hmem, hhand, rfl, huse⟩
    · obtain ⟨b, hb, hnot, hdata, huse'⟩ := h.live_block p hp
      exact ⟨b, hb, fun hin => hnot (List.mem_cons_of_mem _ hin), hdata, huse'⟩
  case listed =>
    intro k hk b hb
    obtain ⟨hmem', hnot, hklass, hidle⟩ := h.listed k hk b hb
    exact ⟨hmem', fun hin => hnot (List.mem_cons_of_mem _ hin), hklass, hidle⟩
  case items_nodup => exact h.items_nodup
  case placed =>
    intro b hb hnot
    by_cases heq : b = block
    · subst heq
      exact .live size List.mem_cons_self huse
    · cases h.placed b hb (by simp [heq, hnot]) with
      | live size hlive huse' => exact .live size (List.mem_cons_of_mem _ hlive) huse'
      | free hidle hfree => exact .free hidle hfree
      | serving hserving => exact .serving hserving
  case items_le => exact h.items_le
  case capacity_eq => exact h.capacity_eq
  case backed =>
    intro k hk hcap
    obtain ⟨b, hmem', hnot, hbuf, hserving, hfits⟩ := h.backed k hk hcap
    exact ⟨b, hmem', fun hin => hnot (List.mem_cons_of_mem _ hin), hbuf, hserving, hfits⟩
  case apart => exact h.apart

theorem inUse (h : m.Filed hands live) (hlive : (data block, size) ∈ live) :
    block ∈ m.index.blocks ∧ block ∉ hands ∧ (m.headers block).InUse size := by
  obtain ⟨b, hb, hhand, hdata, huse⟩ := h.live_block _ hlive
  obtain rfl := data_inj hdata
  exact ⟨hb, hhand, huse⟩

/-- A live block is taken in hand. -/
theorem take (h : m.Filed hands live) (hlive : (data block, size) ∈ live) :
    m.Filed (block :: hands) (live.erase (data block, size)) := by
  obtain ⟨-, -, huse⟩ := h.inUse hlive
  have hnodup : live.Nodup := h.live_nodup.of_map
  have hother : ∀ b, b ∉ hands → b ≠ block → b ∉ block :: hands := by
    intro b hhand hne hin
    exact (List.mem_cons.mp hin).elim hne hhand
  constructor
  case live_nodup => exact h.live_nodup.sublist (List.erase_sublist.map _)
  case live_block =>
    intro p hp
    obtain ⟨hne, hpl⟩ := (hnodup.mem_erase_iff).mp hp
    obtain ⟨b, hb, hhand, hdata, huse'⟩ := h.live_block p hpl
    refine ⟨b, hb, hother b hhand ?_, hdata, huse'⟩
    rintro rfl
    exact hne (List.inj_on_of_nodup_map h.live_nodup hpl hlive hdata)
  case listed =>
    intro k hk b hb
    obtain ⟨hmem, hhand, hklass, hidle⟩ := h.listed k hk b hb
    refine ⟨hmem, hother b hhand ?_, hklass, hidle⟩
    rintro rfl
    cases huse.state_eq.symm.trans hidle.state_eq
  case items_nodup => exact h.items_nodup
  case placed =>
    intro b hb hnot
    obtain ⟨hne, hhand⟩ := notMem_cons.mp hnot
    cases h.placed b hb hhand with
    | live size' hlive' huse' =>
      refine .live size' ((hnodup.mem_erase_iff).mpr ⟨fun heq => hne ?_, hlive'⟩) huse'
      exact data_inj (Prod.ext_iff.mp heq).1
    | free hidle hfree => exact .free hidle hfree
    | serving hserving => exact .serving hserving
  case items_le => exact h.items_le
  case capacity_eq => exact h.capacity_eq
  case backed =>
    intro k hk hcap
    obtain ⟨b, hmem, hhand, hbuf, hserving, hfits⟩ := h.backed k hk hcap
    refine ⟨b, hmem, hother b hhand ?_, hbuf, hserving, hfits⟩
    rintro rfl
    cases huse.service_eq.symm.trans hserving.service_eq
  case apart => exact h.apart

/-- The free list of `klass` is the only one that changes, and keeps its array. -/
theorem lists_of_update {list : FreeList}
    (hlists : m'.freeLists = Function.update m.freeLists klass list)
    (hbuf : list.buf = (m.freeLists klass).buf)
    (hcap : list.capacity = (m.freeLists klass).capacity) (k : Nat) :
    (m'.freeLists k).buf = (m.freeLists k).buf ∧
      (m'.freeLists k).capacity = (m.freeLists k).capacity ∧
      (k ≠ klass → (m'.freeLists k).items = (m.freeLists k).items) := by
  rw [hlists]
  by_cases heq : k = klass
  · subst heq
    rw [Function.update_self]
    exact ⟨hbuf, hcap, fun hne => absurd rfl hne⟩
  · rw [Function.update_of_ne heq]
    exact ⟨rfl, rfl, fun _ => rfl⟩

/-- A free block is taken in hand. -/
theorem pop {rest : List Nat} (h : m.Filed hands live) (hklass : klass < classes)
    (hperm : (m.freeLists klass).items.Perm (block :: rest))
    (hindex : m'.index = m.index) (hheaders : m'.headers = m.headers)
    (hlists : m'.freeLists =
      Function.update m.freeLists klass { m.freeLists klass with items := rest }) :
    m'.Filed (block :: hands) live := by
  have hsame := lists_of_update hlists rfl rfl
  have hitems : (m'.freeLists klass).items = rest := by rw [hlists, Function.update_self]
  have hnodup := hperm.nodup_iff.mp (h.items_nodup klass hklass)
  have hblock := h.listed klass hklass block (hperm.mem_iff.mpr List.mem_cons_self)
  have hsub : ∀ k b, b ∈ (m'.freeLists k).items → b ∈ (m.freeLists k).items := by
    intro k b hb
    by_cases hk : k = klass
    · subst hk
      exact hperm.mem_iff.mpr (List.mem_cons_of_mem _ (hitems ▸ hb))
    · rwa [← (hsame k).2.2 hk]
  constructor
  case live_nodup => exact h.live_nodup
  case live_block =>
    intro p hp
    obtain ⟨b, hb, hhand, hdata, huse⟩ := h.live_block p hp
    refine ⟨b, hindex ▸ hb, ?_, hdata, hheaders ▸ huse⟩
    refine notMem_cons.mpr ⟨?_, hhand⟩
    rintro rfl
    cases huse.state_eq.symm.trans hblock.idle.state_eq
  case listed =>
    intro k hk b hb
    obtain ⟨hmem, hhand, hkb, hidle⟩ := h.listed k hk b (hsub k b hb)
    refine ⟨hindex ▸ hmem, notMem_cons.mpr ⟨?_, hhand⟩, hheaders ▸ hkb,
      hheaders ▸ hidle⟩
    rintro rfl
    obtain rfl : klass = k := hblock.klass_eq.symm.trans hkb
    rw [hitems] at hb
    exact (List.nodup_cons.mp hnodup).1 hb
  case items_nodup =>
    intro k hk
    by_cases heq : k = klass
    · subst heq
      rw [hitems]
      exact (List.nodup_cons.mp hnodup).2
    · rw [(hsame k).2.2 heq]
      exact h.items_nodup k hk
  case placed =>
    intro b hb hnot
    obtain ⟨hne, hhand⟩ := notMem_cons.mp hnot
    rw [hindex] at hb
    cases h.placed b hb hhand with
    | live size hlive huse => exact .live size hlive (hheaders ▸ huse)
    | serving hserving => exact .serving (hheaders ▸ hserving)
    | free hidle hfree =>
      refine .free (hheaders ▸ hidle) ?_
      rw [hheaders]
      by_cases heq : (m.headers b).klass = klass
      · rw [heq] at hfree ⊢
        rw [hitems]
        exact (List.mem_cons.mp (hperm.mem_iff.mp hfree)).resolve_left hne
      · rwa [(hsame _).2.2 heq]
  case items_le =>
    intro k hk
    rw [(hsame k).2.1]
    by_cases heq : k = klass
    · subst heq
      have hle := h.items_le k hk
      rw [hperm.length_eq, List.length_cons] at hle
      rw [hitems]
      exact Nat.le_of_succ_le hle
    · rw [(hsame k).2.2 heq]
      exact h.items_le k hk
  case capacity_eq =>
    intro k hk
    rw [(hsame k).2.1]
    exact h.capacity_eq k hk
  case backed =>
    intro k hk hcap
    rw [(hsame k).2.1] at hcap
    obtain ⟨b, hmem, hhand, hbuf, hserving, hfits⟩ := h.backed k hk hcap
    refine ⟨b, hindex ▸ hmem, notMem_cons.mpr ⟨?_, hhand⟩, (hsame k).1.trans hbuf,
      hheaders ▸ hserving, by rw [(hsame k).2.1, hheaders]; exact hfits⟩
    rintro rfl
    cases hserving.state_eq.symm.trans hblock.idle.state_eq
  case apart =>
    intro k hk k' hk' hcap hcap' heq
    rw [(hsame k).2.1] at hcap
    rw [(hsame k').2.1] at hcap'
    rw [(hsame k).1, (hsame k').1] at heq
    exact h.apart k hk k' hk' hcap hcap' heq

/-- A block in hand goes to the end of its free list, which has room for it. -/
theorem put (h : m.Filed (block :: hands) live) (hmem : block ∈ m.index.blocks)
    (hhand : block ∉ hands) (hidle : (m.headers block).Idle)
    (hkb : (m.headers block).klass = klass) (hklass : klass < classes)
    (hroom : (m.freeLists klass).items.length < (m.freeLists klass).capacity)
    (hindex : m'.index = m.index) (hheaders : m'.headers = m.headers)
    (hlists : m'.freeLists = Function.update m.freeLists klass
      { m.freeLists klass with items := (m.freeLists klass).items ++ [block] }) :
    m'.Filed hands live := by
  have hsame := lists_of_update hlists rfl rfl
  have hitems : (m'.freeLists klass).items = (m.freeLists klass).items ++ [block] := by
    rw [hlists, Function.update_self]
  have hweaken : ∀ b, b ∉ block :: hands → b ∉ hands :=
    fun b hnot hin => hnot (List.mem_cons_of_mem _ hin)
  have hmem' : ∀ k b, b ∈ (m'.freeLists k).items ↔
      b ∈ (m.freeLists k).items ∨ (k = klass ∧ b = block) := by
    intro k b
    by_cases hk : k = klass
    · subst hk
      simp [hitems]
    · simp [(hsame k).2.2 hk, hk]
  constructor
  case live_nodup => exact h.live_nodup
  case live_block =>
    intro p hp
    obtain ⟨b, hb, hnot, hdata, huse⟩ := h.live_block p hp
    exact ⟨b, hindex ▸ hb, hweaken b hnot, hdata, hheaders ▸ huse⟩
  case listed =>
    intro k hk b hb
    rcases (hmem' k b).mp hb with hold | ⟨rfl, rfl⟩
    · obtain ⟨hmem', hnot, hkb', hidle'⟩ := h.listed k hk b hold
      exact ⟨hindex ▸ hmem', hweaken b hnot, hheaders ▸ hkb', hheaders ▸ hidle'⟩
    · exact ⟨hindex ▸ hmem, hhand, hheaders ▸ hkb, hheaders ▸ hidle⟩
  case items_nodup =>
    intro k hk
    by_cases heq : k = klass
    · subst heq
      rw [hitems]
      refine List.Nodup.append (h.items_nodup k hk) (List.nodup_singleton _) ?_
      rw [List.disjoint_singleton]
      intro hin
      exact (h.listed k hk block hin).notIn List.mem_cons_self
    · rw [(hsame k).2.2 heq]
      exact h.items_nodup k hk
  case placed =>
    intro b hb hnot
    rw [hindex] at hb
    by_cases heq : b = block
    · subst heq
      refine .free (hheaders ▸ hidle) ?_
      rw [hheaders, hkb]
      exact (hmem' klass b).mpr (.inr ⟨rfl, rfl⟩)
    · cases h.placed b hb (by simp [heq, hnot]) with
      | live size hlive huse => exact .live size hlive (hheaders ▸ huse)
      | serving hserving => exact .serving (hheaders ▸ hserving)
      | free hidle' hfree =>
        exact .free (hheaders ▸ hidle') (by rw [hheaders]; exact (hmem' _ b).mpr (.inl hfree))
  case items_le =>
    intro k hk
    rw [(hsame k).2.1]
    by_cases heq : k = klass
    · subst heq
      rw [hitems, List.length_append]
      exact hroom
    · rw [(hsame k).2.2 heq]
      exact h.items_le k hk
  case capacity_eq =>
    intro k hk
    rw [(hsame k).2.1]
    exact h.capacity_eq k hk
  case backed =>
    intro k hk hcap
    rw [(hsame k).2.1] at hcap
    obtain ⟨b, hb, hnot, hbuf, hserving, hfits⟩ := h.backed k hk hcap
    exact ⟨b, hindex ▸ hb, hweaken b hnot, (hsame k).1.trans hbuf, hheaders ▸ hserving,
      by rw [(hsame k).2.1, hheaders]; exact hfits⟩
  case apart =>
    intro k hk k' hk' hcap hcap' heq
    rw [(hsame k).2.1] at hcap
    rw [(hsame k').2.1] at hcap'
    rw [(hsame k).1, (hsame k').1] at heq
    exact h.apart k hk k' hk' hcap hcap' heq

/-- A block in hand becomes the array of a free list. -/
theorem serve {capacity : Nat} (h : m.Filed (block :: hands) live)
    (hmem : block ∈ m.index.blocks) (hhand : block ∉ hands)
    (hserving : (m.headers block).Serving) (hklass : klass < classes)
    (hle : (m.freeLists klass).items.length ≤ capacity) (hpow : ∃ j, capacity = 2 ^ (j + 3))
    (hfits : toBytes capacity ≤ blockSize (m.headers block).klass)
    (hindex : m'.index = m.index) (hheaders : m'.headers = m.headers)
    (hlists : m'.freeLists = Function.update m.freeLists klass
      { m.freeLists klass with buf := some (data block), capacity }) :
    m'.Filed hands live := by
  have hself : m'.freeLists klass =
      { m.freeLists klass with buf := some (data block), capacity } := by
    rw [hlists, Function.update_self]
  have hother : ∀ k, k ≠ klass → m'.freeLists k = m.freeLists k := by
    intro k hne
    rw [hlists, Function.update_of_ne hne]
  have hitems : ∀ k, (m'.freeLists k).items = (m.freeLists k).items := by
    intro k
    by_cases heq : k = klass
    · rw [heq, hself]
    · rw [hother k heq]
  have hweaken : ∀ b, b ∉ block :: hands → b ∉ hands :=
    fun b hnot hin => hnot (List.mem_cons_of_mem _ hin)
  -- the array of another list is another block
  have hbufs : ∀ k < classes, k ≠ klass → (m'.freeLists k).capacity ≠ 0 →
      (m'.freeLists k).buf ≠ some (data block) := by
    intro k hk hne hcap heq
    rw [hother k hne] at hcap heq
    obtain ⟨b, -, hnot, hbuf, -⟩ := h.backed k hk hcap
    rw [hbuf, Option.some.injEq] at heq
    exact hnot (by rw [data_inj heq]; exact List.mem_cons_self)
  constructor
  case live_nodup => exact h.live_nodup
  case live_block =>
    intro p hp
    obtain ⟨b, hb, hnot, hdata, huse⟩ := h.live_block p hp
    exact ⟨b, hindex ▸ hb, hweaken b hnot, hdata, hheaders ▸ huse⟩
  case listed =>
    intro k hk b hb
    rw [hitems] at hb
    obtain ⟨hb, hnot, hkb, hidle⟩ := h.listed k hk b hb
    exact ⟨hindex ▸ hb, hweaken b hnot, hheaders ▸ hkb, hheaders ▸ hidle⟩
  case items_nodup =>
    intro k hk
    rw [hitems]
    exact h.items_nodup k hk
  case placed =>
    intro b hb hnot
    rw [hindex] at hb
    by_cases heq : b = block
    · subst heq
      exact .serving (hheaders ▸ hserving)
    · cases h.placed b hb (by simp [heq, hnot]) with
      | live size hlive huse => exact .live size hlive (hheaders ▸ huse)
      | serving hserving' => exact .serving (hheaders ▸ hserving')
      | free hidle hfree =>
        exact .free (hheaders ▸ hidle) (by rw [hheaders, hitems]; exact hfree)
  case items_le =>
    intro k hk
    rw [hitems]
    by_cases heq : k = klass
    · subst heq
      rw [hself]
      exact hle
    · rw [hother k heq]
      exact h.items_le k hk
  case capacity_eq =>
    intro k hk
    by_cases heq : k = klass
    · subst heq
      rw [hself]
      exact .inr hpow
    · rw [hother k heq]
      exact h.capacity_eq k hk
  case backed =>
    intro k hk hcap
    by_cases heq : k = klass
    · subst heq
      refine ⟨block, hindex ▸ hmem, hhand, ?_, hheaders ▸ hserving, ?_⟩ <;> rw [hself]
      rw [hheaders]
      exact hfits
    · rw [hother k heq] at hcap ⊢
      obtain ⟨b, hb, hnot, hbuf, hserving', hfits'⟩ := h.backed k hk hcap
      exact ⟨b, hindex ▸ hb, hweaken b hnot, hbuf, hheaders ▸ hserving', by rwa [hheaders]⟩
  case apart =>
    intro k hk k' hk' hcap hcap' heq
    by_cases hk₁ : k = klass <;> by_cases hk₂ : k' = klass
    · rw [hk₁, hk₂]
    · refine absurd ?_ (hbufs k' hk' hk₂ hcap')
      rw [← heq, hk₁, hself]
    · refine absurd ?_ (hbufs k hk hk₁ hcap)
      rw [heq, hk₂, hself]
    · rw [hother k hk₁] at hcap heq
      rw [hother k' hk₂] at hcap' heq
      exact h.apart k hk k' hk' hcap hcap' heq

end Memory.Filed

end TwistSim.Isolated
