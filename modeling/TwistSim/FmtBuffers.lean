/-
Formatting into fixed buffers: the writers of log events and reports, and the
temporary static buffer.  `format_to_n` stores at most `n` characters and
returns the size of the whole output, which the writers take for what it stored.
-/
import Mathlib.Data.List.GetD
import Mathlib.Tactic.Common
import Mathlib.Algebra.Group.Nat.Defs

namespace TwistSim.Fmt

/-- The characters in memory, by address. -/
abbrev Chars := Nat → Char

def wordSize : Nat := 2 ^ 64

/-- `wheels::MutableMemView`. -/
structure MemView where
  data : Nat
  size : Nat
  fits : data + size < wordSize

def MemView.Contains (view : MemView) (addr : Nat) : Prop :=
  view.data ≤ addr ∧ addr < view.data + view.size

/-- How far `addr` lies behind `out`, for pointers that wrap around. -/
def offset (out addr : Nat) : Nat := (addr + wordSize - out) % wordSize

def store (mem : Chars) (out : Nat) (text : List Char) : Chars :=
  fun addr => text.getD (offset out addr) (mem addr)

/-- The formatted arguments of one call, whose length is a `size_t`. -/
structure Output where
  text : List Char
  fits : text.length < wordSize

/-- `fmt::format_to_n`, with the `size` of its result. -/
def formatToN (mem : Chars) (out n : Nat) (output : Output) : Chars × Nat :=
  (store mem out (output.text.take n), output.text.length)

/-- The characters of a `std::string_view`. -/
def stringView (mem : Chars) (data size : Nat) : List Char :=
  (List.range size).map fun i => mem (data + i)

/-! ### Writers -/

structure BufWriter where
  start : Nat
  buf : Nat
  size : Nat
  written : Nat
  deriving DecidableEq, Repr

namespace BufWriter

def new (view : MemView) : BufWriter := ⟨view.data, view.data, view.size, 0⟩

def isFull (w : BufWriter) : Bool := w.size == 0

/-- `Append`; the three counters are machine words. -/
def append (w : BufWriter) (mem : Chars) (output : Output) : BufWriter × Chars :=
  let (mem, size) := formatToN mem w.buf w.size output
  ({ w with
      buf := (w.buf + size) % wordSize
      size := (w.size + wordSize - size) % wordSize
      written := (w.written + size) % wordSize }, mem)

def stringView (w : BufWriter) (mem : Chars) : List Char :=
  Fmt.stringView mem w.start w.written

def appendAll (w : BufWriter) (mem : Chars) : List Output → BufWriter × Chars
  | [] => (w, mem)
  | output :: outputs =>
      (w.append mem output).1.appendAll (w.append mem output).2 outputs

end BufWriter

structure FmtBuffer extends BufWriter where
  capacity : Nat
  deriving DecidableEq, Repr

namespace FmtBuffer

def new (view : MemView) : FmtBuffer := ⟨BufWriter.new view, view.size⟩

def reset (b : FmtBuffer) : FmtBuffer :=
  { b with buf := b.start, size := b.capacity, written := 0 }

def append (b : FmtBuffer) (mem : Chars) (output : Output) : FmtBuffer × Chars :=
  (⟨(b.toBufWriter.append mem output).1, b.capacity⟩, (b.toBufWriter.append mem output).2)

def appendAll (b : FmtBuffer) (mem : Chars) : List Output → FmtBuffer × Chars
  | [] => (b, mem)
  | output :: outputs =>
      (b.append mem output).1.appendAll (b.append mem output).2 outputs

end FmtBuffer

/-! ### The temporary buffer -/

def bufferSize : Nat := 1024

/-- A `std::string_view`, by address and size. -/
structure StringView where
  data : Nat
  size : Nat
  deriving DecidableEq, Repr

def formatTemp (buf : MemView) (mem : Chars) (output : Output) : StringView × Chars :=
  let (mem, size) := formatToN mem buf.data buf.size output
  (⟨buf.data, size⟩, mem)

def lineBreak : Output := ⟨['\n'], by decide⟩

def formatLnTemp (buf : MemView) (mem : Chars) (output : Output) : StringView × Chars :=
  let spaceLeft := buf.size
  -- Message
  let (mem, messageSize) := formatToN mem buf.data (spaceLeft - 3) output
  let spaceLeft := (spaceLeft + wordSize - messageSize) % wordSize
  -- Line break
  let (mem, breakSize) := formatToN mem ((buf.data + messageSize) % wordSize) spaceLeft lineBreak
  (⟨buf.data, (messageSize + breakSize) % wordSize⟩, mem)

/-! ### What stays in the buffer -/

/-- Nothing outside the buffer has changed. -/
def KeepsOutside (view : MemView) (before after : Chars) : Prop :=
  ∀ addr < wordSize, ¬view.Contains addr → after addr = before addr

/-- A writer over `view` that has been given `text`. -/
structure Sound (view : MemView) (before : Chars) (text : List Char) (w : BufWriter)
    (after : Chars) : Prop where
  outside : KeepsOutside view before after
  written_le : w.written ≤ view.size
  full : view.size ≤ text.length → w.isFull
  view_eq : w.stringView after = text.take w.written

/-- The outputs of all the calls. -/
def concat (outputs : List Output) : List Char := outputs.flatMap Output.text

theorem concat_cons (output : Output) (outputs : List Output) :
    concat (output :: outputs) = output.text ++ concat outputs := rfl

/-- What a writer is as long as the text fits. -/
structure Exact (view : MemView) (before : Chars) (text : List Char) (w : BufWriter)
    (after : Chars) : Prop where
  start_eq : w.start = view.data
  buf_eq : w.buf = view.data + text.length
  size_eq : w.size = view.size - text.length
  written_eq : w.written = text.length
  le : text.length ≤ view.size
  outside : KeepsOutside view before after
  stored : ∀ i (hi : i < text.length), after (view.data + i) = text[i]

variable {view : MemView} {before after : Chars} {text : List Char} {w : BufWriter}
  {output : Output} {outputs : List Output}

theorem offset_of_le {out addr : Nat} (haddr : addr < wordSize) (hle : out ≤ addr) :
    offset out addr = addr - out := by
  simp only [offset, wordSize] at *
  omega

theorem offset_of_lt {out addr : Nat} (hout : out < wordSize) (hlt : addr < out) :
    offset out addr = addr + wordSize - out := by
  simp only [offset, wordSize] at *
  omega

/-- What a store into `[out, out + text.length)` leaves alone. -/
theorem store_outside {mem : Chars} {out addr : Nat} (haddr : addr < wordSize)
    (hword : out < wordSize) (hout : out + text.length ≤ wordSize)
    (hoff : addr < out ∨ out + text.length ≤ addr) : store mem out text addr = mem addr := by
  refine List.getD_eq_default _ _ ?_
  rcases Nat.lt_or_ge addr out with hlt | hge
  · rw [offset_of_lt hword hlt]
    omega
  · rw [offset_of_le haddr hge]
    omega

theorem store_inside {mem : Chars} {out i : Nat} (hout : out + text.length ≤ wordSize)
    (hi : i < text.length) : store mem out text (out + i) = text[i] := by
  rw [store, offset_of_le (by omega) (Nat.le_add_right _ _), Nat.add_sub_cancel_left,
    List.getD_eq_getElem _ _ hi]

theorem exact_new : Exact view before [] (BufWriter.new view) before where
  start_eq := rfl
  buf_eq := rfl
  size_eq := rfl
  written_eq := rfl
  le := Nat.zero_le _
  outside _ _ _ := rfl
  stored _ hi := nomatch hi

theorem Exact.sound (h : Exact view before text w after) : Sound view before text w after where
  outside := h.outside
  written_le := by rw [h.written_eq]; exact h.le
  full hle := by
    rw [BufWriter.isFull, h.size_eq, beq_iff_eq]
    omega
  view_eq := by
    rw [h.written_eq, List.take_length, BufWriter.stringView, stringView, h.written_eq,
      h.start_eq]
    refine List.ext_getElem (by simp) fun i hi _ => ?_
    rw [List.getElem_map, List.getElem_range]
    exact h.stored i (by simpa using hi)

/-- An output that fits is appended to the text. -/
theorem Exact.append (h : Exact view before text w after)
    (hfits : text.length + output.text.length ≤ view.size) :
    Exact view before (text ++ output.text) (w.append after output).1
      (w.append after output).2 := by
  have hview := view.fits
  have htake : output.text.take w.size = output.text := by
    refine List.take_of_length_le ?_
    rw [h.size_eq]
    omega
  have hbuf : w.buf + output.text.length ≤ wordSize := by
    rw [h.buf_eq]
    omega
  have hword : w.buf < wordSize := by
    rw [h.buf_eq]
    omega
  have hmem : (w.append after output).2 = store after w.buf output.text := by
    simp only [BufWriter.append, formatToN, htake]
  rw [hmem]
  constructor
  case start_eq => exact h.start_eq
  case buf_eq =>
    simp only [BufWriter.append, formatToN, h.buf_eq, List.length_append]
    rw [Nat.mod_eq_of_lt (by omega)]
    omega
  case size_eq =>
    simp only [BufWriter.append, formatToN, h.size_eq, List.length_append]
    simp only [wordSize] at *
    omega
  case written_eq =>
    simp only [BufWriter.append, formatToN, h.written_eq, List.length_append]
    exact Nat.mod_eq_of_lt (by omega)
  case le =>
    rw [List.length_append]
    exact hfits
  case outside =>
    intro addr haddr hnot
    rw [store_outside haddr hword hbuf, h.outside addr haddr hnot]
    rw [h.buf_eq]
    simp only [MemView.Contains, not_and_or, Nat.not_le, Nat.not_lt] at hnot
    omega
  case stored =>
    intro i hi
    rw [List.length_append] at hi
    rcases Nat.lt_or_ge i text.length with hlt | hge
    · rw [store_outside (by omega) hword hbuf (.inl (by rw [h.buf_eq]; omega)), h.stored i hlt,
        List.getElem_append_left hlt]
    · have haddr : view.data + i = w.buf + (i - text.length) := by
        rw [h.buf_eq]
        omega
      rw [haddr, store_inside hbuf (by omega), List.getElem_append_right hge]

/-- An output that does not fit makes the writer forget that it is full. -/
theorem not_sound_append (h : Exact view before text w after)
    (hover : view.size < text.length + output.text.length) :
    ¬Sound view before (text ++ output.text) (w.append after output).1
      (w.append after output).2 := by
  intro hsound
  have hfull := hsound.full (by rw [List.length_append]; omega)
  have hlt := output.fits
  have hview := view.fits
  have hle := h.le
  simp only [BufWriter.isFull, BufWriter.append, formatToN, h.size_eq, beq_iff_eq,
    wordSize] at *
  omega

/-- After every call of a sequence the writer is sound. -/
def SoundThroughout (view : MemView) (before : Chars) (text : List Char) (w : BufWriter)
    (after : Chars) (outputs : List Output) : Prop :=
  ∀ k ≤ outputs.length, Sound view before (text ++ concat (outputs.take k))
    (w.appendAll after (outputs.take k)).1 (w.appendAll after (outputs.take k)).2

theorem soundThroughout_cons :
    SoundThroughout view before text w after (output :: outputs) ↔
      Sound view before text w after ∧
        SoundThroughout view before (text ++ output.text) (w.append after output).1
          (w.append after output).2 outputs := by
  constructor
  · intro h
    refine ⟨by simpa [concat, BufWriter.appendAll] using h 0 (Nat.zero_le _), fun k hk => ?_⟩
    have hsound := h (k + 1) (Nat.succ_le_succ hk)
    simpa only [List.take_succ_cons, concat_cons, BufWriter.appendAll,
      List.append_assoc] using hsound
  · rintro ⟨hsound, hrest⟩ k hk
    cases k with
    | zero => simpa [concat, BufWriter.appendAll] using hsound
    | succ k =>
      have hsound := hrest k (Nat.le_of_succ_le_succ hk)
      simpa only [List.take_succ_cons, concat_cons, BufWriter.appendAll,
        List.append_assoc] using hsound

/-- By induction on the calls, from a writer that is exact. -/
theorem Exact.soundThroughout_iff (h : Exact view before text w after) :
    SoundThroughout view before text w after outputs ↔
      text.length + (concat outputs).length ≤ view.size := by
  induction outputs generalizing text w after with
  | nil =>
    have hsound : SoundThroughout view before text w after [] := by
      intro k _
      simpa [concat, BufWriter.appendAll] using h.sound
    exact iff_of_true hsound (by simpa [concat] using h.le)
  | cons output outputs ih =>
    rw [soundThroughout_cons, concat_cons, List.length_append]
    by_cases hfits : text.length + output.text.length ≤ view.size
    · rw [ih (h.append hfits), List.length_append, Nat.add_assoc]
      exact and_iff_right h.sound
    · refine iff_of_false ?_ (by omega)
      rintro ⟨-, hrest⟩
      refine not_sound_append h (Nat.not_le.mp hfits) ?_
      simpa [concat, BufWriter.appendAll] using hrest 0 (Nat.zero_le _)

/-! ### The two kinds of writers -/

theorem writer_sound_iff :
    SoundThroughout view before [] (BufWriter.new view) before outputs ↔
      (concat outputs).length ≤ view.size := by
  rw [exact_new.soundThroughout_iff, List.length_nil, Nat.zero_add]

theorem FmtBuffer.appendAll_eq (b : FmtBuffer) (mem : Chars) (outputs : List Output) :
    (b.appendAll mem outputs).1.toBufWriter = (b.toBufWriter.appendAll mem outputs).1 ∧
      (b.appendAll mem outputs).2 = (b.toBufWriter.appendAll mem outputs).2 := by
  induction outputs generalizing b mem with
  | nil => exact ⟨rfl, rfl⟩
  | cons output outputs ih => exact ih _ _

/-- A buffer of its view: new, or used and reset. -/
def FmtBuffer.Over (b : FmtBuffer) (view : MemView) : Prop :=
  b.start = view.data ∧ b.capacity = view.size

theorem FmtBuffer.reset_eq {b : FmtBuffer} (h : b.Over view) :
    b.reset = FmtBuffer.new view := by
  obtain ⟨hstart, hcapacity⟩ := h
  simp only [FmtBuffer.reset, FmtBuffer.new, BufWriter.new, hstart, hcapacity]

/-! ### The temporary buffer -/

/-- The view of a formatted text lies in the buffer, and so do all stores. -/
structure InBuffer (buf : MemView) (before : Chars) (result : StringView × Chars) : Prop where
  begin_le : buf.data ≤ result.1.data
  end_le : result.1.data + result.1.size ≤ buf.data + buf.size
  outside : KeepsOutside buf before result.2

theorem store_keeps {out : Nat} (hbegin : view.data ≤ out)
    (hend : out + text.length ≤ view.data + view.size) :
    KeepsOutside view before (store before out text) := by
  intro addr haddr hnot
  have hview := view.fits
  refine store_outside haddr (by omega) (by omega) ?_
  simp only [MemView.Contains, not_and_or, Nat.not_le, Nat.not_lt] at hnot
  omega

theorem formatTemp_inBuffer_iff :
    InBuffer view before (formatTemp view before output) ↔
      output.text.length ≤ view.size := by
  constructor
  · intro h
    have hend : view.data + output.text.length ≤ view.data + view.size := h.end_le
    omega
  · intro hle
    refine ⟨Nat.le_refl _, Nat.add_le_add_left hle _, store_keeps (Nat.le_refl _) ?_⟩
    rw [List.length_take]
    omega

/-- The last character of a view. -/
def EndsWithLineBreak (result : StringView × Chars) : Prop :=
  0 < result.1.size ∧ result.2 (result.1.data + result.1.size - 1) = '\n'

theorem KeepsOutside.trans {mem₁ mem₂ : Chars} (h : KeepsOutside view before mem₁)
    (h' : KeepsOutside view mem₁ mem₂) : KeepsOutside view before mem₂ :=
  fun addr haddr hnot => (h' addr haddr hnot).trans (h addr haddr hnot)

/-- The line break needs a character of its own behind the whole message. -/
theorem formatLnTemp_inBuffer_iff (hthree : 3 ≤ view.size) :
    InBuffer view before (formatLnTemp view before output) ∧
        EndsWithLineBreak (formatLnTemp view before output) ↔
      output.text.length < view.size := by
  have hview := view.fits
  have hoption := output.fits
  constructor
  · rintro ⟨hin, hpos, -⟩
    have hend := hin.end_le
    simp only [formatLnTemp, formatToN, lineBreak, List.length_singleton] at hend hpos
    simp only [wordSize] at *
    omega
  · intro hlt
    have hout : (view.data + output.text.length) % wordSize =
        view.data + output.text.length := Nat.mod_eq_of_lt (by omega)
    have hsize : (output.text.length + 1) % wordSize = output.text.length + 1 :=
      Nat.mod_eq_of_lt (by omega)
    have hleft : (view.size + wordSize - output.text.length) % wordSize =
        view.size - output.text.length := by
      simp only [wordSize] at *
      omega
    have hbreak : lineBreak.text.take (view.size - output.text.length) = ['\n'] :=
      List.take_of_length_le (by simp only [lineBreak, List.length_singleton]; omega)
    have heq : formatLnTemp view before output =
        (⟨view.data, output.text.length + 1⟩,
          store (store before view.data (output.text.take (view.size - 3)))
            (view.data + output.text.length) ['\n']) := by
      simp only [formatLnTemp, formatToN, hout, hleft, hbreak]
      rw [show lineBreak.text.length = 1 from rfl, hsize]
    have hmessage : KeepsOutside view before
        (store before view.data (output.text.take (view.size - 3))) := by
      refine store_keeps (Nat.le_refl _) ?_
      rw [List.length_take]
      omega
    rw [heq]
    refine ⟨⟨Nat.le_refl _, Nat.add_le_add_left hlt _, hmessage.trans ?_⟩, Nat.succ_pos _, ?_⟩
    · exact store_keeps (Nat.le_add_right _ _) (by rw [List.length_singleton]; omega)
    · have hbyte : 0 < ['\n'].length := Nat.one_pos
      exact store_inside (by rw [List.length_singleton]; omega) hbyte

/-- After every call of a sequence the buffer is sound. -/
def FmtBuffer.SoundThroughout (b : FmtBuffer) (view : MemView) (before : Chars)
    (outputs : List Output) : Prop :=
  ∀ k ≤ outputs.length, Sound view before (concat (outputs.take k))
    (b.appendAll before (outputs.take k)).1.toBufWriter
    (b.appendAll before (outputs.take k)).2

theorem buffer_sound_iff {b : FmtBuffer} (h : b.Over view) :
    b.reset.SoundThroughout view before outputs ↔ (concat outputs).length ≤ view.size := by
  rw [← @writer_sound_iff view before outputs, FmtBuffer.reset_eq h]
  refine forall_congr' fun k => imp_congr_right fun _ => ?_
  obtain ⟨hwriter, hmem⟩ :=
    FmtBuffer.appendAll_eq (FmtBuffer.new view) before (outputs.take k)
  rw [hwriter, hmem, List.nil_append]
  rfl

/-- Everything stays in its buffer exactly if all that is formatted fits: for the
writers all the outputs together, for the temporary buffer the message, with its
line break if it has one. -/
theorem formatting_in_buffer (view buf : MemView) (hbuf : buf.size = bufferSize)
    (before : Chars) (outputs : List Output) (output : Output) (b : FmtBuffer)
    (hb : b.Over view) :
    (SoundThroughout view before [] (BufWriter.new view) before outputs ↔
        (concat outputs).length ≤ view.size) ∧
      (b.reset.SoundThroughout view before outputs ↔
        (concat outputs).length ≤ view.size) ∧
      (InBuffer buf before (formatTemp buf before output) ↔
        output.text.length ≤ buf.size) ∧
      (InBuffer buf before (formatLnTemp buf before output) ∧
          EndsWithLineBreak (formatLnTemp buf before output) ↔
        output.text.length < buf.size) := by
  refine ⟨writer_sound_iff, buffer_sound_iff hb, formatTemp_inBuffer_iff,
    formatLnTemp_inBuffer_iff ?_⟩
  rw [hbuf]
  decide

/-! Three characters for a buffer of two. -/

def pair : MemView := ⟨64, 2, by decide⟩

def scratch : MemView := ⟨4096, bufferSize, by decide⟩

def triple : Output := ⟨['a', 'b', 'c'], by decide⟩

theorem formatting_in_buffer_triple :
    (SoundThroughout pair (fun _ => ' ') [] (BufWriter.new pair) (fun _ => ' ') [triple] ↔
        (concat [triple]).length ≤ pair.size) ∧
      ((FmtBuffer.new pair).reset.SoundThroughout pair (fun _ => ' ') [triple] ↔
        (concat [triple]).length ≤ pair.size) ∧
      (InBuffer scratch (fun _ => ' ') (formatTemp scratch (fun _ => ' ') triple) ↔
        triple.text.length ≤ scratch.size) ∧
      (InBuffer scratch (fun _ => ' ') (formatLnTemp scratch (fun _ => ' ') triple) ∧
          EndsWithLineBreak (formatLnTemp scratch (fun _ => ' ') triple) ↔
        triple.text.length < scratch.size) :=
  formatting_in_buffer pair scratch rfl _ [triple] triple (FmtBuffer.new pair) ⟨rfl, rfl⟩

/-- The third character is counted as written, and the writer is no longer full:
the next output goes behind the buffer. -/
theorem buffer_overrun :
    ¬SoundThroughout pair (fun _ => ' ') [] (BufWriter.new pair) (fun _ => ' ') [triple] ∧
      (BufWriter.new pair).appendAll (fun _ => ' ') [triple] =
        (⟨64, 67, wordSize - 1, 3⟩, ((BufWriter.new pair).append (fun _ => ' ') triple).2) := by
  refine ⟨fun h => ?_, rfl⟩
  have hle : 3 ≤ pair.size := (h 1 (Nat.le_refl _)).written_le
  exact absurd hle (by decide)

end TwistSim.Fmt
