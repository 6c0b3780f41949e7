import Lucax.Common.CStrings
import Lucax.Common.Numerals
import Lucax.Common.Pages
import Lucax.Common.TextLines
import Lucax.Host.Programmer
import Mathlib.Data.UInt

/-
  What the two record formats of fileio.c share: the memory
  they are laid out in, a record, and its fields.

  Key definitions include:
    * `TaggedMem`, `storeRecord`
    * `IhexRec`, `hexField`, `dataFields`
    * `hexBytes`
    * `LoadError`, `LoadStep`, `loadLines`

  Main declarations:
    * `storeRecord_eq_fill`
    * `hexField_upperHex`, `dataFields_hexBytes`
-/

------------------------------------------------------------
-- Memories with Tags
------------------------------------------------------------

namespace Lucax

open CString Numerals

/-
  avrdude: `AVRMEM`, with what files and whole-memory
  operations use; `tags i` is `TAG_ALLOCATED` of
  `m->tags[i]`.
-/
structure TaggedMem extends AvrMem where
  size : Nat
  paged : Bool
  pageSize : Nat
  tags : Nat → Bool

/- A flash memory with eight pages, none of them used. -/
def blankFlash : TaggedMem where
  desc := flashDesc
  offset := 0x00800000
  buf := fun _ => 0xFF
  size := 4096
  paged := true
  pageSize := 512
  tags := fun _ => false

namespace TaggedMem

/- One byte and its tag. -/
def setByte
    (i : Nat)
    (b : UInt8)
    (m : TaggedMem) : TaggedMem :=
  { m with
    buf := Pages.set i b m.buf
    tags := fun j => if j = i then true else m.tags j }

/- Bytes and their tags from `i` on. -/
def fill
    (i : Nat)
    (bytes : List UInt8)
    (m : TaggedMem) : TaggedMem :=
  { m with
    buf := Pages.put i bytes m.buf
    tags := fun j =>
      if i ≤ j ∧ j < i + bytes.length then true
      else m.tags j }

section Fields

variable (i : Nat) (bytes : List UInt8) (m : TaggedMem)

@[simp] theorem fill_buf :
    (m.fill i bytes).buf = Pages.put i bytes m.buf := rfl

@[simp] theorem fill_nil :
    m.fill i [] = m := by
  have hTags :
      (fun j =>
          if i ≤ j ∧ j < i + ([] : List UInt8).length then true
          else m.tags j) = m.tags := by
    funext j
    rw [if_neg]
    rintro ⟨hLow, hHigh⟩
    exact absurd hHigh (Nat.not_lt.mpr hLow)
  rw [fill, Pages.put_nil, hTags]

end Fields

theorem fill_cons
    (i : Nat)
    (b : UInt8)
    (bytes : List UInt8)
    (m : TaggedMem) :
    m.fill i (b :: bytes) =
      (m.setByte i b).fill (i + 1) bytes := by
  have hTags :
      (m.fill i (b :: bytes)).tags =
        ((m.setByte i b).fill (i + 1) bytes).tags := by
    funext j
    simp only [fill, setByte, List.length_cons]
    by_cases hHere : j = i
    · subst hHere
      rw [if_pos (by omega), if_neg (by omega), if_pos rfl]
    · by_cases hIn : i + 1 ≤ j ∧ j < i + 1 + bytes.length
      · rw [if_pos (by omega), if_pos hIn]
      · rw [if_neg (by omega), if_neg hIn, if_neg hHere]
  simp only [fill] at hTags ⊢
  rw [hTags, Pages.put_cons]
  rfl

/- Bytes behind bytes. -/
theorem fill_append
    (i : Nat)
    (first second : List UInt8)
    (m : TaggedMem) :
    (m.fill i first).fill (i + first.length) second =
      m.fill i (first ++ second) := by
  induction first generalizing i m with
  | nil => simp
  | cons b first ih =>
      rw [List.cons_append, fill_cons, fill_cons, ← ih,
        List.length_cons]
      congr 1
      omega

end TaggedMem

/-
  The loop that lays a record out.  The index is computed in
  32 bits.
-/
def storeRecord
    (nextaddr : UInt32) :
    Nat → List UInt8 → TaggedMem → TaggedMem
| _, [], m => m
| i, b :: bytes, m =>
    storeRecord nextaddr (i + 1) bytes
      (m.setByte (nextaddr + UInt32.ofNat i).toNat b)

/- Below the last address the bytes stand in a row. -/
theorem storeRecord_eq_fill
    {nextaddr : UInt32}
    {i : Nat}
    {bytes : List UInt8}
    (hFits : nextaddr.toNat + i + bytes.length ≤ 2 ^ 32)
    (m : TaggedMem) :
    storeRecord nextaddr i bytes m =
      m.fill (nextaddr.toNat + i) bytes := by
  induction bytes generalizing i m with
  | nil => simp [storeRecord]
  | cons b bytes ih =>
      rw [List.length_cons] at hFits
      have hPlace :
          (nextaddr + UInt32.ofNat i).toNat =
            nextaddr.toNat + i := by
        rw [UInt32.toNat_add, UInt32.toNat_ofNat']
        omega
      rw [storeRecord, ih (by omega), hPlace,
        TaggedMem.fill_cons, Nat.add_assoc]

------------------------------------------------------------
-- Records
------------------------------------------------------------

/-
  fileio.c: `struct ihexrec`.  A record leaves in `data` what
  earlier ones have put behind its own bytes.
-/
structure IhexRec where
  reclen : UInt8
  loadofs : UInt32
  rectyp : UInt8
  data : Nat → UInt8
  cksum : UInt8

/- A record that nothing has been read into. -/
def blankRec : IhexRec where
  reclen := 0
  loadofs := 0
  rectyp := 0
  data := fun _ => 0
  cksum := 0

/- The bytes of a record. -/
def IhexRec.bytes (r : IhexRec) : List UInt8 :=
  Pages.read 0 r.reclen.toNat r.data

/-
  The next `n` characters of a record, all of which must
  belong to one number.
-/
def hexField
    (n : Nat)
    (rec : List Char) : Option (Nat × List Char) :=
  if rec.length < n then none
  else if (strtoul 16 (rec.take n)).2 = [] then
    some ((strtoul 16 (rec.take n)).1, rec.drop n)
  else none

/- The loop over the data bytes. -/
def dataFields :
    Nat → List Char → Option (List UInt8 × List Char)
| 0, rec => some ([], rec)
| n + 1, rec => do
    let byte ← hexField 2 rec
    let more ← dataFields n byte.2
    some (UInt8.ofNat byte.1 :: more.1, more.2)

/- Bytes as `%02X` prints them one after another. -/
def hexBytes (bytes : List UInt8) : List Char :=
  bytes.flatMap fun b => upperHex 2 b.toNat

/- The two low bytes of an address. -/
def offsetSum (a : UInt32) : UInt8 :=
  (a >>> 8).toUInt8 + a.toUInt8

------------------------------------------------------------
-- Reading a File
------------------------------------------------------------

/- `#define MAX_LINE_LEN 256` -/
def maxLineLen : Nat := 256

/- The string in `buffer`, its newline cut off. -/
def bufferString (chunk : List Char) : List Char :=
  TextLines.chomp (chunk.takeWhile fun c => c ≠ nul)

/- What is reported of a line, or of a file without a record. -/
inductive LoadError where
| invalidRecord (lineno : Nat)
| checksum (lineno : Nat) (cksum rc : UInt8)
| belowOffset (lineno : Nat) (address : UInt32)
| outOfRange (lineno : Nat) (address : UInt32)
| rectype (lineno : Nat) (rectyp : UInt8)
| notSupported (lineno : Nat)
| count (lineno reccount : Nat) (loadofs : UInt32)
| noRecord
deriving DecidableEq

/- A line is behind, or the function has returned. -/
inductive LoadStep (σ : Type) where
| next (s : σ)
| done (result : Except LoadError UInt32) (mem : TaggedMem)

/- The loop over the lines. -/
def loadLines
    {σ : Type}
    (step : List Char → σ → LoadStep σ)
    (atEnd : σ → Except LoadError UInt32 × TaggedMem) :
    List (List Char) → σ → Except LoadError UInt32 × TaggedMem
| [], s => atEnd s
| chunk :: chunks, s =>
    match step chunk s with
    | .next s => loadLines step atEnd chunks s
    | .done result mem => (result, mem)

/- An `unsigned int` returned as an `int`. -/
def asInt (x : UInt32) : Int :=
  x.toInt32.toInt

/- The code for a result. -/
def loadCode : Except LoadError UInt32 → Int
| .error _ => -1
| .ok maxaddr => asInt maxaddr

theorem asInt_of_lt
    {x : UInt32}
    (hSmall : x.toNat < 2 ^ 31) :
    asInt x = x.toNat := by
  have hBits : asInt x = x.toBitVec.toInt := rfl
  rw [hBits, BitVec.toInt_eq_toNat_of_lt]
  · rfl
  · have hNat : x.toBitVec.toNat = x.toNat := rfl
    omega

/- What the lines that are accepted do, in order. -/
def loadEvents
    {σ ε : Type}
    (step : List Char → σ → LoadStep σ)
    (event : List Char → σ → List ε) :
    List (List Char) → σ → List ε
| [], _ => []
| chunk :: chunks, s =>
    match step chunk s with
    | .next s => event chunk s ++ loadEvents step event chunks s
    | .done _ _ => []

section Loop

variable
  {σ ε : Type}
  {step : List Char → σ → LoadStep σ}
  {atEnd : σ → Except LoadError UInt32 × TaggedMem}

theorem loadLines_next
    {chunk : List Char}
    {s s' : σ}
    (hStep : step chunk s = .next s')
    (chunks : List (List Char)) :
    loadLines step atEnd (chunk :: chunks) s =
      loadLines step atEnd chunks s' := by
  rw [loadLines, hStep]

theorem loadLines_done
    {chunk : List Char}
    {s : σ}
    {result : Except LoadError UInt32}
    {mem : TaggedMem}
    (hStep : step chunk s = .done result mem)
    (chunks : List (List Char)) :
    loadLines step atEnd (chunk :: chunks) s =
      (result, mem) := by
  rw [loadLines, hStep]

/-
  What every turn keeps of the events and the state holds at
  the end.  By induction on the lines.
-/
theorem loadLines_induct
    {event : List Char → σ → List ε}
    {inv : List ε → σ → Prop}
    {post : List ε → Except LoadError UInt32 × TaggedMem → Prop}
    (hNext :
      ∀ chunk events s s',
        inv events s → step chunk s = .next s' →
          inv (events ++ event chunk s') s')
    (hDone :
      ∀ chunk events s result mem,
        inv events s → step chunk s = .done result mem →
          post events (result, mem))
    (hEnd : ∀ events s, inv events s → post events (atEnd s))
    (chunks : List (List Char))
    {events : List ε}
    {s : σ}
    (hInv : inv events s) :
    post (events ++ loadEvents step event chunks s)
      (loadLines step atEnd chunks s) := by
  induction chunks generalizing events s with
  | nil =>
      rw [loadEvents, loadLines, List.append_nil]
      exact hEnd events s hInv
  | cons chunk chunks ih =>
      cases hStep : step chunk s with
      | next s' =>
          have hRest := ih (hNext chunk events s s' hInv hStep)
          rw [loadLines_next hStep, loadEvents, hStep,
            ← List.append_assoc]
          exact hRest
      | done result mem =>
          rw [loadLines_done hStep, loadEvents, hStep,
            List.append_nil]
          exact hDone chunk events s result mem hInv hStep

end Loop

------------------------------------------------------------
-- Stored Records
------------------------------------------------------------

/- Records stored one after another. -/
def storeAll
    (writes : List (UInt32 × List UInt8))
    (mem : TaggedMem) : TaggedMem :=
  writes.foldl (fun m w => storeRecord w.1 0 w.2 m) mem

/- The record has a byte at the place. -/
def Covers
    (w : UInt32 × List UInt8)
    (j : Nat) : Prop :=
  ∃ i < w.2.length, j = (w.1 + UInt32.ofNat i).toNat

/- The records end before the last address. -/
def Unwrapped (w : UInt32 × List UInt8) : Prop :=
  w.1.toNat + w.2.length < 2 ^ 32

instance : DecidablePred Unwrapped := fun w => by
  unfold Unwrapped
  infer_instance

section Stored

variable {nextaddr : UInt32} {bytes : List UInt8}

/- A place gets a tag from the record that covers it. -/
theorem storeRecord_tags
    (i : Nat)
    (mem : TaggedMem)
    (j : Nat) :
    (storeRecord nextaddr i bytes mem).tags j = true ↔
      mem.tags j = true ∨
        ∃ k < bytes.length,
          j = (nextaddr + UInt32.ofNat (i + k)).toNat := by
  induction bytes generalizing i mem with
  | nil => simp [storeRecord]
  | cons b bytes ih =>
      rw [storeRecord, ih]
      simp only [TaggedMem.setByte]
      constructor
      · rintro (hTag | ⟨k, hk, hPlace⟩)
        · by_cases hHere :
              j = (nextaddr + UInt32.ofNat i).toNat
          · exact Or.inr ⟨0, by simp, hHere⟩
          · rw [if_neg hHere] at hTag
            exact Or.inl hTag
        · refine Or.inr ⟨k + 1, ?_, ?_⟩
          · rw [List.length_cons]
            omega
          · rw [hPlace, Nat.add_assoc, Nat.add_comm 1]
      · rintro (hTag | ⟨k, hk, hPlace⟩)
        · refine Or.inl ?_
          rw [hTag, ite_self]
        · cases k with
          | zero => exact Or.inl (if_pos hPlace)
          | succ k =>
              refine Or.inr ⟨k, ?_, ?_⟩
              · rw [List.length_cons] at hk
                omega
              · rw [hPlace, Nat.add_assoc, Nat.add_comm 1]

/- Other places keep their bytes. -/
theorem storeRecord_buf
    (i : Nat)
    (mem : TaggedMem)
    {j : Nat}
    (hOther :
      ∀ k < bytes.length,
        j ≠ (nextaddr + UInt32.ofNat (i + k)).toNat) :
    (storeRecord nextaddr i bytes mem).buf j = mem.buf j := by
  induction bytes generalizing i mem with
  | nil => rfl
  | cons b bytes ih =>
      have hHere := hOther 0 (by simp)
      rw [storeRecord, ih]
      · exact if_neg hHere
      · intro k hk
        have hNext := hOther (k + 1) (by simpa using hk)
        rwa [Nat.add_assoc, Nat.add_comm 1]

theorem storeAll_tags
    (writes : List (UInt32 × List UInt8))
    (mem : TaggedMem)
    (j : Nat) :
    (storeAll writes mem).tags j = true ↔
      mem.tags j = true ∨ ∃ w ∈ writes, Covers w j := by
  induction writes generalizing mem with
  | nil => simp [storeAll]
  | cons w writes ih =>
      have hFold :
          storeAll (w :: writes) mem =
            storeAll writes (storeRecord w.1 0 w.2 mem) := rfl
      rw [hFold, ih, storeRecord_tags]
      simp only [Nat.zero_add, List.mem_cons,
        exists_eq_or_imp, Covers, or_assoc]

theorem storeAll_buf
    {writes : List (UInt32 × List UInt8)}
    {mem : TaggedMem}
    {j : Nat}
    (hOther : ∀ w ∈ writes, ¬ Covers w j) :
    (storeAll writes mem).buf j = mem.buf j := by
  induction writes generalizing mem with
  | nil => rfl
  | cons w writes ih =>
      have hFold :
          storeAll (w :: writes) mem =
            storeAll writes (storeRecord w.1 0 w.2 mem) := rfl
      have hHere := hOther w List.mem_cons_self
      rw [hFold,
        ih fun w' hMem =>
          hOther w' (List.mem_cons_of_mem _ hMem),
        storeRecord_buf]
      intro k hk hPlace
      rw [Nat.zero_add] at hPlace
      exact hHere ⟨k, hk, hPlace⟩

/- Without a wrap the places are those from the address on. -/
theorem covers_iff
    {w : UInt32 × List UInt8}
    (hUnwrapped : Unwrapped w)
    (j : Nat) :
    Covers w j ↔
      w.1.toNat ≤ j ∧ j < w.1.toNat + w.2.length := by
  unfold Unwrapped at hUnwrapped
  have hPlace :
      ∀ i < w.2.length,
        (w.1 + UInt32.ofNat i).toNat = w.1.toNat + i := by
    intro i hi
    rw [UInt32.toNat_add, UInt32.toNat_ofNat']
    omega
  constructor
  · rintro ⟨i, hi, hj⟩
    rw [hPlace i hi] at hj
    omega
  · rintro ⟨hLow, hHigh⟩
    refine ⟨j - w.1.toNat, by omega, ?_⟩
    rw [hPlace _ (by omega)]
    omega

end Stored

------------------------------------------------------------
-- Printed Lines
------------------------------------------------------------

/- A line without a newline or a NUL in it. -/
def Plain (line : List Char) : Prop :=
  '\n' ∉ line ∧ nul ∉ line

section Plain

variable {line more : List Char}

theorem Plain.of_digits
    {base : Nat}
    (hDigits : AllDigits base line) :
    Plain line := by
  constructor
  · intro hMem
    have hDigit := hDigits _ hMem
    have hNone : digitIn base '\n' = none := by
      rw [digitIn]
      rfl
    rw [hNone] at hDigit
    exact absurd hDigit (by decide)
  · intro hMem
    have hDigit := hDigits _ hMem
    have hNone : digitIn base nul = none := by
      rw [digitIn]
      rfl
    rw [hNone] at hDigit
    exact absurd hDigit (by decide)

theorem Plain.append
    (hFirst : Plain line)
    (hSecond : Plain more) :
    Plain (line ++ more) := by
  constructor
  · intro hMem
    rcases List.mem_append.mp hMem with hIn | hIn
    · exact hFirst.1 hIn
    · exact hSecond.1 hIn
  · intro hMem
    rcases List.mem_append.mp hMem with hIn | hIn
    · exact hFirst.2 hIn
    · exact hSecond.2 hIn

theorem Plain.upperHex
    (width n : Nat) :
    Plain (upperHex width n) :=
  Plain.of_digits (upperHex_number width n).1

theorem Plain.hexBytes
    (bytes : List UInt8) :
    Plain (hexBytes bytes) := by
  induction bytes with
  | nil =>
      exact
        ⟨by simp [Lucax.hexBytes], by simp [Lucax.hexBytes]⟩
  | cons b bytes ih =>
      have hText :
          Lucax.hexBytes (b :: bytes) =
            Numerals.upperHex 2 b.toNat ++
              Lucax.hexBytes bytes := by
        simp [Lucax.hexBytes]
      rw [hText]
      exact (Plain.upperHex 2 b.toNat).append ih

/- All of it is before the NUL. -/
theorem takeWhile_plain
    (hNul : nul ∉ line) :
    line.takeWhile (fun c => c ≠ nul) = line := by
  induction line with
  | nil => rfl
  | cons c line ih =>
      have hHere : c ≠ nul := by
        intro hEnd
        exact hNul (hEnd ▸ List.mem_cons_self)
      rw [List.takeWhile_cons_of_pos (by simpa using hHere),
        ih fun hMem => hNul (List.mem_cons_of_mem _ hMem)]

theorem bufferString_line
    (hPlain : Plain line) :
    bufferString (line ++ ['\n']) = line := by
  have hNul : nul ∉ line ++ ['\n'] := by
    intro hMem
    rcases List.mem_append.mp hMem with hIn | hIn
    · exact hPlain.2 hIn
    · exact absurd hIn (by decide)
  rw [bufferString, takeWhile_plain hNul, TextLines.chomp_line]

theorem bufferString_plain
    (hPlain : Plain line) :
    bufferString line = line := by
  rw [bufferString, takeWhile_plain hPlain.2,
    TextLines.chomp_plain hPlain.1]

/-
  A turn that looks at nothing but the string in the buffer,
  and skips an empty one.
-/
structure LineStep
    {σ : Type}
    (step : List Char → σ → LoadStep σ)
    (skip : σ → σ) : Prop where
  congr :
    ∀ chunk chunk' s,
      bufferString chunk = bufferString chunk' →
        step chunk s = step chunk' s
  empty : ∀ s, step ['\n'] s = .next (skip s)

section Printed

variable
  {σ : Type}
  {step : List Char → σ → LoadStep σ}
  {skip : σ → σ}

/-
  A printed line that fits is taken at once, with a newline
  behind it in a turn of its own if the line fills the buffer.
-/
theorem LineStep.next
    (atEnd : σ → Except LoadError UInt32 × TaggedMem)
    (hLine : LineStep step skip)
    (hPlain : Plain line)
    (hSome : line ≠ [])
    (hFits : line.length ≤ maxLineLen - 1)
    (rest : List Char)
    {s s' : σ}
    (hStep : step line s = .next s') :
    ∃ s'',
      (s'' = s' ∨ s'' = skip s') ∧
        loadLines step atEnd
            (TextLines.chunks (maxLineLen - 1)
              (line ++ '\n' :: rest)) s =
          loadLines step atEnd
            (TextLines.chunks (maxLineLen - 1) rest) s'' := by
  by_cases hFull : line.length = maxLineLen - 1
  · have hNewline :
        TextLines.chunks (maxLineLen - 1) ('\n' :: rest) =
          ['\n'] :: TextLines.chunks (maxLineLen - 1) rest :=
      @TextLines.chunks_line _ [] (by simp) (by decide) rest
    refine ⟨skip s', Or.inr rfl, ?_⟩
    rw [TextLines.chunks_full hPlain.1 hSome hFull, hNewline,
      loadLines_next hStep, loadLines_next (hLine.empty s')]
  · have hSame :
        bufferString (line ++ ['\n']) = bufferString line := by
      rw [bufferString_line hPlain, bufferString_plain hPlain]
    refine ⟨s', Or.inl rfl, ?_⟩
    rw [TextLines.chunks_line hPlain.1 (by omega),
      loadLines_next ((hLine.congr _ _ s hSame).trans hStep)]

theorem LineStep.done
    (atEnd : σ → Except LoadError UInt32 × TaggedMem)
    (hLine : LineStep step skip)
    (hPlain : Plain line)
    (hSome : line ≠ [])
    (hFits : line.length ≤ maxLineLen - 1)
    (rest : List Char)
    {s : σ}
    {result : Except LoadError UInt32}
    {mem : TaggedMem}
    (hStep : step line s = .done result mem) :
    loadLines step atEnd
        (TextLines.chunks (maxLineLen - 1)
          (line ++ '\n' :: rest)) s =
      (result, mem) := by
  by_cases hFull : line.length = maxLineLen - 1
  · rw [TextLines.chunks_full hPlain.1 hSome hFull,
      loadLines_done hStep]
  · have hSame :
        bufferString (line ++ ['\n']) = bufferString line := by
      rw [bufferString_line hPlain, bufferString_plain hPlain]
    rw [TextLines.chunks_line hPlain.1 (by omega),
      loadLines_done ((hLine.congr _ _ s hSame).trans hStep)]

end Printed

end Plain

------------------------------------------------------------
-- Printed Fields
------------------------------------------------------------

theorem hexField_upperHex
    {width n : Nat}
    (hSome : 0 < width)
    (hFits : n < 16 ^ width)
    (hRange : n ≤ ulongMax)
    (rec : List Char) :
    hexField width (upperHex width n ++ rec) =
      some (n, rec) := by
  have hLength := upperHex_length hSome hFits
  have hEnough :
      ¬ (upperHex width n ++ rec).length < width := by
    rw [List.length_append, hLength]
    omega
  have hTake :
      (upperHex width n ++ rec).take width =
        upperHex width n :=
    List.take_left' hLength
  have hDrop :
      (upperHex width n ++ rec).drop width = rec :=
    List.drop_left' hLength
  rw [hexField, if_neg hEnough, hTake, hDrop,
    strtoul_upperHex hRange, if_pos rfl]

/- A byte is printed in two digits. -/
theorem byte_fits
    (b : UInt8) :
    b.toNat < 16 ^ 2 ∧ b.toNat ≤ ulongMax := by
  have hByte := b.toNat_lt
  have hMax : (255 : Nat) ≤ ulongMax := by decide
  omega

theorem hexField_byte
    (b : UInt8)
    (rec : List Char) :
    hexField 2 (upperHex 2 b.toNat ++ rec) =
      some (b.toNat, rec) :=
  hexField_upperHex (by decide) (byte_fits b).1
    (byte_fits b).2 rec

/- Printed bytes are read back. -/
theorem dataFields_hexBytes
    (bytes : List UInt8)
    (rec : List Char) :
    dataFields bytes.length (hexBytes bytes ++ rec) =
      some (bytes, rec) := by
  induction bytes with
  | nil => rfl
  | cons b bytes ih =>
      have hText :
          hexBytes (b :: bytes) ++ rec =
            upperHex 2 b.toNat ++ (hexBytes bytes ++ rec) := by
        simp [hexBytes]
      rw [List.length_cons, dataFields, hText, hexField_byte]
      simp [ih]

/- A field needs its characters. -/
theorem hexField_some
    {n : Nat}
    {rec : List Char}
    {out : Nat × List Char}
    (hField : hexField n rec = some out) :
    n ≤ rec.length ∧ out.2 = rec.drop n := by
  unfold hexField at hField
  by_cases hShort : rec.length < n
  · rw [if_pos hShort] at hField
    exact absurd hField (by simp)
  · rw [if_neg hShort] at hField
    by_cases hWhole : (strtoul 16 (rec.take n)).2 = []
    · rw [if_pos hWhole, Option.some.injEq] at hField
      refine ⟨Nat.not_lt.mp hShort, ?_⟩
      rw [← hField]
    · rw [if_neg hWhole] at hField
      exact absurd hField (by simp)

theorem dataFields_some
    {n : Nat}
    {rec : List Char}
    {out : List UInt8 × List Char}
    (hFields : dataFields n rec = some out) :
    out.1.length = n ∧
      2 * n ≤ rec.length ∧
      out.2 = rec.drop (2 * n) := by
  induction n generalizing rec out with
  | zero =>
      rw [dataFields, Option.some.injEq] at hFields
      rw [← hFields]
      simp
  | succ n ih =>
      rw [dataFields] at hFields
      cases hByte : hexField 2 rec with
      | none => simp [hByte] at hFields
      | some byte =>
          rcases hexField_some hByte with ⟨hTwo, hRest⟩
          cases hMore : dataFields n byte.2 with
          | none => simp [hByte, hMore] at hFields
          | some more =>
              rcases ih hMore with ⟨hCount, hLength, hEnd⟩
              simp only [hByte, hMore, Option.bind_eq_bind,
                Option.bind_some, Option.some.injEq] at hFields
              rw [← hFields]
              rw [hRest, List.length_drop] at hLength
              refine ⟨?_, by omega, ?_⟩
              · simp [hCount]
              · rw [hEnd, hRest, List.drop_drop]
                congr 1
                omega

theorem hexBytes_length
    (bytes : List UInt8) :
    (hexBytes bytes).length = 2 * bytes.length := by
  induction bytes with
  | nil => rfl
  | cons b bytes ih =>
      have hByte := upperHex_length (by decide) (byte_fits b).1
      have hText :
          hexBytes (b :: bytes) =
            upperHex 2 b.toNat ++ hexBytes bytes := by
        simp [hexBytes]
      rw [hText, List.length_append, hByte, ih,
        List.length_cons]
      omega

end Lucax
