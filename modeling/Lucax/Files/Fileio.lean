import Lucax.Files.IntelHexRoundTrip
import Lucax.Files.Numbers
import Lucax.Files.SRecordRoundTrip
import Lucax.Host.Avr

/-
  Files of any format (fileio.c), for parts without an offset
  of their own in files and a build without libelf.

  Key definitions include:
    * `FileFmt`, `fmtAutodetect`
    * `fileioRead`, `fileioWrite`

  Main declarations:
    * `fmtAutodetect_ihex`, `fmtAutodetect_srec`
    * `fileio_roundTrip`
-/

------------------------------------------------------------
-- Formats
------------------------------------------------------------

namespace Lucax

open CString Numerals

/- `FILEFMT` -/
inductive FileFmt where
| auto
| srec
| ihex
| rbin
| imm
| hex
| dec
| oct
| bin
| elf
deriving DecidableEq

/- Bytes of a file as the characters of a line, and back. -/
def textOf (bytes : List UInt8) : List Char :=
  bytes.map fun b => Char.ofNat b.toNat

def bytesOf (text : List Char) : List UInt8 :=
  text.map fun c => UInt8.ofNat c.toNat

def isDigit (c : Char) : Bool :=
  '0' ≤ c ∧ c ≤ '9'

def isXDigit (c : Char) : Bool :=
  isDigit c ∨ ('a' ≤ c ∧ c ≤ 'f') ∨ ('A' ≤ c ∧ c ≤ 'F')

/- The loop that looks at `buf[1]` again and again. -/
def looksHex (line : List Char) : Bool :=
  (line.drop 1).all fun _ => isXDigit (line.getD 1 nul)

def looksIhex (line : List Char) : Bool :=
  line.getD 0 nul = ':' ∧ 11 ≤ line.length ∧ looksHex line

def looksSrec (line : List Char) : Bool :=
  line.getD 0 nul = 'S' ∧ 10 ≤ line.length ∧
    isDigit (line.getD 1 nul) ∧ looksHex line

def elfMagic : List Char :=
  [Char.ofNat 0x7F, 'E', 'L', 'F']

/- The loop over the lines; `first` is one. -/
def fmtLines : Bool → List (List Char) → Option FileFmt
| _, [] => none
| first, chunk :: chunks =>
    let line := bufferString chunk
    if first ∧ chunk.take 4 = elfMagic then some .elf
    else if line.any fun c => 127 < c.toNat then some .rbin
    else if looksIhex line then some .ihex
    else if looksSrec line then some .srec
    else fmtLines false chunks

/- None where the format cannot be told. -/
def fmtAutodetect (text : List Char) : Option FileFmt :=
  fmtLines true (TextLines.chunks (maxLineLen - 1) text)

/-
  The format used.  There is none for standard input and
  output, or a file that cannot be opened; `file` is what the
  file holds.
-/
def fileioFormat
    (format : FileFmt)
    (filename : List Char)
    (file : Option (List UInt8)) : Option FileFmt :=
  if format = .auto then
    if filename = ['-'] then none
    else file.bind fun bytes => fmtAutodetect (textOf bytes)
  else some format

------------------------------------------------------------
-- Reading
------------------------------------------------------------

/-
  What the local variables of the readers hold before they
  are set: a record, and the characters behind each line.
-/
structure FileLocals where
  record : IhexRec
  stale : Nat → Nat → Char

/- `-1` for any negative code. -/
def orError (out : Int × TaggedMem) : Int × TaggedMem :=
  (if out.1 < 0 then -1 else out.1, out.2)

def fileioRbinRead
    (bytes : List UInt8)
    (mem : TaggedMem)
    (size : Nat) : Int × TaggedMem :=
  let got := bytes.take size
  ((got.length : Int), mem.fill 0 got)

/-
  What is read in a format; numbers are only written, and ELF
  is not supported.
-/
def fileioLoad
    (locals : FileLocals)
    (format : FileFmt)
    (filename : List Char)
    (bytes : List UInt8)
    (mem : TaggedMem) : Int × TaggedMem :=
  match format with
  | .ihex =>
      orError
        (ihex2b locals.record (textOf bytes) mem
          (UInt32.ofNat mem.size) 0)
  | .srec =>
      orError
        (srec2b locals.stale locals.record (textOf bytes) mem
          (UInt32.ofNat mem.size) 0)
  | .rbin => fileioRbinRead bytes mem mem.size
  | .imm => fileioImm filename mem mem.size
  | _ => (-1, mem)

/- Nothing is tagged, and what is not in the file is 0xFF. -/
def TaggedMem.cleared (m : TaggedMem) : TaggedMem :=
  { m with
    buf := fun j => if j < m.size then 0xFF else m.buf j
    tags := fun j => if j < m.size then false else m.tags j }

/- `fileio` with `FIO_READ` -/
def fileioRead
    (locals : FileLocals)
    (format : FileFmt)
    (filename : List Char)
    (file : Option (List UInt8))
    (mem : TaggedMem) : Int × TaggedMem :=
  let mem := mem.cleared
  match fileioFormat format filename file with
  | none => (-1, mem)
  | some format =>
      if format ≠ .imm ∧ file = none then (-1, mem) else
      let out :=
        fileioLoad locals format filename (file.getD []) mem
      if 0 < out.1 ∧ out.2.flashLike then
        ((avrMemHiaddr out.2 : Int), out.2)
      else out

------------------------------------------------------------
-- Writing
------------------------------------------------------------

/- What a writer with records of 32 bytes returns. -/
def writtenRecords
    (out : Option (Int × List Char)) : Int × List UInt8 :=
  let out := out.getD (-1, [])
  (out.1, bytesOf out.2)

def fileioSave
    (format : FileFmt)
    (mem : TaggedMem)
    (size : Nat) : Int × List UInt8 :=
  let numbers (fmt : NumberFormat) : Int × List UInt8 :=
    let out := fileioNum fmt mem size
    (out.1, bytesOf out.2)
  match format with
  | .ihex => writtenRecords (b2ihex mem.buf size 32 0)
  | .srec => writtenRecords (b2srec mem.buf size 32 0)
  | .rbin => ((size : Int), Pages.read 0 size mem.buf)
  | .hex => numbers .hex
  | .dec => numbers .dec
  | .oct => numbers .oct
  | .bin => numbers .bin
  | _ => (-1, [])

/-
  `fileio` with `FIO_WRITE`: the code, the memory without its
  tags, and what the file holds then.  It is emptied when it
  is opened, also for a format that is not written; immediate
  values have no file.
-/
def fileioWrite
    (format : FileFmt)
    (filename : List Char)
    (file : Option (List UInt8))
    (mem : TaggedMem)
    (size : Nat) : (Int × TaggedMem) × Option (List UInt8) :=
  let mem :=
    { mem with
      tags := fun j => if j < size then false else mem.tags j }
  match fileioFormat format filename file with
  | none => ((-1, mem), file)
  | some format =>
      let out := fileioSave format mem size
      ((out.1, mem), if format = .imm then file else some out.2)

------------------------------------------------------------
-- Written Texts
------------------------------------------------------------

/- Characters that no format takes for binary data. -/
def Ascii (cs : List Char) : Prop :=
  ∀ c ∈ cs, c.toNat < 128

section Ascii

variable {first second : List Char}

theorem Ascii.append
    (hFirst : Ascii first)
    (hSecond : Ascii second) :
    Ascii (first ++ second) := by
  intro c hMem
  rcases List.mem_append.mp hMem with hIn | hIn
  · exact hFirst c hIn
  · exact hSecond c hIn

theorem Ascii.ite
    (p : Prop)
    [Decidable p]
    (hFirst : Ascii first)
    (hSecond : Ascii second) :
    Ascii (if p then first else second) := by
  split
  · exact hFirst
  · exact hSecond

theorem isXDigit_of_digit
    {c : Char}
    (hDigit : (digitIn 16 c).isSome = true) :
    isXDigit c = true ∧ c.toNat < 128 := by
  have hNat
      (d : Char)
      (hLess : c ≤ d) : c.toNat ≤ d.toNat := hLess
  rw [Option.isSome_iff_exists] at hDigit
  rcases hDigit with ⟨d, hValue⟩
  rw [digitIn, Option.filter_eq_some_iff] at hValue
  rcases hValue with ⟨hValue, hLess⟩
  have hSmall : d < 16 := of_decide_eq_true hLess
  rw [digitValue] at hValue
  by_cases hNum : '0' ≤ c ∧ c ≤ '9'
  · have hMost := hNat '9' hNum.2
    have hNine : '9'.toNat = 57 := rfl
    refine ⟨?_, by omega⟩
    simp [isXDigit, isDigit, hNum.1, hNum.2]
  · rw [if_neg hNum] at hValue
    by_cases hLower : 'a' ≤ c ∧ c ≤ 'z'
    · rw [if_pos hLower, Option.some.injEq] at hValue
      have hSix : 'f'.toNat = 102 := rfl
      have hMost : c ≤ 'f' :=
        show c.toNat ≤ 'f'.toNat by omega
      refine ⟨?_, by omega⟩
      simp [isXDigit, hLower.1, hMost]
    · rw [if_neg hLower] at hValue
      by_cases hUpper : 'A' ≤ c ∧ c ≤ 'Z'
      · rw [if_pos hUpper, Option.some.injEq] at hValue
        have hSix : 'F'.toNat = 70 := rfl
        have hMost : c ≤ 'F' :=
          show c.toNat ≤ 'F'.toNat by omega
        refine ⟨?_, by omega⟩
        simp [isXDigit, hUpper.1, hMost]
      · rw [if_neg hUpper] at hValue
        exact absurd hValue (by simp)

theorem Ascii.upperHex
    (width n : Nat) :
    Ascii (upperHex width n) := by
  intro c hMem
  exact
    (isXDigit_of_digit
      ((upperHex_number width n).1 c hMem)).2

theorem Ascii.hexBytes
    (bytes : List UInt8) :
    Ascii (hexBytes bytes) := by
  intro c hMem
  rcases List.mem_flatMap.mp hMem with ⟨b, _hByte, hIn⟩
  exact Ascii.upperHex 2 b.toNat c hIn

theorem Ascii.single
    {c : Char}
    (hAscii : c.toNat < 128) :
    Ascii [c] := by
  intro d hMem
  rw [List.mem_singleton.mp hMem]
  exact hAscii

theorem Ascii.newline : Ascii ['\n'] :=
  Ascii.single (by decide)

theorem ihexText_ascii
    (n nextaddr : Nat)
    (rectyp : UInt8)
    (bytes : List UInt8) :
    Ascii (ihexText n nextaddr rectyp bytes) := by
  have hColon : Ascii [':'] := Ascii.single (by decide)
  exact
    ((((hColon.append (Ascii.upperHex 2 n)).append
      (Ascii.upperHex 4 nextaddr)).append
      (Ascii.upperHex 2 rectyp.toNat)).append
      (Ascii.hexBytes bytes)).append
      (Ascii.upperHex 2 _)

theorem srecText_ascii
    {digit : Char}
    (hDigit : digit.toNat < 128)
    (width nextaddr : Nat)
    (bytes : List UInt8) :
    Ascii (srecText digit width nextaddr bytes) := by
  have hHead : Ascii ['S', digit] := by
    intro c hMem
    simp only [List.mem_cons, List.not_mem_nil, or_false]
      at hMem
    rcases hMem with hHere | hHere
    · rw [hHere]
      decide
    · rw [hHere]
      exact hDigit
  exact
    (((hHead.append (Ascii.upperHex 2 _)).append
      (Ascii.upperHex (2 * width) nextaddr)).append
      (Ascii.hexBytes bytes)).append
      (Ascii.upperHex 2 _)

/- By induction on the turns. -/
theorem b2ihexLoop_ascii
    {inbuf : Nat → UInt8}
    {recsize fuel buf nextaddr n64k bufsize nbytes : Nat}
    {text : List Char}
    (hText :
      b2ihexLoop inbuf recsize fuel buf nextaddr n64k bufsize =
        some (nbytes, text)) :
    Ascii text := by
  have hNone : Ascii [] := fun c hMem => absurd hMem (by simp)
  induction fuel generalizing
    buf nextaddr n64k bufsize nbytes text with
  | zero =>
      rw [b2ihexLoop] at hText
      split at hText
      · cases hText
        exact hNone
      · cases hText
  | succ fuel ih =>
      rw [b2ihexLoop] at hText
      split at hText
      · cases hText
        exact hNone
      · simp only at hText
        split at hText
        · cases hText
        · rename_i hRest
          have hTail := ih hRest
          cases hText
          refine Ascii.append (Ascii.append ?_ ?_) hTail
          · exact
              Ascii.ite _
                ((ihexText_ascii _ _ _ _).append Ascii.newline)
                hNone
          · exact
              Ascii.ite _
                ((ihexText_ascii _ _ _ _).append Ascii.newline)
                hNone

theorem dataDigit_ascii
    (width : Nat) :
    (dataDigit width).toNat < 128 := by
  rw [dataDigit]
  split
  · decide
  · split
    · decide
    · decide

/- By induction on the turns. -/
theorem b2srecLoop_ascii
    {inbuf : Nat → UInt8}
    {recsize fuel nextaddr bufsize nbytes : Nat}
    {text : List Char}
    (hText :
      b2srecLoop inbuf recsize fuel nextaddr bufsize =
        some (nbytes, text)) :
    Ascii text := by
  have hNone : Ascii [] := fun c hMem => absurd hMem (by simp)
  induction fuel generalizing nextaddr bufsize nbytes text with
  | zero =>
      rw [b2srecLoop] at hText
      split at hText
      · cases hText
        exact hNone
      · cases hText
  | succ fuel ih =>
      rw [b2srecLoop] at hText
      split at hText
      · cases hText
        exact hNone
      · simp only at hText
        split at hText
        · cases hText
        · rename_i hRest
          have hTail := ih hRest
          cases hText
          refine Ascii.append ?_ hTail
          exact
            Ascii.ite _
              ((srecText_ascii (dataDigit_ascii _) _ _ _).append
                Ascii.newline)
              hNone

end Ascii

/- Such a text goes through a file unchanged. -/
theorem textOf_bytesOf
    {text : List Char}
    (hAscii : Ascii text) :
    textOf (bytesOf text) = text := by
  rw [textOf, bytesOf, List.map_map]
  conv => rhs; rw [← List.map_id text]
  apply List.map_congr_left
  intro c hMem
  have hSmall := hAscii c hMem
  have hByte : (UInt8.ofNat c.toNat).toNat = c.toNat := by
    rw [UInt8.toNat_ofNat']
    omega
  rw [Function.comp_apply, hByte, Char.ofNat_toNat, id]

------------------------------------------------------------
-- Auto-detection
------------------------------------------------------------

section Detect

variable {line : List Char}

/- A first line of text that fits into the buffer. -/
theorem fmtAutodetect_line
    (hSome : line ≠ [])
    (hPlain : Plain line)
    (hShort : line.length < maxLineLen - 1)
    (hAscii : Ascii line)
    (hNotElf : line.getD 0 nul ≠ Char.ofNat 0x7F)
    (rest : List Char) :
    fmtAutodetect (line ++ '\n' :: rest) =
      if looksIhex line then some .ihex
      else if looksSrec line then some .srec
      else
        fmtLines false
          (TextLines.chunks (maxLineLen - 1) rest) := by
  have hMagic : (line ++ ['\n']).take 4 ≠ elfMagic := by
    intro hSame
    have hHead := congrArg (fun cs => cs.getD 0 nul) hSame
    cases line with
    | nil => exact hSome rfl
    | cons c cs => exact hNotElf hHead
  have hText : ¬ line.any (fun c => 127 < c.toNat) = true := by
    intro hAny
    rcases List.any_eq_true.mp hAny with ⟨c, hMem, hMore⟩
    have hLess := hAscii c hMem
    have hGreat := of_decide_eq_true hMore
    omega
  rw [fmtAutodetect, TextLines.chunks_line hPlain.1 hShort,
    fmtLines]
  simp only [bufferString_line hPlain, hMagic, and_false,
    if_false, hText, Bool.false_eq_true]

theorem looksHex_of_second
    (hDigit : isXDigit (line.getD 1 nul) = true) :
    looksHex line = true := by
  rw [looksHex, List.all_eq_true]
  intro c hMem
  exact hDigit

/- The first digit of a printed number. -/
theorem upperHex_head
    (width n : Nat)
    (hSome : upperHex width n ≠ [])
    (behind : List Char) :
    isXDigit ((upperHex width n ++ behind).getD 0 nul) =
      true := by
  cases hText : upperHex width n with
  | nil => exact absurd hText hSome
  | cons c cs =>
      have hMem : c ∈ upperHex width n := by
        rw [hText]
        exact List.mem_cons_self
      exact
        (isXDigit_of_digit
          ((upperHex_number width n).1 c hMem)).1

theorem ihexText_looks
    {n nextaddr : Nat}
    (hCount : n < 256)
    (hAddress : nextaddr < 0x10000)
    (rectyp : UInt8)
    (bytes : List UInt8) :
    looksIhex (ihexText n nextaddr rectyp bytes) = true := by
  have hLength :=
    @ihexText_length n _ rectyp bytes hCount hAddress
  have hTwo := @upperHex_length 2 n (by decide) hCount
  have hSome : upperHex 2 n ≠ [] := by
    intro hNone
    rw [hNone] at hTwo
    exact absurd hTwo (by decide)
  have hText :
      ∃ behind,
        ihexText n nextaddr rectyp bytes =
          ':' :: (upperHex 2 n ++ behind) := by
    simp only [ihexText, List.cons_append, List.append_assoc]
    exact ⟨_, rfl⟩
  rcases hText with ⟨behind, hText⟩
  have hDigit := upperHex_head 2 n hSome behind
  have hHex :
      looksHex (ihexText n nextaddr rectyp bytes) = true := by
    apply looksHex_of_second
    rw [hText]
    exact hDigit
  rw [looksIhex, decide_eq_true_eq]
  refine ⟨?_, by omega, hHex⟩
  rw [hText]
  rfl

theorem srecText_looks
    {digit : Char}
    (hDigit : isDigit digit = true)
    (width nextaddr : Nat)
    (bytes : List UInt8)
    (hLength :
      10 ≤ (srecText digit width nextaddr bytes).length) :
    looksIhex (srecText digit width nextaddr bytes) = false ∧
      looksSrec (srecText digit width nextaddr bytes) =
        true := by
  have hText :
      ∃ behind,
        srecText digit width nextaddr bytes =
          'S' :: digit :: behind := by
    simp only [srecText, List.cons_append]
    exact ⟨_, rfl⟩
  rcases hText with ⟨behind, hText⟩
  have hXDigit : isXDigit digit = true := by
    rw [isXDigit, decide_eq_true_eq]
    exact Or.inl hDigit
  rw [hText] at hLength ⊢
  constructor
  · rw [looksIhex, decide_eq_false_iff_not]
    rintro ⟨hColon, _hLength, _hHex⟩
    exact (show 'S' ≠ ':' by decide) hColon
  · rw [looksSrec, decide_eq_true_eq]
    exact
      ⟨rfl, hLength, hDigit, looksHex_of_second hXDigit⟩

theorem ihexText_detected
    {n : Nat}
    (hCount : n < 256)
    (rectyp : UInt8)
    {bytes : List UInt8}
    (hFew : bytes.length ≤ 32)
    (rest : List Char) :
    fmtAutodetect (ihexText n 0 rectyp bytes ++ '\n' :: rest) =
      some .ihex := by
  have hLength :=
    @ihexText_length n 0 rectyp bytes hCount (by decide)
  have hRoom : maxLineLen - 1 = 255 := rfl
  have hLooks :=
    ihexText_looks hCount (show 0 < 0x10000 by decide) rectyp
      bytes
  have hColon :
      (ihexText n 0 rectyp bytes).getD 0 nul = ':' := by
    simp only [ihexText, List.cons_append]
    rfl
  rw [fmtAutodetect_line (by simp [ihexText]) ihexText_plain
    (by omega) (ihexText_ascii n 0 rectyp bytes)
    (by rw [hColon]; decide),
    if_pos hLooks]

/- Intel Hex is told from a first record. -/
theorem fmtAutodetect_ihex
    {inbuf : Nat → UInt8}
    {bufsize : Nat}
    {text : List Char}
    (hText :
      b2ihexLoop inbuf 32 bufsize 0 0 0 bufsize =
        some (bufsize, text)) :
    fmtAutodetect (text ++ ihexText 0 0 1 [] ++ ['\n']) =
      some .ihex := by
  by_cases hMore : 0 < bufsize
  · rcases b2ihexLoop_first (by decide) (by decide) hMore hText
      with ⟨rest, hFirst⟩
    rw [hFirst]
    simp only [List.append_assoc, List.cons_append]
    exact
      ihexText_detected (by omega) 0
        (by rw [Pages.read_length]; omega) _
  · have hNone : bufsize = 0 := by omega
    subst hNone
    rw [b2ihexLoop_zero] at hText
    cases hText
    exact ihexText_detected (by decide) 1 (by decide) []

theorem srecText_detected
    {digit : Char}
    (hTyped : Typed digit 2)
    (hDigit : isDigit digit = true)
    (hSmall : digit.toNat < 128)
    {bytes : List UInt8}
    (hFew : bytes.length ≤ 32)
    (rest : List Char) :
    fmtAutodetect (srecText digit 2 0 bytes ++ '\n' :: rest) =
      some .srec := by
  have hLength :=
    @srecText_length digit 2 0 bytes hTyped (by omega)
      (by decide)
  have hRoom : maxLineLen - 1 = 255 := rfl
  rcases srecText_looks hDigit 2 0 bytes (by omega) with
    ⟨hNotIhex, hLooks⟩
  have hS : (srecText digit 2 0 bytes).getD 0 nul = 'S' := by
    simp only [srecText, List.cons_append]
    rfl
  rw [fmtAutodetect_line (by simp [srecText])
    (srecText_plain hTyped) (by omega)
    (srecText_ascii hSmall 2 0 bytes)
    (by rw [hS]; decide),
    hNotIhex, if_neg (by simp), if_pos hLooks]

/- S-records are told from a first record. -/
theorem fmtAutodetect_srec
    {inbuf : Nat → UInt8}
    {bufsize : Nat}
    {text : List Char}
    (hText :
      b2srecLoop inbuf 32 bufsize 0 bufsize =
        some (bufsize, text)) :
    fmtAutodetect
        (text ++ srecText '9' (widthFor 0) 0 [] ++ ['\n']) =
      some .srec := by
  by_cases hMore : 0 < bufsize
  · obtain ⟨fuel, hFuel⟩ : ∃ fuel, bufsize = fuel + 1 :=
      ⟨bufsize - 1, by omega⟩
    rcases b2srecLoop_ends inbuf (show 0 < 32 by decide)
        (show bufsize - min 32 bufsize ≤ fuel by omega)
        (0 + min 32 bufsize) with
      ⟨rest, hRest⟩
    have hTurn :=
      b2srecLoop_turn (by decide) hMore hRest
    rw [← hFuel, hText, Option.some.injEq, Prod.mk.injEq]
      at hTurn
    have hWidth : widthFor (0 + min 32 bufsize) = 2 := by
      rw [widthFor, if_pos]
      omega
    rw [hTurn.2, srecTurn, hWidth]
    simp only [List.append_assoc, List.cons_append,
      List.nil_append]
    exact
      srecText_detected
        (typed_data (Nat.le_refl 2) (by decide)) (by decide)
        (by decide) (by rw [Pages.read_length]; omega) _
  · have hNone : bufsize = 0 := by omega
    subst hNone
    rw [b2srecLoop_zero] at hText
    cases hText
    exact
      srecText_detected typed_end (by decide) (by decide)
        (by decide) []

end Detect

------------------------------------------------------------
-- Round Trip
------------------------------------------------------------

/-
  A memory that shows `size` bytes of a buffer and is erased
  behind them.
-/
def TaggedMem.showing
    (m : TaggedMem)
    (size : Nat)
    (buf : Nat → UInt8) : TaggedMem :=
  m.cleared.fill 0 (Pages.read 0 size buf)

/- The code for it: flash memories end where they are erased. -/
def showingCode
    (m : TaggedMem)
    (size : Nat)
    (buf : Nat → UInt8) : Int :=
  if m.flashLike then avrMemHiaddr (m.showing size buf)
  else size

section RoundTrip

variable {size : Nat} {source target : TaggedMem}

/- The end is looked for where something was read. -/
theorem fileioRead_showing
    (locals : FileLocals)
    {format used : FileFmt}
    {filename : List Char}
    {bytes : List UInt8}
    (hUsed :
      fileioFormat format filename (some bytes) = some used)
    (hLoad :
      fileioLoad locals used filename bytes target.cleared =
        ((size : Int), target.showing size source.buf)) :
    fileioRead locals format filename (some bytes) target =
      (showingCode target size source.buf,
        target.showing size source.buf) := by
  have hSame :
      (target.showing size source.buf).flashLike =
        target.flashLike := rfl
  rw [fileioRead]
  simp only [hUsed, reduceCtorEq, and_false, if_false,
    Option.getD_some, hLoad, hSame, showingCode]
  by_cases hFlash : target.flashLike = true
  · rw [if_pos hFlash]
    by_cases hSome : 0 < (size : Int)
    · rw [if_pos ⟨hSome, hFlash⟩]
    · have hNone : size = 0 := by omega
      subst hNone
      have hErased :
          avrMemHiaddr (target.showing 0 source.buf) = 0 := by
        rw [TaggedMem.showing, Pages.read_zero,
          TaggedMem.fill_nil]
        apply hiaddrLoop_blank
        intro j hPos hLast
        have hSize : target.cleared.size = target.size := rfl
        rw [hSize] at hLast
        exact if_pos (by omega)
      rw [if_neg fun h => hSome h.1, hErased]
  · rw [if_neg fun h => hFlash h.2, if_neg hFlash]

/- What is read back of a file in one of three formats. -/
theorem fileioLoad_saved
    (locals : FileLocals)
    {format : FileFmt}
    (hFormat :
      format = .ihex ∨ format = .srec ∨ format = .rbin)
    (hFits : size ≤ target.size)
    (hSize : target.size ≤ 0xFFFFFF)
    (filename : List Char) :
    ∃ bytes,
      fileioSave format source size = ((size : Int), bytes) ∧
        fileioLoad locals format filename bytes
            target.cleared =
          ((size : Int), target.showing size source.buf) ∧
        (format ≠ .rbin →
          fmtAutodetect (textOf bytes) = some format) := by
  have hCleared : target.cleared.size = target.size := rfl
  have hLimit :
      (UInt32.ofNat target.size).toNat = target.size := by
    rw [UInt32.toNat_ofNat']
    omega
  have hPositive :
      ¬ (size : Int) < 0 :=
    Int.not_lt.mpr (Int.natCast_nonneg size)
  rcases hFormat with hFormat | hFormat | hFormat
  · subst hFormat
    rcases b2ihex_ends source.buf size (show 0 < 32 by decide)
        (by decide) with
      ⟨text, hText, hFile⟩
    have hAscii :
        Ascii (text ++ ihexText 0 0 1 [] ++ ['\n']) :=
      ((b2ihexLoop_ascii hText).append
        (ihexText_ascii 0 0 1 [])).append Ascii.newline
    refine
      ⟨bytesOf (text ++ ihexText 0 0 1 [] ++ ['\n']), ?_, ?_,
        ?_⟩
    · rw [fileioSave, writtenRecords, hFile]
      rfl
    · rw [fileioLoad, textOf_bytesOf hAscii,
        ihex2b_written (by decide) (by omega) hText _ _
          (by rw [hCleared, hLimit]; exact hFits)
          (by rw [hCleared, hLimit]; omega),
        orError, if_neg hPositive]
      rfl
    · intro _hText
      rw [textOf_bytesOf hAscii]
      exact fmtAutodetect_ihex hText
  · subst hFormat
    rcases b2srec_ends source.buf size 0
        (show 0 < 32 by decide) (by decide) with
      ⟨text, hText, hFile⟩
    have hAscii :
        Ascii
          (text ++ srecText '9' (widthFor 0) 0 [] ++ ['\n']) :=
      ((b2srecLoop_ascii hText).append
        (srecText_ascii (by decide) _ 0 [])).append
        Ascii.newline
    refine
      ⟨bytesOf
          (text ++ srecText '9' (widthFor 0) 0 [] ++ ['\n']),
        ?_, ?_, ?_⟩
    · rw [fileioSave, writtenRecords, hFile]
      rfl
    · rw [fileioLoad, textOf_bytesOf hAscii,
        show (0 : UInt32) = UInt32.ofNat 0 from rfl,
        srec2b_written (by decide) (by decide) (by omega) hText
          _ _ _ (by rw [hCleared, hLimit]; exact hFits),
        orError, if_neg hPositive]
      rfl
    · intro _hText
      rw [textOf_bytesOf hAscii]
      exact fmtAutodetect_srec hText
  · subst hFormat
    refine ⟨Pages.read 0 size source.buf, rfl, ?_, ?_⟩
    · have hAll :
          (Pages.read 0 size source.buf).take
              target.cleared.size =
            Pages.read 0 size source.buf := by
        apply List.take_of_length_le
        rw [Pages.read_length, hCleared]
        exact hFits
      rw [fileioLoad, fileioRbinRead, hAll]
      simp only [Pages.read_length]
      rfl
    · intro hOther
      exact absurd rfl hOther

/-
  An image saved as Intel Hex, S-records or raw binary is read
  back into any memory that is not smaller, which is erased
  elsewhere; the first two also if their format is to be
  found out.
-/
theorem fileio_roundTrip
    (locals : FileLocals)
    {format again : FileFmt}
    (hFormat :
      format = .ihex ∨ format = .srec ∨ format = .rbin)
    {filename : List Char}
    (hAgain :
      again = format ∨
        again = .auto ∧ format ≠ .rbin ∧ filename ≠ ['-'])
    (file : Option (List UInt8))
    (source : TaggedMem)
    {target : TaggedMem}
    {size : Nat}
    (hFits : size ≤ target.size)
    (hSize : target.size ≤ 0xFFFFFF) :
    let saved := fileioWrite format filename file source size
    saved.1.1 = (size : Int) ∧
      fileioRead locals again filename saved.2 target =
        (showingCode target size source.buf,
          target.showing size source.buf) := by
  rcases @fileioLoad_saved size
      { source with
        tags := fun j =>
          if j < size then false else source.tags j }
      target locals format hFormat hFits hSize filename with
    ⟨bytes, hSaved, hLoad, hDetect⟩
  have hNotAuto : format ≠ .auto := by
    rintro rfl
    simp at hFormat
  have hNotImm : format ≠ .imm := by
    rintro rfl
    simp at hFormat
  have hUsed (file : Option (List UInt8)) :
      fileioFormat format filename file = some format := by
    rw [fileioFormat, if_neg hNotAuto]
  rw [fileioWrite]
  simp only [hUsed, hSaved, if_neg hNotImm]
  refine ⟨trivial, ?_⟩
  rcases hAgain with hSame | ⟨hAuto, hText, hName⟩
  · subst hSame
    exact fileioRead_showing locals (hUsed _) hLoad
  · subst hAuto
    have hFound :
        fileioFormat .auto filename (some bytes) =
          some format := by
      rw [fileioFormat, if_pos rfl, if_neg hName]
      exact hDetect hText
    exact fileioRead_showing locals hFound hLoad

end RoundTrip

theorem fileio_roundTrip_seventy :
    let saved :=
      fileioWrite .srec ['a'] none
        (blankFlash.fill 0 (Pages.read 0 70 UInt8.ofNat)) 70
    saved.1.1 = 70 ∧
      fileioRead ⟨blankRec, fun _ _ => ' '⟩ .auto ['a'] saved.2
          blankFlash =
        (showingCode blankFlash 70
            (blankFlash.fill 0
              (Pages.read 0 70 UInt8.ofNat)).buf,
          blankFlash.showing 70
            (blankFlash.fill 0
              (Pages.read 0 70 UInt8.ofNat)).buf) :=
  fileio_roundTrip ⟨blankRec, fun _ _ => ' '⟩ (by decide)
    (by decide) none _ (by decide) (by decide)

end Lucax
