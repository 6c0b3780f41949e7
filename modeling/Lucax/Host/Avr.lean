import Lucax.Files.Records

/-
  Whole memories of a part (avr.c): reading, writing and
  verifying, over an arbitrary programmer.

  Key definitions include:
    * `Programmer`
    * `avrMemHiaddr`, `avrLocateMem`
    * `avrRead`, `avrWrite`, `avrVerify`

  Main declarations:
    * `hiaddrLoop_spec`, `hiaddrLoop_shown`
    * `avrVerify_iff`, `avrWrite_code`
-/

------------------------------------------------------------
-- Programmers
------------------------------------------------------------

namespace Lucax

/- The memory with other bytes at `m->buf`. -/
def TaggedMem.withBuf
    (buf : Nat → UInt8)
    (m : TaggedMem) : TaggedMem :=
  { m with buf := buf }

/-
  avrdude: the operations of `PROGRAMMER` that whole memories
  are moved with, those that may be missing as options.
  `pagedLoad` and `readSigBytes` leave what is at `m->buf`
  then, and `readByte` what is in `*value`.  `writePage` is
  `avr_write_page`, which goes through `cmd` and fails without
  it.
-/
structure Programmer (σ : Type) where
  pagedLoad :
    Option
      (TaggedMem → Nat → Nat → σ → (Int × (Nat → UInt8)) × σ)
  pagedWrite : Option (TaggedMem → Nat → Nat → σ → Int × σ)
  pageErase : TaggedMem → Nat → σ → Int × σ
  readByte : TaggedMem → Nat → UInt8 → σ → (Int × UInt8) × σ
  writeByte : TaggedMem → Nat → UInt8 → σ → Int × σ
  writePage : TaggedMem → Nat → σ → Int × σ
  readSigBytes :
    Option (TaggedMem → σ → (Int × (Nat → UInt8)) × σ)
  writeSetup : Option (TaggedMem → σ → σ)

------------------------------------------------------------
-- Memories
------------------------------------------------------------

/- `strcasecmp(a, b) == 0` -/
def strcasecmpEq (a b : List Char) : Bool :=
  a.map Char.toLower = b.map Char.toLower

/- The memories whose erased end is not kept in files. -/
def TaggedMem.flashLike (m : TaggedMem) : Bool :=
  [flashDesc, "application".toList, "apptable".toList,
    "boot".toList].any fun name => strcasecmpEq m.desc name

def signatureDesc : List Char := "signature".toList

/-
  The loop of `avr_mem_hiaddr`, which never comes to the first
  byte.
-/
def hiaddrLoop (buf : Nat → UInt8) : Nat → Nat
| 0 => 0
| i + 1 =>
    if buf (i + 1) ≠ 0xFF then
      let n := i + 1 + 1
      if n &&& 0x01 ≠ 0 then n + 1 else n
    else hiaddrLoop buf i

def avrMemHiaddr (m : TaggedMem) : Nat :=
  hiaddrLoop m.buf (m.size - 1)

/-
  avrpart.c: the only memory whose name begins with `desc`,
  with its place in `p->mem`.
-/
def avrLocateMem
    (p : List TaggedMem)
    (desc : List Char) : Option (TaggedMem × Nat) :=
  match p.zipIdx.filter fun m => desc.isPrefixOf m.1.desc with
  | [m] => some m
  | _ => none

section Memories

variable {σ : Type} (pgm : Programmer σ)

------------------------------------------------------------
-- Reading
------------------------------------------------------------

/-
  What is read: all of it, or with `v` what is tagged there.
-/
def needed (v : Option (Nat → Bool)) (i : Nat) : Bool :=
  v.all fun tags => tags i

/- Whether something is needed in a page. -/
def pageNeeded
    (v : Option (Nat → Bool))
    (pageaddr pageSize : Nat) : Bool :=
  (List.range' pageaddr pageSize).any (needed v)

/-
  The loop over the pages; whether none failed comes first.
  A turn moves on by a page, so `size` turns are enough.
-/
def readPages
    (load :
      TaggedMem → Nat → Nat → σ → (Int × (Nat → UInt8)) × σ)
    (v : Option (Nat → Bool)) :
    Nat → Nat → TaggedMem → σ → (Bool × TaggedMem) × σ
| 0, _, m, s => ((true, m), s)
| fuel + 1, pageaddr, m, s =>
    if pageaddr < m.size then
      if pageNeeded v pageaddr m.pageSize then
        let out := load m pageaddr m.pageSize s
        let m := m.withBuf out.1.2
        if out.1.1 < 0 then ((false, m), out.2)
        else
          readPages load v fuel (pageaddr + m.pageSize) m out.2
      else readPages load v fuel (pageaddr + m.pageSize) m s
    else ((true, m), s)

/- The bytes read, or where they end for flash memories. -/
def readCode (m : TaggedMem) : Int :=
  if m.flashLike then avrMemHiaddr m else m.size

/- The loop over single bytes. -/
def readBytes
    (v : Option (Nat → Bool)) :
    Nat → Nat → TaggedMem → σ → (Int × TaggedMem) × σ
| 0, _, m, s => ((readCode m, m), s)
| left + 1, i, m, s =>
    if needed v i then
      let out := pgm.readByte m i (m.buf i) s
      let m := m.withBuf (Pages.set i out.1.2 m.buf)
      if out.1.1 ≠ 0 then ((-2, m), out.2)
      else readBytes v left (i + 1) m out.2
    else readBytes v left (i + 1) m s

/- What `avr_read` does where pages are not or badly loaded. -/
def readRest
    (v : Option (Nat → Bool))
    (m : TaggedMem)
    (s : σ) : (Int × TaggedMem) × σ :=
  match
    pgm.readSigBytes.filter fun _ => m.desc = signatureDesc with
  | some readSig =>
      let out := readSig m s
      ((out.1.1, m.withBuf out.1.2), out.2)
  | none => readBytes pgm v m.size 0 m s

/- `memset(mem->buf, 0xff, mem->size)` -/
def TaggedMem.blank (m : TaggedMem) : TaggedMem :=
  m.withBuf fun j => if j < m.size then 0xFF else m.buf j

def avrRead
    (m : TaggedMem)
    (v : Option (Nat → Bool))
    (s : σ) : (Int × TaggedMem) × σ :=
  match pgm.pagedLoad.filter fun _ => m.pageSize ≠ 0 with
  | some load =>
      let out := readPages load v m.size 0 m.blank s
      if out.1.1 then ((readCode out.1.2, out.1.2), out.2)
      else readRest pgm v out.1.2 out.2
  | none => readRest pgm v m.blank s

------------------------------------------------------------
-- Writing
------------------------------------------------------------

/- Whether something in a page is to be written. -/
def pageTagged (m : TaggedMem) (pageaddr : Nat) : Bool :=
  (List.range' pageaddr m.pageSize).any m.tags

/- The loop over the pages; whether none failed comes first. -/
def writePages
    (write : TaggedMem → Nat → Nat → σ → Int × σ)
    (autoErase : Bool)
    (m : TaggedMem)
    (wsize : Nat) :
    Nat → Nat → σ → Bool × σ
| 0, _, s => (true, s)
| fuel + 1, pageaddr, s =>
    if pageaddr < wsize then
      if pageTagged m pageaddr then
        let erased :=
          if autoErase then pgm.pageErase m pageaddr s
          else (0, s)
        if erased.1 < 0 then (false, erased.2) else
        let out := write m pageaddr m.pageSize erased.2
        if out.1 < 0 then (false, out.2)
        else
          writePages write autoErase m wsize fuel
            (pageaddr + m.pageSize) out.2
      else
        writePages write autoErase m wsize fuel
          (pageaddr + m.pageSize) s
    else (true, s)

/-
  The loop over single bytes, with `newpage` and
  `page_tainted`, which only a paged memory looks at.
  `werror` keeps no more than a lamp on.
-/
def writeBytes
    (m : TaggedMem)
    (wsize : Nat) :
    Nat → Nat → Bool → Bool → σ → Int × σ
| 0, i, _, _, s => (i, s)
| left + 1, i, newpage, pageTainted, s =>
    let doWrite := m.tags i
    let pageTainted :=
      if newpage then doWrite else pageTainted || doWrite
    let lastByte : Bool :=
      i % m.pageSize = m.pageSize - 1 ∨ i = wsize - 1
    let flushPage := m.paged && lastByte && pageTainted
    let s :=
      if doWrite then (pgm.writeByte m i (m.buf i) s).2 else s
    let s :=
      if flushPage then (pgm.writePage m i s).2 else s
    writeBytes m wsize left (i + 1) lastByte pageTainted s

def avrWrite
    (m : TaggedMem)
    (size : Nat)
    (autoErase : Bool)
    (s : σ) : Int × σ :=
  let wsize := min size m.size
  let setup (s : σ) : σ :=
    pgm.writeSetup.elim s fun setup => setup m s
  match pgm.pagedWrite.filter fun _ => m.pageSize ≠ 0 with
  | some write =>
      let out :=
        writePages pgm write autoErase m wsize wsize 0 s
      if out.1 then (wsize, out.2)
      else
        writeBytes pgm m wsize wsize 0 true false (setup out.2)
  | none => writeBytes pgm m wsize wsize 0 true false (setup s)

end Memories

------------------------------------------------------------
-- Verifying
------------------------------------------------------------

/- The loop up to the first tagged byte that differs. -/
def firstMismatch
    (a b : TaggedMem) :
    Nat → Nat → Option Nat
| 0, _ => none
| left + 1, i =>
    if b.tags i = true ∧ a.buf i ≠ b.buf i then some i
    else firstMismatch a b left (i + 1)

/- `a` is the memory of `p` and `b` that of `v`. -/
def avrVerify (a b : TaggedMem) (size : Nat) : Int :=
  let size := if a.size < size then a.size else size
  match firstMismatch a b size 0 with
  | some _ => -1
  | none => size

------------------------------------------------------------
-- Ends of Memories
------------------------------------------------------------

/-
  Where a memory ends for a file: an even place with nothing
  but 0xFF from it on, unless the only other byte is the
  first.
-/
theorem hiaddrLoop_spec
    (buf : Nat → UInt8)
    (i : Nat) :
    hiaddrLoop buf i ≤ i + 2 ∧
      hiaddrLoop buf i % 2 = 0 ∧
      ∀ j, 0 < j → j ≤ i → hiaddrLoop buf i ≤ j →
        buf j = 0xFF := by
  induction i with
  | zero =>
      refine ⟨by simp [hiaddrLoop], rfl, ?_⟩
      intro j hSome hLast
      omega
  | succ i ih =>
      rcases ih with ⟨hMost, hEven, hBlank⟩
      by_cases hShown : buf (i + 1) ≠ 0xFF
      · have hBit : (i + 1 + 1) &&& 1 = (i + 1 + 1) % 2 :=
          Nat.and_one_is_mod _
        rw [hiaddrLoop, if_pos hShown]
        simp only [hBit]
        split <;> exact ⟨by omega, by omega, by omega⟩
      · rw [hiaddrLoop, if_neg hShown]
        refine ⟨by omega, hEven, ?_⟩
        intro j hSome hLast hAbove
        by_cases hHere : j = i + 1
        · rw [hHere]
          exact not_not.mp hShown
        · exact hBlank j hSome (by omega) hAbove

/- Only a byte that is shown moves the end. -/
theorem hiaddrLoop_shown
    (buf : Nat → UInt8)
    (i : Nat)
    (hSome : hiaddrLoop buf i ≠ 0) :
    ∃ j, 0 < j ∧ j ≤ i ∧ j < hiaddrLoop buf i ∧
      hiaddrLoop buf i ≤ j + 2 ∧ buf j ≠ 0xFF := by
  induction i with
  | zero => exact absurd rfl hSome
  | succ i ih =>
      by_cases hShown : buf (i + 1) ≠ 0xFF
      · refine ⟨i + 1, by omega, Nat.le_refl _, ?_, ?_, hShown⟩
        all_goals
          rw [hiaddrLoop, if_pos hShown]
          simp only
          split <;> omega
      · rw [hiaddrLoop, if_neg hShown] at hSome ⊢
        rcases ih hSome with ⟨j, hPos, hLast, hRest⟩
        exact ⟨j, hPos, by omega, hRest⟩

/- A memory that shows nothing behind its first byte. -/
theorem hiaddrLoop_blank
    {buf : Nat → UInt8}
    {i : Nat}
    (hBlank : ∀ j, 0 < j → j ≤ i → buf j = 0xFF) :
    hiaddrLoop buf i = 0 := by
  by_contra hSome
  rcases hiaddrLoop_shown buf i hSome with
    ⟨j, hPos, hLast, _hBelow, _hEnd, hShown⟩
  exact hShown (hBlank j hPos hLast)

theorem hiaddrLoop_congr
    {buf buf' : Nat → UInt8}
    {i : Nat}
    (hSame : ∀ j, 0 < j → j ≤ i → buf j = buf' j) :
    hiaddrLoop buf i = hiaddrLoop buf' i := by
  induction i with
  | zero => rfl
  | succ i ih =>
      rw [hiaddrLoop, hiaddrLoop, hSame (i + 1) (by omega)
        (Nat.le_refl _), ih fun j hSome hLast =>
          hSame j hSome (by omega)]

------------------------------------------------------------
-- Codes
------------------------------------------------------------

theorem firstMismatch_none
    {a b : TaggedMem}
    {left i : Nat} :
    firstMismatch a b left i = none ↔
      ∀ j, i ≤ j → j < i + left → b.tags j = true →
        a.buf j = b.buf j := by
  induction left generalizing i with
  | zero =>
      refine iff_of_true rfl ?_
      intro j hFrom hBelow
      omega
  | succ left ih =>
      by_cases hHere : b.tags i = true ∧ a.buf i ≠ b.buf i
      · rw [firstMismatch, if_pos hHere]
        refine iff_of_false (Option.some_ne_none i) ?_
        intro hAll
        exact hHere.2
          (hAll i (Nat.le_refl i) (by omega) hHere.1)
      · rw [firstMismatch, if_neg hHere, ih]
        constructor
        · intro hAll j hFrom hBelow hTag
          by_cases hFirst : j = i
          · subst hFirst
            by_contra hOther
            exact hHere ⟨hTag, hOther⟩
          · exact hAll j (by omega) (by omega) hTag
        · intro hAll j hFrom hBelow hTag
          exact hAll j (by omega) (by omega) hTag

/-
  Verifying succeeds on equal tagged bytes below `size` that
  the memory has.
-/
theorem avrVerify_iff
    (a b : TaggedMem)
    (size : Nat) :
    0 ≤ avrVerify a b size ↔
      ∀ j < min size a.size, b.tags j = true →
        a.buf j = b.buf j := by
  have hSize :
      (if a.size < size then a.size else size) =
        min size a.size := by
    split <;> omega
  have hNone :=
    @firstMismatch_none a b (min size a.size) 0
  rw [Nat.zero_add] at hNone
  have hLoop :
      firstMismatch a b (min size a.size) 0 = none ↔
        ∀ j < min size a.size, b.tags j = true →
          a.buf j = b.buf j := by
    rw [hNone]
    exact ⟨fun hAll j => hAll j (Nat.zero_le j),
      fun hAll j _hFrom => hAll j⟩
  rw [← hLoop, avrVerify, hSize]
  cases firstMismatch a b (min size a.size) 0 with
  | none => exact iff_of_true (Int.natCast_nonneg _) rfl
  | some j => exact iff_of_false (by simp) (by simp)

section Write

variable {σ : Type} (pgm : Programmer σ) (m : TaggedMem)

theorem writeBytes_code
    (wsize left i : Nat)
    (newpage pageTainted : Bool)
    (s : σ) :
    (writeBytes pgm m wsize left i newpage pageTainted s).1 =
      ((i + left : Nat) : Int) := by
  induction left generalizing i newpage pageTainted s with
  | zero => rfl
  | succ left ih =>
      rw [writeBytes, ih]
      congr 1
      omega

/-
  Whatever the operations of the programmer return, the code
  is that of a write without errors.
-/
theorem avrWrite_code
    (size : Nat)
    (autoErase : Bool)
    (s : σ) :
    (avrWrite pgm m size autoErase s).1 =
      ((min size m.size : Nat) : Int) := by
  rw [avrWrite]
  split
  · simp only
    split
    · rfl
    · rw [writeBytes_code, Nat.zero_add]
  · simp only
    rw [writeBytes_code, Nat.zero_add]

end Write

end Lucax
