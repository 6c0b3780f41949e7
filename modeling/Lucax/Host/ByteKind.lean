import Lucax.Common.CStrings
import Lucax.Host.Completeness

/-
  How `lucax_write_byte` tells lock bits from fuses, with the
  bytes its string comparisons read.

  Key definitions include:
    * `Reads`, `memType`, `lucaxWriteByteReading`
    * `ByteWriteExact`

  Main declarations:
    * `memType_eq`
    * `lucaxWriteByteReading_eq`
    * `byteWriteExact_iff`
-/

------------------------------------------------------------
-- Reading the Description
------------------------------------------------------------

namespace Lucax

open CString

variable {ℓ : Type}

/-
  How far the string functions read `m->desc` and the local
  array `c`, as the number of bytes from the start.
-/
structure Reads where
  desc : Nat
  array : Nat
deriving DecidableEq, Repr

/- `m->desc`; what stands behind the NUL is not initialised. -/
def AvrMem.descCells
    (m : AvrMem)
    (beyond : Nat → Char) : Nat → Char :=
  cells (m.desc ++ [nul]) beyond

/-
  `mem_type`, `none` for a memory that is refused.  `behind`
  is the memory after `char c[4]`.
-/
def memType
    (m : AvrMem)
    (beyond behind : Nat → Char) : Option UInt16 × Reads :=
  let desc := m.descCells beyond
  let lock := strcmp desc lockDesc 0
  if lock.1 then (some 1, ⟨lock.2, 0⟩)
  else
    let c := strncpy desc 4 0
    let fuse := strcmp (cells c.1 behind) fuseDesc 0
    (if fuse.1 then some 0 else none,
      ⟨max lock.2 c.2, fuse.2⟩)

/- `lucax_write_byte` with what it reads. -/
def lucaxWriteByteReading
    (usb : Libusb ℓ)
    (m : AvrMem)
    (beyond behind : Nat → Char)
    (addr : UInt32)
    (value : UInt8)
    (l : ℓ) : (Int × Reads) × ℓ :=
  let kind := memType m beyond behind
  match kind.1 with
  | none => ((-1, kind.2), l)
  | some memType =>
      let sent :=
        usb.controlOut l
          (outRequest lucaxPdiNvmWriteByteReq memType
            value.toUInt16 4)
          (addressBytes (m.address addr))
      if sent.1 < 0 then ((-1, kind.2), sent.2)
      else ((0, kind.2), sent.2)

section Kind

variable (m : AvrMem) (beyond behind : Nat → Char)

/- `desc` is what stands before the NUL. -/
def AvrMem.Named : Prop := nul ∉ m.desc

variable {m}

theorem lockDesc_named : nul ∉ lockDesc := by decide

/- The first comparison reads `m->desc` up to its NUL. -/
theorem strcmp_lock
    (hNamed : m.Named) :
    (strcmp (m.descCells beyond) lockDesc 0).1 =
        decide (m.desc = lockDesc) ∧
      (strcmp (m.descCells beyond) lockDesc 0).2 ≤
        m.desc.length + 1 := by
  have hCompared :=
    strcmp_string lockDesc_named 0 m.desc hNamed
      (holdsAt_cells (m.desc ++ [nul]) beyond)
  rw [Nat.zero_add] at hCompared
  exact hCompared

/- So does the copy of its first four characters. -/
theorem strncpy_desc
    (hNamed : m.Named) :
    (strncpy (m.descCells beyond) 4 0).1 =
        (m.desc ++ List.replicate 4 nul).take 4 ∧
      (strncpy (m.descCells beyond) 4 0).2 ≤
        m.desc.length + 1 := by
  have hCopied :=
    strncpy_string 4 0 m.desc hNamed
      (holdsAt_cells (m.desc ++ [nul]) beyond)
  rw [Nat.zero_add] at hCopied
  exact hCopied

/- The copy is "fuse" for the names that begin with it. -/
theorem copy_eq_fuse_iff
    (desc : List Char) :
    (desc ++ List.replicate 4 nul).take 4 = fuseDesc ↔
      desc.take 4 = fuseDesc := by
  by_cases hLong : 4 ≤ desc.length
  · rw [List.take_append_of_le_length hLong]
  · have hShort : desc.length < 4 := Nat.not_le.mp hLong
    constructor
    · intro hCopy
      have hFilled :
          nul ∈ (desc ++ List.replicate 4 nul).take 4 := by
        rw [List.take_append, List.mem_append]
        right
        rw [List.take_replicate, List.mem_replicate]
        refine ⟨?_, rfl⟩
        omega
      rw [hCopy] at hFilled
      exact absurd hFilled (by decide)
    · intro hName
      have hLength := congrArg List.length hName
      rw [List.length_take] at hLength
      have hFour : fuseDesc.length = 4 := rfl
      omega

/-
  The second comparison leaves the array exactly for the
  names that begin with "fuse".
-/
theorem strcmp_fuse
    (hNamed : m.Named) :
    if m.desc.take 4 = fuseDesc then
      strcmp
          (cells (strncpy (m.descCells beyond) 4 0).1 behind)
          fuseDesc 0 =
        (decide (behind 0 = nul), 5)
    else
      (strcmp
          (cells (strncpy (m.descCells beyond) 4 0).1 behind)
          fuseDesc 0).1 = false ∧
        (strcmp
          (cells (strncpy (m.descCells beyond) 4 0).1 behind)
          fuseDesc 0).2 ≤ 4 := by
  have hCopy := (strncpy_desc beyond hNamed).1
  have hLength := strncpy_length (m.descCells beyond) 4 0
  generalize (strncpy (m.descCells beyond) 4 0).1 = c
    at hCopy hLength ⊢
  have hCompared :=
    strcmp_array fuseDesc 0 c hLength (holdsAt_cells c behind)
  rw [Nat.zero_add, cells_length, hLength] at hCompared
  have hSame : c = fuseDesc ↔ m.desc.take 4 = fuseDesc := by
    rw [hCopy]
    exact copy_eq_fuse_iff m.desc
  simp only [hSame] at hCompared
  exact hCompared

/- The byte behind the array as `lucaxWriteByte` takes it. -/
def behindByte (behind : Nat → Char) : UInt8 :=
  if behind 0 = nul then 0 else 1

theorem behindByte_eq_zero :
    behindByte behind = 0 ↔ behind 0 = nul := by
  unfold behindByte
  split
  · rename_i hEnd
    exact ⟨fun _ => hEnd, fun _ => rfl⟩
  · rename_i hSome
    constructor
    · intro hZero
      exact absurd hZero (by decide)
    · intro hEnd
      exact absurd hEnd hSome

/- What the comparisons find and how far they read. -/
theorem memType_eq
    (hNamed : m.Named) :
    (memType m beyond behind).1 =
        m.byteType (behindByte behind) ∧
      (memType m beyond behind).2.desc ≤ m.desc.length + 1 ∧
      ((memType m beyond behind).2.array ≤ 4 ↔
        m.desc.take 4 ≠ fuseDesc) := by
  have hLock := strcmp_lock beyond hNamed
  have hCopy := (strncpy_desc beyond hNamed).2
  have hFuse := strcmp_fuse beyond behind hNamed
  rw [memType]
  simp only
  by_cases hIsLock : m.desc = lockDesc
  · have hFound :
        (strcmp (m.descCells beyond) lockDesc 0).1 = true := by
      rw [hLock.1]
      exact decide_eq_true hIsLock
    rw [if_pos hFound]
    refine ⟨?_, hLock.2, ?_⟩
    · rw [AvrMem.byteType, if_pos hIsLock]
    · refine ⟨fun _ => ?_, fun _ => Nat.zero_le 4⟩
      rw [hIsLock]
      decide
  · have hNot :
        ¬ (strcmp (m.descCells beyond) lockDesc 0).1 = true := by
      rw [hLock.1]
      simpa using hIsLock
    rw [if_neg hNot]
    refine ⟨?_, ?_, ?_⟩
    · rw [AvrMem.byteType, if_neg hIsLock]
      by_cases hIsFuse : m.desc.take 4 = fuseDesc
      · rw [if_pos hIsFuse] at hFuse
        rw [hFuse]
        simp only [decide_eq_true_eq, hIsFuse, true_and,
          behindByte_eq_zero]
      · rw [if_neg hIsFuse] at hFuse
        rw [hFuse.1]
        simp [hIsFuse]
    · exact Nat.max_le.mpr ⟨hLock.2, hCopy⟩
    · by_cases hIsFuse : m.desc.take 4 = fuseDesc
      · rw [if_pos hIsFuse] at hFuse
        rw [hFuse]
        constructor
        · intro hInside
          exact absurd hInside (show ¬ 5 ≤ 4 by decide)
        · intro hOther
          exact absurd hIsFuse hOther
      · rw [if_neg hIsFuse] at hFuse
        exact ⟨fun _ => hIsFuse, fun _ => hFuse.2⟩

end Kind

------------------------------------------------------------
-- The Call
------------------------------------------------------------

section Call

variable
  (usb : Libusb ℓ)
  (m : AvrMem)
  (beyond behind : Nat → Char)
  (addr : UInt32)
  (value : UInt8)
  (l : ℓ)

/- Apart from what it reads it is `lucax_write_byte`. -/
theorem lucaxWriteByteReading_eq
    (hNamed : m.Named) :
    ((lucaxWriteByteReading usb m beyond behind addr value
          l).1.1,
        (lucaxWriteByteReading usb m beyond behind addr value
          l).2) =
      lucaxWriteByte usb m (behindByte behind) addr value l := by
  rw [lucaxWriteByteReading, lucaxWriteByte,
    ← (memType_eq beyond behind hNamed).1]
  simp only
  cases (memType m beyond behind).1 with
  | none => rfl
  | some kind =>
      simp only
      split
      · rfl
      · rfl

/- A single `NVM_WRITE_BYTE` request of the kind `memType`. -/
def requested (memType : UInt16) : Record :=
  Record.empty.addControl (writeByteRequest memType value)
    (addressBytes (m.address addr))

/-
  The call reads no byte that is not initialised, asks for
  lock bits and for fuses exactly by their names, and leaves
  every other memory alone.
-/
structure ByteWriteExact : Prop where
  reads :
    let out :=
      lucaxWriteByteReading usb.recorded m beyond behind addr
        value (l, Record.empty)
    out.1.2.desc ≤ m.desc.length + 1 ∧ out.1.2.array ≤ 4
  lock :
    let out :=
      lucaxWriteByteReading usb.recorded m beyond behind addr
        value (l, Record.empty)
    out.2.2 = requested m addr value 1 ↔ m.desc = lockDesc
  fuse :
    let out :=
      lucaxWriteByteReading usb.recorded m beyond behind addr
        value (l, Record.empty)
    out.2.2 = requested m addr value 0 ↔
      m.desc.take 4 = fuseDesc
  other :
    let out :=
      lucaxWriteByteReading usb.recorded m beyond behind addr
        value (l, Record.empty)
    m.desc ≠ lockDesc → m.desc.take 4 ≠ fuseDesc →
      out.1.1 = -1 ∧ out.2.2 = Record.empty

/- The two kinds of request, and none, are told apart. -/
theorem requested_inj
    {kind kind' : UInt16} :
    requested m addr value kind = requested m addr value kind' ↔
      kind = kind' := by
  simp [requested, Record.addControl, Record.empty,
    writeByteRequest, outRequest]

theorem requested_ne_empty
    (kind : UInt16) :
    requested m addr value kind ≠ Record.empty := by
  simp [requested, Record.addControl, Record.empty]

/- What the call reads and what it sends. -/
theorem reading_reads :
    (lucaxWriteByteReading usb m beyond behind addr value
      l).1.2 = (memType m beyond behind).2 := by
  rw [lucaxWriteByteReading]
  simp only
  cases (memType m beyond behind).1 with
  | none => rfl
  | some kind =>
      simp only
      split
      · rfl
      · rfl

theorem reading_record :
    (lucaxWriteByteReading usb.recorded m beyond behind addr
      value (l, Record.empty)).2.2 =
      (memType m beyond behind).1.elim Record.empty
        (requested m addr value) := by
  rw [lucaxWriteByteReading]
  simp only
  cases (memType m beyond behind).1 with
  | none => rfl
  | some kind =>
      simp only
      split
      · rfl
      · rfl

theorem reading_refused
    (hNone : (memType m beyond behind).1 = none) :
    lucaxWriteByteReading usb m beyond behind addr value l =
      ((-1, (memType m beyond behind).2), l) := by
  rw [lucaxWriteByteReading]
  simp only [hNone]

/- A name that begins with "fuse" is left to chance. -/
theorem reading_fuse
    (hNamed : m.Named)
    (hFuse : m.desc.take 4 = fuseDesc) :
    (lucaxWriteByteReading usb.recorded m beyond behind addr
      value (l, Record.empty)).2.2 =
      if behind 0 = nul then requested m addr value 0
      else Record.empty := by
  have hNotLock : m.desc ≠ lockDesc := by
    intro hLock
    rw [hLock] at hFuse
    exact absurd hFuse (by decide)
  rw [reading_record, (memType_eq beyond behind hNamed).1,
    AvrMem.byteType, if_neg hNotLock]
  simp only [hFuse, true_and, behindByte_eq_zero]
  by_cases hEnd : behind 0 = nul
  · rw [if_pos hEnd, if_pos hEnd]
    rfl
  · rw [if_neg hEnd, if_neg hEnd]
    rfl

/-
  The classification is exact and reads only what is
  initialised exactly for the names that do not begin with
  "fuse".
-/
theorem byteWriteExact_iff
    (hNamed : m.Named) :
    ByteWriteExact usb m beyond behind addr value l ↔
      m.desc.take 4 ≠ fuseDesc := by
  have hKind := memType_eq beyond behind hNamed
  have hRecord := reading_record usb m beyond behind addr value l
  constructor
  · intro hExact
    have hArray := hExact.reads.2
    rw [reading_reads] at hArray
    exact hKind.2.2.mp hArray
  · intro hOther
    rw [hKind.1, AvrMem.byteType] at hRecord
    by_cases hLock : m.desc = lockDesc
    · rw [if_pos hLock] at hRecord
      have hAsked :
          (lucaxWriteByteReading usb.recorded m beyond behind
            addr value (l, Record.empty)).2.2 =
            requested m addr value 1 := hRecord
      refine ⟨?_, ?_, ?_, ?_⟩
      · simp only [reading_reads]
        exact ⟨hKind.2.1, hKind.2.2.mpr hOther⟩
      · exact ⟨fun _ => hLock, fun _ => hAsked⟩
      · simp only [hAsked, requested_inj]
        constructor
        · intro hSame
          exact absurd hSame (by decide)
        · intro hFuse
          exact absurd hFuse hOther
      · intro _out hNot
        exact absurd hLock hNot
    · have hNone : (memType m beyond behind).1 = none := by
        rw [hKind.1, AvrMem.byteType, if_neg hLock,
          if_neg (fun hBoth => hOther hBoth.1)]
      have hRefused :=
        reading_refused usb.recorded m beyond behind addr value
          (l, Record.empty) hNone
      have hNothing :=
        congrArg
          (fun out : (Int × Reads) × (ℓ × Record) => out.2.2)
          hRefused
      simp only at hNothing
      refine ⟨?_, ?_, ?_, ?_⟩
      · simp only [reading_reads]
        exact ⟨hKind.2.1, hKind.2.2.mpr hOther⟩
      · simp only [hNothing]
        constructor
        · intro hSame
          exact absurd hSame.symm (requested_ne_empty _ _ _ _)
        · intro hName
          exact absurd hName hLock
      · simp only [hNothing]
        constructor
        · intro hSame
          exact absurd hSame.symm (requested_ne_empty _ _ _ _)
        · intro hName
          exact absurd hName hOther
      · intro _out _hNotLock _hNotFuse
        exact ⟨congrArg (fun out => out.1.1) hRefused, hNothing⟩

end Call

/- avrdude.conf: the lock bits and a fuse byte. -/
def lockBits : AvrMem where
  desc := lockDesc
  offset := 0x008F0027
  buf := fun _ => 0xFF

def fuse1 : AvrMem where
  desc := ['f', 'u', 's', 'e', '1']
  offset := 0x008F0021
  buf := fun _ => 0xFF

theorem byteWriteExact_iff_lock :
    ByteWriteExact emptyUsb lockBits (fun _ => nul)
        (fun _ => 'x') 0 0xFC () ↔
      lockBits.desc.take 4 ≠ fuseDesc :=
  byteWriteExact_iff emptyUsb lockBits (fun _ => nul)
    (fun _ => 'x') 0 0xFC () lockDesc_named

/- The comparison reads the byte behind the copy of "fuse". -/
theorem not_byteWriteExact_fuse1 :
    ¬ ByteWriteExact emptyUsb fuse1 (fun _ => nul)
      (fun _ => 'x') 0 0xFE () := by
  intro hExact
  exact absurd hExact.reads.2 (by decide)

end Lucax
