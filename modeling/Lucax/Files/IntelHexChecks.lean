import Lucax.Files.IntelHexRoundTrip

/-
  What the checksum of a record is good for: a record with one
  byte changed, its length apart, is refused.

  Key definitions include:
    * `ihexLine`, `WellFormed`
    * `ihexFile`

  Main declarations:
    * `ihexReadrec_line`
    * `b2ihexLoop_lines`
    * `b2ihex_corrupt`
-/

------------------------------------------------------------
-- Records as Bytes
------------------------------------------------------------

namespace Lucax

open CString Numerals

/- A record is a colon and the digits of its bytes. -/
def ihexLine (fields : List UInt8) : List Char :=
  ':' :: hexBytes fields

/-
  The length, two bytes of the address, the type, as many
  bytes as the length says, and the checksum.
-/
def WellFormed (fields : List UInt8) : Prop :=
  ∃ len hi lo typ data ck,
    fields = len :: hi :: lo :: typ :: (data ++ [ck]) ∧
      data.length = len.toNat

/- A file of such lines. -/
def ihexFile (records : List (List UInt8)) : List Char :=
  records.flatMap fun fields => ihexLine fields ++ ['\n']

section Bytes

theorem hexBytes_singleton
    (b : UInt8) :
    hexBytes [b] = upperHex 2 b.toNat := by
  simp [hexBytes]

/- Two bytes are the four digits of an address. -/
theorem hexBytes_two
    (hi lo : UInt8) :
    hexBytes [hi, lo] =
      upperHex 4 (hi.toNat * 256 + lo.toNat) := by
  have hLow := lo.toNat_lt
  have hQuot :
      (hi.toNat * 256 + lo.toNat) / 256 = hi.toNat := by
    omega
  have hRem : (hi.toNat * 256 + lo.toNat) % 256 = lo.toNat := by
    omega
  rw [upperHex_byte (by decide), hQuot, hRem]
  simp [hexBytes]

theorem offsetSum_two
    (hi lo : UInt8) :
    offsetSum (UInt32.ofNat (hi.toNat * 256 + lo.toNat)) =
      hi + lo := by
  have hHigh := hi.toNat_lt
  have hLow := lo.toNat_lt
  have hFirst :
      (UInt32.ofNat (hi.toNat * 256 + lo.toNat) >>> 8).toUInt8 =
        hi := by
    apply UInt8.toNat_inj.mp
    have hShift : (8 : UInt32).toNat % 32 = 8 := rfl
    rw [UInt32.toNat_toUInt8, UInt32.toNat_shiftRight,
      UInt32.toNat_ofNat', hShift, Nat.shiftRight_eq_div_pow]
    omega
  have hSecond :
      (UInt32.ofNat (hi.toNat * 256 + lo.toNat)).toUInt8 =
        lo := by
    apply UInt8.toNat_inj.mp
    rw [UInt32.toNat_toUInt8, UInt32.toNat_ofNat']
    omega
  rw [offsetSum, hFirst, hSecond]

theorem ihexLine_plain
    (fields : List UInt8) :
    Plain (ihexLine fields) := by
  have hColon : Plain [':'] := by
    constructor
    · decide
    · decide
  exact hColon.append (Plain.hexBytes fields)

theorem ihexLine_length
    (fields : List UInt8) :
    (ihexLine fields).length = 1 + 2 * fields.length := by
  rw [ihexLine, List.length_cons, hexBytes_length]
  omega

/-
  A well-formed record is read, and its checksum is right
  exactly if its bytes sum to 0.
-/
theorem ihexReadrec_line
    {fields : List UInt8}
    (hForm : WellFormed fields)
    (ihex : IhexRec) :
    ∃ rc read,
      ihexReadrec ihex (ihexLine fields) = some (rc, read) ∧
        (rc = read.cksum ↔ fields.sum = 0) ∧
        fields[3]? = some read.rectyp := by
  rcases hForm with ⟨len, hi, lo, typ, data, ck, hFields, hLen⟩
  subst hFields
  have hHigh := hi.toNat_lt
  have hLow := lo.toNat_lt
  have hMax : (0x10000 : Nat) ≤ ulongMax := by decide
  have hText :
      ihexLine (len :: hi :: lo :: typ :: (data ++ [ck])) =
        ':' :: (upperHex 2 len.toNat ++
          (upperHex 4 (hi.toNat * 256 + lo.toNat) ++
            (upperHex 2 typ.toNat ++
              (hexBytes data ++ upperHex 2 ck.toNat)))) := by
    rw [← hexBytes_two, ← hexBytes_singleton ck]
    simp [ihexLine, hexBytes]
  have hEnd :
      hexField 2 (upperHex 2 ck.toNat) =
          some (ck.toNat, []) := by
    have hByte := hexField_byte ck []
    rwa [List.append_nil] at hByte
  have hData := dataFields_hexBytes data (upperHex 2 ck.toNat)
  rw [hLen] at hData
  have hRead :
      ihexReadrec ihex
          (ihexLine
            (len :: hi :: lo :: typ :: (data ++ [ck]))) =
        some
          (-(len + (hi + lo) + typ + data.sum),
            { reclen := len
              loadofs :=
                UInt32.ofNat (hi.toNat * 256 + lo.toNat)
              rectyp := typ
              data := Pages.put 0 data ihex.data
              cksum := ck }) := by
    rw [ihexReadrec, hText]
    simp only [List.drop_succ_cons, List.drop_zero,
      hexField_byte, Option.bind_eq_bind, Option.bind_some,
      @hexField_upperHex 4 (hi.toNat * 256 + lo.toNat)
          (by decide) (by omega) (by omega),
      UInt8.ofNat_toNat, hData, hEnd, offsetSum_two]
  refine ⟨_, _, hRead, ?_, rfl⟩
  have hSum :
      (len :: hi :: lo :: typ :: (data ++ [ck])).sum =
        len + (hi + (lo + (typ + (data.sum + ck)))) := by
    simp
  rw [hSum]
  constructor
  · intro hSame
    simp only at hSame
    grind
  · intro hZero
    simp only
    grind

/- Replacing a byte changes the sum by the difference. -/
theorem sum_set
    {fields : List UInt8}
    {i : Nat}
    {b : UInt8}
    (hThere : fields[i]? = some b)
    (b' : UInt8) :
    (fields.set i b').sum + b = fields.sum + b' := by
  induction fields generalizing i with
  | nil => exact absurd hThere (by simp)
  | cons f fields ih =>
      cases i with
      | zero =>
          rw [List.getElem?_cons_zero, Option.some.injEq]
            at hThere
          rw [List.set_cons_zero, List.sum_cons, List.sum_cons,
            hThere]
          grind
      | succ i =>
          rw [List.getElem?_cons_succ] at hThere
          have hRest := ih hThere
          rw [List.set_cons_succ, List.sum_cons, List.sum_cons]
          grind

/- A byte behind the length leaves the record well-formed. -/
theorem WellFormed.set
    {fields : List UInt8}
    (hForm : WellFormed fields)
    {i : Nat}
    (hBehind : 0 < i)
    (b' : UInt8) :
    WellFormed (fields.set i b') := by
  rcases hForm with ⟨len, hi, lo, typ, data, ck, hFields, hLen⟩
  subst hFields
  rcases i with _ | _ | _ | _ | i
  · exact absurd hBehind (by decide)
  · exact ⟨len, b', lo, typ, data, ck, rfl, hLen⟩
  · exact ⟨len, hi, b', typ, data, ck, rfl, hLen⟩
  · exact ⟨len, hi, lo, b', data, ck, rfl, hLen⟩
  · simp only [List.set_cons_succ]
    by_cases hIn : i < data.length
    · refine
        ⟨len, hi, lo, typ, data.set i b', ck, ?_,
          by rw [List.length_set, hLen]⟩
      rw [List.set_append_left _ _ hIn]
    · rw [List.set_append_right _ _ (Nat.not_lt.mp hIn)]
      cases i - data.length with
      | zero =>
          exact ⟨len, hi, lo, typ, data, b', rfl, hLen⟩
      | succ k =>
          exact ⟨len, hi, lo, typ, data, ck, rfl, hLen⟩

end Bytes

------------------------------------------------------------
-- Refused Files
------------------------------------------------------------

/- A record that a file goes on behind, and fits in a line. -/
structure Inner (fields : List UInt8) : Prop where
  form : WellFormed fields
  goesOn : fields[3]? ≠ some 1
  short : fields.length ≤ 127

section Refused

variable {bufsize fileoffset : UInt32}
variable {fields : List UInt8}

theorem ihexLine_head :
    (bufferString (ihexLine fields)).head? = some ':' := by
  rw [bufferString_plain (ihexLine_plain fields)]
  rfl

/- A record whose bytes do not sum to 0 ends the loop. -/
theorem ihexStep_refused
    (hForm : WellFormed fields)
    (hSum : fields.sum ≠ 0)
    (s : IhexState) :
    ∃ ck rc,
      ihexStep bufsize fileoffset (ihexLine fields) s =
        .done (.error (.checksum (s.lineno + 1) ck rc))
          s.mem := by
  rcases ihexReadrec_line hForm s.ihex with
    ⟨rc, read, hRead, hRight, _hTyp⟩
  have hWrong : rc ≠ read.cksum := by
    intro hSame
    exact hSum (hRight.mp hSame)
  refine ⟨read.cksum, rc, ?_⟩
  rw [ihexStep]
  simp only [ihexLine_head]
  rw [bufferString_plain (ihexLine_plain fields), hRead]
  simp only [hWrong, ne_eq, not_true_eq_false, if_false,
    not_false_eq_true, if_true]

/- No record but an end record returns successfully. -/
theorem ihexRecord_ok
    {s : IhexState}
    {result : Except LoadError UInt32}
    {mem : TaggedMem}
    (hDone :
      ihexRecord bufsize fileoffset s = .done result mem)
    (hTyp : s.ihex.rectyp ≠ 1) :
    ∃ e, result = .error e := by
  unfold ihexRecord at hDone
  simp only at hDone
  split at hDone
  · split at hDone
    · rw [LoadStep.done.injEq] at hDone
      exact ⟨_, hDone.1.symm⟩
    · split at hDone
      · rw [LoadStep.done.injEq] at hDone
        exact ⟨_, hDone.1.symm⟩
      · exact absurd hDone (by simp)
  · split at hDone
    · exact absurd hDone (by simp)
    · split at hDone
      · exact absurd hDone (by simp)
      · split at hDone
        · exact absurd hDone (by simp)
        · split at hDone
          · exact absurd hDone (by simp)
          · rw [LoadStep.done.injEq] at hDone
            exact ⟨_, hDone.1.symm⟩

/- A file goes on behind an inner record or has failed. -/
theorem ihexStep_inner
    (hInner : Inner fields)
    (s : IhexState) :
    (∃ s',
        ihexStep bufsize fileoffset (ihexLine fields) s =
          .next s') ∨
      ∃ e mem,
        ihexStep bufsize fileoffset (ihexLine fields) s =
          .done (.error e) mem := by
  rcases ihexReadrec_line hInner.form s.ihex with
    ⟨rc, read, hRead, hRight, hTyp⟩
  by_cases hSum : fields.sum = 0
  · have hSwitch :
        ihexStep bufsize fileoffset (ihexLine fields) s =
          ihexRecord bufsize fileoffset
            { s with
              lineno := s.lineno + 1
              ihex := read } := by
      rw [ihexStep]
      simp only [ihexLine_head]
      rw [bufferString_plain (ihexLine_plain fields), hRead]
      simp only [hRight.mpr hSum, ne_eq, not_true_eq_false,
        if_false]
    have hNotEnd : read.rectyp ≠ 1 := by
      intro hEnd
      rw [hEnd] at hTyp
      exact hInner.goesOn hTyp
    rw [hSwitch]
    cases hStep :
        ihexRecord bufsize fileoffset
          { s with lineno := s.lineno + 1, ihex := read } with
    | next s' => exact Or.inl ⟨s', rfl⟩
    | done result mem =>
        rcases ihexRecord_ok hStep hNotEnd with ⟨e, hResult⟩
        rw [hResult]
        exact Or.inr ⟨e, mem, rfl⟩
  · rcases @ihexStep_refused bufsize fileoffset _ hInner.form
        hSum s with
      ⟨ck, rc, hStep⟩
    exact Or.inr ⟨_, s.mem, hStep⟩

theorem ihexLine_fits
    (hShort : fields.length ≤ 127) :
    (ihexLine fields).length ≤ maxLineLen - 1 := by
  have hRoom : maxLineLen - 1 = 255 := rfl
  rw [ihexLine_length, hRoom]
  omega

/-
  Inner records and then a wrong one: the file is refused
  whatever comes behind.  By induction on the inner records.
-/
theorem ihexFile_refused
    {bad : List UInt8}
    (hForm : WellFormed bad)
    (hSum : bad.sum ≠ 0)
    (hShort : bad.length ≤ 127)
    (tail : List Char)
    {before : List (List UInt8)}
    (hBefore : ∀ fields ∈ before, Inner fields)
    (s : IhexState) :
    ∃ e,
      (loadLines (ihexStep bufsize fileoffset) ihexAtEnd
        (TextLines.chunks (maxLineLen - 1)
          (ihexFile before ++ (ihexLine bad ++ '\n' :: tail)))
        s).1 = .error e := by
  induction before generalizing s with
  | nil =>
      rcases @ihexStep_refused bufsize fileoffset _ hForm hSum
          s with
        ⟨ck, rc, hStep⟩
      have hLines :=
        ihexStep_lineStep.done ihexAtEnd
          (ihexLine_plain bad) (by simp [ihexLine])
          (ihexLine_fits hShort) tail hStep
      have hText :
          ihexFile [] ++ (ihexLine bad ++ '\n' :: tail) =
            ihexLine bad ++ '\n' :: tail := rfl
      rw [hText, hLines]
      exact ⟨_, rfl⟩
  | cons fields before ih =>
      have hInner := hBefore fields List.mem_cons_self
      have hRest :=
        ih fun fields' hMem =>
          hBefore fields' (List.mem_cons_of_mem _ hMem)
      have hText :
          ihexFile (fields :: before) ++
              (ihexLine bad ++ '\n' :: tail) =
            ihexLine fields ++ '\n' ::
              (ihexFile before ++
                (ihexLine bad ++ '\n' :: tail)) := by
        simp [ihexFile]
      rw [hText]
      rcases @ihexStep_inner bufsize fileoffset _ hInner s with
        ⟨s', hStep⟩ | ⟨e, mem, hStep⟩
      · rcases loadLines_plain (ihexLine_plain fields)
            (by simp [ihexLine]) (ihexLine_fits hInner.short)
            (ihexFile before ++ (ihexLine bad ++ '\n' :: tail))
            hStep with
          ⟨lineno, hLines⟩
        rw [hLines]
        exact hRest _
      · have hLines :=
          ihexStep_lineStep.done ihexAtEnd
            (ihexLine_plain fields) (by simp [ihexLine])
            (ihexLine_fits hInner.short)
            (ihexFile before ++ (ihexLine bad ++ '\n' :: tail))
            hStep
        rw [hLines]
        exact ⟨e, rfl⟩

end Refused

------------------------------------------------------------
-- Written Files
------------------------------------------------------------

/- The bytes of a record that is printed. -/
def printedFields
    (nextaddr : Nat)
    (rectyp : UInt8)
    (bytes : List UInt8) : List UInt8 :=
  UInt8.ofNat bytes.length :: UInt8.ofNat (nextaddr / 256) ::
    UInt8.ofNat nextaddr :: rectyp ::
      (bytes ++
        [-(UInt8.ofNat bytes.length +
          offsetSum (UInt32.ofNat nextaddr) + rectyp +
          bytes.sum)])

section Printed

variable {nextaddr : Nat} {rectyp : UInt8}
variable {bytes : List UInt8}

theorem address_split
    (hAddress : nextaddr < 0x10000) :
    (UInt8.ofNat (nextaddr / 256)).toNat * 256 +
        (UInt8.ofNat nextaddr).toNat =
      nextaddr := by
  rw [UInt8.toNat_ofNat', UInt8.toNat_ofNat']
  omega

theorem ihexText_line
    (hCount : bytes.length < 256)
    (hAddress : nextaddr < 0x10000) :
    ihexText bytes.length nextaddr rectyp bytes =
      ihexLine (printedFields nextaddr rectyp bytes) := by
  have hLen :
      (UInt8.ofNat bytes.length).toNat = bytes.length := by
    rw [UInt8.toNat_ofNat', Nat.mod_eq_of_lt hCount]
  have hTwo :=
    hexBytes_two (UInt8.ofNat (nextaddr / 256))
      (UInt8.ofNat nextaddr)
  rw [address_split hAddress] at hTwo
  rw [ihexText, ← hTwo]
  simp [ihexLine, printedFields, hexBytes, hLen]

theorem printedFields_form
    (hCount : bytes.length < 256) :
    WellFormed (printedFields nextaddr rectyp bytes) := by
  refine ⟨_, _, _, _, _, _, rfl, ?_⟩
  rw [UInt8.toNat_ofNat', Nat.mod_eq_of_lt hCount]

theorem printedFields_length :
    (printedFields nextaddr rectyp bytes).length =
      bytes.length + 5 := by
  simp [printedFields]

/- The checksum makes the bytes sum to 0. -/
theorem printedFields_sum
    (hAddress : nextaddr < 0x10000) :
    (printedFields nextaddr rectyp bytes).sum = 0 := by
  have hOffset :=
    offsetSum_two (UInt8.ofNat (nextaddr / 256))
      (UInt8.ofNat nextaddr)
  rw [address_split hAddress] at hOffset
  simp only [printedFields, List.sum_cons, List.sum_append,
    List.sum_nil]
  grind

end Printed

section Written

variable {inbuf : Nat → UInt8}

theorem ihexFile_append
    (first second : List (List UInt8)) :
    ihexFile (first ++ second) =
      ihexFile first ++ ihexFile second :=
  List.flatMap_append

/- What a turn of the writer prints are inner records. -/
theorem turnText_lines
    {n nextaddr : Nat}
    (hShort : n ≤ 122)
    (hAddress : nextaddr < 0x10000)
    (buf n64k : Nat) :
    ∃ records,
      turnText inbuf n buf nextaddr n64k = ihexFile records ∧
        ∀ fields ∈ records, Inner fields ∧ fields.sum = 0 := by
  have hLength := Pages.read_length buf n inbuf
  have hData :=
    @ihexText_line _ 0 (Pages.read buf n inbuf) (by omega)
        hAddress
  rw [hLength] at hData
  have hDataInner :
      Inner
        (printedFields nextaddr 0
          (Pages.read buf n inbuf)) := by
    constructor
    · exact printedFields_form (by omega)
    · simp [printedFields]
    · rw [printedFields_length, hLength]
      omega
  have hDataSum :=
    @printedFields_sum _ 0 (Pages.read buf n inbuf) hAddress
  by_cases hWraps : 0x10000 ≤ nextaddr + n
  · have hExtended :=
      @ihexText_line 0 4
          [UInt8.ofNat ((n64k + 1) / 256),
            UInt8.ofNat (n64k + 1)]
          (by simp) (by decide)
    refine
      ⟨[printedFields nextaddr 0 (Pages.read buf n inbuf),
          printedFields 0 4
            [UInt8.ofNat ((n64k + 1) / 256),
              UInt8.ofNat (n64k + 1)]],
        ?_, ?_⟩
    · rw [turnText, if_pos hWraps, hData]
      rw [List.length_cons, List.length_singleton] at hExtended
      rw [hExtended]
      simp [ihexFile]
    · intro fields hMem
      rcases List.mem_cons.mp hMem with hHere | hHere
      · rw [hHere]
        exact ⟨hDataInner, hDataSum⟩
      · rw [List.mem_singleton.mp hHere]
        refine ⟨⟨?_, ?_, ?_⟩, printedFields_sum (by decide)⟩
        · exact printedFields_form (by simp)
        · simp [printedFields]
        · rw [printedFields_length]
          simp
  · refine
      ⟨[printedFields nextaddr 0 (Pages.read buf n inbuf)],
        ?_, ?_⟩
    · rw [turnText, if_neg hWraps, hData]
      simp [ihexFile]
    · intro fields hMem
      rw [List.mem_singleton.mp hMem]
      exact ⟨hDataInner, hDataSum⟩

/- The text of the loop is a file of inner records. -/
theorem b2ihexLoop_lines
    {recsize bufsize nextaddr fuel : Nat}
    (hSome : 0 < recsize)
    (hLines : recsize ≤ 122)
    (hFuel : bufsize ≤ fuel)
    (hAddress : nextaddr < 0x10000)
    {place n64k : Nat}
    {text : List Char}
    (hText :
      b2ihexLoop inbuf recsize fuel place nextaddr n64k
          bufsize = some (bufsize, text)) :
    ∃ records,
      text = ihexFile records ∧
        ∀ fields ∈ records, Inner fields ∧ fields.sum = 0 := by
  induction fuel
    generalizing bufsize nextaddr place n64k text with
  | zero =>
      have hNone : bufsize = 0 := Nat.le_zero.mp hFuel
      subst hNone
      rw [b2ihexLoop_zero, Option.some.injEq, Prod.mk.injEq]
        at hText
      exact
        ⟨[], hText.2.symm,
          fun f hMem => absurd hMem (by simp)⟩
  | succ fuel ih =>
      by_cases hMore : 0 < bufsize
      · have hPos := recordSize_pos hSome hMore hAddress
        rcases @recordSize_le recsize bufsize nextaddr with
          ⟨hAll, hRec, hEnd⟩
        obtain ⟨n, hSize⟩ :
            ∃ n, n = recordSize recsize bufsize nextaddr :=
          ⟨_, rfl⟩
        rw [← hSize] at hPos hAll hRec hEnd
        have hBlock := hEnd hAddress
        have hNext :
            (if 0x10000 ≤ nextaddr + n then 0
              else nextaddr + n) < 0x10000 := by
          by_cases hWraps : 0x10000 ≤ nextaddr + n
          · rw [if_pos hWraps]
            decide
          · rw [if_neg hWraps]
            omega
        rcases b2ihexLoop_ends inbuf hSome hNext
            (show bufsize - n ≤ fuel by omega) (place + n)
            (if 0x10000 ≤ nextaddr + n then n64k + 1
              else n64k) with
          ⟨rest, hRest⟩
        have hTurn :=
          b2ihexLoop_turn hSome hMore hAddress hSize hRest
        rw [hText, Option.some.injEq, Prod.mk.injEq] at hTurn
        rcases @turnText_lines inbuf _ _ (show n ≤ 122 by omega)
            hAddress place n64k with
          ⟨records, hFirst, hInner⟩
        rcases ih (by omega) hNext hRest with
          ⟨more, hSecond, hInner'⟩
        refine ⟨records ++ more, ?_, ?_⟩
        · rw [hTurn.2, hFirst, hSecond, ihexFile_append]
        · intro fields hMem
          rcases List.mem_append.mp hMem with hIn | hIn
          · exact hInner fields hIn
          · exact hInner' fields hIn
      · have hNone : bufsize = 0 := by omega
        subst hNone
        rw [b2ihexLoop_zero, Option.some.injEq, Prod.mk.injEq]
          at hText
        exact
          ⟨[], hText.2.symm,
            fun f hMem => absurd hMem (by simp)⟩

/-
  A written file is a list of records.  If one byte of one of
  them, its length apart, is replaced by another, the file is
  refused.
-/
theorem b2ihex_corrupt
    (inbuf : Nat → UInt8)
    (bufsize : Nat)
    {recsize : Nat}
    (hSome : 0 < recsize)
    (hLines : recsize ≤ 122) :
    ∃ records : List (List UInt8),
      b2ihex inbuf bufsize recsize 0 =
          some ((bufsize : Int), ihexFile records) ∧
        ∀ (k i : Nat) (fields : List UInt8) (b b' : UInt8),
          records[k]? = some fields →
          fields[i]? = some b →
          0 < i →
          b' ≠ b →
          ∀ (ihex : IhexRec) (mem : TaggedMem)
            (limit fileoffset : UInt32),
            (ihex2b ihex
              (ihexFile (records.set k (fields.set i b')))
              mem limit fileoffset).1 = -1 := by
  have hRoom : (0 : UInt16).toNat < 0x10000 := by decide
  rcases b2ihexLoop_ends inbuf hSome hRoom (Nat.le_refl bufsize)
      0 0 with
    ⟨text, hText⟩
  rcases b2ihexLoop_lines hSome hLines (Nat.le_refl bufsize)
      hRoom hText with
    ⟨records, hRecords, hInner⟩
  have hLast :
      ihexText 0 0 1 [] ++ ['\n'] =
        ihexFile [printedFields 0 1 []] := by
    have hEnd :=
      @ihexText_line 0 1 [] (by decide) (by decide)
    rw [List.length_nil] at hEnd
    rw [hEnd]
    simp [ihexFile]
  refine ⟨records ++ [printedFields 0 1 []], ?_, ?_⟩
  · rw [b2ihex, if_neg (by omega), hText]
    simp only
    rw [List.append_assoc, hLast, hRecords, ihexFile_append]
  · intro k i fields b b' hRecord hByte hBehind hOther ihex mem
      limit fileoffset
    have hOne :
        WellFormed fields ∧ fields.sum = 0 ∧
          fields.length ≤ 127 := by
      rcases List.mem_append.mp
          (List.mem_of_getElem? hRecord) with hIn | hIn
      · rcases hInner fields hIn with ⟨hIs, hSum⟩
        exact ⟨hIs.form, hSum, hIs.short⟩
      · rw [List.mem_singleton.mp hIn]
        refine
          ⟨printedFields_form (by decide),
            printedFields_sum (by decide), ?_⟩
        rw [printedFields_length]
        decide
    have hBad : (fields.set i b').sum ≠ 0 := by
      intro hZero
      have hChange := sum_set hByte b'
      rw [hZero, hOne.2.1] at hChange
      apply hOther
      grind
    have hk :
        k < (records ++ [printedFields 0 1 []]).length := by
      rcases List.getElem?_eq_some_iff.mp hRecord with ⟨hk, _⟩
      exact hk
    have hBefore :
        ∀ f ∈ (records ++ [printedFields 0 1 []]).take k,
          Inner f := by
      intro f hMem
      rw [List.length_append, List.length_singleton] at hk
      rw [List.take_append_of_le_length (by omega)] at hMem
      exact (hInner f (List.mem_of_mem_take hMem)).1
    rw [List.set_eq_take_append_cons_drop, if_pos hk,
      ihexFile_append]
    rcases @ihexFile_refused limit fileoffset _
        (hOne.1.set hBehind b') hBad
        (by rw [List.length_set]; exact hOne.2.2)
        (ihexFile
          ((records ++ [printedFields 0 1 []]).drop (k + 1))) _
        hBefore (ihexStart ihex mem) with
      ⟨e, hResult⟩
    have hTail :
        ihexFile
            (fields.set i b' ::
              (records ++ [printedFields 0 1 []]).drop
                (k + 1)) =
          ihexLine (fields.set i b') ++ '\n' ::
            ihexFile
              ((records ++ [printedFields 0 1 []]).drop
                (k + 1)) := by
      simp [ihexFile]
    rw [ihex2b, ihexLoad, hTail, hResult, loadCode]

end Written

theorem b2ihex_corrupt_seventy :
    ∃ records : List (List UInt8),
      b2ihex UInt8.ofNat 70 32 0 =
          some (70, ihexFile records) ∧
        ∀ (k i : Nat) (fields : List UInt8) (b b' : UInt8),
          records[k]? = some fields →
          fields[i]? = some b →
          0 < i →
          b' ≠ b →
          ∀ (ihex : IhexRec) (mem : TaggedMem)
            (limit fileoffset : UInt32),
            (ihex2b ihex
              (ihexFile (records.set k (fields.set i b')))
              mem limit fileoffset).1 = -1 :=
  b2ihex_corrupt UInt8.ofNat 70 (by decide) (by decide)

end Lucax
