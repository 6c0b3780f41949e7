import Lucax.Files.SRecord

/-
  What `b2srec` writes, `srec2b` reads.

  The writer takes the bytes of a record at the address of the
  record, so an image written from an address on is what
  stands as far behind its buffer.

  Main declarations:
    * `srecReadrec_text`
    * `b2srecLoop_ends`, `b2srecLoop_read`
    * `srec_roundTrip`
-/

------------------------------------------------------------
-- One Record
------------------------------------------------------------

namespace Lucax

open CString Numerals

/- The digit of a record type and the width of its address. -/
structure Typed
    (digit : Char)
    (width : Nat) : Prop where
  plain : Plain [digit]
  read : addrWidth (UInt8.ofNat digit.toNat) = width
  address : 16 ^ (2 * width) ≤ 2 ^ 32
  pos : 0 < width

theorem typed_data
    {width : Nat}
    (hLow : 2 ≤ width)
    (hHigh : width ≤ 3) :
    Typed (dataDigit width) width := by
  have hCases : width = 2 ∨ width = 3 := by omega
  rcases hCases with hTwo | hThree
  · subst hTwo
    exact ⟨⟨by decide, by decide⟩, by decide, by decide,
      by decide⟩
  · subst hThree
    exact ⟨⟨by decide, by decide⟩, by decide, by decide,
      by decide⟩

theorem typed_end : Typed '9' 2 :=
  ⟨⟨by decide, by decide⟩, by decide, by decide, by decide⟩

section Text

variable {digit : Char} {width nextaddr : Nat}
variable {bytes : List UInt8}

theorem srecText_length
    (hTyped : Typed digit width)
    (hCount : bytes.length + width + 1 < 256)
    (hAddress : nextaddr < 16 ^ (2 * width)) :
    (srecText digit width nextaddr bytes).length =
      6 + 2 * width + 2 * bytes.length := by
  have hSome := hTyped.pos
  have hLen := @upperHex_length 2 _ (by decide) hCount
  have hOfs :=
    @upperHex_length (2 * width) _ (by omega) hAddress
  have hSum :=
    @upperHex_length 2 _ (by decide)
        (byte_fits
          (0xFF - (UInt8.ofNat (bytes.length + width + 1) +
            addressSum width (UInt32.ofNat nextaddr) +
            bytes.sum))).1
  simp only [srecText, List.cons_append, List.length_cons,
    List.length_append, hLen, hOfs, hSum, hexBytes_length]
  omega

theorem srecText_plain
    (hTyped : Typed digit width) :
    Plain (srecText digit width nextaddr bytes) := by
  have hS : Plain ['S'] := by
    constructor
    · decide
    · decide
  have hWhole :=
    ((((hS.append hTyped.plain).append
      (Plain.upperHex 2 (bytes.length + width + 1))).append
      (Plain.upperHex (2 * width) nextaddr)).append
      (Plain.hexBytes bytes)).append
      (Plain.upperHex 2
        (0xFF - (UInt8.ofNat (bytes.length + width + 1) +
          addressSum width (UInt32.ofNat nextaddr) +
          bytes.sum)).toNat)
  exact hWhole

/- The record that was printed, over an earlier one. -/
def srecBack
    (digit : Char)
    (width nextaddr : Nat)
    (bytes : List UInt8)
    (srec : IhexRec) : IhexRec :=
  { reclen := UInt8.ofNat bytes.length
    loadofs := UInt32.ofNat nextaddr
    rectyp := UInt8.ofNat digit.toNat
    data := Pages.put 0 bytes srec.data
    cksum :=
      0xFF - (UInt8.ofNat (bytes.length + width + 1) +
        addressSum width (UInt32.ofNat nextaddr) +
        bytes.sum) }

/- An address that is printed whole is read. -/
theorem addressField_upperHex
    (stale : Nat → Char)
    (hSome : 0 < width)
    (hAddress : nextaddr < 16 ^ (2 * width))
    (hRange : 16 ^ (2 * width) ≤ 2 ^ 32)
    (rec : List Char) :
    addressField stale width
        (upperHex (2 * width) nextaddr ++ rec) =
      some (nextaddr, rec) := by
  have hLength :=
    @upperHex_length (2 * width) _ (by omega) hAddress
  have hEnough :
      2 * width ≤
        (upperHex (2 * width) nextaddr ++ rec).length := by
    rw [List.length_append, hLength]
    omega
  have hNot :
      ¬ (upperHex (2 * width) nextaddr ++ rec).length <
        width := by
    omega
  have hMax : (2 : Nat) ^ 32 ≤ ulongMax := by decide
  have hFilled : upperHex (2 * width) nextaddr ≠ [] := by
    intro hNil
    rw [hNil, List.length_nil] at hLength
    omega
  rw [addressField, addressField_enough stale hEnough,
    List.take_left' hLength,
    takeWhile_plain (Plain.upperHex _ _).2, if_neg hNot,
    strtoul_upperHex (by omega), List.drop_left' hLength]
  exact if_pos ⟨hFilled, rfl⟩

/- A printed record is read with the checksum it carries. -/
theorem srecReadrec_text
    (hTyped : Typed digit width)
    (hCount : bytes.length + width + 1 < 256)
    (hAddress : nextaddr < 16 ^ (2 * width))
    (stale : Nat → Char)
    (srec : IhexRec) :
    srecReadrec stale srec
        (srecText digit width nextaddr bytes) =
      some
        ((srecBack digit width nextaddr bytes srec).cksum,
          srecBack digit width nextaddr bytes srec) := by
  have hMax : (0x10000 : Nat) ≤ ulongMax := by decide
  have hLen :
      UInt8.ofNat (bytes.length + width + 1) -
          UInt8.ofNat (width + 1) =
        UInt8.ofNat bytes.length := by
    have hSplit :
        UInt8.ofNat (bytes.length + width + 1) =
          UInt8.ofNat bytes.length +
            UInt8.ofNat (width + 1) := by
      rw [← UInt8.ofNat_add, Nat.add_assoc]
    rw [hSplit]
    grind
  have hData :
      (UInt8.ofNat bytes.length).toNat = bytes.length := by
    rw [UInt8.toNat_ofNat', Nat.mod_eq_of_lt (by omega)]
  have hEnd :
      ∀ b : UInt8,
        hexField 2 (upperHex 2 b.toNat) =
            some (b.toNat, []) := by
    intro b
    have hByte := hexField_byte b []
    rwa [List.append_nil] at hByte
  have hDigit :
      (srecText digit width nextaddr bytes)[1]? =
        some digit := by
    simp [srecText]
  rw [srecReadrec, hDigit]
  simp only [srecText, List.cons_append, List.drop_succ_cons,
    List.drop_zero, List.append_assoc,
    @hexField_upperHex 2 (bytes.length + width + 1) (by decide)
        hCount (by omega),
    Option.bind_eq_bind, Option.bind_some, hTyped.read,
    addressField_upperHex stale hTyped.pos hAddress
      hTyped.address,
    hLen, hData, dataFields_hexBytes, hEnd]
  simp only [srecBack, UInt8.ofNat_toNat]

theorem srecText_head :
    (srecText digit width nextaddr bytes).head? = some 'S' := by
  simp [srecText]

end Text

------------------------------------------------------------
-- Record by Record
------------------------------------------------------------

section Records

variable {stale : Nat → Nat → Char}
variable {bufsize fileoffset : UInt32}

theorem srecStep_lineStep :
    LineStep (srecStep stale bufsize fileoffset)
      (fun s => { s with lineno := s.lineno + 1 }) where
  congr := by
    intro chunk chunk' s hSame
    rw [srecStep, srecStep, hSame]
  empty := by
    intro s
    have hEmpty : bufferString ['\n'] = [] := by decide
    rw [srecStep, hEmpty]
    rfl

variable {digit : Char} {width nextaddr : Nat}
variable {bytes : List UInt8}

/- A printed record comes to the switch. -/
theorem srecStep_text
    (hTyped : Typed digit width)
    (hCount : bytes.length + width + 1 < 256)
    (hAddress : nextaddr < 16 ^ (2 * width))
    (s : SrecState) :
    srecStep stale bufsize fileoffset
        (srecText digit width nextaddr bytes) s =
      srecRecord bufsize fileoffset
        { s with
          lineno := s.lineno + 1
          srec :=
            srecBack digit width nextaddr bytes s.srec } := by
  have hRead :=
    srecReadrec_text hTyped hCount hAddress
      (stale (s.lineno + 1)) s.srec
  rw [srecStep, bufferString_plain (srecText_plain hTyped)]
  simp only [srecText_head, hRead, ne_eq, not_true_eq_false,
    if_false]

/- A data record that fits is laid out where it belongs. -/
theorem srecStep_data
    (hLow : 2 ≤ width)
    (hHigh : width ≤ 3)
    (hCount : bytes.length + width + 1 < 256)
    {start place : Nat}
    (hAddress : start + place < 16 ^ (2 * width))
    {s : SrecState}
    (hMax : s.maxaddr = UInt32.ofNat place)
    (hFits : place + bytes.length ≤ bufsize.toNat) :
    srecStep stale bufsize (UInt32.ofNat start)
        (srecText (dataDigit width) width (start + place) bytes)
        s =
      .next
        { s with
          lineno := s.lineno + 1
          srec :=
            srecBack (dataDigit width) width (start + place)
              bytes s.srec
          mem := s.mem.fill place bytes
          maxaddr := UInt32.ofNat (place + bytes.length)
          reccount := s.reccount + 1 } := by
  have hTyped := typed_data hLow hHigh
  have hBuf := bufsize.toNat_lt
  have hRange := hTyped.address
  have hNext :
      (UInt32.ofNat (start + place) -
          UInt32.ofNat start).toNat =
        place := by
    rw [UInt32.toNat_sub, UInt32.toNat_ofNat',
      UInt32.toNat_ofNat']
    omega
  have hAbove :
      ¬ UInt32.ofNat (start + place) < UInt32.ofNat start := by
    rw [UInt32.lt_iff_toNat_lt, UInt32.toNat_ofNat',
      UInt32.toNat_ofNat']
    omega
  have hLast :
      UInt32.ofNat (start + place) - UInt32.ofNat start +
          (UInt8.ofNat bytes.length).toUInt32 =
        UInt32.ofNat (place + bytes.length) := by
    apply UInt32.toNat_inj.mp
    rw [UInt32.toNat_add, hNext, UInt8.toNat_toUInt32,
      UInt8.toNat_ofNat', UInt32.toNat_ofNat']
    omega
  have hIn :
      ¬ bufsize < UInt32.ofNat (place + bytes.length) := by
    rw [UInt32.lt_iff_toNat_lt, UInt32.toNat_ofNat']
    omega
  have hLen :
      (UInt8.ofNat bytes.length).toNat = bytes.length := by
    rw [UInt8.toNat_ofNat', Nat.mod_eq_of_lt (by omega)]
  have hBytes :
      (srecBack (dataDigit width) width (start + place) bytes
        s.srec).bytes = bytes := by
    rw [IhexRec.bytes, srecBack, hLen, Pages.read_put]
  have hStore :=
    storeRecord_eq_fill (i := 0)
      (show
        (UInt32.ofNat (start + place) -
              UInt32.ofNat start).toNat + 0 +
            bytes.length ≤ 2 ^ 32 by
        rw [hNext]
        omega)
      s.mem
  rw [hNext, Nat.add_zero] at hStore
  have hNewMax :
      (if UInt32.ofNat place <
            UInt32.ofNat (place + bytes.length) then
          UInt32.ofNat (place + bytes.length)
        else UInt32.ofNat place) =
        UInt32.ofNat (place + bytes.length) := by
    by_cases hNone : bytes.length = 0
    · rw [hNone, Nat.add_zero]
      exact ite_self _
    · rw [if_pos]
      rw [UInt32.lt_iff_toNat_lt, UInt32.toNat_ofNat',
        UInt32.toNat_ofNat']
      omega
  have hSwitch :
      ∀ t : SrecState,
        t.srec.rectyp = UInt8.ofNat (dataDigit width).toNat →
          srecRecord bufsize (UInt32.ofNat start) t =
            srecData bufsize (UInt32.ofNat start) t := by
    intro t hTyp
    have hCases : width = 2 ∨ width = 3 := by omega
    rcases hCases with hTwo | hThree
    · subst hTwo
      have hOne : t.srec.rectyp = 0x31 := hTyp.trans (by decide)
      simp [srecRecord, hOne]
    · subst hThree
      have hOne : t.srec.rectyp = 0x32 := hTyp.trans (by decide)
      simp [srecRecord, hOne]
  rw [srecStep_text hTyped hCount hAddress,
    hSwitch _ (by rfl), srecData]
  simp only [hBytes]
  simp only [srecBack, hMax, hLast, hIn, hAbove, hNewMax,
    hStore, if_false]

/- The end record returns, with either width of address. -/
theorem srecStep_end
    {start : Nat}
    (hStart : start ≤ 0xFFFFFF)
    (s : SrecState) :
    srecStep stale bufsize fileoffset
        (srecText '9' (widthFor start) 0 []) s =
      .done (.ok s.maxaddr) s.mem := by
  by_cases hTwo : start ≤ 0xFFFF
  · rw [widthFor, if_pos hTwo,
      srecStep_text typed_end (by decide) (by decide)]
    rfl
  · rw [widthFor, if_neg hTwo, if_pos hStart]
    have hRead :
        srecReadrec (stale (s.lineno + 1)) s.srec
            (srecText '9' 3 0 []) =
          some
            (0xFB,
              { reclen := 1
                loadofs := 0
                rectyp := 0x39
                data := Pages.put 0 [0] s.srec.data
                cksum := 0xFB }) := by
      have hChar :
          (srecText '9' 3 0 [])[1]? = some '9' := by decide
      have hCount :
          hexField 2 ((srecText '9' 3 0 []).drop 2) =
            some
              (4, ['0', '0', '0', '0', '0', '0', 'F', 'B']) := by
        decide
      have hAddress :
          addressField (fun _ => nul)
              (addrWidth (UInt8.ofNat '9'.toNat))
              ['0', '0', '0', '0', '0', '0', 'F', 'B'] =
            some (0, ['0', '0', 'F', 'B']) := by decide
      have hData :
          dataFields
              (UInt8.ofNat 4 -
                UInt8.ofNat
                  (addrWidth (UInt8.ofNat '9'.toNat) + 1)).toNat
              ['0', '0', 'F', 'B'] =
            some ([0], ['F', 'B']) := by decide
      have hSum :
          hexField 2 ['F', 'B'] = some (0xFB, []) := by decide
      rw [srecReadrec_stale _ (fun _ => nul), srecReadrec,
        hChar, hCount]
      simp only [Option.bind_eq_bind, Option.bind_some,
        hAddress,
        hData, hSum]
      rfl
    have hString :
        bufferString (srecText '9' 3 0 []) =
          srecText '9' 3 0 [] := by decide
    rw [srecStep, hString]
    simp only [srecText_head, hRead, ne_eq, not_true_eq_false,
      if_false]
    rfl

end Records

------------------------------------------------------------
-- The Whole File
------------------------------------------------------------

section Written

variable {inbuf : Nat → UInt8} {recsize : Nat}

theorem b2srecLoop_zero
    (inbuf : Nat → UInt8)
    (recsize fuel nextaddr : Nat) :
    b2srecLoop inbuf recsize fuel nextaddr 0 =
        some (0, []) := by
  cases fuel with
  | zero => rw [b2srecLoop, if_pos rfl]
  | succ fuel => rw [b2srecLoop, if_pos rfl]

/- The record of a turn. -/
def srecTurn
    (inbuf : Nat → UInt8)
    (n nextaddr : Nat) : List Char :=
  srecText (dataDigit (widthFor (nextaddr + n)))
      (widthFor (nextaddr + n)) nextaddr
      (Pages.read nextaddr n inbuf) ++ ['\n']

/- One turn, if the turns behind it end. -/
theorem b2srecLoop_turn
    (hSome : 0 < recsize)
    {bufsize : Nat}
    (hMore : 0 < bufsize)
    {fuel nextaddr nbytes : Nat}
    {text : List Char}
    (hRest :
      b2srecLoop inbuf recsize fuel
          (nextaddr + min recsize bufsize)
          (bufsize - min recsize bufsize) =
        some (nbytes, text)) :
    b2srecLoop inbuf recsize (fuel + 1) nextaddr bufsize =
      some
        (min recsize bufsize + nbytes,
          srecTurn inbuf (min recsize bufsize) nextaddr ++
            text) := by
  have hSize :
      (if bufsize < recsize then bufsize else recsize) =
        min recsize bufsize := by
    by_cases hLess : bufsize < recsize
    · rw [if_pos hLess]
      omega
    · rw [if_neg hLess]
      omega
  have hPos : min recsize bufsize ≠ 0 := by omega
  rw [b2srecLoop, if_neg (Nat.ne_of_gt hMore)]
  simp only [hSize, hRest, srecTurn, hPos, ne_eq,
    not_false_eq_true, if_true]

/-
  The loop ends with every byte written.  By induction on the
  turns; each writes a byte at least.
-/
theorem b2srecLoop_ends
    (inbuf : Nat → UInt8)
    (hSome : 0 < recsize)
    {bufsize fuel : Nat}
    (hFuel : bufsize ≤ fuel)
    (nextaddr : Nat) :
    ∃ text,
      b2srecLoop inbuf recsize fuel nextaddr bufsize =
        some (bufsize, text) := by
  induction fuel generalizing bufsize nextaddr with
  | zero =>
      have hNone : bufsize = 0 := Nat.le_zero.mp hFuel
      subst hNone
      exact ⟨[], b2srecLoop_zero inbuf recsize 0 nextaddr⟩
  | succ fuel ih =>
      by_cases hMore : 0 < bufsize
      · rcases ih
            (show bufsize - min recsize bufsize ≤ fuel by omega)
            (nextaddr + min recsize bufsize) with
          ⟨text, hText⟩
        have hTurn :=
          @b2srecLoop_turn inbuf _ hSome _ hMore _ _ _ _ hText
        have hSum :
            min recsize bufsize +
                (bufsize - min recsize bufsize) =
              bufsize := by
          omega
        rw [hSum] at hTurn
        exact ⟨_, hTurn⟩
      · have hNone : bufsize = 0 := by omega
        subst hNone
        exact ⟨[], b2srecLoop_zero inbuf recsize _ nextaddr⟩

/- The loop of `srec2b` over a text. -/
def srecRun
    (stale : Nat → Nat → Char)
    (limit fileoffset : UInt32)
    (text : List Char)
    (s : SrecState) : Except LoadError UInt32 × TaggedMem :=
  loadLines (srecStep stale limit fileoffset)
    (fun s => (.ok s.maxaddr, s.mem))
    (TextLines.chunks (maxLineLen - 1) text) s

theorem widthFor_fits
    {last : Nat}
    (hLast : last ≤ 0xFFFFFF) :
    2 ≤ widthFor last ∧ widthFor last ≤ 3 ∧
      last < 16 ^ (2 * widthFor last) := by
  unfold widthFor
  by_cases hTwo : last ≤ 0xFFFF
  · rw [if_pos hTwo]
    omega
  · rw [if_neg hTwo, if_pos hLast]
    omega

variable {stale : Nat → Nat → Char} {limit : UInt32}

/- A turn of the writer in front of a text. -/
theorem srecTurn_read
    {n start place : Nat}
    (hShort : n ≤ 121)
    (hLast : start + place + n ≤ 0xFFFFFF)
    (hIn : place + n ≤ limit.toNat)
    {s : SrecState}
    (hMax : s.maxaddr = UInt32.ofNat place)
    (tail : List Char) :
    ∃ s',
      srecRun stale limit (UInt32.ofNat start)
          (srecTurn inbuf n (start + place) ++ tail) s =
        srecRun stale limit (UInt32.ofNat start) tail s' ∧
        s'.mem =
          s.mem.fill place
            (Pages.read (start + place) n inbuf) ∧
        s'.maxaddr = UInt32.ofNat (place + n) := by
  rcases widthFor_fits hLast with ⟨hLow, hHigh, hFits⟩
  have hLength := Pages.read_length (start + place) n inbuf
  have hAddress :
      start + place <
        16 ^ (2 * widthFor (start + place + n)) := by
    omega
  have hCount :
      (Pages.read (start + place) n inbuf).length +
          widthFor (start + place + n) + 1 < 256 := by
    omega
  have hStep :=
    @srecStep_data stale limit _
        (Pages.read (start + place) n inbuf) hLow hHigh hCount _
        _ hAddress _ hMax (by omega)
  have hText :=
    srecText_length (typed_data hLow hHigh) hCount hAddress
  have hRoom : maxLineLen - 1 = 255 := rfl
  rcases srecStep_lineStep.next
      (fun s => (.ok s.maxaddr, s.mem))
      (srecText_plain (typed_data hLow hHigh))
      (by simp [srecText]) (by omega) tail hStep with
    ⟨s'', hSame | hSkip, hLines⟩
  · refine ⟨s'', ?_, ?_, ?_⟩
    · rw [srecTurn, List.append_assoc, List.singleton_append]
      exact hLines
    · rw [hSame]
    · rw [hSame, hLength]
  · refine ⟨s'', ?_, ?_, ?_⟩
    · rw [srecTurn, List.append_assoc, List.singleton_append]
      exact hLines
    · rw [hSkip]
    · rw [hSkip, hLength]

/-
  The reader follows the loop.  By induction on the turns;
  between two of them all before the writer's place is read.
-/
theorem b2srecLoop_read
    {bufsize fuel start place : Nat}
    (hSome : 0 < recsize)
    (hLines : recsize ≤ 121)
    (hFuel : bufsize ≤ fuel)
    (hLast : start + place + bufsize ≤ 0xFFFFFF)
    (hIn : place + bufsize ≤ limit.toNat)
    {text : List Char}
    (hText :
      b2srecLoop inbuf recsize fuel (start + place) bufsize =
        some (bufsize, text))
    {s : SrecState}
    (hMax : s.maxaddr = UInt32.ofNat place)
    (tail : List Char) :
    ∃ s',
      srecRun stale limit (UInt32.ofNat start) (text ++ tail)
          s =
        srecRun stale limit (UInt32.ofNat start) tail s' ∧
        s'.mem =
          s.mem.fill place
            (Pages.read (start + place) bufsize inbuf) ∧
        s'.maxaddr = UInt32.ofNat (place + bufsize) := by
  induction fuel generalizing bufsize place text s with
  | zero =>
      have hNone : bufsize = 0 := Nat.le_zero.mp hFuel
      subst hNone
      rw [b2srecLoop_zero, Option.some.injEq, Prod.mk.injEq]
        at hText
      rw [← hText.2]
      exact ⟨s, rfl,
        by rw [Pages.read_zero, TaggedMem.fill_nil], hMax⟩
  | succ fuel ih =>
      by_cases hMore : 0 < bufsize
      · obtain ⟨n, hSize⟩ : ∃ n, n = min recsize bufsize :=
          ⟨_, rfl⟩
        have hPos : 0 < n ∧ n ≤ bufsize ∧ n ≤ recsize := by
          omega
        rcases b2srecLoop_ends inbuf hSome
            (show bufsize - n ≤ fuel by omega)
            (start + place + n) with
          ⟨rest, hRest⟩
        have hNext := hRest
        rw [hSize] at hNext
        have hTurn :=
          @b2srecLoop_turn inbuf _ hSome _ hMore _ _ _ _ hNext
        rw [hText, Option.some.injEq, Prod.mk.injEq, ← hSize]
          at hTurn
        rcases @srecTurn_read inbuf stale limit n start _
            (show n ≤ 121 by omega) (by omega) (by omega) _ hMax
            (rest ++ tail) with
          ⟨s₁, hFirst, hMem₁, hMax₁⟩
        rw [Nat.add_assoc] at hRest
        rcases ih (by omega) (by omega) (by omega) hRest hMax₁
          with ⟨s₂, hSecond, hMem₂, hMax₂⟩
        refine ⟨s₂, ?_, ?_, ?_⟩
        · rw [hTurn.2, List.append_assoc, hFirst, hSecond]
        · have hFill :=
            s.mem.fill_append place
              (Pages.read (start + place) n inbuf)
              (Pages.read (start + place + n) (bufsize - n)
                inbuf)
          rw [Pages.read_length, ← Pages.read_add,
            Nat.add_sub_cancel' hPos.2.1] at hFill
          rw [hMem₂, hMem₁, ← Nat.add_assoc, hFill]
        · rw [hMax₂]
          congr 1
          omega
      · have hNone : bufsize = 0 := by omega
        subst hNone
        rw [b2srecLoop_zero, Option.some.injEq, Prod.mk.injEq]
          at hText
        rw [← hText.2]
        exact ⟨s, rfl,
          by rw [Pages.read_zero, TaggedMem.fill_nil], hMax⟩

end Written

/- Writing comes to an end, with a record for that. -/
theorem b2srec_ends
    (inbuf : Nat → UInt8)
    (bufsize start : Nat)
    {recsize : Nat}
    (hSome : 0 < recsize)
    (hMost : recsize ≤ 255) :
    ∃ text,
      b2srecLoop inbuf recsize bufsize start bufsize =
          some (bufsize, text) ∧
        b2srec inbuf bufsize recsize start =
          some ((bufsize : Int),
            text ++ srecText '9' (widthFor start) 0 [] ++
              ['\n']) := by
  rcases b2srecLoop_ends inbuf hSome (Nat.le_refl bufsize) start
    with ⟨text, hText⟩
  refine ⟨text, hText, ?_⟩
  rw [b2srec, if_neg (Nat.not_lt.mpr hMost), hText]

/- The record at the end, which is not long. -/
theorem srecText_last
    {start : Nat}
    (hStart : start ≤ 0xFFFFFF) :
    Plain (srecText '9' (widthFor start) 0 []) ∧
      (srecText '9' (widthFor start) 0 []).length ≤
        maxLineLen - 1 := by
  rcases widthFor_fits hStart with ⟨hLow, hHigh, _hFits⟩
  have hCases : widthFor start = 2 ∨ widthFor start = 3 := by
    omega
  rcases hCases with hTwo | hThree
  · rw [hTwo]
    exact ⟨⟨by decide, by decide⟩, by decide⟩
  · rw [hThree]
    exact ⟨⟨by decide, by decide⟩, by decide⟩

/- What is written in lines that fit is read back. -/
theorem srec2b_written
    {inbuf : Nat → UInt8}
    {bufsize recsize start : Nat}
    (hSome : 0 < recsize)
    (hLines : recsize ≤ 121)
    (hLast : start + bufsize ≤ 0xFFFFFF)
    {text : List Char}
    (hText :
      b2srecLoop inbuf recsize bufsize start bufsize =
        some (bufsize, text))
    (stale : Nat → Nat → Char)
    (srec : IhexRec)
    (mem : TaggedMem)
    {limit : UInt32}
    (hFits : bufsize ≤ limit.toNat) :
    srec2b stale srec
        (text ++ srecText '9' (widthFor start) 0 [] ++ ['\n'])
        mem limit (UInt32.ofNat start) =
      ((bufsize : Int),
        mem.fill 0 (Pages.read start bufsize inbuf)) := by
  rcases @b2srecLoop_read _ _ stale limit _ _ start 0 hSome
      hLines (Nat.le_refl bufsize) (by omega) (by omega) _
      hText (srecStart srec mem) rfl
      (srecText '9' (widthFor start) 0 [] ++ ['\n']) with
    ⟨s', hRead, hMem, hMax⟩
  rcases srecText_last (show start ≤ 0xFFFFFF by omega) with
    ⟨hPlain, hShort⟩
  have hEnd :=
    srecStep_lineStep.done
      (fun s => (.ok s.maxaddr, s.mem)) hPlain
      (by simp [srecText]) hShort []
      (@srecStep_end stale limit (UInt32.ofNat start) _
          (show start ≤ 0xFFFFFF by omega) s')
  have hRun :
      srecLoad stale srec
          (text ++ srecText '9' (widthFor start) 0 [] ++ ['\n'])
          mem limit (UInt32.ofNat start) =
        (.ok s'.maxaddr, s'.mem) := by
    rw [srecLoad, List.append_assoc]
    exact hRead.trans hEnd
  have hCode : loadCode (.ok s'.maxaddr) = (bufsize : Int) := by
    rw [loadCode, hMax, Nat.zero_add, asInt_of_lt]
    · rw [UInt32.toNat_ofNat', Nat.mod_eq_of_lt (by omega)]
    · rw [UInt32.toNat_ofNat']
      omega
  rw [srec2b, hRun, hCode, hMem]
  rfl

/-
  An image written from an address on and read with that
  address as offset is laid out from 0 on, and nothing else
  changes.  It is not what stood at the start of the buffer
  but what stood at the address.
-/
theorem srec_roundTrip
    (inbuf : Nat → UInt8)
    {bufsize recsize start : Nat}
    (hSome : 0 < recsize)
    (hLines : recsize ≤ 121)
    (hLast : start + bufsize ≤ 0xFFFFFF)
    (stale : Nat → Nat → Char)
    (srec : IhexRec)
    (mem : TaggedMem)
    {limit : UInt32}
    (hFits : bufsize ≤ limit.toNat) :
    ∃ text,
      b2srec inbuf bufsize recsize start =
          some ((bufsize : Int), text) ∧
        srec2b stale srec text mem limit (UInt32.ofNat start) =
          ((bufsize : Int),
            mem.fill 0 (Pages.read start bufsize inbuf)) := by
  rcases b2srec_ends inbuf bufsize start hSome (by omega) with
    ⟨text, hText, hFile⟩
  exact
    ⟨_, hFile,
      srec2b_written hSome hLines hLast hText stale srec mem
        hFits⟩

/- A buffer of 70 bytes written from its tenth byte on. -/
theorem srec_roundTrip_seventy :
    ∃ text,
      b2srec UInt8.ofNat 70 32 10 = some (70, text) ∧
        srec2b (fun _ _ => ' ') blankRec text blankFlash 4096
            10 =
          (70,
            blankFlash.fill 0 (Pages.read 10 70 UInt8.ofNat)) :=
  srec_roundTrip UInt8.ofNat (by decide) (by decide) (by decide)
    (fun _ _ => ' ') blankRec blankFlash (by decide)

end Lucax
