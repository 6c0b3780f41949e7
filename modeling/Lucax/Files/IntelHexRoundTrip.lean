import Lucax.Files.IntelHex

/-
  What `b2ihex` writes, `ihex2b` reads, as long as the lines
  fit into the buffer they are read through.

  Main declarations:
    * `ihexReadrec_text`
    * `b2ihexLoop_ends`, `b2ihexLoop_read`
    * `ihex_roundTrip_iff`
-/

------------------------------------------------------------
-- One Record
------------------------------------------------------------

namespace Lucax

open CString Numerals

section Text

variable {n nextaddr : Nat} {rectyp : UInt8}
variable {bytes : List UInt8}

theorem ihexText_length
    (hCount : n < 256)
    (hAddress : nextaddr < 0x10000) :
    (ihexText n nextaddr rectyp bytes).length =
      11 + 2 * bytes.length := by
  have hLen := @upperHex_length 2 _ (by decide) hCount
  have hOfs :=
    @upperHex_length 4 _ (by decide) hAddress
  have hTyp :=
    @upperHex_length 2 _ (by decide) (byte_fits rectyp).1
  have hSum :=
    @upperHex_length 2 _ (by decide)
        (byte_fits
          (-(UInt8.ofNat n + offsetSum (UInt32.ofNat nextaddr) +
            rectyp + bytes.sum))).1
  simp only [ihexText, List.cons_append, List.length_cons,
    List.length_append, hLen, hOfs, hTyp, hSum, hexBytes_length]
  omega

theorem ihexText_plain :
    Plain (ihexText n nextaddr rectyp bytes) := by
  have hColon : Plain [':'] := by
    constructor
    · decide
    · decide
  have hWhole :=
    (((((hColon.append (Plain.upperHex 2 n)).append
      (Plain.upperHex 4 nextaddr)).append
      (Plain.upperHex 2 rectyp.toNat)).append
      (Plain.hexBytes bytes)).append
      (Plain.upperHex 2
        (-(UInt8.ofNat n + offsetSum (UInt32.ofNat nextaddr) +
          rectyp + bytes.sum)).toNat))
  exact hWhole

/- The record that was printed, over an earlier one. -/
def readBack
    (nextaddr : Nat)
    (rectyp : UInt8)
    (bytes : List UInt8)
    (ihex : IhexRec) : IhexRec :=
  { reclen := UInt8.ofNat bytes.length
    loadofs := UInt32.ofNat nextaddr
    rectyp := rectyp
    data := Pages.put 0 bytes ihex.data
    cksum :=
      -(UInt8.ofNat bytes.length +
        offsetSum (UInt32.ofNat nextaddr) + rectyp +
        bytes.sum) }

/- A printed record is read with the checksum it carries. -/
theorem ihexReadrec_text
    (hCount : bytes.length < 256)
    (hAddress : nextaddr < 0x10000)
    (ihex : IhexRec) :
    ihexReadrec ihex
        (ihexText bytes.length nextaddr rectyp bytes) =
      some ((readBack nextaddr rectyp bytes ihex).cksum,
        readBack nextaddr rectyp bytes ihex) := by
  have hMax : (0x10000 : Nat) ≤ ulongMax := by decide
  have hLen :
      (UInt8.ofNat bytes.length).toNat = bytes.length := by
    rw [UInt8.toNat_ofNat', Nat.mod_eq_of_lt hCount]
  have hEnd :
      ∀ b : UInt8,
        hexField 2 (upperHex 2 b.toNat) =
            some (b.toNat, []) := by
    intro b
    have hByte := hexField_byte b []
    rwa [List.append_nil] at hByte
  simp only [ihexReadrec, ihexText, List.cons_append,
    List.drop_succ_cons, List.drop_zero, List.append_assoc,
    @hexField_upperHex 2 _ (by decide) hCount
        (Nat.le_trans (Nat.le_of_lt hCount)
          (Nat.le_trans (by decide) hMax)),
    Option.bind_eq_bind, Option.bind_some,
    @hexField_upperHex 4 _ (by decide) hAddress
        (Nat.le_trans (Nat.le_of_lt hAddress) hMax),
    hexField_byte, hLen, dataFields_hexBytes, hEnd]
  simp only [readBack, UInt8.ofNat_toNat]

theorem ihexText_head :
    (ihexText n nextaddr rectyp bytes).head? = some ':' := by
  simp [ihexText]

end Text

------------------------------------------------------------
-- One Line
------------------------------------------------------------

section Line

variable {bufsize fileoffset : UInt32}

theorem ihexStep_lineStep :
    LineStep (ihexStep bufsize fileoffset)
      (fun s => { s with lineno := s.lineno + 1 }) where
  congr := by
    intro chunk chunk' s hSame
    rw [ihexStep, ihexStep, hSame]
  empty := by
    intro s
    have hEmpty : bufferString ['\n'] = [] := by decide
    rw [ihexStep, hEmpty]
    rfl

/- A printed line that fits is taken at once. -/
theorem loadLines_plain
    {line : List Char}
    (hPlain : Plain line)
    (hSome : line ≠ [])
    (hFits : line.length ≤ maxLineLen - 1)
    (rest : List Char)
    {s s' : IhexState}
    (hStep : ihexStep bufsize fileoffset line s = .next s') :
    ∃ lineno,
      loadLines (ihexStep bufsize fileoffset) ihexAtEnd
          (TextLines.chunks (maxLineLen - 1)
            (line ++ '\n' :: rest)) s =
        loadLines (ihexStep bufsize fileoffset) ihexAtEnd
          (TextLines.chunks (maxLineLen - 1) rest)
          { s' with lineno := lineno } := by
  rcases ihexStep_lineStep.next ihexAtEnd hPlain
      hSome hFits rest hStep with
    ⟨s'', hSame | hSkip, hLines⟩
  · rw [hLines, hSame]
    exact ⟨s'.lineno, rfl⟩
  · rw [hLines, hSkip]
    exact ⟨_, rfl⟩

end Line

------------------------------------------------------------
-- Record by Record
------------------------------------------------------------

section Records

variable {bufsize fileoffset : UInt32}
variable {nextaddr : Nat} {rectyp : UInt8}
variable {bytes : List UInt8}

/- A printed record comes to the switch. -/
theorem ihexStep_text
    (hCount : bytes.length < 256)
    (hAddress : nextaddr < 0x10000)
    (s : IhexState) :
    ihexStep bufsize fileoffset
        (ihexText bytes.length nextaddr rectyp bytes) s =
      ihexRecord bufsize fileoffset
        { s with
          lineno := s.lineno + 1
          ihex := readBack nextaddr rectyp bytes s.ihex } := by
  have hRead := @ihexReadrec_text _ rectyp _ hCount hAddress
      s.ihex
  rw [ihexStep, bufferString_plain ihexText_plain]
  simp only [ihexText_head, hRead, ne_eq, not_true_eq_false,
    if_false]

theorem readBack_bytes
    (hCount : bytes.length < 256)
    (ihex : IhexRec) :
    (readBack nextaddr rectyp bytes ihex).bytes = bytes := by
  have hLen :
      (UInt8.ofNat bytes.length).toNat = bytes.length := by
    rw [UInt8.toNat_ofNat', Nat.mod_eq_of_lt hCount]
  rw [IhexRec.bytes, readBack, hLen, Pages.read_put]

/- A data record that fits is laid out where it belongs. -/
theorem ihexStep_data
    (hCount : bytes.length < 256)
    (hAddress : nextaddr < 0x10000)
    {s : IhexState}
    {base : Nat}
    (hBase : s.baseaddr = UInt32.ofNat base)
    (hMax : s.maxaddr = UInt32.ofNat (base + nextaddr))
    (hFits :
      base + nextaddr + bytes.length ≤ bufsize.toNat) :
    ihexStep bufsize 0
        (ihexText bytes.length nextaddr 0 bytes) s =
      .next
        { s with
          lineno := s.lineno + 1
          ihex := readBack nextaddr 0 bytes s.ihex
          mem := s.mem.fill (base + nextaddr) bytes
          maxaddr :=
            UInt32.ofNat
              (base + nextaddr + bytes.length) } := by
  have hBuf := bufsize.toNat_lt
  have hNext :
      (UInt32.ofNat nextaddr + UInt32.ofNat base - 0).toNat =
        base + nextaddr := by
    rw [UInt32.sub_zero, UInt32.toNat_add, UInt32.toNat_ofNat',
      UInt32.toNat_ofNat']
    omega
  have hLast :
      UInt32.ofNat nextaddr + UInt32.ofNat base - 0 +
          (UInt8.ofNat bytes.length).toUInt32 =
        UInt32.ofNat (base + nextaddr + bytes.length) := by
    apply UInt32.toNat_inj.mp
    rw [UInt32.toNat_add, hNext, UInt8.toNat_toUInt32,
      UInt8.toNat_ofNat', UInt32.toNat_ofNat']
    omega
  have hIn :
      ¬ bufsize <
        UInt32.ofNat (base + nextaddr + bytes.length) := by
    rw [UInt32.lt_iff_toNat_lt, UInt32.toNat_ofNat']
    omega
  have hBytes :=
    @readBack_bytes nextaddr 0 _ hCount s.ihex
  have hStore :=
    storeRecord_eq_fill (i := 0)
      (show
        (UInt32.ofNat nextaddr + UInt32.ofNat base - 0).toNat +
            0 + bytes.length ≤ 2 ^ 32 by
        rw [hNext]
        omega)
      s.mem
  rw [hNext, Nat.add_zero] at hStore
  have hNewMax :
      (if UInt32.ofNat (base + nextaddr) <
            UInt32.ofNat (base + nextaddr + bytes.length) then
          UInt32.ofNat (base + nextaddr + bytes.length)
        else UInt32.ofNat (base + nextaddr)) =
        UInt32.ofNat (base + nextaddr + bytes.length) := by
    by_cases hNone : bytes.length = 0
    · rw [hNone, Nat.add_zero]
      exact ite_self _
    · rw [if_pos]
      rw [UInt32.lt_iff_toNat_lt, UInt32.toNat_ofNat',
        UInt32.toNat_ofNat']
      omega
  rw [ihexStep_text hCount hAddress]
  simp only [ihexRecord, hBytes]
  simp only [readBack, hBase, hMax, hLast, hIn, hNewMax, hStore,
    ne_eq, not_true_eq_false, false_and, if_false, if_true]

/- An extended linear address record sets the base. -/
theorem ihexStep_extended
    {k : Nat}
    (hWord : k < 0x10000)
    (s : IhexState) :
    ∃ ihex,
      ihexStep bufsize fileoffset
          (ihexText 2 0 4
            [UInt8.ofNat (k / 256), UInt8.ofNat k])
          s =
        .next
          { s with
            lineno := s.lineno + 1
            ihex := ihex
            baseaddr := UInt32.ofNat (k * 0x10000) } := by
  have hStep :=
    @ihexStep_text bufsize fileoffset 0 4
        [UInt8.ofNat (k / 256), UInt8.ofNat k]
        (show 2 < 256 by decide) (by decide) s
  have hBase :
      (readBack 0 4 [UInt8.ofNat (k / 256), UInt8.ofNat k]
            s.ihex).word <<< 16 =
        UInt32.ofNat (k * 0x10000) := by
    have hValue :
        (readBack 0 4 [UInt8.ofNat (k / 256), UInt8.ofNat k]
            s.ihex).word = UInt32.ofNat k := by
      apply UInt32.toNat_inj.mp
      have hLow : (UInt8.ofNat k).toNat < 2 ^ 8 :=
        (UInt8.ofNat k).toNat_lt
      have hSplit :=
        Nat.shiftLeft_add_eq_or_of_lt hLow
          (UInt8.ofNat (k / 256)).toNat
      have hHigh :
          (UInt8.ofNat (k / 256)).toNat <<< 8 =
            k / 256 * 256 := by
        rw [Nat.shiftLeft_eq, UInt8.toNat_ofNat']
        omega
      have hWordNat :
          (readBack 0 4 [UInt8.ofNat (k / 256), UInt8.ofNat k]
              s.ihex).word.toNat =
            (UInt8.ofNat (k / 256)).toNat <<< 8 % 2 ^ 32 |||
              (UInt8.ofNat k).toNat := rfl
      rw [hWordNat, hHigh, Nat.mod_eq_of_lt (by omega), ← hHigh,
        ← hSplit, hHigh, UInt8.toNat_ofNat',
          UInt32.toNat_ofNat']
      omega
    rw [hValue]
    apply UInt32.toNat_inj.mp
    rw [UInt32.toNat_shiftLeft, UInt32.toNat_ofNat',
      UInt32.toNat_ofNat', Nat.shiftLeft_eq]
    rw [Nat.mod_eq_of_lt (show k < 2 ^ 32 by omega)]
    rfl
  rw [List.length_cons, List.length_singleton] at hStep
  refine
    ⟨readBack 0 4 [UInt8.ofNat (k / 256), UInt8.ofNat k] s.ihex,
      hStep.trans ?_⟩
  have hTyp :
      (readBack 0 4 [UInt8.ofNat (k / 256), UInt8.ofNat k]
          s.ihex).rectyp = 4 := rfl
  simp only [ihexRecord, hTyp, hBase]
  rfl

/- The end record returns. -/
theorem ihexStep_end
    (s : IhexState) :
    ihexStep bufsize fileoffset (ihexText 0 0 1 []) s =
      .done (.ok s.maxaddr) s.mem := by
  have hStep :=
    @ihexStep_text bufsize fileoffset 0 1 [] (by decide)
        (by decide) s
  rw [List.length_nil] at hStep
  rw [hStep]
  rfl

end Records

------------------------------------------------------------
-- The Whole File
------------------------------------------------------------

/- How many bytes a turn of `b2ihex` writes. -/
def recordSize
    (recsize bufsize nextaddr : Nat) : Nat :=
  min (min recsize bufsize) (0x10000 - nextaddr)

/- What a turn writes. -/
def turnText
    (inbuf : Nat → UInt8)
    (n buf nextaddr n64k : Nat) : List Char :=
  ihexText n nextaddr 0 (Pages.read buf n inbuf) ++ ['\n'] ++
    (if 0x10000 ≤ nextaddr + n then
        ihexText 2 0 4
            [UInt8.ofNat ((n64k + 1) / 256),
              UInt8.ofNat (n64k + 1)] ++
          ['\n']
      else [])

section Turn

variable {inbuf : Nat → UInt8}
variable {recsize bufsize nextaddr : Nat}

theorem recordSize_pos
    (hSome : 0 < recsize)
    (hMore : 0 < bufsize)
    (hAddress : nextaddr < 0x10000) :
    0 < recordSize recsize bufsize nextaddr := by
  unfold recordSize
  omega

theorem recordSize_le :
    recordSize recsize bufsize nextaddr ≤ bufsize ∧
      recordSize recsize bufsize nextaddr ≤ recsize ∧
      (nextaddr < 0x10000 →
        nextaddr + recordSize recsize bufsize nextaddr ≤
          0x10000) := by
  unfold recordSize
  omega

theorem b2ihexLoop_zero
    (inbuf : Nat → UInt8)
    (recsize fuel buf nextaddr n64k : Nat) :
    b2ihexLoop inbuf recsize fuel buf nextaddr n64k 0 =
      some (0, []) := by
  cases fuel with
  | zero => rw [b2ihexLoop, if_pos rfl]
  | succ fuel => rw [b2ihexLoop, if_pos rfl]

/- One turn, if the turns behind it end. -/
theorem b2ihexLoop_turn
    (hSome : 0 < recsize)
    (hMore : 0 < bufsize)
    (hAddress : nextaddr < 0x10000)
    {n fuel buf n64k nbytes : Nat}
    (hSize : n = recordSize recsize bufsize nextaddr)
    {text : List Char}
    (hRest :
      b2ihexLoop inbuf recsize fuel (buf + n)
          (if 0x10000 ≤ nextaddr + n then 0 else nextaddr + n)
          (if 0x10000 ≤ nextaddr + n then n64k + 1 else n64k)
          (bufsize - n) =
        some (nbytes, text)) :
    b2ihexLoop inbuf recsize (fuel + 1) buf nextaddr n64k
        bufsize =
      some
        (n + nbytes,
          turnText inbuf n buf nextaddr n64k ++ text) := by
  have hPos := recordSize_pos hSome hMore hAddress
  rw [← hSize] at hPos
  have hFirst :
      (if bufsize < recsize then bufsize else recsize) =
        min recsize bufsize := by
    by_cases hLess : bufsize < recsize
    · rw [if_pos hLess]
      omega
    · rw [if_neg hLess]
      omega
  have hSecond :
      (if 0x10000 < nextaddr + min recsize bufsize then
          0x10000 - nextaddr
        else min recsize bufsize) = n := by
    rw [hSize, recordSize]
    by_cases hOver : 0x10000 < nextaddr + min recsize bufsize
    · rw [if_pos hOver]
      omega
    · rw [if_neg hOver]
      omega
  rw [b2ihexLoop, if_neg (Nat.ne_of_gt hMore)]
  simp only [hFirst, hSecond, hRest, turnText, ne_eq,
    Nat.ne_of_gt hPos, not_false_eq_true, if_true,
    List.append_assoc]

/-
  The loop ends with every byte written.  By induction on the
  turns; each writes a byte at least.
-/
theorem b2ihexLoop_ends
    (inbuf : Nat → UInt8)
    (hSome : 0 < recsize)
    (hAddress : nextaddr < 0x10000)
    {fuel : Nat}
    (hFuel : bufsize ≤ fuel)
    (buf n64k : Nat) :
    ∃ text,
      b2ihexLoop inbuf recsize fuel buf nextaddr n64k bufsize =
        some (bufsize, text) := by
  induction fuel generalizing bufsize nextaddr buf n64k with
  | zero =>
      have hNone : bufsize = 0 := Nat.le_zero.mp hFuel
      subst hNone
      exact ⟨[], b2ihexLoop_zero inbuf recsize 0 buf _ n64k⟩
  | succ fuel ih =>
      by_cases hMore : 0 < bufsize
      · have hPos := recordSize_pos hSome hMore hAddress
        rcases @recordSize_le recsize bufsize nextaddr with
          ⟨hAll, _hRec, hIn⟩
        have hNext :
            (if 0x10000 ≤
                  nextaddr +
                    recordSize recsize bufsize nextaddr then 0
              else
                nextaddr +
                  recordSize recsize bufsize nextaddr) <
              0x10000 := by
          by_cases hWraps :
              0x10000 ≤
                nextaddr + recordSize recsize bufsize nextaddr
          · rw [if_pos hWraps]
            decide
          · rw [if_neg hWraps]
            omega
        rcases ih hNext
            (show
              bufsize - recordSize recsize bufsize nextaddr ≤
                fuel by omega)
            (buf + recordSize recsize bufsize nextaddr)
            (if 0x10000 ≤
                nextaddr + recordSize recsize bufsize nextaddr
              then n64k + 1
              else n64k) with
          ⟨text, hText⟩
        have hTurn :=
          b2ihexLoop_turn hSome hMore hAddress rfl hText
        rw [Nat.add_sub_cancel' hAll] at hTurn
        exact ⟨_, hTurn⟩
      · have hNone : bufsize = 0 := by omega
        subst hNone
        exact ⟨[], b2ihexLoop_zero inbuf recsize _ buf _ n64k⟩

end Turn

section Reading

variable {inbuf : Nat → UInt8} {limit : UInt32}

/- The loop of `ihex2b` over a text. -/
def ihexRun
    (limit : UInt32)
    (text : List Char)
    (s : IhexState) : Except LoadError UInt32 × TaggedMem :=
  loadLines (ihexStep limit 0) ihexAtEnd
    (TextLines.chunks (maxLineLen - 1) text) s

/-
  A data record in front of a text.  The state behind it has
  read as far as the writer has written.
-/
theorem ihexRun_data
    {n base nextaddr : Nat}
    (hShort : n ≤ 122)
    (hAddress : nextaddr < 0x10000)
    (hIn : base + nextaddr + n ≤ limit.toNat)
    {s : IhexState}
    (hBase : s.baseaddr = UInt32.ofNat base)
    (hMax : s.maxaddr = UInt32.ofNat (base + nextaddr))
    (tail : List Char) :
    ∃ lineno ihex,
      ihexRun limit
          (ihexText n nextaddr 0
              (Pages.read (base + nextaddr) n inbuf) ++
            '\n' :: tail) s =
        ihexRun limit tail
          { s with
            lineno := lineno
            ihex := ihex
            mem :=
              s.mem.fill (base + nextaddr)
                (Pages.read (base + nextaddr) n inbuf)
            maxaddr :=
              UInt32.ofNat (base + nextaddr + n) } := by
  have hLength :=
    Pages.read_length (base + nextaddr) n inbuf
  have hStep :=
    @ihexStep_data limit _
        (Pages.read (base + nextaddr) n inbuf) (by omega)
        hAddress _ _ hBase hMax (by omega)
  have hText :=
    @ihexText_length n _ 0
        (Pages.read (base + nextaddr) n inbuf) (by omega)
        hAddress
  rw [hLength] at hStep hText
  have hRoom : maxLineLen - 1 = 255 := rfl
  rcases @loadLines_plain _ 0 _ ihexText_plain
      (by simp [ihexText]) (by omega) tail _ _ hStep with
    ⟨lineno, hLines⟩
  exact ⟨lineno, _, hLines⟩

/- An extended address record in front of a text. -/
theorem ihexRun_extended
    {k : Nat}
    (hWord : k < 0x10000)
    (s : IhexState)
    (tail : List Char) :
    ∃ lineno ihex,
      ihexRun limit
          (ihexText 2 0 4 [UInt8.ofNat (k / 256), UInt8.ofNat k]
            ++ '\n' :: tail) s =
        ihexRun limit tail
          { s with
            lineno := lineno
            ihex := ihex
            baseaddr := UInt32.ofNat (k * 0x10000) } := by
  rcases @ihexStep_extended limit 0 _ hWord s with
    ⟨ihex, hStep⟩
  have hText :=
    @ihexText_length 2 0 4
        [UInt8.ofNat (k / 256), UInt8.ofNat k] (by decide)
        (by decide)
  rw [List.length_cons, List.length_singleton] at hText
  have hRoom : maxLineLen - 1 = 255 := rfl
  rcases @loadLines_plain _ 0 _ ihexText_plain
      (by simp [ihexText]) (by omega) tail _ _ hStep with
    ⟨lineno, hLines⟩
  exact ⟨lineno, ihex, hLines⟩

/- The end record, whatever is behind it. -/
theorem ihexRun_end
    (s : IhexState)
    (tail : List Char) :
    ihexRun limit (ihexText 0 0 1 [] ++ '\n' :: tail) s =
      (.ok s.maxaddr, s.mem) := by
  have hText :=
    @ihexText_length 0 0 1 [] (by decide) (by decide)
  have hRoom : maxLineLen - 1 = 255 := rfl
  rw [List.length_nil] at hText
  exact
    ihexStep_lineStep.done ihexAtEnd ihexText_plain
      (by simp [ihexText])
      (by omega) tail (ihexStep_end s)

/- A turn of the writer in front of a text. -/
theorem turnText_read
    {n nextaddr n64k : Nat}
    (hShort : n ≤ 122)
    (hAddress : nextaddr < 0x10000)
    (hIn :
      n64k * 0x10000 + nextaddr + n ≤ limit.toNat)
    {s : IhexState}
    (hBase : s.baseaddr = UInt32.ofNat (n64k * 0x10000))
    (hMax :
      s.maxaddr = UInt32.ofNat (n64k * 0x10000 + nextaddr))
    (tail : List Char) :
    ∃ s',
      ihexRun limit
          (turnText inbuf n (n64k * 0x10000 + nextaddr) nextaddr
              n64k ++ tail) s =
        ihexRun limit tail s' ∧
        s'.mem =
          s.mem.fill (n64k * 0x10000 + nextaddr)
            (Pages.read (n64k * 0x10000 + nextaddr) n inbuf) ∧
        s'.baseaddr =
          UInt32.ofNat
            ((if 0x10000 ≤ nextaddr + n then n64k + 1 else n64k)
              * 0x10000) ∧
        s'.maxaddr =
          UInt32.ofNat (n64k * 0x10000 + nextaddr + n) := by
  have hLimit := limit.toNat_lt
  by_cases hWraps : 0x10000 ≤ nextaddr + n
  · rcases @ihexRun_data inbuf _ _ _ _ hShort hAddress hIn _
        hBase hMax
        (ihexText 2 0 4
            [UInt8.ofNat ((n64k + 1) / 256),
              UInt8.ofNat (n64k + 1)] ++
          '\n' :: tail) with
      ⟨lineno, ihex, hData⟩
    rcases @ihexRun_extended limit _
        (show n64k + 1 < 0x10000 by omega)
        { s with
          lineno := lineno
          ihex := ihex
          mem :=
            s.mem.fill (n64k * 0x10000 + nextaddr)
              (Pages.read (n64k * 0x10000 + nextaddr) n inbuf)
          maxaddr :=
            UInt32.ofNat (n64k * 0x10000 + nextaddr + n) }
        tail with
      ⟨lineno', ihex', hExtended⟩
    have hText :
        turnText inbuf n (n64k * 0x10000 + nextaddr) nextaddr
              n64k ++ tail =
          ihexText n nextaddr 0
              (Pages.read (n64k * 0x10000 + nextaddr) n inbuf)
            ++ '\n' ::
              (ihexText 2 0 4
                  [UInt8.ofNat ((n64k + 1) / 256),
                    UInt8.ofNat (n64k + 1)] ++
                '\n' :: tail) := by
      simp only [turnText, if_pos hWraps, List.append_assoc,
        List.cons_append, List.nil_append]
    have hBoth := hData.trans hExtended
    rw [← hText] at hBoth
    exact ⟨_, hBoth, rfl, by rw [if_pos hWraps], rfl⟩
  · rcases @ihexRun_data inbuf _ _ _ _ hShort hAddress hIn _
        hBase hMax tail with
      ⟨lineno, ihex, hData⟩
    have hText :
        turnText inbuf n (n64k * 0x10000 + nextaddr) nextaddr
              n64k ++ tail =
          ihexText n nextaddr 0
              (Pages.read (n64k * 0x10000 + nextaddr) n inbuf)
            ++ '\n' :: tail := by
      simp only [turnText, if_neg hWraps, List.append_assoc,
        List.singleton_append]
    rw [← hText] at hData
    exact ⟨_, hData, rfl, by rw [if_neg hWraps]; exact hBase,
      rfl⟩

/-
  The reader follows the loop.  By induction on the turns;
  between two of them the reader's base is the 64K block the
  writer is in, and all before the writer's place is read.
-/
theorem b2ihexLoop_read
    {recsize bufsize nextaddr fuel : Nat}
    (hSome : 0 < recsize)
    (hLines : min recsize bufsize ≤ 122)
    (hFuel : bufsize ≤ fuel)
    (hAddress : nextaddr < 0x10000)
    {place n64k : Nat}
    (hPlace : place = n64k * 0x10000 + nextaddr)
    (hIn : place + bufsize ≤ limit.toNat)
    {text : List Char}
    (hText :
      b2ihexLoop inbuf recsize fuel place nextaddr n64k
          bufsize = some (bufsize, text))
    {s : IhexState}
    (hBase : s.baseaddr = UInt32.ofNat (n64k * 0x10000))
    (hMax : s.maxaddr = UInt32.ofNat place)
    (tail : List Char) :
    ∃ s',
      ihexRun limit (text ++ tail) s = ihexRun limit tail s' ∧
        s'.mem =
          s.mem.fill place (Pages.read place bufsize inbuf) ∧
        s'.maxaddr = UInt32.ofNat (place + bufsize) := by
  induction fuel
    generalizing bufsize nextaddr place n64k text s with
  | zero =>
      have hNone : bufsize = 0 := Nat.le_zero.mp hFuel
      subst hNone
      rw [b2ihexLoop_zero, Option.some.injEq, Prod.mk.injEq]
        at hText
      rw [← hText.2]
      exact ⟨s, rfl,
        by rw [Pages.read_zero, TaggedMem.fill_nil], hMax⟩
  | succ fuel ih =>
      by_cases hMore : 0 < bufsize
      · have hPos := recordSize_pos hSome hMore hAddress
        rcases @recordSize_le recsize bufsize nextaddr with
          ⟨hAll, hRec, hEnd⟩
        obtain ⟨n, hSize⟩ :
            ∃ n, n = recordSize recsize bufsize nextaddr :=
          ⟨_, rfl⟩
        rw [← hSize] at hPos hAll hRec hEnd
        have hBlock := hEnd hAddress
        have hThere :
            place + n =
                (if 0x10000 ≤ nextaddr + n then n64k + 1
                  else n64k) * 0x10000 +
                  (if 0x10000 ≤ nextaddr + n then 0
                    else nextaddr + n) ∧
              (if 0x10000 ≤ nextaddr + n then 0
                else nextaddr + n) < 0x10000 := by
          by_cases hWraps : 0x10000 ≤ nextaddr + n
          · rw [if_pos hWraps, if_pos hWraps]
            omega
          · rw [if_neg hWraps, if_neg hWraps]
            omega
        rcases b2ihexLoop_ends inbuf hSome hThere.2
            (show bufsize - n ≤ fuel by omega) (place + n)
            (if 0x10000 ≤ nextaddr + n then n64k + 1
              else n64k) with
          ⟨rest, hRest⟩
        have hTurn :=
          b2ihexLoop_turn hSome hMore hAddress hSize hRest
        rw [hText, Option.some.injEq, Prod.mk.injEq] at hTurn
        rw [hTurn.2]
        rw [hPlace] at hMax
        rcases @turnText_read inbuf _ n _ _
            (show n ≤ 122 by omega) hAddress
            (show n64k * 0x10000 + nextaddr + n ≤ limit.toNat
              by omega) _ hBase hMax (rest ++ tail) with
          ⟨s₁, hFirst, hMem₁, hBase₁, hMax₁⟩
        rw [← hPlace] at hFirst hMem₁ hMax₁
        rcases ih (by omega) (by omega) hThere.2 hThere.1
            (by omega) hRest hBase₁ hMax₁ with
          ⟨s₂, hSecond, hMem₂, hMax₂⟩
        refine ⟨s₂, ?_, ?_, ?_⟩
        · rw [List.append_assoc, hFirst, hSecond]
        · have hFill :=
            s.mem.fill_append place
              (Pages.read place n inbuf)
              (Pages.read (place + n) (bufsize - n) inbuf)
          rw [Pages.read_length, ← Pages.read_add,
            Nat.add_sub_cancel' hAll] at hFill
          rw [hMem₂, hMem₁, hFill]
        · rw [hMax₂, Nat.add_assoc, Nat.add_sub_cancel' hAll]
      · have hNone : bufsize = 0 := by omega
        subst hNone
        rw [b2ihexLoop_zero, Option.some.injEq, Prod.mk.injEq]
          at hText
        rw [← hText.2]
        exact ⟨s, rfl,
          by rw [Pages.read_zero, TaggedMem.fill_nil], hMax⟩

end Reading

------------------------------------------------------------
-- Writing and Reading
------------------------------------------------------------

/- A record that is read is as long as it says. -/
theorem ihexReadrec_length
    {ihex : IhexRec}
    {rec : List Char}
    {out : UInt8 × IhexRec}
    (hRead : ihexReadrec ihex rec = some out) :
    ∃ reclen,
      hexField 2 (rec.drop 1) = some reclen ∧
        11 + 2 * (UInt8.ofNat reclen.1).toNat ≤
          rec.length := by
  simp only [ihexReadrec, Option.bind_eq_bind,
    Option.bind_eq_some_iff] at hRead
  rcases hRead with
    ⟨reclen, hLen, loadofs, hOfs, rectyp, hTyp, data, hData,
      cksum, hSum, _hOut⟩
  rcases hexField_some hLen with ⟨hLen', hRest₁⟩
  rcases hexField_some hOfs with ⟨hOfs', hRest₂⟩
  rcases hexField_some hTyp with ⟨hTyp', hRest₃⟩
  rcases dataFields_some hData with ⟨_hCount, hData', hRest₄⟩
  rcases hexField_some hSum with ⟨hSum', _hRest⟩
  rw [hRest₄, List.length_drop] at hSum'
  rw [hRest₃, List.length_drop] at hData' hSum'
  rw [hRest₂, List.length_drop] at hTyp' hData' hSum'
  rw [hRest₁, List.length_drop, List.length_drop]
    at hOfs' hTyp' hData' hSum'
  exact ⟨reclen, hLen, by omega⟩

/- A text with one line that is cut off is refused. -/
theorem ihexRun_cut
    {limit : UInt32}
    {n nextaddr : Nat}
    {bytes : List UInt8}
    (hLength : bytes.length = n)
    (hCount : n < 256)
    (hLong : 122 < n)
    (hAddress : nextaddr < 0x10000)
    (tail : List Char)
    (s : IhexState) :
    (ihexRun limit (ihexText n nextaddr 0 bytes ++ tail) s).1 =
      .error (.invalidRecord (s.lineno + 1)) := by
  have hPlain :=
    @ihexText_plain n nextaddr 0 bytes
  have hText :=
    @ihexText_length n _ 0 bytes hCount hAddress
  have hRoom : maxLineLen - 1 = 255 := rfl
  -- the first 255 characters are all the buffer takes
  obtain ⟨line, hLine⟩ :
      ∃ line,
        line = (ihexText n nextaddr 0 bytes).take 255 :=
    ⟨_, rfl⟩
  have hFull : line.length = 255 := by
    rw [hLine, List.length_take]
    omega
  have hPart : Plain line := by
    rw [hLine]
    exact
      ⟨fun hMem => hPlain.1 (List.mem_of_mem_take hMem),
        fun hMem => hPlain.2 (List.mem_of_mem_take hMem)⟩
  have hSplit :
      ihexText n nextaddr 0 bytes ++ tail =
        line ++
          ((ihexText n nextaddr 0 bytes).drop 255 ++ tail) := by
    rw [← List.append_assoc, hLine, List.take_append_drop]
  have hSome : line ≠ [] := by
    intro hNil
    rw [hNil] at hFull
    exact absurd hFull (by decide)
  have hHead : line.head? = some ':' := by
    rw [hLine]
    simp [ihexText]
  -- its length field still announces all the bytes
  have hNone : ihexReadrec s.ihex line = none := by
    cases hRead : ihexReadrec s.ihex line with
    | none => rfl
    | some out =>
        rcases ihexReadrec_length hRead with
          ⟨reclen, hLen, hEnough⟩
        have hTwo :=
          @upperHex_length 2 _ (by decide) hCount
        have hField :
            line.drop 1 =
              upperHex 2 n ++
                ((upperHex 4 nextaddr ++ upperHex 2 0 ++
                    hexBytes bytes ++
                    upperHex 2
                      (-(UInt8.ofNat n +
                        offsetSum (UInt32.ofNat nextaddr) + 0 +
                        bytes.sum)).toNat).take 252) := by
          rw [hLine, ihexText]
          simp only [List.cons_append, List.append_assoc,
            List.take_succ_cons, List.drop_succ_cons,
            List.drop_zero]
          rw [List.take_append, hTwo,
            List.take_of_length_le (by omega)]
          rfl
        have hMax : (256 : Nat) ≤ ulongMax := by decide
        rw [hField,
          hexField_upperHex (by decide) hCount (by omega),
          Option.some.injEq] at hLen
        rw [← hLen, UInt8.toNat_ofNat',
          Nat.mod_eq_of_lt hCount] at hEnough
        omega
  have hStep :
      ihexStep limit 0 line s =
        .done (.error (.invalidRecord (s.lineno + 1)))
          s.mem := by
    rw [ihexStep, bufferString_plain hPart]
    simp only [hHead, hNone, ne_eq, not_true_eq_false, if_false]
  rw [ihexRun, hSplit, hRoom,
    TextLines.chunks_full hPart.1 hSome hFull,
    loadLines_done hStep]

/- The first record of an image. -/
theorem b2ihexLoop_first
    {inbuf : Nat → UInt8}
    {recsize bufsize : Nat}
    (hSome : 0 < recsize)
    (hMost : recsize ≤ 255)
    (hMore : 0 < bufsize)
    {text : List Char}
    (hText :
      b2ihexLoop inbuf recsize bufsize 0 0 0 bufsize =
        some (bufsize, text)) :
    ∃ rest,
      text =
        ihexText (min recsize bufsize) 0 0
            (Pages.read 0 (min recsize bufsize) inbuf) ++
          '\n' :: rest := by
  have hSize :
      min recsize bufsize = recordSize recsize bufsize 0 := by
    unfold recordSize
    omega
  obtain ⟨fuel, hFuel⟩ : ∃ fuel, bufsize = fuel + 1 :=
    ⟨bufsize - 1, by omega⟩
  have hNext :
      (if 0x10000 ≤ 0 + min recsize bufsize then 0
        else 0 + min recsize bufsize) < 0x10000 := by
    rw [if_neg (by omega)]
    omega
  rcases b2ihexLoop_ends inbuf hSome hNext
      (show bufsize - min recsize bufsize ≤ fuel by omega)
      (0 + min recsize bufsize)
      (if 0x10000 ≤ 0 + min recsize bufsize then 0 + 1
        else 0) with
    ⟨rest, hRest⟩
  have hTurn :=
    b2ihexLoop_turn hSome hMore (by decide) hSize hRest
  rw [← hFuel, hText, Option.some.injEq, Prod.mk.injEq] at hTurn
  rw [hTurn.2, turnText]
  simp only [List.append_assoc, List.singleton_append]
  exact ⟨_, rfl⟩

/- Writing comes to an end, with a record for that. -/
theorem b2ihex_ends
    (inbuf : Nat → UInt8)
    (bufsize : Nat)
    {recsize : Nat}
    (hSome : 0 < recsize)
    (hMost : recsize ≤ 255) :
    ∃ text,
      b2ihexLoop inbuf recsize bufsize 0 0 0 bufsize =
          some (bufsize, text) ∧
        b2ihex inbuf bufsize recsize 0 =
          some ((bufsize : Int),
            text ++ ihexText 0 0 1 [] ++ ['\n']) := by
  rcases b2ihexLoop_ends inbuf hSome (by decide : 0 < 0x10000)
      (Nat.le_refl bufsize) 0 0 with
    ⟨text, hText⟩
  refine ⟨text, hText, ?_⟩
  have hZero : (0 : UInt16).toNat = 0 := rfl
  rw [b2ihex, if_neg (Nat.not_lt.mpr hMost), hZero, hText]

/- What is written in lines that fit is read back. -/
theorem ihex2b_written
    {inbuf : Nat → UInt8}
    {bufsize recsize : Nat}
    (hSome : 0 < recsize)
    (hShort : min recsize bufsize ≤ 122)
    {text : List Char}
    (hText :
      b2ihexLoop inbuf recsize bufsize 0 0 0 bufsize =
        some (bufsize, text))
    (ihex : IhexRec)
    (mem : TaggedMem)
    {limit : UInt32}
    (hFits : bufsize ≤ limit.toNat)
    (hInt : limit.toNat < 2 ^ 31) :
    ihex2b ihex (text ++ ihexText 0 0 1 [] ++ ['\n']) mem limit
        0 =
      ((bufsize : Int),
        mem.fill 0 (Pages.read 0 bufsize inbuf)) := by
  rcases @b2ihexLoop_read _ limit _ _ _ _ hSome hShort
      (Nat.le_refl bufsize) (by decide) 0 0 rfl (by omega) _
      hText (ihexStart ihex mem) rfl rfl
      (ihexText 0 0 1 [] ++ ['\n']) with
    ⟨s', hRead, hMem, hMax⟩
  have hEnd := @ihexRun_end limit s' []
  have hCode : loadCode (.ok s'.maxaddr) = (bufsize : Int) := by
    rw [loadCode, hMax, Nat.zero_add, asInt_of_lt]
    · rw [UInt32.toNat_ofNat', Nat.mod_eq_of_lt (by omega)]
    · rw [UInt32.toNat_ofNat']
      omega
  have hRun :
      ihexLoad ihex (text ++ ihexText 0 0 1 [] ++ ['\n']) mem
          limit 0 =
        (.ok s'.maxaddr, s'.mem) := by
    rw [ihexLoad, List.append_assoc]
    exact hRead.trans hEnd
  rw [ihex2b, hRun, hCode, hMem]
  rfl

/-
  An image written with records of any size is read back into
  any memory it fits in, and nothing else there changes, if
  and only if no record has more than 122 bytes: a longer line
  does not fit into the buffer of the reader.
-/
theorem ihex_roundTrip_iff
    (inbuf : Nat → UInt8)
    {bufsize recsize : Nat}
    (hSome : 0 < recsize)
    (hMost : recsize ≤ 255)
    (ihex : IhexRec)
    (mem : TaggedMem)
    {limit : UInt32}
    (hFits : bufsize ≤ limit.toNat)
    (hInt : limit.toNat < 2 ^ 31) :
    ∃ text,
      b2ihex inbuf bufsize recsize 0 =
          some ((bufsize : Int), text) ∧
        (ihex2b ihex text mem limit 0 =
            ((bufsize : Int),
              mem.fill 0 (Pages.read 0 bufsize inbuf)) ↔
          min recsize bufsize ≤ 122) := by
  rcases b2ihex_ends inbuf bufsize hSome hMost with
    ⟨text, hText, hFile⟩
  refine ⟨_, hFile, ?_⟩
  constructor
  · intro hSame
    by_contra hLong
    have hMore : 0 < bufsize := by omega
    rcases b2ihexLoop_first hSome hMost hMore hText with
      ⟨rest, hFirst⟩
    have hCut :=
      @ihexRun_cut limit _ 0 _
          (Pages.read_length 0 (min recsize bufsize) inbuf)
          (by omega) (by omega) (by decide)
          ('\n' :: rest ++ (ihexText 0 0 1 [] ++ ['\n']))
          (ihexStart ihex mem)
    rw [← List.append_assoc, ← hFirst] at hCut
    have hRun :
        (ihexLoad ihex (text ++ ihexText 0 0 1 [] ++ ['\n'])
            mem limit 0).1 =
          .error
            (.invalidRecord ((ihexStart ihex mem).lineno + 1))
        := by
      rw [ihexLoad, List.append_assoc]
      exact hCut
    have hCode := congrArg Prod.fst hSame
    rw [ihex2b, hRun] at hCode
    exact absurd hCode (by rw [loadCode]; omega)
  · intro hShort
    exact ihex2b_written hSome hShort hText ihex mem hFits hInt

/- Three records of a buffer of 70 bytes. -/
theorem ihex_roundTrip_seventy :
    ∃ text,
      b2ihex UInt8.ofNat 70 32 0 = some (70, text) ∧
        (ihex2b blankRec text blankFlash 4096 0 =
            (70,
              blankFlash.fill 0 (Pages.read 0 70 UInt8.ofNat)) ↔
          min 32 70 ≤ 122) :=
  ihex_roundTrip_iff UInt8.ofNat (by decide) (by decide)
    blankRec blankFlash (by decide) (by decide)

end Lucax
