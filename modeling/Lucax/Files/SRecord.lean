import Lucax.Files.Records

/-
  Motorola S-records, as fileio.c reads and writes them.

  Key definitions include:
    * `srecReadrec`, `srec2b`
    * `b2srec`

  Main declarations:
    * `srec2b_stale`
-/

------------------------------------------------------------
-- Reading
------------------------------------------------------------

namespace Lucax

open CString Numerals

/- `addr_width` for the character behind the S. -/
def addrWidth (rectyp : UInt8) : Nat :=
  if rectyp = 0x32 ∨ rectyp = 0x38 then 3
  else if rectyp = 0x33 ∨ rectyp = 0x37 then 4
  else 2

/-
  The address.  The check counts characters for bytes, so up
  to half of what is copied may stand behind the end of the
  record; there `stale` is what the line buffer holds.
-/
def addressField
    (stale : Nat → Char)
    (width : Nat)
    (rec : List Char) : Option (Nat × List Char) :=
  let copied :=
    (List.range (2 * width)).map (cells (rec ++ [nul]) stale)
  let buf := copied.takeWhile fun c => c ≠ nul
  if rec.length < width then none
  else if buf ≠ [] ∧ (strtoul 16 buf).2 = [] then
    some ((strtoul 16 buf).1, rec.drop (2 * width))
  else none

/- The bytes of an address, as far as they are counted. -/
def addressSum
    (width : Nat)
    (a : UInt32) : UInt8 :=
  ((List.range width).map fun i =>
    UInt8.ofNat (a.toNat >>> (i * 8))).sum

/-
  `srec_readrec`: the computed checksum and the record, or
  none for -1.
-/
def srecReadrec
    (stale : Nat → Char)
    (srec : IhexRec)
    (rec : List Char) : Option (UInt8 × IhexRec) := do
  let char ← rec[1]?
  let rectyp := UInt8.ofNat char.toNat
  let width := addrWidth rectyp
  let count ← hexField 2 (rec.drop 2)
  let reclen := UInt8.ofNat count.1 - UInt8.ofNat (width + 1)
  let loadofs ← addressField stale width count.2
  let data ← dataFields reclen.toNat loadofs.2
  let cksum ← hexField 2 data.2
  let read : IhexRec :=
    { reclen := reclen
      loadofs := UInt32.ofNat loadofs.1
      rectyp := rectyp
      data := Pages.put 0 data.1 srec.data
      cksum := UInt8.ofNat cksum.1 }
  let sum :=
    UInt8.ofNat count.1 + addressSum width read.loadofs +
      data.1.sum
  some (0xFF - sum, read)

/- The locals of `srec2b`. -/
structure SrecState where
  lineno : Nat
  srec : IhexRec
  maxaddr : UInt32
  reccount : Nat
  mem : TaggedMem

/- A data record. -/
def srecData
    (bufsize fileoffset : UInt32)
    (s : SrecState) : LoadStep SrecState :=
  let nextaddr := s.srec.loadofs - fileoffset
  let last := nextaddr + s.srec.reclen.toUInt32
  if s.srec.loadofs < fileoffset then
    .done (.error (.belowOffset s.lineno s.srec.loadofs)) s.mem
  else if bufsize < last then
    .done (.error (.outOfRange s.lineno last)) s.mem
  else
    .next
      { s with
        mem := storeRecord nextaddr 0 s.srec.bytes s.mem
        maxaddr := if s.maxaddr < last then last else s.maxaddr
        reccount := s.reccount + 1 }

/- The switch over the record types. -/
def srecRecord
    (bufsize fileoffset : UInt32)
    (s : SrecState) : LoadStep SrecState :=
  let typ := s.srec.rectyp
  if typ = 0x30 then .next s
  else if typ = 0x31 ∨ typ = 0x32 ∨ typ = 0x33 then
    srecData bufsize fileoffset s
  else if typ = 0x34 then
    .done (.error (.notSupported s.lineno)) s.mem
  else if typ = 0x35 then
    if s.srec.loadofs ≠ UInt32.ofNat s.reccount then
      .done
        (.error (.count s.lineno s.reccount s.srec.loadofs))
        s.mem
    else .next s
  else if typ = 0x37 ∨ typ = 0x38 ∨ typ = 0x39 then
    .done (.ok s.maxaddr) s.mem
  else .done (.error (.rectype s.lineno typ)) s.mem

/- One turn of the loop; `stale` is for each line. -/
def srecStep
    (stale : Nat → Nat → Char)
    (bufsize fileoffset : UInt32)
    (chunk : List Char)
    (s : SrecState) : LoadStep SrecState :=
  let buffer := bufferString chunk
  let lineno := s.lineno + 1
  if buffer.head? ≠ some 'S' then
    .next { s with lineno := lineno }
  else
    match srecReadrec (stale lineno) s.srec buffer with
    | none => .done (.error (.invalidRecord lineno)) s.mem
    | some (rc, srec) =>
        if rc ≠ srec.cksum then
          .done (.error (.checksum lineno srec.cksum rc)) s.mem
        else
          srecRecord bufsize fileoffset
            { s with lineno := lineno, srec := srec }

/- What is in the local `srec` before the first record. -/
def srecStart
    (srec : IhexRec)
    (mem : TaggedMem) : SrecState :=
  { lineno := 0
    srec := srec
    maxaddr := 0
    reccount := 0
    mem := mem }

/- `srec2b` up to the code it returns. -/
def srecLoad
    (stale : Nat → Nat → Char)
    (srec : IhexRec)
    (text : List Char)
    (mem : TaggedMem)
    (bufsize fileoffset : UInt32) :
    Except LoadError UInt32 × TaggedMem :=
  loadLines (srecStep stale bufsize fileoffset)
    (fun s => (.ok s.maxaddr, s.mem))
    (TextLines.chunks (maxLineLen - 1) text)
    (srecStart srec mem)

def srec2b
    (stale : Nat → Nat → Char)
    (srec : IhexRec)
    (text : List Char)
    (mem : TaggedMem)
    (bufsize fileoffset : UInt32) : Int × TaggedMem :=
  let out := srecLoad stale srec text mem bufsize fileoffset
  (loadCode out.1, out.2)

------------------------------------------------------------
-- Writing
------------------------------------------------------------

/- `addr_width` for the last address of a record. -/
def widthFor (last : Nat) : Nat :=
  if last ≤ 0xFFFF then 2
  else if last ≤ 0xFFFFFF then 3
  else 4

/- A record with a type, a count and a checksum. -/
def srecText
    (digit : Char)
    (width nextaddr : Nat)
    (bytes : List UInt8) : List Char :=
  let count := bytes.length + width + 1
  let cksum :=
    UInt8.ofNat count +
      addressSum width (UInt32.ofNat nextaddr) + bytes.sum
  'S' :: digit :: upperHex 2 count ++
    upperHex (2 * width) nextaddr ++ hexBytes bytes ++
    upperHex 2 (0xFF - cksum).toNat

/- S1, S2 and S3 by the width of the address. -/
def dataDigit (width : Nat) : Char :=
  if width = 2 then '1' else if width = 3 then '2' else '3'

/-
  The loop of `b2srec`.  The bytes are taken from `nextaddr`
  on, and `buf` does not move.  A turn with a `recsize` above
  0 writes some, so `bufsize` turns are enough; with 0 the
  loop does not end.
-/
def b2srecLoop
    (buf : Nat → UInt8)
    (recsize : Nat) :
    Nat → Nat → Nat → Option (Nat × List Char)
| 0, _, bufsize => if bufsize = 0 then some (0, []) else none
| fuel + 1, nextaddr, bufsize =>
    if bufsize = 0 then some (0, []) else
    let n := if bufsize < recsize then bufsize else recsize
    let width := widthFor (nextaddr + n)
    let data :=
      if n ≠ 0 then
        srecText (dataDigit width) width nextaddr
            (Pages.read nextaddr n buf) ++ ['\n']
      else []
    match
        b2srecLoop buf recsize fuel (nextaddr + n)
          (bufsize - n) with
    | none => none
    | some (nbytes, text) => some (n + nbytes, data ++ text)

/-
  `b2srec`: the code and the text, none where the function
  does not return.
-/
def b2srec
    (inbuf : Nat → UInt8)
    (bufsize recsize startaddr : Nat) :
    Option (Int × List Char) :=
  if 255 < recsize then some (-1, [])
  else
    match
      b2srecLoop inbuf recsize bufsize startaddr bufsize with
    | none => none
    | some (nbytes, text) =>
        some
          ((nbytes : Int),
            text ++ srecText '9' (widthFor startaddr) 0 [] ++
              ['\n'])

------------------------------------------------------------
-- Behind the Record
------------------------------------------------------------

/- Within the record nothing behind it is looked at. -/
theorem addressField_enough
    (stale : Nat → Char)
    {width : Nat}
    {rec : List Char}
    (hEnough : 2 * width ≤ rec.length) :
    (List.range (2 * width)).map (cells (rec ++ [nul]) stale) =
      rec.take (2 * width) := by
  apply List.ext_getElem
  · simp
    omega
  · intro i hi hi'
    simp only [List.length_map, List.length_range] at hi
    have hIn : i < rec.length := by omega
    simp [cells, List.getElem?_append_left hIn, hIn]

theorem addressField_some
    {stale : Nat → Char}
    {width : Nat}
    {rec : List Char}
    {out : Nat × List Char}
    (hField : addressField stale width rec = some out) :
    out.2 = rec.drop (2 * width) := by
  unfold addressField at hField
  simp only at hField
  split at hField
  · exact absurd hField (by simp)
  · split at hField
    · rw [Option.some.injEq] at hField
      rw [← hField]
    · exact absurd hField (by simp)

/- Nothing is read behind the end of a record. -/
theorem dataFields_nil
    {n : Nat}
    {out : List UInt8 × List Char}
    (hFields : dataFields n [] = some out) :
    hexField 2 out.2 = none := by
  rcases dataFields_some hFields with ⟨_hCount, _hLong, hRest⟩
  rw [hRest, List.drop_nil]
  rfl

/-
  A record that ends within its address is refused at the
  latest for want of a checksum, so what is behind it in the
  line buffer has no part in the result.
-/
theorem srecReadrec_stale
    (stale stale' : Nat → Char)
    (srec : IhexRec)
    (rec : List Char) :
    srecReadrec stale srec rec =
      srecReadrec stale' srec rec := by
  unfold srecReadrec
  cases hChar : rec[1]? with
  | none => rfl
  | some char =>
      cases hCount : hexField 2 (rec.drop 2) with
      | none => rfl
      | some count =>
          simp only [Option.bind_eq_bind, Option.bind_some]
          by_cases hEnough :
              2 * addrWidth (UInt8.ofNat char.toNat) ≤
                count.2.length
          · have hSame :
                addressField stale
                    (addrWidth (UInt8.ofNat char.toNat))
                    count.2 =
                  addressField stale'
                    (addrWidth (UInt8.ofNat char.toNat))
                    count.2 := by
              rw [addressField, addressField,
                addressField_enough stale hEnough,
                addressField_enough stale' hEnough]
            rw [hSame]
          · have hEmpty :
                count.2.drop
                    (2 * addrWidth (UInt8.ofNat char.toNat)) =
                  [] :=
              List.drop_eq_nil_of_le (by omega)
            have hNone : ∀ old : Nat → Char, ∀ k : Nat,
                ∀ f : (Nat × List Char) →
                  (List UInt8 × List Char) →
                  (Nat × List Char) → UInt8 × IhexRec,
                ((addressField old
                    (addrWidth (UInt8.ofNat char.toNat))
                    count.2).bind fun loadofs =>
                  (dataFields k loadofs.2).bind fun data =>
                    (hexField 2 data.2).bind fun cksum =>
                      some (f loadofs data cksum)) = none := by
              intro old k f
              cases hAddress :
                  addressField old
                    (addrWidth (UInt8.ofNat char.toNat))
                    count.2 with
              | none => rfl
              | some loadofs =>
                  have hRest := addressField_some hAddress
                  rw [hEmpty] at hRest
                  rw [Option.bind_some, hRest]
                  cases hData : dataFields k [] with
                  | none => rfl
                  | some data =>
                      rw [Option.bind_some,
                        dataFields_nil hData, Option.bind_none]
            rw [hNone stale, hNone stale']

/-
  What an earlier line left in the line buffer has no part in
  how a file loads.
-/
theorem srec2b_stale
    (stale stale' : Nat → Nat → Char)
    (srec : IhexRec)
    (text : List Char)
    (mem : TaggedMem)
    (bufsize fileoffset : UInt32) :
    srec2b stale srec text mem bufsize fileoffset =
      srec2b stale' srec text mem bufsize fileoffset := by
  have hStep :
      srecStep stale bufsize fileoffset =
        srecStep stale' bufsize fileoffset := by
    funext chunk s
    rw [srecStep, srecStep,
      srecReadrec_stale (stale (s.lineno + 1))
        (stale' (s.lineno + 1))]
  rw [srec2b, srec2b, srecLoad, srecLoad, hStep]

end Lucax
