import Lucax.Files.Records

/-
  Intel HEX files, as fileio.c reads and writes them.

  Key definitions include:
    * `ihexReadrec`, `ihex2b`
    * `b2ihex`
-/

------------------------------------------------------------
-- Reading
------------------------------------------------------------

namespace Lucax

open CString Numerals

/-
  `ihex_readrec`: the computed checksum and the record, or
  none for -1.
-/
def ihexReadrec
    (ihex : IhexRec)
    (rec : List Char) : Option (UInt8 × IhexRec) := do
  let reclen ← hexField 2 (rec.drop 1)
  let loadofs ← hexField 4 reclen.2
  let rectyp ← hexField 2 loadofs.2
  let data ← dataFields (UInt8.ofNat reclen.1).toNat rectyp.2
  let cksum ← hexField 2 data.2
  let read : IhexRec :=
    { reclen := UInt8.ofNat reclen.1
      loadofs := UInt32.ofNat loadofs.1
      rectyp := UInt8.ofNat rectyp.1
      data := Pages.put 0 data.1 ihex.data
      cksum := UInt8.ofNat cksum.1 }
  let sum :=
    read.reclen + offsetSum read.loadofs + read.rectyp +
      data.1.sum
  some (-sum, read)

/- The locals of `ihex2b`. -/
structure IhexState where
  lineno : Nat
  ihex : IhexRec
  baseaddr : UInt32
  maxaddr : UInt32
  mem : TaggedMem

/- `ihex.data[0] << 8 | ihex.data[1]` -/
def IhexRec.word (r : IhexRec) : UInt32 :=
  ((r.data 0).toUInt32 <<< 8) ||| (r.data 1).toUInt32

/- The switch over the record types. -/
def ihexRecord
    (bufsize fileoffset : UInt32)
    (s : IhexState) : LoadStep IhexState :=
  let nextaddr := s.ihex.loadofs + s.baseaddr - fileoffset
  let last := nextaddr + s.ihex.reclen.toUInt32
  if s.ihex.rectyp = 0 then
    if fileoffset ≠ 0 ∧ s.baseaddr < fileoffset then
      .done (.error (.belowOffset s.lineno s.baseaddr)) s.mem
    else if bufsize < last then
      .done (.error (.outOfRange s.lineno last)) s.mem
    else
      .next
        { s with
          mem := storeRecord nextaddr 0 s.ihex.bytes s.mem
          maxaddr :=
            if s.maxaddr < last then last else s.maxaddr }
  else if s.ihex.rectyp = 1 then .done (.ok s.maxaddr) s.mem
  else if s.ihex.rectyp = 2 then
    .next { s with baseaddr := s.ihex.word <<< 4 }
  else if s.ihex.rectyp = 3 then .next s
  else if s.ihex.rectyp = 4 then
    .next { s with baseaddr := s.ihex.word <<< 16 }
  else if s.ihex.rectyp = 5 then .next s
  else .done (.error (.rectype s.lineno s.ihex.rectyp)) s.mem

/- One turn of the loop. -/
def ihexStep
    (bufsize fileoffset : UInt32)
    (chunk : List Char)
    (s : IhexState) : LoadStep IhexState :=
  let buffer := bufferString chunk
  let lineno := s.lineno + 1
  if buffer.head? ≠ some ':' then
    .next { s with lineno := lineno }
  else
    match ihexReadrec s.ihex buffer with
    | none => .done (.error (.invalidRecord lineno)) s.mem
    | some (rc, ihex) =>
        if rc ≠ ihex.cksum then
          .done (.error (.checksum lineno ihex.cksum rc)) s.mem
        else
          ihexRecord bufsize fileoffset
            { s with lineno := lineno, ihex := ihex }

/- The file has no end record. -/
def ihexAtEnd
    (s : IhexState) : Except LoadError UInt32 × TaggedMem :=
  if s.maxaddr = 0 then (.error .noRecord, s.mem)
  else (.ok s.maxaddr, s.mem)

/- What is in the local `ihex` before the first record. -/
def ihexStart
    (ihex : IhexRec)
    (mem : TaggedMem) : IhexState :=
  { lineno := 0
    ihex := ihex
    baseaddr := 0
    maxaddr := 0
    mem := mem }

/- `ihex2b` up to the code it returns. -/
def ihexLoad
    (ihex : IhexRec)
    (text : List Char)
    (mem : TaggedMem)
    (bufsize fileoffset : UInt32) :
    Except LoadError UInt32 × TaggedMem :=
  loadLines (ihexStep bufsize fileoffset) ihexAtEnd
    (TextLines.chunks (maxLineLen - 1) text)
    (ihexStart ihex mem)

def ihex2b
    (ihex : IhexRec)
    (text : List Char)
    (mem : TaggedMem)
    (bufsize fileoffset : UInt32) : Int × TaggedMem :=
  let out := ihexLoad ihex text mem bufsize fileoffset
  (loadCode out.1, out.2)

------------------------------------------------------------
-- Writing
------------------------------------------------------------

/-
  A record with the sum of its bytes so far; the newline is
  not part of it.
-/
def ihexText
    (n nextaddr : Nat)
    (rectyp : UInt8)
    (bytes : List UInt8) : List Char :=
  let cksum :=
    UInt8.ofNat n + offsetSum (UInt32.ofNat nextaddr) +
      rectyp + bytes.sum
  ':' :: upperHex 2 n ++ upperHex 4 nextaddr ++
    upperHex 2 rectyp.toNat ++ hexBytes bytes ++
    upperHex 2 (-cksum).toNat

/-
  The loop of `b2ihex`: the bytes written and the text.  A
  turn with a `recsize` above 0 writes some, so `bufsize`
  turns are enough; with 0 the loop does not end.
-/
def b2ihexLoop
    (inbuf : Nat → UInt8)
    (recsize : Nat) :
    Nat → Nat → Nat → Nat → Nat → Option (Nat × List Char)
| 0, _, _, _, bufsize =>
    if bufsize = 0 then some (0, []) else none
| fuel + 1, buf, nextaddr, n64k, bufsize =>
    if bufsize = 0 then some (0, []) else
    let n := if bufsize < recsize then bufsize else recsize
    let n :=
      if 0x10000 < nextaddr + n then 0x10000 - nextaddr else n
    let data :=
      if n ≠ 0 then
        ihexText n nextaddr 0 (Pages.read buf n inbuf) ++ ['\n']
      else []
    let wraps := 0x10000 ≤ nextaddr + n
    let extended :=
      if wraps then
        ihexText 2 0 4
          [UInt8.ofNat ((n64k + 1) / 256),
            UInt8.ofNat (n64k + 1)]
          ++ ['\n']
      else []
    match
        b2ihexLoop inbuf recsize fuel (buf + n)
          (if wraps then 0 else nextaddr + n)
          (if wraps then n64k + 1 else n64k)
          (bufsize - n) with
    | none => none
    | some (nbytes, text) =>
        some (n + nbytes, data ++ extended ++ text)

/-
  `b2ihex`: the code and the text, none where the function
  does not return.
-/
def b2ihex
    (inbuf : Nat → UInt8)
    (bufsize recsize : Nat)
    (startaddr : UInt16) : Option (Int × List Char) :=
  if 255 < recsize then some (-1, [])
  else
    match
        b2ihexLoop inbuf recsize bufsize 0 startaddr.toNat 0
          bufsize with
    | none => none
    | some (nbytes, text) =>
        some ((nbytes : Int),
          text ++ ihexText 0 0 1 [] ++ ['\n'])

end Lucax
