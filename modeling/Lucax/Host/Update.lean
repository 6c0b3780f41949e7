import Mathlib.Data.List.TakeWhile
import Lucax.Files.Fileio
import Lucax.Host.AvrBytes

/-
  Update operations (update.c): what `-U` asks for, and what
  is done for it.

  Key definitions include:
    * `Update`, `parseOp`
    * `Session`, `doOp`
    * `queued`, `runUpdates`

  Main declarations:
    * `parseOp_iff`
    * `doOp_write_iff`
-/

------------------------------------------------------------
-- Updates
------------------------------------------------------------

namespace Lucax

inductive DeviceOp where
| read
| write
| verify
deriving DecidableEq

/- `UPDATE`; without a memory the default one is meant. -/
structure Update where
  memtype : Option (List Char)
  op : DeviceOp
  filename : List Char
  format : FileFmt
deriving DecidableEq

def updateOp : Char → Option DeviceOp
| 'r' => some .read
| 'w' => some .write
| 'v' => some .verify
| _ => none

def updateFormat : Char → Option FileFmt
| 'a' => some .auto
| 's' => some .srec
| 'i' => some .ihex
| 'r' => some .rbin
| 'e' => some .elf
| 'm' => some .imm
| 'b' => some .bin
| 'd' => some .dec
| 'h' => some .hex
| 'o' => some .oct
| _ => none

/- The file name up to the last colon, and the format. -/
def parseFile (cp : List Char) : Option (List Char × FileFmt) :=
  match TextLines.splitLast ':' cp with
  | none => some (cp, .auto)
  | some (name, [c]) => (updateFormat c).map fun f => (name, f)
  | some (_, _) => none

/- `char buf[1024]` takes what stands before a colon. -/
def parseOp (s : List Char) : Option Update :=
  let buf := (s.take 1023).takeWhile fun c => c ≠ ':'
  match s.drop buf.length with
  | ':' :: m :: ':' :: cp =>
      (updateOp m).bind fun op =>
        (parseFile cp).map fun file =>
          { memtype := some buf
            op := op
            filename := file.1
            format := file.2 }
  | ':' :: _ => none
  | _ =>
      some
        { memtype := none
          op := .write
          filename := buf
          format := .auto }

------------------------------------------------------------
-- Spellings
------------------------------------------------------------

/-
  How an update is written.  The name of a file may contain
  colons if the format is given; without a memory the text is
  a file name, of which only 1023 characters are kept.
-/
inductive Spells : List Char → Update → Prop where
| full
    {memtype filename : List Char}
    {m f : Char}
    {op : DeviceOp}
    {format : FileFmt}
    (hType : ':' ∉ memtype)
    (hShort : memtype.length ≤ 1023)
    (hOp : updateOp m = some op)
    (hFormat : updateFormat f = some format)
    (hPlain : f ≠ ':') :
    Spells
      (memtype ++ ':' :: m :: ':' :: (filename ++ [':', f]))
      ⟨some memtype, op, filename, format⟩
| detected
    {memtype filename : List Char}
    {m : Char}
    {op : DeviceOp}
    (hType : ':' ∉ memtype)
    (hShort : memtype.length ≤ 1023)
    (hOp : updateOp m = some op)
    (hName : ':' ∉ filename) :
    Spells (memtype ++ ':' :: m :: ':' :: filename)
      ⟨some memtype, op, filename, .auto⟩
| bare
    {s : List Char}
    (hNone : ':' ∉ s.take 1024) :
    Spells s ⟨none, .write, s.take 1023, .auto⟩

section Parse

variable {s : List Char}

theorem parseFile_iff
    {cp filename : List Char}
    {format : FileFmt} :
    parseFile cp = some (filename, format) ↔
      (':' ∉ cp ∧ filename = cp ∧ format = .auto) ∨
        ∃ f, cp = filename ++ [':', f] ∧ f ≠ ':' ∧
          updateFormat f = some format := by
  rw [parseFile]
  cases hSplit : TextLines.splitLast ':' cp with
  | none =>
      have hNone := TextLines.splitLast_none.mp hSplit
      simp only [Option.some.injEq, Prod.mk.injEq]
      constructor
      · rintro ⟨hName, hFormat⟩
        exact Or.inl ⟨hNone, hName.symm, hFormat.symm⟩
      · rintro (⟨_hNone, hName, hFormat⟩ | ⟨f, hText, _hRest⟩)
        · exact ⟨hName.symm, hFormat.symm⟩
        · rw [hText] at hNone
          exact absurd (by simp) hNone
  | some parts =>
      rcases parts with ⟨name, behind⟩
      rcases TextLines.splitLast_some.mp hSplit with
        ⟨hText, hLast⟩
      have hColon : ':' ∈ cp := by
        rw [hText]
        simp
      have hUnique
          {f : Char}
          (hWhole : cp = filename ++ [':', f])
          (hPlain : f ≠ ':') :
          name = filename ∧ behind = [f] := by
        have hSame :=
          TextLines.splitLast_some.mpr
            ⟨hWhole, by simpa using hPlain.symm⟩
        rw [hSplit, Option.some.injEq, Prod.mk.injEq] at hSame
        exact hSame
      constructor
      · intro hParsed
        right
        rcases behind with _ | ⟨f, _ | ⟨g, behind⟩⟩
        · cases hParsed
        · simp only [Option.map_eq_some_iff, Prod.mk.injEq]
            at hParsed
          rcases hParsed with ⟨format', hFormat, hName, hSame⟩
          rw [hName] at hText
          rw [hSame] at hFormat
          exact
            ⟨f, hText, fun hHere => hLast (by simp [hHere]),
              hFormat⟩
        · cases hParsed
      · rintro (⟨hNone, _hRest⟩ | ⟨f, hWhole, hPlain, hFormat⟩)
        · exact absurd hColon hNone
        · rcases hUnique hWhole hPlain with ⟨hName, hBehind⟩
          rw [hName, hBehind]
          simp [hFormat]

/- What stands before the first colon. -/
theorem takeWhile_colon
    {memtype : List Char}
    (hType : ':' ∉ memtype)
    (hShort : memtype.length ≤ 1023)
    (rest : List Char) :
    (((memtype ++ ':' :: rest).take 1023).takeWhile
      fun c => c ≠ ':') = memtype := by
  have hAll : ∀ c ∈ memtype, decide (c ≠ ':') = true := by
    intro c hMem
    exact decide_eq_true fun hHere => hType (hHere ▸ hMem)
  rw [List.take_append, List.take_of_length_le hShort]
  rw [List.takeWhile_append_of_pos hAll]
  cases hRoom : 1023 - memtype.length with
  | zero => simp
  | succ n => simp

/- The buffer ends at a colon, or where it is full. -/
theorem firstField_spec
    (s : List Char) :
    let buf := (s.take 1023).takeWhile fun c => c ≠ ':'
    s = buf ++ s.drop buf.length ∧
      ':' ∉ buf ∧
      buf.length ≤ 1023 ∧
      ∀ c rest, s.drop buf.length = c :: rest → c ≠ ':' →
        buf.length = 1023 := by
  intro buf
  have hBuf : buf <+: s :=
    (List.takeWhile_prefix _).trans (List.take_prefix 1023 s)
  have hWhole : s = buf ++ s.drop buf.length := by
    rcases hBuf with ⟨rest, hText⟩
    rw [← hText, List.drop_left]
  have hFew : buf.length ≤ (s.take 1023).length :=
    (List.takeWhile_prefix _).length_le
  rw [List.length_take] at hFew
  refine ⟨hWhole, ?_, by omega, ?_⟩
  · intro hMem
    have hPlain := List.mem_takeWhile_imp hMem
    simp at hPlain
  · intro c rest hRest hPlain
    by_contra hShort
    have hLess : buf.length < 1023 := by omega
    have hTake :
        s.take 1023 =
          buf ++ (c :: rest).take (1023 - buf.length) := by
      rw [← hRest]
      conv => lhs; rw [hWhole]
      rw [List.take_append, List.take_of_length_le (by omega)]
    obtain ⟨n, hRoom⟩ : ∃ n, 1023 - buf.length = n + 1 :=
      ⟨1022 - buf.length, by omega⟩
    have hAll :
        ∀ d ∈ buf, decide (d ≠ ':') = true :=
      fun d hMem =>
        List.mem_takeWhile_imp
          (p := fun d => decide (d ≠ ':')) hMem
    have hLonger :
        buf =
          buf ++ c ::
            (rest.take n).takeWhile fun d => d ≠ ':' := by
      conv => lhs; rw [show buf = (s.take 1023).takeWhile
        (fun d => decide (d ≠ ':')) from rfl]
      rw [hTake, hRoom, List.take_succ_cons,
        List.takeWhile_append_of_pos hAll,
        List.takeWhile_cons_of_pos
          (p := fun d => decide (d ≠ ':'))
          (decide_eq_true hPlain)]
    have hLength := congrArg List.length hLonger
    simp at hLength

theorem colon_in_take
    {rest : List Char}
    (hRest :
      s.drop (s.take 1023).length = ':' :: rest) :
    ':' ∈ s.take 1024 := by
  have hLong : 1023 ≤ s.length := by
    by_contra hShort
    rw [List.take_of_length_le (by omega), List.drop_length]
      at hRest
    cases hRest
  rw [List.length_take, Nat.min_eq_left hLong] at hRest
  rw [List.take_add (i := 1023) (j := 1), hRest]
  simp

/- A text is taken exactly for what it spells. -/
theorem parseOp_iff
    (s : List Char)
    (u : Update) :
    parseOp s = some u ↔ Spells s u := by
  constructor
  · intro hParsed
    rcases firstField_spec s with
      ⟨hWhole, hType, hShort, hFull⟩
    rw [parseOp] at hParsed
    generalize
      ((s.take 1023).takeWhile fun c => c ≠ ':') = buf
      at hParsed hWhole hType hShort hFull
    split at hParsed
    · rename_i m cp hRest
      rw [hRest] at hWhole
      rcases Option.bind_eq_some_iff.mp hParsed with
        ⟨op, hOp, hFile⟩
      rcases Option.map_eq_some_iff.mp hFile with
        ⟨⟨filename, format⟩, hFile, hUpdate⟩
      rw [← hUpdate, hWhole]
      rcases parseFile_iff.mp hFile with
        ⟨hName, hSame, hFormat⟩ | ⟨f, hText, hPlain, hFormat⟩
      · subst hSame hFormat
        exact Spells.detected hType hShort hOp hName
      · subst hText
        exact Spells.full hType hShort hOp hFormat hPlain
    · cases hParsed
    · rename_i hNotOp hNotColon
      rw [Option.some.injEq] at hParsed
      rw [← hParsed]
      cases hRest : s.drop buf.length with
      | nil =>
          rw [hRest, List.append_nil] at hWhole
          rw [← hWhole] at hType hShort ⊢
          have hTake := List.take_of_length_le hShort
          have hSpells :=
            @Spells.bare s fun hMem =>
              hType (List.mem_of_mem_take hMem)
          rw [hTake] at hSpells
          exact hSpells
      | cons c rest =>
          have hPlain : c ≠ ':' := by
            rintro rfl
            exact hNotColon rest hRest
          have hLength := hFull c rest hRest hPlain
          rw [hRest] at hWhole
          have hTake : s.take 1023 = buf := by
            rw [hWhole, ← hLength, List.take_left]
          have hMore : s.take 1024 = buf ++ [c] := by
            rw [hWhole, List.take_append,
              List.take_of_length_le (by omega), hLength]
            rfl
          have hSpells :=
            @Spells.bare s (by
              rw [hMore]
              simp [hType, hPlain.symm])
          rw [hTake] at hSpells
          exact hSpells
  · intro hSpells
    cases hSpells with
    | @full memtype filename m f op format hType hShort hOp
        hFormat hPlain =>
        have hFile :
            parseFile (filename ++ [':', f]) =
              some (filename, format) :=
          parseFile_iff.mpr (Or.inr ⟨f, rfl, hPlain, hFormat⟩)
        rw [parseOp, takeWhile_colon hType hShort]
        simp only [List.drop_left, hOp, Option.bind_some, hFile,
          Option.map_some]
    | @detected memtype filename m op hType hShort hOp hName =>
        have hFile :
            parseFile filename = some (filename, .auto) :=
          parseFile_iff.mpr (Or.inl ⟨hName, rfl, rfl⟩)
        rw [parseOp, takeWhile_colon hType hShort]
        simp only [List.drop_left, hOp, Option.bind_some, hFile,
          Option.map_some]
    | bare hNone =>
        have hAll :
            ∀ c ∈ s.take 1023, decide (c ≠ ':') = true := by
          intro c hMem
          apply decide_eq_true
          rintro rfl
          apply hNone
          exact
            (List.take_prefix_take_left (by decide)).subset
              hMem
        have hBuf :
            ((s.take 1023).takeWhile fun c => c ≠ ':') =
              s.take 1023 :=
          List.takeWhile_eq_self_iff.mpr hAll
        rw [parseOp, hBuf]
        split
        · rename_i m cp hRest
          exact absurd (colon_in_take hRest) hNone
        · rename_i rest _hNot hRest
          exact absurd (colon_in_take hRest) hNone
        · rfl

end Parse

------------------------------------------------------------
-- Operations
------------------------------------------------------------

/-
  What an operation works on: the memories of the part, the
  files by their names, and the device; `-` is for standard
  input and output.
-/
structure UpdateState (σ : Type) where
  part : List TaggedMem
  files : List Char → Option (List UInt8)
  device : σ

/- `enum updateflags` -/
structure UpdateFlags where
  noWrite : Bool
  autoErase : Bool

namespace UpdateState

variable {σ : Type}

/- The buffer and tags of one memory. -/
def setMem
    (i : Nat)
    (m : TaggedMem)
    (s : UpdateState σ) : UpdateState σ :=
  { s with part := s.part.set i m }

/- What a file holds. -/
def setFile
    (name : List Char)
    (file : Option (List UInt8))
    (s : UpdateState σ) : UpdateState σ :=
  { s with
    files := fun n => if n = name then file else s.files n }

end UpdateState

section Operations

variable {σ : Type} (pgm : Programmer σ) (locals : FileLocals)

/- The memory is written to a file, as what `fileio` returns. -/
def saveMem
    (format : FileFmt)
    (filename : List Char)
    (i : Nat)
    (m : TaggedMem)
    (size : Nat)
    (s : UpdateState σ) : Int × UpdateState σ :=
  let saved :=
    fileioWrite format filename (s.files filename) m size
  (saved.1.1,
    (s.setMem i saved.1.2).setFile filename saved.2)

/- `DEVICE_READ` -/
def doRead
    (u : Update)
    (m : TaggedMem)
    (i : Nat)
    (s : UpdateState σ) : Int × UpdateState σ :=
  let out := avrRead pgm m none s.device
  let s := { s.setMem i out.1.2 with device := out.2 }
  if out.1.1 < 0 then (-1, s) else
  let saved :=
    saveMem u.format u.filename i out.1.2 out.1.1.toNat s
  if saved.1 < 0 then (-1, saved.2) else (0, saved.2)

/- `DEVICE_WRITE` -/
def doWrite
    (u : Update)
    (flags : UpdateFlags)
    (m : TaggedMem)
    (i : Nat)
    (s : UpdateState σ) : Int × UpdateState σ :=
  let loaded :=
    fileioRead locals u.format u.filename (s.files u.filename) m
  let s := s.setMem i loaded.2
  if loaded.1 < 0 then (-1, s) else
  let size := loaded.1.toNat
  let written :=
    if flags.noWrite then saveMem .ihex ['-'] i loaded.2 size s
    else
      let out :=
        avrWrite pgm loaded.2 size flags.autoErase s.device
      (out.1, { s with device := out.2 })
  if written.1 < 0 then (-1, written.2) else (0, written.2)

/- `DEVICE_VERIFY`; `v` is a copy of the memory as loaded. -/
def doVerify
    (u : Update)
    (m : TaggedMem)
    (i : Nat)
    (s : UpdateState σ) : Int × UpdateState σ :=
  let loaded :=
    fileioRead locals u.format u.filename (s.files u.filename) m
  if loaded.1 < 0 then (-1, s.setMem i loaded.2) else
  let v := loaded.2
  let out := avrRead pgm loaded.2 (some v.tags) s.device
  let s := { s.setMem i out.1.2 with device := out.2 }
  if out.1.1 < 0 then (-1, s)
  else if avrVerify out.1.2 v loaded.1.toNat < 0 then (-1, s)
  else (0, s)

def doOp
    (flags : UpdateFlags)
    (memtype : List Char)
    (u : Update)
    (s : UpdateState σ) : Int × UpdateState σ :=
  match avrLocateMem s.part memtype with
  | none => (-1, s)
  | some (m, i) =>
      match u.op with
      | .read => doRead pgm u m i s
      | .write => doWrite pgm locals u flags m i s
      | .verify => doVerify pgm locals u m i s

/- main.c: the memory of an update that names none. -/
def Update.memory
    (hasPdi : Bool)
    (u : Update) : List Char :=
  u.memtype.getD
    (if hasPdi then "application".toList else flashDesc)

/- main.c: what `-U` queues, with or without `-V`. -/
def queued
    (verify : Bool)
    (u : Update) : List Update :=
  if verify && u.op = .write then [u, { u with op := .verify }]
  else [u]

/- main.c: the loop over the updates, and the exit code. -/
def runUpdates
    (hasPdi : Bool)
    (flags : UpdateFlags) :
    List Update → UpdateState σ → Int × UpdateState σ
| [], s => (0, s)
| u :: updates, s =>
    let out := doOp pgm locals flags (u.memory hasPdi) u s
    if out.1 ≠ 0 then (1, out.2)
    else runUpdates hasPdi flags updates out.2

end Operations

------------------------------------------------------------
-- Codes of a Write
------------------------------------------------------------

section Write

variable {σ : Type} (pgm : Programmer σ) (locals : FileLocals)

/- Standard output takes records of 32 bytes of any data. -/
theorem saveMem_stdout
    (i : Nat)
    (m : TaggedMem)
    (size : Nat)
    (s : UpdateState σ) :
    (saveMem .ihex ['-'] i m size s).1 = size := by
  rcases b2ihex_ends m.buf size
      (show 0 < 32 by decide) (by decide) with
    ⟨text, _hText, hFile⟩
  have hFormat :
      fileioFormat .ihex ['-'] (s.files ['-']) =
        some .ihex := by
    rw [fileioFormat, if_neg (by decide)]
  rw [saveMem, fileioWrite]
  simp only [hFormat, fileioSave, hFile, writtenRecords,
    Option.getD_some]

theorem doWrite_code
    {u : Update}
    (flags : UpdateFlags)
    (m : TaggedMem)
    (i : Nat)
    (s : UpdateState σ) :
    (doWrite pgm locals u flags m i s).1 =
      if (fileioRead locals u.format u.filename
            (s.files u.filename) m).1 < 0 then -1
      else 0 := by
  rw [doWrite]
  split
  · rfl
  · -- with `-n` the code is that of standard output
    cases flags.noWrite with
    | true =>
        simp only [if_true, saveMem_stdout]
        rw [if_neg (Int.not_lt.mpr (Int.natCast_nonneg _))]
    | false =>
        simp only [Bool.false_eq_true, if_false, avrWrite_code]
        rw [if_neg (Int.not_lt.mpr (Int.natCast_nonneg _))]

/-
  Whatever a programmer does and returns, a write fails in two
  cases only: the memory is not known, or the file cannot be
  read.  What happens to the device is not one of them.
-/
theorem doOp_write_iff
    {u : Update}
    (hOp : u.op = .write)
    (flags : UpdateFlags)
    (memtype : List Char)
    (s : UpdateState σ) :
    (doOp pgm locals flags memtype u s).1 = 0 ↔
      ∃ m i,
        avrLocateMem s.part memtype = some (m, i) ∧
          0 ≤ (fileioRead locals u.format u.filename
            (s.files u.filename) m).1 := by
  rw [doOp]
  cases hFound : avrLocateMem s.part memtype with
  | none => simp
  | some found =>
      rcases found with ⟨m, i⟩
      simp only [hOp, doWrite_code pgm locals]
      constructor
      · intro hZero
        refine ⟨m, i, rfl, ?_⟩
        by_contra hError
        rw [if_pos (Int.not_le.mp hError)] at hZero
        exact absurd hZero (by decide)
      · rintro ⟨m', i', hSame, hOk⟩
        rw [Option.some.injEq, Prod.mk.injEq] at hSame
        rw [hSame.1, if_neg (Int.not_lt.mpr hOk)]

/- A file of two bytes for a flash memory. -/
theorem fileioRead_pair
    {m : TaggedMem}
    (hFlash : m.flashLike = true)
    (hSize : 2 ≤ m.size)
    {b c : UInt8}
    (hLast : c ≠ 0xFF)
    (filename : List Char) :
    fileioRead locals .rbin filename (some [b, c]) m =
      (2, m.cleared.fill 0 [b, c]) := by
  let loaded := m.cleared.fill 0 [b, c]
  have hFormat :
      fileioFormat .rbin filename (some [b, c]) =
        some .rbin := by
    rw [fileioFormat, if_neg (by decide)]
  have hErased
      {j : Nat}
      (hFrom : 2 ≤ j)
      (hIn : j ≤ m.size - 1) :
      loaded.buf j = 0xFF := by
    rw [TaggedMem.fill_buf,
      Pages.put_outside _ (Or.inr hFrom)]
    exact if_pos (by omega)
  have hEnd : avrMemHiaddr loaded = 2 := by
    change hiaddrLoop loaded.buf (m.size - 1) = 2
    rcases hiaddrLoop_spec loaded.buf (m.size - 1) with
      ⟨_hMost, hEven, hBlank⟩
    have hTwo : 2 ≤ hiaddrLoop loaded.buf (m.size - 1) := by
      by_contra hLess
      exact hLast (hBlank 1 (by decide) (by omega) (by omega))
    have hSome : hiaddrLoop loaded.buf (m.size - 1) ≠ 0 := by
      omega
    rcases hiaddrLoop_shown _ _ hSome with
      ⟨j, _hPos, hIn, _hBelow, hNext, hShown⟩
    have hSmall : j < 2 := by
      by_contra hFar
      exact hShown (hErased (by omega) hIn)
    omega
  have hTake : [b, c].take m.size = [b, c] :=
    List.take_of_length_le hSize
  have hLoad :
      fileioLoad locals .rbin filename [b, c] m.cleared =
        (2, loaded) := by
    rw [fileioLoad, fileioRbinRead]
    simp only [TaggedMem.cleared, hTake]
    rfl
  rw [fileioRead]
  simp only [hFormat, reduceCtorEq, and_false, if_false,
    Option.getD_some, hLoad]
  rw [if_pos ⟨by decide, hFlash⟩, hEnd]
  rfl

/- Two bytes for the only memory of a part, which are taken. -/
theorem recording_write_iff :
    (doOp recording ⟨blankRec, fun _ _ => ' '⟩ ⟨false, false⟩
      flashDesc ⟨none, .write, ['a'], .rbin⟩
      ⟨[blankFlash], fun _ => some [0xAA, 0xBB], []⟩).1 = 0 :=
  (doOp_write_iff recording ⟨blankRec, fun _ _ => ' '⟩ rfl
    ⟨false, false⟩ flashDesc
    ⟨[blankFlash], fun _ => some [0xAA, 0xBB], []⟩).mpr
    ⟨blankFlash, 0, rfl, by
      rw [fileioRead_pair _ rfl (by decide) (by decide)]
      decide⟩

end Write

end Lucax
