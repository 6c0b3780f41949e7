import Lucax.Files.Fileio

/-
  Reading a file does to a memory no more than to store bytes,
  and which ones does not depend on what the memory holds.

  Key definitions include:
    * `TaggedMem.setAll`
    * `LoadStores`
    * `TaggedMem.Agrees`

  Main declarations:
    * `ihex2b_stores`, `srec2b_stores`
    * `fileioRead_again`
-/

------------------------------------------------------------
-- Stores
------------------------------------------------------------

namespace Lucax

namespace TaggedMem

/- Some memory; a state is given another one. -/
def empty : TaggedMem where
  desc := []
  offset := 0
  buf := fun _ => 0
  size := 0
  paged := false
  pageSize := 0
  tags := fun _ => false

/- Bytes at their places, one after another. -/
def setAll
    (writes : List (Nat × UInt8))
    (m : TaggedMem) : TaggedMem :=
  writes.foldl (fun m w => m.setByte w.1 w.2) m

theorem setAll_append
    (first second : List (Nat × UInt8))
    (m : TaggedMem) :
    m.setAll (first ++ second) =
      (m.setAll first).setAll second := by
  rw [setAll, List.foldl_append]
  rfl

theorem fill_setAll
    (i : Nat)
    (bytes : List UInt8) :
    ∃ writes, ∀ m : TaggedMem,
      m.fill i bytes = m.setAll writes := by
  induction bytes generalizing i with
  | nil => exact ⟨[], fun m => fill_nil i m⟩
  | cons b bytes ih =>
      rcases ih (i + 1) with ⟨writes, hWrites⟩
      refine ⟨(i, b) :: writes, fun m => ?_⟩
      rw [fill_cons, hWrites]
      rfl

end TaggedMem

theorem storeRecord_setAll
    (nextaddr : UInt32)
    (i : Nat)
    (bytes : List UInt8) :
    ∃ writes, ∀ m : TaggedMem,
      storeRecord nextaddr i bytes m = m.setAll writes := by
  induction bytes generalizing i with
  | nil => exact ⟨[], fun m => rfl⟩
  | cons b bytes ih =>
      rcases ih (i + 1) with ⟨writes, hWrites⟩
      refine
        ⟨((nextaddr + UInt32.ofNat i).toNat, b) :: writes,
          fun m => ?_⟩
      rw [storeRecord, hWrites]
      rfl

/-
  A function of a memory that stores bytes and returns a
  result, neither of which depends on the memory.
-/
def LoadStores
    {α : Type}
    (load : TaggedMem → α × TaggedMem) : Prop :=
  ∃ result writes, ∀ m, load m = (result, m.setAll writes)

theorem LoadStores.map
    {α β : Type}
    {load : TaggedMem → α × TaggedMem}
    (hLoad : LoadStores load)
    (f : α → β) :
    LoadStores fun m => (f (load m).1, (load m).2) := by
  rcases hLoad with ⟨result, writes, hAll⟩
  exact ⟨f result, writes, fun m => by simp only [hAll]⟩

------------------------------------------------------------
-- Readers of Lines
------------------------------------------------------------

/-
  A turn that ends or goes on with bytes stored; `put` gives a
  state its memory.
-/
def StepStores
    {σ : Type}
    (put : TaggedMem → σ → σ)
    (turn : σ → LoadStep σ) : Prop :=
  ∀ s,
    (∃ s' writes,
      ∀ m, turn (put m s) = .next (put (m.setAll writes) s')) ∨
      ∃ result, ∀ m, turn (put m s) = .done result m

/- By induction on the lines. -/
theorem loadLines_stores
    {σ : Type}
    {put : TaggedMem → σ → σ}
    {step : List Char → σ → LoadStep σ}
    {atEnd : σ → Except LoadError UInt32 × TaggedMem}
    (hStep : ∀ chunk, StepStores put (step chunk))
    (hEnd : ∀ s, ∃ result, ∀ m, atEnd (put m s) = (result, m))
    (chunks : List (List Char))
    (s : σ) :
    LoadStores fun m =>
      loadLines step atEnd chunks (put m s) := by
  induction chunks generalizing s with
  | nil =>
      rcases hEnd s with ⟨result, hAll⟩
      exact ⟨result, [], hAll⟩
  | cons chunk chunks ih =>
      rcases hStep chunk s with
        ⟨s', writes, hNext⟩ | ⟨result, hDone⟩
      · rcases ih s' with ⟨result, more, hRest⟩
        refine ⟨result, writes ++ more, fun m => ?_⟩
        rw [TaggedMem.setAll_append, ← hRest]
        exact loadLines_next (hNext m) chunks
      · exact
          ⟨result, [], fun m => loadLines_done (hDone m) chunks⟩

section Ihex

variable (bufsize fileoffset : UInt32)

def IhexState.put
    (m : TaggedMem)
    (s : IhexState) : IhexState :=
  { s with mem := m }

theorem ihexRecord_stores :
    StepStores IhexState.put
      (ihexRecord bufsize fileoffset) := by
  intro s
  by_cases hData : s.ihex.rectyp = 0
  · by_cases hBelow : fileoffset ≠ 0 ∧ s.baseaddr < fileoffset
    · exact Or.inr
        ⟨.error (.belowOffset s.lineno s.baseaddr), fun m => by
          simp [ihexRecord, IhexState.put, hData, hBelow]⟩
    · let nextaddr := s.ihex.loadofs + s.baseaddr - fileoffset
      let last := nextaddr + s.ihex.reclen.toUInt32
      by_cases hBehind : bufsize < last
      · refine Or.inr
          ⟨.error (.outOfRange s.lineno last), fun m => ?_⟩
        simp only [ihexRecord, IhexState.put, hData, hBelow,
          if_true, if_false]
        exact if_pos hBehind
      · rcases storeRecord_setAll nextaddr 0 s.ihex.bytes with
          ⟨writes, hWrites⟩
        refine Or.inl
          ⟨{ s with
              maxaddr :=
                if s.maxaddr < last then last else s.maxaddr },
            writes, fun m => ?_⟩
        simp only [ihexRecord, IhexState.put, hData, hBelow,
          if_true, if_false, ← hWrites]
        exact if_neg hBehind
  · by_cases hEnd : s.ihex.rectyp = 1
    · exact Or.inr
        ⟨.ok s.maxaddr, fun m => by
          simp [ihexRecord, IhexState.put, hEnd]⟩
    · by_cases hSegment : s.ihex.rectyp = 2
      · exact Or.inl
          ⟨{ s with baseaddr := s.ihex.word <<< 4 }, [],
            fun m => by
              simp [ihexRecord, IhexState.put, hSegment,
                TaggedMem.setAll]⟩
      · by_cases hStart : s.ihex.rectyp = 3
        · exact Or.inl
            ⟨s, [], fun m => by
              simp [ihexRecord, IhexState.put, hStart,
                TaggedMem.setAll]⟩
        · by_cases hLinear : s.ihex.rectyp = 4
          · exact Or.inl
              ⟨{ s with baseaddr := s.ihex.word <<< 16 }, [],
                fun m => by
                  simp [ihexRecord, IhexState.put, hLinear,
                    TaggedMem.setAll]⟩
          · by_cases hFive : s.ihex.rectyp = 5
            · exact Or.inl
                ⟨s, [], fun m => by
                  simp [ihexRecord, IhexState.put, hFive,
                    TaggedMem.setAll]⟩
            · exact Or.inr
                ⟨.error (.rectype s.lineno s.ihex.rectyp),
                  fun m => by
                    simp [ihexRecord, IhexState.put, hData,
                      hEnd, hSegment, hStart, hLinear, hFive]⟩

theorem ihexStep_stores
    (chunk : List Char) :
    StepStores IhexState.put
      (ihexStep bufsize fileoffset chunk) := by
  intro s
  by_cases hSkip : (bufferString chunk).head? ≠ some ':'
  · exact Or.inl
      ⟨{ s with lineno := s.lineno + 1 }, [], fun m => by
        rw [ihexStep]
        simp only [if_pos hSkip]
        rfl⟩
  · cases
        hRead :
          ihexReadrec s.ihex (bufferString chunk) with
    | none =>
        exact Or.inr
          ⟨.error (.invalidRecord (s.lineno + 1)), fun m => by
            rw [ihexStep]
            simp only [if_neg hSkip, IhexState.put, hRead]⟩
    | some found =>
        rcases found with ⟨rc, ihex⟩
        by_cases hSum : rc ≠ ihex.cksum
        · exact Or.inr
            ⟨.error (.checksum (s.lineno + 1) ihex.cksum rc),
              fun m => by
                rw [ihexStep]
                simp only [if_neg hSkip, IhexState.put, hRead,
                  if_pos hSum]⟩
        · have hTurn
              (m : TaggedMem) :
              ihexStep bufsize fileoffset chunk (s.put m) =
                ihexRecord bufsize fileoffset
                  (IhexState.put m
                    { s with
                      lineno := s.lineno + 1
                      ihex := ihex }) := by
            rw [ihexStep]
            simp only [if_neg hSkip, IhexState.put, hRead,
              if_neg hSum]
          simp only [hTurn]
          exact
            ihexRecord_stores bufsize fileoffset
              { s with lineno := s.lineno + 1, ihex := ihex }

theorem ihex2b_stores
    (ihex : IhexRec)
    (text : List Char) :
    LoadStores fun m =>
      ihex2b ihex text m bufsize fileoffset := by
  have hEnd :
      ∀ s : IhexState,
        ∃ result, ∀ m,
          ihexAtEnd (IhexState.put m s) = (result, m) := by
    intro s
    by_cases hNone : s.maxaddr = 0
    · exact
        ⟨.error .noRecord, fun m => by
          simp [ihexAtEnd, IhexState.put, hNone]⟩
    · exact
        ⟨.ok s.maxaddr, fun m => by
          simp [ihexAtEnd, IhexState.put, hNone]⟩
  have hLines :=
    loadLines_stores
      (ihexStep_stores bufsize fileoffset) hEnd
      (TextLines.chunks (maxLineLen - 1) text)
      (ihexStart ihex TaggedMem.empty)
  exact hLines.map loadCode

end Ihex

section Srec

variable (bufsize fileoffset : UInt32)

def SrecState.put
    (m : TaggedMem)
    (s : SrecState) : SrecState :=
  { s with mem := m }

theorem srecData_stores :
    StepStores SrecState.put
      (srecData bufsize fileoffset) := by
  intro s
  by_cases hBelow : s.srec.loadofs < fileoffset
  · exact Or.inr
      ⟨.error (.belowOffset s.lineno s.srec.loadofs),
        fun m => by
        simp [srecData, SrecState.put, hBelow]⟩
  · let nextaddr := s.srec.loadofs - fileoffset
    let last := nextaddr + s.srec.reclen.toUInt32
    by_cases hBehind : bufsize < last
    · refine Or.inr
        ⟨.error (.outOfRange s.lineno last), fun m => ?_⟩
      simp only [srecData, SrecState.put, hBelow, if_false]
      exact if_pos hBehind
    · rcases storeRecord_setAll nextaddr 0 s.srec.bytes with
        ⟨writes, hWrites⟩
      refine Or.inl
        ⟨{ s with
            maxaddr :=
              if s.maxaddr < last then last else s.maxaddr
            reccount := s.reccount + 1 },
          writes, fun m => ?_⟩
      simp only [srecData, SrecState.put, hBelow, if_false,
        ← hWrites]
      exact if_neg hBehind

theorem srecRecord_stores :
    StepStores SrecState.put
      (srecRecord bufsize fileoffset) := by
  intro s
  by_cases hHeader : s.srec.rectyp = 0x30
  · exact Or.inl
      ⟨s, [], fun m => by
        simp [srecRecord, SrecState.put, hHeader,
          TaggedMem.setAll]⟩
  · by_cases hData :
        s.srec.rectyp = 0x31 ∨ s.srec.rectyp = 0x32 ∨
          s.srec.rectyp = 0x33
    · have hTurn
          (m : TaggedMem) :
          srecRecord bufsize fileoffset (s.put m) =
            srecData bufsize fileoffset (s.put m) := by
        rw [srecRecord]
        simp only [SrecState.put, hHeader, hData, if_true,
          if_false]
      simp only [hTurn]
      exact srecData_stores bufsize fileoffset s
    · by_cases hReserved : s.srec.rectyp = 0x34
      · exact Or.inr
          ⟨.error (.notSupported s.lineno), fun m => by
            simp [srecRecord, SrecState.put, hReserved]⟩
      · by_cases hCount : s.srec.rectyp = 0x35
        · by_cases hOther :
              s.srec.loadofs ≠ UInt32.ofNat s.reccount
          · exact Or.inr
              ⟨.error
                  (.count s.lineno s.reccount s.srec.loadofs),
                fun m => by
                  simp [srecRecord, SrecState.put, hCount,
                    hOther]⟩
          · exact Or.inl
              ⟨s, [], fun m => by
                simp only [srecRecord, SrecState.put, hCount,
                  hOther, if_false, if_true]
                rfl⟩
        · by_cases hEnd :
              s.srec.rectyp = 0x37 ∨ s.srec.rectyp = 0x38 ∨
                s.srec.rectyp = 0x39
          · exact Or.inr
              ⟨.ok s.maxaddr, fun m => by
                simp only [srecRecord, SrecState.put, hHeader,
                  hData, hReserved, hCount, hEnd, if_false,
                  if_true]⟩
          · exact Or.inr
              ⟨.error (.rectype s.lineno s.srec.rectyp),
                fun m => by
                  simp only [srecRecord, SrecState.put, hHeader,
                    hData, hReserved, hCount, hEnd, if_false]⟩

theorem srecStep_stores
    (stale : Nat → Nat → Char)
    (chunk : List Char) :
    StepStores SrecState.put
      (srecStep stale bufsize fileoffset chunk) := by
  intro s
  by_cases hSkip : (bufferString chunk).head? ≠ some 'S'
  · exact Or.inl
      ⟨{ s with lineno := s.lineno + 1 }, [], fun m => by
        rw [srecStep]
        simp only [if_pos hSkip]
        rfl⟩
  · cases
        hRead :
          srecReadrec (stale (s.lineno + 1)) s.srec
            (bufferString chunk) with
    | none =>
        exact Or.inr
          ⟨.error (.invalidRecord (s.lineno + 1)), fun m => by
            rw [srecStep]
            simp only [if_neg hSkip, SrecState.put, hRead]⟩
    | some found =>
        rcases found with ⟨rc, srec⟩
        by_cases hSum : rc ≠ srec.cksum
        · exact Or.inr
            ⟨.error (.checksum (s.lineno + 1) srec.cksum rc),
              fun m => by
                rw [srecStep]
                simp only [if_neg hSkip, SrecState.put, hRead,
                  if_pos hSum]⟩
        · have hTurn
              (m : TaggedMem) :
              srecStep stale bufsize fileoffset chunk (s.put m) =
                srecRecord bufsize fileoffset
                  (SrecState.put m
                    { s with
                      lineno := s.lineno + 1
                      srec := srec }) := by
            rw [srecStep]
            simp only [if_neg hSkip, SrecState.put, hRead,
              if_neg hSum]
          simp only [hTurn]
          exact
            srecRecord_stores bufsize fileoffset
              { s with lineno := s.lineno + 1, srec := srec }

theorem srec2b_stores
    (stale : Nat → Nat → Char)
    (srec : IhexRec)
    (text : List Char) :
    LoadStores fun m =>
      srec2b stale srec text m bufsize fileoffset := by
  have hLines :=
    @loadLines_stores SrecState SrecState.put _
      (fun s => (.ok s.maxaddr, s.mem))
      (srecStep_stores bufsize fileoffset stale)
      (fun s => ⟨.ok s.maxaddr, fun m => rfl⟩)
      (TextLines.chunks (maxLineLen - 1) text)
      (srecStart srec TaggedMem.empty)
  exact hLines.map loadCode

end Srec

------------------------------------------------------------
-- Files of any Format
------------------------------------------------------------

/- By induction on the numbers. -/
theorem immLoop_stores
    (size : Nat)
    (ps : List (List Char))
    (loc : Nat) :
    LoadStores fun m => immLoop size ps loc m := by
  induction ps generalizing loc with
  | nil => exact ⟨(loc : Int), [], fun m => rfl⟩
  | cons p ps ih =>
      by_cases hMore : loc < size
      · by_cases hBad : (immValue p).2 ≠ []
        · exact ⟨-1, [], fun m => by
            simp only [immLoop, if_pos hMore, if_pos hBad]
            rfl⟩
        · rcases ih (loc + 1) with ⟨result, writes, hAll⟩
          refine
            ⟨result,
              (loc, UInt8.ofNat (immValue p).1) :: writes,
              fun m => ?_⟩
          simp only [immLoop, if_pos hMore, if_neg hBad]
          exact hAll _
      · exact ⟨(loc : Int), [], fun m => by
          simp only [immLoop, if_neg hMore]
          rfl⟩

theorem orError_stores
    {load : TaggedMem → Int × TaggedMem}
    (hLoad : LoadStores load) :
    LoadStores fun m => orError (load m) :=
  hLoad.map fun code => if code < 0 then -1 else code

/- The format is read into memories of one size alike. -/
theorem fileioLoad_stores
    (locals : FileLocals)
    (format : FileFmt)
    (filename : List Char)
    (bytes : List UInt8)
    (size : Nat) :
    ∃ result writes, ∀ m : TaggedMem, m.size = size →
      fileioLoad locals format filename bytes m =
        (result, m.setAll writes) := by
  have hOf
      {load : TaggedMem → Int × TaggedMem}
      (hLoad : LoadStores load)
      (hSame :
        ∀ m : TaggedMem, m.size = size →
          fileioLoad locals format filename bytes m =
            load m) :
      ∃ result writes, ∀ m : TaggedMem, m.size = size →
        fileioLoad locals format filename bytes m =
          (result, m.setAll writes) := by
    rcases hLoad with ⟨result, writes, hAll⟩
    exact
      ⟨result, writes, fun m hSize =>
        (hSame m hSize).trans (hAll m)⟩
  have hNothing : LoadStores fun m => ((-1 : Int), m) :=
    ⟨-1, [], fun m => rfl⟩
  cases format with
  | ihex =>
      exact
        hOf (orError_stores
          (ihex2b_stores (UInt32.ofNat size) 0 locals.record
            (textOf bytes)))
          fun m hSize => by rw [← hSize]; rfl
  | srec =>
      exact
        hOf (orError_stores
          (srec2b_stores (UInt32.ofNat size) 0 locals.stale
            locals.record (textOf bytes)))
          fun m hSize => by rw [← hSize]; rfl
  | rbin =>
      rcases TaggedMem.fill_setAll 0 (bytes.take size) with
        ⟨writes, hWrites⟩
      refine
        ⟨((bytes.take size).length : Int), writes,
          fun m hSize => ?_⟩
      rw [← hWrites, ← hSize]
      rfl
  | imm =>
      exact
        hOf (immLoop_stores size
          (TextLines.tokens immDelimits filename) 0)
          fun m hSize => by rw [← hSize]; rfl
  | auto => exact hOf hNothing fun m hSize => rfl
  | elf => exact hOf hNothing fun m hSize => rfl
  | hex => exact hOf hNothing fun m hSize => rfl
  | dec => exact hOf hNothing fun m hSize => rfl
  | oct => exact hOf hNothing fun m hSize => rfl
  | bin => exact hOf hNothing fun m hSize => rfl

------------------------------------------------------------
-- Reading Again
------------------------------------------------------------

/-
  The same memory with the same bytes and tags, but for what
  lies behind its end.
-/
structure TaggedMem.Agrees (m m' : TaggedMem) : Prop where
  shape :
    ∃ buf tags, m' = { m with buf := buf, tags := tags }
  buf : ∀ j < m.size, m'.buf j = m.buf j
  tags : ∀ j < m.size, m'.tags j = m.tags j

namespace TaggedMem.Agrees

variable {m m' : TaggedMem}

theorem size (hAgrees : m.Agrees m') : m'.size = m.size := by
  rcases hAgrees.shape with ⟨buf, tags, hShape⟩
  rw [hShape]

theorem setByte
    (hAgrees : m.Agrees m')
    (i : Nat)
    (b : UInt8) :
    (m.setByte i b).Agrees (m'.setByte i b) := by
  constructor
  · rcases hAgrees.shape with ⟨buf, tags, hShape⟩
    exact
      ⟨(m'.setByte i b).buf, (m'.setByte i b).tags, by
        rw [hShape]
        rfl⟩
  · intro j hIn
    simp only [TaggedMem.setByte, Pages.set]
    split
    · rfl
    · exact hAgrees.buf j hIn
  · intro j hIn
    simp only [TaggedMem.setByte]
    split
    · rfl
    · exact hAgrees.tags j hIn

theorem setAll
    (hAgrees : m.Agrees m')
    (writes : List (Nat × UInt8)) :
    (m.setAll writes).Agrees (m'.setAll writes) := by
  induction writes generalizing m m' with
  | nil => exact hAgrees
  | cons w writes ih => exact ih (hAgrees.setByte w.1 w.2)

/- A flash memory of the same bytes ends at the same place. -/
theorem hiaddr
    (hAgrees : m.Agrees m') :
    avrMemHiaddr m' = avrMemHiaddr m := by
  rw [avrMemHiaddr, avrMemHiaddr, hAgrees.size]
  apply hiaddrLoop_congr
  intro j hPos hLast
  exact hAgrees.buf j (by omega)

end TaggedMem.Agrees

/- Bytes stored leave a memory the one it is. -/
theorem TaggedMem.setAll_shape
    (writes : List (Nat × UInt8))
    (m : TaggedMem) :
    ∃ buf tags,
      m.setAll writes =
          { m with buf := buf, tags := tags } := by
  induction writes generalizing m with
  | nil => exact ⟨m.buf, m.tags, rfl⟩
  | cons w writes ih =>
      rcases ih (m.setByte w.1 w.2) with ⟨buf, tags, hShape⟩
      exact ⟨buf, tags, hShape⟩

/- What was in the memory before it is cleared has gone. -/
theorem TaggedMem.cleared_agrees
    (m : TaggedMem)
    (buf : Nat → UInt8)
    (tags : Nat → Bool) :
    m.cleared.Agrees
      { m with buf := buf, tags := tags }.cleared := by
  constructor
  · exact ⟨_, _, rfl⟩
  · intro j hIn
    have hSize : j < m.size := hIn
    simp only [TaggedMem.cleared, if_pos hSize]
  · intro j hIn
    have hSize : j < m.size := hIn
    simp only [TaggedMem.cleared, if_pos hSize]

theorem fileioRead_shape
    (locals : FileLocals)
    (format : FileFmt)
    (filename : List Char)
    (file : Option (List UInt8))
    (m : TaggedMem) :
    ∃ buf tags,
      (fileioRead locals format filename file m).2 =
        { m with buf := buf, tags := tags } := by
  have hCleared :
      ∃ buf tags,
        m.cleared = { m with buf := buf, tags := tags } :=
    ⟨_, _, rfl⟩
  rw [fileioRead]
  cases fileioFormat format filename file with
  | none => exact hCleared
  | some used =>
      simp only
      split
      · exact hCleared
      · rcases fileioLoad_stores locals used filename
            (file.getD []) m.size with
          ⟨result, writes, hAll⟩
        rcases TaggedMem.setAll_shape writes m.cleared with
          ⟨buf, tags, hShape⟩
        have hLoad := hAll m.cleared rfl
        rw [hShape] at hLoad
        simp only [hLoad]
        split
        · exact ⟨buf, tags, rfl⟩
        · exact ⟨buf, tags, rfl⟩

/-
  A file that is read a second time, into the memory it was
  read into, gives the same code, bytes and tags.
-/
theorem fileioRead_again
    (locals : FileLocals)
    (format : FileFmt)
    (filename : List Char)
    (file : Option (List UInt8))
    (m : TaggedMem)
    (buf : Nat → UInt8)
    (tags : Nat → Bool) :
    let first := fileioRead locals format filename file m
    let second :=
      fileioRead locals format filename file
        { m with buf := buf, tags := tags }
    second.1 = first.1 ∧ first.2.Agrees second.2 := by
  have hCleared := m.cleared_agrees buf tags
  rw [fileioRead, fileioRead]
  cases fileioFormat format filename file with
  | none => exact ⟨rfl, hCleared⟩
  | some used =>
      simp only
      by_cases hNoFile : used ≠ .imm ∧ file = none
      · rw [if_pos hNoFile, if_pos hNoFile]
        exact ⟨rfl, hCleared⟩
      · rw [if_neg hNoFile, if_neg hNoFile]
        rcases fileioLoad_stores locals used filename
            (file.getD []) m.size with
          ⟨result, writes, hAll⟩
        have hLoaded := hCleared.setAll writes
        have hFlash :
            ({ m with buf := buf, tags := tags }.cleared.setAll
                writes).flashLike =
              (m.cleared.setAll writes).flashLike := by
          rcases hLoaded.shape with ⟨buf', tags', hShape⟩
          rw [hShape]
          rfl
        simp only [hAll m.cleared rfl,
          hAll { m with buf := buf, tags := tags }.cleared rfl,
          hFlash]
        split
        · exact
            ⟨congrArg Int.ofNat hLoaded.hiaddr, hLoaded⟩
        · exact ⟨rfl, hLoaded⟩

end Lucax
