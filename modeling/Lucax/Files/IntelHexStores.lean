import Lucax.Files.IntelHex

/-
  Where `ihex2b` stores, whatever the file says, and what the
  address it returns stands for.

  Key definitions include:
    * `ihexWrites`

  Main declarations:
    * `ihexStep_next`, `ihexStep_done`
    * `ihexLoad_writes`
    * `ihex2b_inside_iff`, `ihex2b_return`
-/

------------------------------------------------------------
-- One Turn
------------------------------------------------------------

namespace Lucax

/- The address and the bytes of a data record. -/
def ihexWrite
    (fileoffset : UInt32)
    (s : IhexState) : UInt32 × List UInt8 :=
  (s.ihex.loadofs + s.baseaddr - fileoffset, s.ihex.bytes)

/- The address behind a record, as the code computes it. -/
def lastOf (w : UInt32 × List UInt8) : UInt32 :=
  w.1 + UInt32.ofNat w.2.length

/- The last address so far. -/
def laterOf
    (top : UInt32)
    (w : UInt32 × List UInt8) : UInt32 :=
  if top < lastOf w then lastOf w else top

/- What an accepted line stores. -/
def ihexEvent
    (fileoffset : UInt32)
    (chunk : List Char)
    (s : IhexState) : List (UInt32 × List UInt8) :=
  if (bufferString chunk).head? = some ':' ∧ s.ihex.rectyp = 0
  then [ihexWrite fileoffset s]
  else []

/- The data records a file is accepted with. -/
def ihexWrites
    (ihex : IhexRec)
    (text : List Char)
    (mem : TaggedMem)
    (bufsize fileoffset : UInt32) :
    List (UInt32 × List UInt8) :=
  loadEvents (ihexStep bufsize fileoffset)
    (ihexEvent fileoffset)
    (TextLines.chunks (maxLineLen - 1) text)
    (ihexStart ihex mem)

section Turn

variable {bufsize fileoffset : UInt32}
variable {chunk : List Char} {s s' : IhexState}

theorem IhexRec.bytes_length
    (r : IhexRec) :
    r.bytes.length = r.reclen.toNat := by
  rw [IhexRec.bytes, Pages.read_length]

theorem lastOf_ihexWrite :
    lastOf (ihexWrite fileoffset s) =
      s.ihex.loadofs + s.baseaddr - fileoffset +
        s.ihex.reclen.toUInt32 := by
  have hLen :
      UInt32.ofNat s.ihex.reclen.toNat =
        s.ihex.reclen.toUInt32 := by
    apply UInt32.toNat_inj.mp
    have hByte := s.ihex.reclen.toNat_lt
    rw [UInt32.toNat_ofNat', UInt8.toNat_toUInt32,
      Nat.mod_eq_of_lt (by omega)]
  rw [lastOf, ihexWrite, IhexRec.bytes_length, hLen]

/- A record that does not end the loop. -/
theorem ihexRecord_next
    (hNext : ihexRecord bufsize fileoffset s = .next s') :
    s'.ihex = s.ihex ∧
      ((s.ihex.rectyp = 0 ∧
          s'.baseaddr = s.baseaddr ∧
          lastOf (ihexWrite fileoffset s) ≤ bufsize ∧
          s'.mem =
            storeRecord (ihexWrite fileoffset s).1 0
              (ihexWrite fileoffset s).2 s.mem ∧
          s'.maxaddr =
            laterOf s.maxaddr (ihexWrite fileoffset s)) ∨
        (s.ihex.rectyp ≠ 0 ∧
          s'.mem = s.mem ∧
          s'.maxaddr = s.maxaddr)) := by
  unfold ihexRecord at hNext
  by_cases hData : s.ihex.rectyp = 0
  · simp only [hData, if_true] at hNext
    by_cases hBelow :
        fileoffset ≠ 0 ∧ s.baseaddr < fileoffset
    · rw [if_pos hBelow] at hNext
      exact absurd hNext (by simp)
    · rw [if_neg hBelow] at hNext
      by_cases hOver :
          bufsize <
            s.ihex.loadofs + s.baseaddr - fileoffset +
              s.ihex.reclen.toUInt32
      · rw [if_pos hOver] at hNext
        exact absurd hNext (by simp)
      · rw [if_neg hOver, LoadStep.next.injEq] at hNext
        rw [← hNext, laterOf, lastOf_ihexWrite]
        exact
          ⟨rfl,
            Or.inl
              ⟨hData, rfl, UInt32.not_lt.mp hOver, rfl, rfl⟩⟩
  · rw [if_neg hData] at hNext
    by_cases hEnd : s.ihex.rectyp = 1
    · rw [if_pos hEnd] at hNext
      exact absurd hNext (by simp)
    · rw [if_neg hEnd] at hNext
      have hOther : s'.ihex = s.ihex ∧ s'.mem = s.mem ∧
          s'.maxaddr = s.maxaddr := by
        by_cases hSegment : s.ihex.rectyp = 2
        · rw [if_pos hSegment, LoadStep.next.injEq] at hNext
          rw [← hNext]
          exact ⟨rfl, rfl, rfl⟩
        · rw [if_neg hSegment] at hNext
          by_cases hStart : s.ihex.rectyp = 3
          · rw [if_pos hStart, LoadStep.next.injEq] at hNext
            rw [← hNext]
            exact ⟨rfl, rfl, rfl⟩
          · rw [if_neg hStart] at hNext
            by_cases hLinear : s.ihex.rectyp = 4
            · rw [if_pos hLinear, LoadStep.next.injEq] at hNext
              rw [← hNext]
              exact ⟨rfl, rfl, rfl⟩
            · rw [if_neg hLinear] at hNext
              by_cases hEntry : s.ihex.rectyp = 5
              · rw [if_pos hEntry, LoadStep.next.injEq] at hNext
                rw [← hNext]
                exact ⟨rfl, rfl, rfl⟩
              · rw [if_neg hEntry] at hNext
                exact absurd hNext (by simp)
      exact ⟨hOther.1, Or.inr ⟨hData, hOther.2⟩⟩

/- A record that ends it leaves the memory as it is. -/
theorem ihexRecord_done
    {result : Except LoadError UInt32}
    {mem : TaggedMem}
    (hDone :
      ihexRecord bufsize fileoffset s = .done result mem) :
    mem = s.mem ∧
      ∀ maxaddr, result = .ok maxaddr →
        maxaddr = s.maxaddr := by
  unfold ihexRecord at hDone
  simp only at hDone
  split at hDone
  · split at hDone
    · rw [LoadStep.done.injEq] at hDone
      rw [← hDone.1]
      exact ⟨hDone.2.symm, fun _ hOk => absurd hOk (by simp)⟩
    · split at hDone
      · rw [LoadStep.done.injEq] at hDone
        rw [← hDone.1]
        exact ⟨hDone.2.symm, fun _ hOk => absurd hOk (by simp)⟩
      · exact absurd hDone (by simp)
  · split at hDone
    · rw [LoadStep.done.injEq] at hDone
      rw [← hDone.1]
      refine ⟨hDone.2.symm, ?_⟩
      intro maxaddr hOk
      exact (Except.ok.inj hOk).symm
    · split at hDone
      · exact absurd hDone (by simp)
      · split at hDone
        · exact absurd hDone (by simp)
        · split at hDone
          · exact absurd hDone (by simp)
          · split at hDone
            · exact absurd hDone (by simp)
            · rw [LoadStep.done.injEq] at hDone
              rw [← hDone.1]
              exact
                ⟨hDone.2.symm,
                  fun _ hOk => absurd hOk (by simp)⟩

/- What a turn that goes on has stored. -/
theorem ihexStep_next
    (hStep :
      ihexStep bufsize fileoffset chunk s = .next s') :
    s'.mem = storeAll (ihexEvent fileoffset chunk s') s.mem ∧
      s'.maxaddr =
        (ihexEvent fileoffset chunk s').foldl laterOf
          s.maxaddr ∧
      ∀ w ∈ ihexEvent fileoffset chunk s',
        lastOf w ≤ bufsize ∧ w.2.length < 256 := by
  unfold ihexStep at hStep
  by_cases hColon : (bufferString chunk).head? = some ':'
  · simp only [hColon, ne_eq, not_true_eq_false, if_false]
      at hStep
    cases hRead : ihexReadrec s.ihex (bufferString chunk) with
    | none =>
        rw [hRead] at hStep
        exact absurd hStep (by simp)
    | some out =>
        rw [hRead] at hStep
        simp only at hStep
        by_cases hSum : out.1 = out.2.cksum
        · rw [if_neg (not_not_intro hSum)] at hStep
          rcases ihexRecord_next hStep with
            ⟨hIhex, hData | hOther⟩
          · rcases hData with
              ⟨hTyp, hBase, hIn, hMem, hMax⟩
            have hWrite :
                ihexWrite fileoffset s' =
                  ihexWrite fileoffset
                    { s with
                      lineno := s.lineno + 1
                      ihex := out.2 } := by
              rw [ihexWrite, ihexWrite, hIhex, hBase]
            have hEvent :
                ihexEvent fileoffset chunk s' =
                  [ihexWrite fileoffset s'] := by
              rw [ihexEvent, if_pos]
              exact ⟨hColon, by rw [hIhex]; exact hTyp⟩
            rw [hEvent, hWrite]
            refine ⟨hMem, hMax, ?_⟩
            intro w hMem'
            rw [List.mem_singleton] at hMem'
            rw [hMem']
            refine ⟨hIn, ?_⟩
            rw [ihexWrite, IhexRec.bytes_length]
            exact out.2.reclen.toNat_lt
          · rcases hOther with ⟨hTyp, hMem, hMax⟩
            have hEvent :
                ihexEvent fileoffset chunk s' = [] := by
              rw [ihexEvent, if_neg]
              rintro ⟨_hColon, hZero⟩
              rw [hIhex] at hZero
              exact hTyp hZero
            rw [hEvent]
            exact ⟨hMem, hMax,
              fun w hMem' => absurd hMem' (by simp)⟩
        · rw [if_pos hSum] at hStep
          exact absurd hStep (by simp)
  · have hEvent : ihexEvent fileoffset chunk s' = [] := by
      rw [ihexEvent, if_neg]
      rintro ⟨hHere, _hZero⟩
      exact hColon hHere
    simp only [hColon, ne_eq, not_false_eq_true, if_true,
      LoadStep.next.injEq] at hStep
    rw [hEvent, ← hStep]
    exact ⟨rfl, rfl, fun w hMem => absurd hMem (by simp)⟩

/- A turn that ends the loop stores nothing. -/
theorem ihexStep_done
    {result : Except LoadError UInt32}
    {mem : TaggedMem}
    (hStep :
      ihexStep bufsize fileoffset chunk s =
        .done result mem) :
    mem = s.mem ∧
      ∀ maxaddr, result = .ok maxaddr →
        maxaddr = s.maxaddr := by
  unfold ihexStep at hStep
  by_cases hColon : (bufferString chunk).head? = some ':'
  · simp only [hColon, ne_eq, not_true_eq_false, if_false]
      at hStep
    cases hRead : ihexReadrec s.ihex (bufferString chunk) with
    | none =>
        rw [hRead] at hStep
        simp only [LoadStep.done.injEq] at hStep
        rw [← hStep.1]
        exact ⟨hStep.2.symm, fun _ hOk => absurd hOk (by simp)⟩
    | some out =>
        rw [hRead] at hStep
        simp only at hStep
        by_cases hSum : out.1 = out.2.cksum
        · rw [if_neg (not_not_intro hSum)] at hStep
          have hEnds := ihexRecord_done hStep
          exact hEnds
        · rw [if_pos hSum, LoadStep.done.injEq] at hStep
          rw [← hStep.1]
          exact
            ⟨hStep.2.symm, fun _ hOk => absurd hOk (by simp)⟩
  · simp only [hColon, ne_eq, not_false_eq_true, if_true]
      at hStep
    exact absurd hStep (by simp)

end Turn

------------------------------------------------------------
-- Whole Files
------------------------------------------------------------

section Files

variable
  (ihex : IhexRec)
  (text : List Char)
  (mem : TaggedMem)
  (bufsize fileoffset : UInt32)

/-
  Reading a file is storing its data records in order, each
  of which has passed the check against the size.
-/
theorem ihexLoad_writes :
    let writes :=
      ihexWrites ihex text mem bufsize fileoffset
    let out := ihexLoad ihex text mem bufsize fileoffset
    out.2 = storeAll writes mem ∧
      (∀ maxaddr, out.1 = .ok maxaddr →
        maxaddr = writes.foldl laterOf 0) ∧
      ∀ w ∈ writes, lastOf w ≤ bufsize ∧ w.2.length < 256 := by
  have hRun :=
    @loadLines_induct _ _ (ihexStep bufsize fileoffset)
        ihexAtEnd (ihexEvent fileoffset)
        (fun writes s =>
          s.mem = storeAll writes mem ∧
            s.maxaddr = writes.foldl laterOf 0 ∧
            ∀ w ∈ writes,
              lastOf w ≤ bufsize ∧ w.2.length < 256)
        (fun writes out =>
          out.2 = storeAll writes mem ∧
            (∀ maxaddr, out.1 = .ok maxaddr →
              maxaddr = writes.foldl laterOf 0) ∧
            ∀ w ∈ writes,
              lastOf w ≤ bufsize ∧ w.2.length < 256)
        (by
          rintro chunk writes s s' ⟨hMem, hMax, hAll⟩ hStep
          rcases ihexStep_next hStep with ⟨hMem', hMax', hNew⟩
          refine ⟨?_, ?_, ?_⟩
          · rw [hMem', hMem, storeAll, storeAll, storeAll,
              List.foldl_append]
          · rw [hMax', hMax, List.foldl_append]
          · intro w hIn
            rcases List.mem_append.mp hIn with hOld | hHere
            · exact hAll w hOld
            · exact hNew w hHere)
        (by
          rintro chunk writes s result m
            ⟨hMem, hMax, hAll⟩ hStep
          rcases ihexStep_done hStep with ⟨hSame, hOk⟩
          refine ⟨hSame.trans hMem, ?_, hAll⟩
          intro maxaddr hResult
          exact (hOk maxaddr hResult).trans hMax)
        (by
          rintro writes s ⟨hMem, hMax, hAll⟩
          unfold ihexAtEnd
          by_cases hNone : s.maxaddr = 0
          · rw [if_pos hNone]
            exact
              ⟨hMem, fun _ hOk => absurd hOk (by simp), hAll⟩
          · rw [if_neg hNone]
            refine ⟨hMem, ?_, hAll⟩
            intro maxaddr hOk
            rw [← Except.ok.inj hOk]
            exact hMax) (TextLines.chunks (maxLineLen - 1) text)
        [] (ihexStart ihex mem)
        ⟨rfl, rfl, fun w hIn => absurd hIn (by simp)⟩
  rw [List.nil_append] at hRun
  exact hRun

end Files

/- A record that passed the check and does not wrap. -/
theorem covers_lt
    {bufsize : UInt32}
    {w : UInt32 × List UInt8}
    (hLast : lastOf w ≤ bufsize)
    (hUnwrapped : Unwrapped w)
    {j : Nat}
    (hCovers : Covers w j) :
    j < bufsize.toNat := by
  have hPlaces := (covers_iff hUnwrapped j).mp hCovers
  unfold Unwrapped at hUnwrapped
  have hNat : (lastOf w).toNat ≤ bufsize.toNat := hLast
  rw [lastOf, UInt32.toNat_add, UInt32.toNat_ofNat'] at hNat
  omega

/-
  Over a memory without tags, every byte a file stores is
  inside the given size, unless a data record reaches the last
  address: the sum the code compares wraps there.
-/
theorem ihex2b_inside_iff
    (ihex : IhexRec)
    (text : List Char)
    (mem : TaggedMem)
    {bufsize : UInt32}
    (fileoffset : UInt32)
    (hClear : mem.tags = fun _ => false)
    (hInt : bufsize.toNat < 2 ^ 31) :
    let out := (ihex2b ihex text mem bufsize fileoffset).2
    let writes := ihexWrites ihex text mem bufsize fileoffset
    ((∀ j, out.tags j = true → j < bufsize.toNat) ↔
        ∀ w ∈ writes, Unwrapped w) ∧
      ∀ j, out.tags j = false → out.buf j = mem.buf j := by
  intro out writes
  rcases ihexLoad_writes ihex text mem bufsize fileoffset with
    ⟨hMem, _hMax, hAll⟩
  have hOut : out = storeAll writes mem := hMem
  have hTags :
      ∀ j, out.tags j = true ↔ ∃ w ∈ writes, Covers w j := by
    intro j
    rw [hOut, storeAll_tags, hClear]
    simp
  refine ⟨⟨?_, ?_⟩, ?_⟩
  · intro hInside w hIn
    by_contra hWraps
    rcases hAll w hIn with ⟨hLast, hLength⟩
    unfold Unwrapped at hWraps
    have hFirst := w.1.toNat_lt
    have hCovers : Covers w w.1.toNat :=
      ⟨0, by omega, by simp⟩
    have hPlace :=
      hInside _ ((hTags _).mpr ⟨w, hIn, hCovers⟩)
    omega
  · intro hUnwrapped j hTag
    rcases (hTags j).mp hTag with ⟨w, hIn, hCovers⟩
    exact covers_lt (hAll w hIn).1 (hUnwrapped w hIn) hCovers
  · intro j hTag
    rw [hOut]
    apply storeAll_buf
    intro w hIn hCovers
    rw [(hTags j).mpr ⟨w, hIn, hCovers⟩] at hTag
    exact absurd hTag (by decide)

/- The last address is one of a record and bounds them all. -/
theorem foldl_laterOf
    (writes : List (UInt32 × List UInt8))
    (top : UInt32) :
    let last := writes.foldl laterOf top
    top.toNat ≤ last.toNat ∧
      (∀ w ∈ writes, (lastOf w).toNat ≤ last.toNat) ∧
      (last = top ∨ ∃ w ∈ writes, last = lastOf w) := by
  induction writes generalizing top with
  | nil =>
      exact ⟨Nat.le_refl _, fun w hIn => absurd hIn (by simp),
        Or.inl rfl⟩
  | cons w writes ih =>
      rcases ih (laterOf top w) with ⟨hTop, hAll, hOne⟩
      have hStep :
          top.toNat ≤ (laterOf top w).toNat ∧
            (lastOf w).toNat ≤ (laterOf top w).toNat ∧
            (laterOf top w = top ∨
              laterOf top w = lastOf w) := by
        unfold laterOf
        by_cases hMore : top < lastOf w
        · rw [if_pos hMore]
          exact ⟨Nat.le_of_lt hMore, Nat.le_refl _, Or.inr rfl⟩
        · rw [if_neg hMore]
          exact ⟨Nat.le_refl _, UInt32.not_lt.mp hMore,
            Or.inl rfl⟩
      refine ⟨Nat.le_trans hStep.1 hTop, ?_, ?_⟩
      · intro w' hIn
        rcases List.mem_cons.mp hIn with hHere | hLater
        · rw [hHere]
          exact Nat.le_trans hStep.2.1 hTop
        · exact hAll w' hLater
      · rcases hOne with hSame | ⟨w', hIn, hLast⟩
        · rcases hStep.2.2 with hOld | hNew
          · exact Or.inl (hSame.trans hOld)
          · exact
              Or.inr ⟨w, List.mem_cons_self, hSame.trans hNew⟩
        · exact Or.inr ⟨w', List.mem_cons_of_mem _ hIn, hLast⟩

/- A file with one byte, in the second page. -/
def oneByte : List Char :=
  [':', '0', '1', '0', '2', '0', '0', '0', '0', '5', '5', 'A',
    '8', '\n', ':', '0', '0', '0', '0', '0', '0', '0', '1',
    'F', 'F', '\n']

theorem ihex2b_inside_oneByte :
    let out := (ihex2b blankRec oneByte blankFlash 4096 0).2
    let writes := ihexWrites blankRec oneByte blankFlash 4096 0
    ((∀ j, out.tags j = true → j < 4096) ↔
        ∀ w ∈ writes, Unwrapped w) ∧
      ∀ j, out.tags j = false → out.buf j = blankFlash.buf j :=
  ihex2b_inside_iff blankRec oneByte blankFlash 0 rfl
    (by decide)

/-
  A code other than -1 is the end of the farthest data record,
  0 if there is none; every byte that was stored is below it.
-/
theorem ihex2b_return
    (ihex : IhexRec)
    (text : List Char)
    (mem : TaggedMem)
    {bufsize : UInt32}
    (fileoffset : UInt32)
    (hClear : mem.tags = fun _ => false)
    (hInt : bufsize.toNat < 2 ^ 31)
    (hUnwrapped :
      ∀ w ∈ ihexWrites ihex text mem bufsize fileoffset,
        Unwrapped w)
    (hOk :
      (ihex2b ihex text mem bufsize fileoffset).1 ≠ -1) :
    ∃ last : Nat,
      (ihex2b ihex text mem bufsize fileoffset).1 = last ∧
        last ≤ bufsize.toNat ∧
        (∀ w ∈ ihexWrites ihex text mem bufsize fileoffset,
          w.1.toNat + w.2.length ≤ last) ∧
        (last = 0 ∨
          ∃ w ∈ ihexWrites ihex text mem bufsize fileoffset,
            w.1.toNat + w.2.length = last) ∧
        ∀ j,
          (ihex2b ihex text mem bufsize fileoffset).2.tags j =
              true →
            j < last := by
  rcases ihexLoad_writes ihex text mem bufsize fileoffset with
    ⟨hMem, hMax, hAll⟩
  cases hResult :
      (ihexLoad ihex text mem bufsize fileoffset).1 with
  | error e =>
      rw [ihex2b, hResult] at hOk
      exact absurd rfl hOk
  | ok maxaddr =>
      have hTop := hMax maxaddr hResult
      rcases foldl_laterOf
          (ihexWrites ihex text mem bufsize fileoffset) 0 with
        ⟨_hZero, hBound, hOne⟩
      rw [← hTop] at hBound hOne
      have hEnd :
          ∀ w ∈ ihexWrites ihex text mem bufsize fileoffset,
            (lastOf w).toNat = w.1.toNat + w.2.length := by
        intro w hIn
        have hFits := hUnwrapped w hIn
        unfold Unwrapped at hFits
        rw [lastOf, UInt32.toNat_add, UInt32.toNat_ofNat']
        omega
      have hSmall : maxaddr.toNat ≤ bufsize.toNat := by
        rcases hOne with hNone | ⟨w, hIn, hLast⟩
        · rw [hNone]
          exact Nat.zero_le _
        · rw [hLast]
          exact (hAll w hIn).1
      refine ⟨maxaddr.toNat, ?_, hSmall, ?_, ?_, ?_⟩
      · rw [ihex2b, hResult, loadCode, asInt_of_lt (by omega)]
      · intro w hIn
        rw [← hEnd w hIn]
        exact hBound w hIn
      · rcases hOne with hNone | ⟨w, hIn, hLast⟩
        · exact Or.inl (by rw [hNone]; rfl)
        · exact
            Or.inr ⟨w, hIn, by rw [hLast, hEnd w hIn]⟩
      · intro j hTag
        rw [ihex2b, hMem, storeAll_tags, hClear] at hTag
        rcases hTag with hNever | ⟨w, hIn, hCovers⟩
        · exact absurd hNever (by simp)
        · have hPlaces :=
            (covers_iff (hUnwrapped w hIn) j).mp hCovers
          have hHere := hBound w hIn
          rw [hEnd w hIn] at hHere
          omega

theorem ihex2b_return_oneByte :
    ∃ last : Nat,
      (ihex2b blankRec oneByte blankFlash 4096 0).1 = last ∧
        last ≤ 4096 ∧
        (∀ w ∈ ihexWrites blankRec oneByte blankFlash 4096 0,
          w.1.toNat + w.2.length ≤ last) ∧
        (last = 0 ∨
          ∃ w ∈ ihexWrites blankRec oneByte blankFlash 4096 0,
            w.1.toNat + w.2.length = last) ∧
        ∀ j,
          (ihex2b blankRec oneByte blankFlash 4096 0).2.tags j =
              true →
            j < last :=
  ihex2b_return blankRec oneByte blankFlash 0 rfl (by decide)
    (by decide +kernel) (by decide +kernel)

end Lucax
