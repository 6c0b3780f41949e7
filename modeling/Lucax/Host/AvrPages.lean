import Lucax.Common.Patches
import Lucax.Host.Avr

/-
  Whole memories read and written through a programmer that
  serves the memory of a device.

  Key definitions include:
    * `Programmer.Shows`
    * `Programmer.Stores`

  Main declarations:
    * `avrRead_shows`
    * `avrWrite_stores`
-/

------------------------------------------------------------
-- Programmers that Serve a Memory
------------------------------------------------------------

namespace Lucax

namespace TaggedMem

section WithBuf

variable (buf buf' : Nat → UInt8) (m : TaggedMem)

@[simp] theorem withBuf_buf : (m.withBuf buf).buf = buf := rfl

@[simp] theorem withBuf_size :
    (m.withBuf buf).size = m.size := rfl

end WithBuf

end TaggedMem

section Serve

variable {σ : Type}

/-
  The operations read a memory of the device, which is at
  `m->offset` of what the device holds, or return an error.
-/
structure Programmer.Shows
    (pgm : Programmer σ)
    (m : TaggedMem)
    (holds : σ → (Nat → UInt8) → Prop) : Prop where
  load :
    ∀ load, pgm.pagedLoad = some load →
      ∀ buf place s content,
        m.pageSize ∣ place → place < m.size →
        holds s content →
          let out := load (m.withBuf buf) place m.pageSize s
          holds out.2 content ∧
            (0 ≤ out.1.1 →
              out.1.2 =
                Pages.put place
                  (Pages.read (m.offset.toNat + place)
                    m.pageSize content)
                  buf)
  byte :
    ∀ buf i value s content,
      i < m.size →
      holds s content →
        let out := pgm.readByte (m.withBuf buf) i value s
        holds out.2 content ∧
          (out.1.1 = 0 →
            out.1.2 = content (m.offset.toNat + i))

/- No read of a byte returns an error. -/
def Programmer.NeverFails
    (pgm : Programmer σ)
    (m : TaggedMem)
    (holds : σ → (Nat → UInt8) → Prop) : Prop :=
  ∀ buf i value s content,
    i < m.size →
    holds s content →
      (pgm.readByte (m.withBuf buf) i value s).1.1 = 0

/-
  The operations write whole pages, at `m->offset` of what the
  device holds.
-/
structure Programmer.Stores
    (pgm : Programmer σ)
    (m : TaggedMem)
    (holds : σ → (Nat → UInt8) → Prop) : Prop where
  paged : pgm.pagedWrite ≠ none
  page :
    ∀ write, pgm.pagedWrite = some write →
      ∀ place s content,
        m.pageSize ∣ place → place < m.size →
        holds s content →
          let out := write m place m.pageSize s
          0 ≤ out.1 ∧
            holds out.2
              (Pages.writePage m.pageSize
                (m.offset.toNat + place) 0xFF
                (Pages.read place m.pageSize m.buf) content)

------------------------------------------------------------
-- Reading
------------------------------------------------------------

variable {pgm : Programmer σ} {m : TaggedMem}
variable {holds : σ → (Nat → UInt8) → Prop}
variable {content : Nat → UInt8}

/- The pages that are read, at their place in the buffer. -/
def shownPages
    (m : TaggedMem)
    (v : Option (Nat → Bool))
    (content : Nat → UInt8) :
    Nat → (Nat → UInt8) → Nat → UInt8 :=
  Pages.patch m.pageSize 0
    (fun k => pageNeeded v (k * m.pageSize) m.pageSize)
    (fun j => content (m.offset.toNat + j))

theorem shownPages_zero
    (v : Option (Nat → Bool))
    (buf : Nat → UInt8) :
    shownPages m v content 0 buf = buf :=
  Pages.patch_zero

/- Another page loaded. -/
theorem shownPages_load
    (hPage : 0 < m.pageSize)
    {v : Option (Nat → Bool)}
    {k : Nat}
    (hNeeded :
      pageNeeded v (k * m.pageSize) m.pageSize = true)
    (buf : Nat → UInt8) :
    shownPages m v content (k + 1) buf =
      Pages.put (k * m.pageSize)
        (Pages.read (m.offset.toNat + k * m.pageSize)
          m.pageSize content)
        (shownPages m v content k buf) := by
  have hData :
      Pages.read (k * m.pageSize) m.pageSize
          (fun j => content (m.offset.toNat + j)) =
        Pages.read (m.offset.toNat + k * m.pageSize)
          m.pageSize content :=
    Pages.read_shift _ _ _ _
  rw [shownPages,
    @Pages.patch_chosen _ _ _
      (fun k => pageNeeded v (k * m.pageSize) m.pageSize)
      _ _ hPage k hNeeded 0xFF,
    Nat.zero_add, hData,
    Pages.writePage_whole _ _ (Pages.read_length _ _ _)]

section Turns

variable
  {load :
    TaggedMem → Nat → Nat → σ → (Int × (Nat → UInt8)) × σ}
  {v : Option (Nat → Bool)}
  {pageaddr : Nat}

theorem readPages_end
    (hEnd : ¬ pageaddr < m.size)
    (fuel : Nat)
    (s : σ) :
    readPages load v fuel pageaddr m s = ((true, m), s) := by
  cases fuel with
  | zero => rfl
  | succ fuel => rw [readPages, if_neg hEnd]

theorem readPages_skip
    (hMore : pageaddr < m.size)
    (hSkipped : pageNeeded v pageaddr m.pageSize = false)
    (fuel : Nat)
    (s : σ) :
    readPages load v (fuel + 1) pageaddr m s =
      readPages load v fuel (pageaddr + m.pageSize) m s := by
  rw [readPages, if_pos hMore, hSkipped]
  rfl

theorem readPages_load
    (hMore : pageaddr < m.size)
    (hNeeded : pageNeeded v pageaddr m.pageSize = true)
    (fuel : Nat)
    (s : σ) :
    readPages load v (fuel + 1) pageaddr m s =
      let out := load m pageaddr m.pageSize s
      if out.1.1 < 0 then ((false, m.withBuf out.1.2), out.2)
      else
        readPages load v fuel (pageaddr + m.pageSize)
          (m.withBuf out.1.2) out.2 := by
  rw [readPages, if_pos hMore, if_pos hNeeded]
  rfl

end Turns

/-
  The loop over the pages.  By induction on the turns left,
  the pages before `k` being read.
-/
theorem readPages_shows
    (hShows : pgm.Shows m holds)
    (hPage : 0 < m.pageSize)
    {load :
      TaggedMem → Nat → Nat → σ → (Int × (Nat → UInt8)) × σ}
    (hLoad : pgm.pagedLoad = some load)
    (v : Option (Nat → Bool))
    (buf : Nat → UInt8)
    {fuel k : Nat}
    (hFuel : m.size ≤ k * m.pageSize + fuel)
    (hBelow : ∀ q < k, q * m.pageSize < m.size)
    {s : σ}
    (hHolds : holds s content) :
    let out :=
      readPages load v fuel (k * m.pageSize)
        (m.withBuf (shownPages m v content k buf)) s
    holds out.2 content ∧
      ∃ buf',
        out.1.2 = m.withBuf buf' ∧
          (out.1.1 = true →
            ∀ j < m.size, needed v j = true →
              buf' j = content (m.offset.toNat + j)) := by
  have hDone
      (k : Nat)
      (hBelow : ∀ q < k, q * m.pageSize < m.size)
      (hAll : m.size ≤ k * m.pageSize) :
      ∀ j < m.size, needed v j = true →
        shownPages m v content k buf j =
          content (m.offset.toNat + j) := by
    intro j hIn hNeeded
    have hLow := Nat.div_mul_le_self j m.pageSize
    have hHigh := Nat.lt_div_mul_add hPage (a := j)
    rw [shownPages, Pages.patch_limit hBelow hAll, if_pos]
    · rfl
    · refine ⟨Nat.zero_le j, ?_, ?_⟩
      · rw [Nat.sub_zero]
        omega
      · rw [Nat.sub_zero, pageNeeded, List.any_eq_true]
        refine ⟨j, List.mem_range'_1.mpr ⟨hLow, hHigh⟩, hNeeded⟩
  induction fuel generalizing k s with
  | zero =>
      exact ⟨hHolds, _, rfl, fun _ => hDone k hBelow hFuel⟩
  | succ fuel ih =>
      by_cases hMore : k * m.pageSize < m.size
      · have hNext : (k + 1) * m.pageSize =
            k * m.pageSize + m.pageSize := Nat.succ_mul _ _
        have hBelow' :
            ∀ q < k + 1, q * m.pageSize < m.size := by
          intro q hq
          by_cases hLast : q = k
          · rw [hLast]
            exact hMore
          · exact hBelow q (by omega)
        have hFuel' :
            m.size ≤ (k + 1) * m.pageSize + fuel := by
          omega
        cases hNeeded :
            pageNeeded v (k * m.pageSize) m.pageSize with
        | true =>
            rcases hShows.load load hLoad
                (shownPages m v content k buf) (k * m.pageSize)
                s content (Nat.dvd_mul_left _ _) hMore hHolds
              with
              ⟨hAfter, hBytes⟩
            have hTurn :=
              @readPages_load _
                (m.withBuf (shownPages m v content k buf)) load
                v _ hMore hNeeded fuel s
            simp only [hTurn]
            split
            · exact ⟨hAfter, _, rfl, fun hOk => by simp at hOk⟩
            · rename_i hOk
              have hLoaded := hBytes (Int.not_lt.mp hOk)
              rw [← shownPages_load hPage hNeeded] at hLoaded
              have hRun := ih hFuel' hBelow' hAfter
              rw [hNext, ← hLoaded] at hRun
              exact hRun
        | false =>
            have hSkipped :
                shownPages m v content (k + 1) buf =
                  shownPages m v content k buf :=
              Pages.patch_skipped hNeeded
            have hRun := ih hFuel' hBelow' hHolds
            rw [hNext, hSkipped] at hRun
            have hTurn :=
              @readPages_skip _
                (m.withBuf (shownPages m v content k buf)) load
                v _ hMore hNeeded fuel s
            simp only [hTurn]
            exact hRun
      · have hTurn :=
          @readPages_end _
            (m.withBuf (shownPages m v content k buf)) load v _
            hMore (fuel + 1) s
        simp only [hTurn]
        exact
          ⟨hHolds, _, rfl,
            fun _ => hDone k hBelow (Nat.not_lt.mp hMore)⟩

/-
  The loop over single bytes.  By induction on the bytes left,
  those before `i` being read.
-/
theorem readBytes_shows
    (hShows : pgm.Shows m holds)
    (v : Option (Nat → Bool))
    {left i : Nat}
    (hAll : i + left = m.size)
    {buf : Nat → UInt8}
    (hRead :
      ∀ j < i, needed v j = true →
        buf j = content (m.offset.toNat + j))
    {s : σ}
    (hHolds : holds s content) :
    let out := readBytes pgm v left i (m.withBuf buf) s
    holds out.2 content ∧
      ∃ buf',
        out.1.2 = m.withBuf buf' ∧
          (out.1.1 = -2 ∧ ¬ pgm.NeverFails m holds ∨
            out.1.1 = readCode (m.withBuf buf') ∧
              ∀ j < m.size, needed v j = true →
                buf' j = content (m.offset.toNat + j)) := by
  induction left generalizing i buf s with
  | zero =>
      rw [Nat.add_zero] at hAll
      rw [hAll] at hRead
      exact ⟨hHolds, buf, rfl, Or.inr ⟨rfl, hRead⟩⟩
  | succ left ih =>
      by_cases hNeeded : needed v i = true
      · rcases hShows.byte buf i ((m.withBuf buf).buf i) s
            content (by omega) hHolds with
          ⟨hAfter, hByte⟩
        rw [readBytes, if_pos hNeeded]
        by_cases hError :
            (pgm.readByte (m.withBuf buf) i
              ((m.withBuf buf).buf i) s).1.1 ≠ 0
        · simp only [if_pos hError]
          refine ⟨hAfter, _, rfl, Or.inl ⟨trivial, ?_⟩⟩
          intro hNever
          exact
            hError
              (hNever buf i _ s content (by omega) hHolds)
        · simp only [if_neg hError]
          apply ih (by omega) _ hAfter
          intro j hBefore hHere
          by_cases hLast : j = i
          · rw [hLast, Pages.set, if_pos rfl]
            exact hByte (not_not.mp hError)
          · rw [Pages.set, if_neg hLast]
            exact hRead j (by omega) hHere
      · rw [readBytes, if_neg hNeeded]
        apply ih (by omega) _ hHolds
        intro j hBefore hHere
        by_cases hLast : j = i
        · rw [hLast] at hHere
          exact absurd hHere hNeeded
        · exact hRead j (by omega) hHere

/-
  Page by page, byte by byte, or one after the other has
  failed: unless a byte cannot be read, the buffer shows what
  the device holds wherever it was needed.
-/
theorem avrRead_shows
    (hShows : pgm.Shows m holds)
    (hNoSig : pgm.readSigBytes = none)
    (v : Option (Nat → Bool))
    {s : σ}
    (hHolds : holds s content) :
    let out := avrRead pgm m v s
    holds out.2 content ∧
      ∃ buf,
        out.1.2 = m.withBuf buf ∧
          (out.1.1 = -2 ∧ ¬ pgm.NeverFails m holds ∨
            out.1.1 = readCode (m.withBuf buf) ∧
              ∀ j < m.size, needed v j = true →
                buf j = content (m.offset.toNat + j)) := by
  have hRest
      (buf : Nat → UInt8)
      {s : σ}
      (hHolds : holds s content) :=
    @readBytes_shows _ _ _ _ content hShows v m.size 0
      (Nat.zero_add m.size) buf
      (fun j hNone => absurd hNone (Nat.not_lt_zero j)) s
      hHolds
  rw [avrRead]
  cases hLoad :
      pgm.pagedLoad.filter fun _ => m.pageSize ≠ 0 with
  | none =>
      simp only [readRest, hNoSig, Option.filter_none]
      exact hRest _ hHolds
  | some load =>
      rcases Option.filter_eq_some_iff.mp hLoad with
        ⟨hLoad, hPage⟩
      have hPages :=
        @readPages_shows _ _ _ _ content hShows
          (Nat.pos_of_ne_zero (of_decide_eq_true hPage)) load
          hLoad v m.blank.buf m.size 0 (by omega)
          (fun q hNone => absurd hNone (Nat.not_lt_zero q)) s
          hHolds
      rw [shownPages_zero, Nat.zero_mul] at hPages
      rcases hPages with ⟨hAfter, buf, hMem, hBytes⟩
      simp only
      change holds (readPages load v m.size 0 m.blank s).2
        content at hAfter
      change (readPages load v m.size 0 m.blank s).1.2 = _
        at hMem
      change (readPages load v m.size 0 m.blank s).1.1 = true →
        _ at hBytes
      rw [hMem]
      split
      · rename_i hOk
        exact ⟨hAfter, buf, rfl, Or.inr ⟨rfl, hBytes hOk⟩⟩
      · simp only [readRest, hNoSig, Option.filter_none]
        exact hRest buf hAfter

------------------------------------------------------------
-- Writing
------------------------------------------------------------

/-
  The tagged pages that begin below `limit` show the buffer,
  with all of their bytes.
-/
def storedPages
    (m : TaggedMem)
    (limit : Nat)
    (content : Nat → UInt8) : Nat → UInt8 :=
  fun j =>
    let i := j - m.offset.toNat
    let pageaddr := i / m.pageSize * m.pageSize
    if m.offset.toNat ≤ j ∧ pageaddr < limit ∧
        pageTagged m pageaddr = true then
      m.buf i
    else content j

/- The first pages written. -/
def writtenPages
    (m : TaggedMem)
    (content : Nat → UInt8)
    (count : Nat) : Nat → UInt8 :=
  Pages.patch m.pageSize m.offset.toNat
    (fun k => pageTagged m (k * m.pageSize)) m.buf count
    content

theorem writtenPages_write
    (hPage : 0 < m.pageSize)
    {k : Nat}
    (hTagged : pageTagged m (k * m.pageSize) = true) :
    writtenPages m content (k + 1) =
      Pages.writePage m.pageSize
        (m.offset.toNat + k * m.pageSize) 0xFF
        (Pages.read (k * m.pageSize) m.pageSize m.buf)
        (writtenPages m content k) :=
  @Pages.patch_chosen _ _ _
    (fun k => pageTagged m (k * m.pageSize)) _ _ hPage k
    hTagged 0xFF

/-
  The loop over the pages.  By induction on the turns left,
  the pages before `k` being written.
-/
theorem writePages_stores
    (hStores : pgm.Stores m holds)
    (hPage : 0 < m.pageSize)
    {write : TaggedMem → Nat → Nat → σ → Int × σ}
    (hWrite : pgm.pagedWrite = some write)
    {wsize : Nat}
    (hSize : wsize ≤ m.size)
    {fuel k : Nat}
    (hFuel : wsize ≤ k * m.pageSize + fuel)
    (hBelow : ∀ q < k, q * m.pageSize < wsize)
    {s : σ}
    (hHolds : holds s (writtenPages m content k)) :
    let out :=
      writePages pgm write false m wsize fuel (k * m.pageSize) s
    out.1 = true ∧
        holds out.2 (storedPages m wsize content) := by
  have hDone
      {k : Nat}
      (hBelow : ∀ q < k, q * m.pageSize < wsize)
      (hAll : wsize ≤ k * m.pageSize) :
      writtenPages m content k =
          storedPages m wsize content := by
    funext j
    rw [writtenPages, Pages.patch_limit hBelow hAll]
    rfl
  induction fuel generalizing k s with
  | zero =>
      rw [hDone hBelow hFuel] at hHolds
      exact ⟨rfl, hHolds⟩
  | succ fuel ih =>
      rw [writePages]
      by_cases hMore : k * m.pageSize < wsize
      · have hNext : (k + 1) * m.pageSize =
            k * m.pageSize + m.pageSize := Nat.succ_mul _ _
        have hBelow' : ∀ q < k + 1, q * m.pageSize < wsize := by
          intro q hq
          by_cases hLast : q = k
          · rw [hLast]
            exact hMore
          · exact hBelow q (by omega)
        have hFuel' :
            wsize ≤ (k + 1) * m.pageSize + fuel := by
          omega
        rw [if_pos hMore]
        cases hTagged : pageTagged m (k * m.pageSize) with
        | true =>
            rcases hStores.page write hWrite (k * m.pageSize) s
                (writtenPages m content k)
                (Nat.dvd_mul_left _ _) (by omega) hHolds with
              ⟨hOk, hAfter⟩
            rw [← writtenPages_write hPage hTagged] at hAfter
            have hRun := ih hFuel' hBelow' hAfter
            rw [hNext] at hRun
            simp only [if_true, Bool.false_eq_true, if_false,
              Int.lt_irrefl, if_neg (Int.not_lt.mpr hOk)]
            exact hRun
        | false =>
            have hSkipped :
                writtenPages m content (k + 1) =
                  writtenPages m content k :=
              Pages.patch_skipped hTagged
            rw [← hSkipped] at hHolds
            have hRun := ih hFuel' hBelow' hHolds
            rw [hNext] at hRun
            simp only [Bool.false_eq_true, if_false]
            exact hRun
      · rw [hDone hBelow (Nat.not_lt.mp hMore)] at hHolds
        rw [if_neg hMore]
        exact ⟨rfl, hHolds⟩

/-
  The tagged pages that begin below `size` end up on the
  device, whole, and nothing else changes there.
-/
theorem avrWrite_stores
    (hStores : pgm.Stores m holds)
    (hPage : 0 < m.pageSize)
    (size : Nat)
    {s : σ}
    (hHolds : holds s content) :
    let out := avrWrite pgm m size false s
    out.1 = ((min size m.size : Nat) : Int) ∧
      holds out.2
        (storedPages m (min size m.size) content) := by
  have hNone : writtenPages m content 0 = content :=
    Pages.patch_zero
  cases hWrite : pgm.pagedWrite with
  | none => exact absurd hWrite hStores.paged
  | some write =>
      have hRun :=
        @writePages_stores _ _ _ _ content hStores hPage write
          hWrite (min size m.size) (Nat.min_le_right _ _)
          (min size m.size) 0 (by omega)
          (fun q hq => absurd hq (Nat.not_lt_zero q)) s
          (hNone.symm ▸ hHolds)
      rw [Nat.zero_mul] at hRun
      have hFilter :
          (pgm.pagedWrite.filter fun _ => m.pageSize ≠ 0) =
            some write := by
        rw [hWrite, Option.filter_some, if_pos]
        exact decide_eq_true (by omega)
      rw [avrWrite, hFilter]
      simp only [hRun.1, if_true]
      exact ⟨trivial, hRun.2⟩

end Serve

end Lucax
