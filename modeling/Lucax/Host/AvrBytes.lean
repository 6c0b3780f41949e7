import Lucax.Host.Avr

/-
  The byte-by-byte write of a paged memory: which operations
  of the programmer it makes, and in which order.

  Key definitions include:
    * `ByteOp`, `ByteOp.exec`
    * `pageOps`

  Main declarations:
    * `avrWrite_pageOps`
-/

------------------------------------------------------------
-- Operations
------------------------------------------------------------

namespace Lucax

/- A byte put into the page buffer, or the page written. -/
inductive ByteOp where
| byte (i : Nat)
| page (i : Nat)
deriving DecidableEq

/- Its code is looked at by no one. -/
def ByteOp.exec
    {σ : Type}
    (pgm : Programmer σ)
    (m : TaggedMem)
    (s : σ) : ByteOp → σ
| .byte i => (pgm.writeByte m i (m.buf i) s).2
| .page i => (pgm.writePage m i s).2

/- The tagged ones of the `n` places from `i` on. -/
def taggedFrom
    (m : TaggedMem)
    (i n : Nat) : List Nat :=
  (List.range' i n).filter m.tags

/- Where a page ends, or the write inside it. -/
def pageLimit
    (m : TaggedMem)
    (wsize k : Nat) : Nat :=
  min ((k + 1) * m.pageSize) wsize

/-
  The `k`-th page: its tagged bytes below `wsize` in order,
  and then the page once, at its last byte or that of the
  write.
-/
def pageOps
    (m : TaggedMem)
    (wsize k : Nat) : List ByteOp :=
  let first := k * m.pageSize
  let places := taggedFrom m first (pageLimit m wsize k - first)
  if places = [] then []
  else places.map .byte ++ [.page (pageLimit m wsize k - 1)]

/- What the loop does, as a list. -/
def byteOps
    (m : TaggedMem)
    (wsize : Nat) :
    Nat → Nat → Bool → Bool → List ByteOp
| 0, _, _, _ => []
| left + 1, i, newpage, pageTainted =>
    let pageTainted :=
      if newpage then m.tags i else pageTainted || m.tags i
    let lastByte : Bool :=
      i % m.pageSize = m.pageSize - 1 ∨ i = wsize - 1
    (if m.tags i then [.byte i] else []) ++
      (if m.paged && lastByte && pageTainted then [.page i]
      else []) ++
      byteOps m wsize left (i + 1) lastByte pageTainted

section Ops

variable {σ : Type} (pgm : Programmer σ) (m : TaggedMem)

theorem writeBytes_ops
    (wsize left i : Nat)
    (newpage pageTainted : Bool)
    (s : σ) :
    (writeBytes pgm m wsize left i newpage pageTainted s).2 =
      (byteOps m wsize left i newpage pageTainted).foldl
        (ByteOp.exec pgm m) s := by
  induction left generalizing i newpage pageTainted s with
  | zero => rfl
  | succ left ih =>
      rw [writeBytes, byteOps, ih, List.foldl_append,
        List.foldl_append]
      congr 1
      have hOne
          (c : Bool)
          (op : ByteOp)
          (s : σ) :
          (if c then [op] else []).foldl (ByteOp.exec pgm m) s =
            if c then ByteOp.exec pgm m s op else s := by
        cases c <;> rfl
      rw [hOne, hOne]
      rfl

variable {m}

/- A new page does not look at the flag of the one before. -/
theorem byteOps_newpage
    (wsize left i : Nat)
    (pageTainted pageTainted' : Bool) :
    byteOps m wsize left i true pageTainted =
      byteOps m wsize left i true pageTainted' := by
  cases left with
  | zero => rfl
  | succ left => rfl

------------------------------------------------------------
-- Pages
------------------------------------------------------------

theorem taggedFrom_cons
    (i n : Nat) :
    taggedFrom m i (n + 1) =
      (if m.tags i then [i] else []) ++
        taggedFrom m (i + 1) n := by
  rw [taggedFrom, List.range'_succ, List.filter_cons]
  split
  · rfl
  · rfl

/- The last byte of a page, or of the write. -/
theorem lastByte_iff
    (hPage : 0 < m.pageSize)
    {wsize k i : Nat}
    (hFrom : k * m.pageSize ≤ i)
    (hBelow : i < pageLimit m wsize k) :
    (i % m.pageSize = m.pageSize - 1 ∨ i = wsize - 1) ↔
      i + 1 = pageLimit m wsize k := by
  have hNext : (k + 1) * m.pageSize =
      k * m.pageSize + m.pageSize := Nat.succ_mul _ _
  rw [pageLimit, hNext] at hBelow ⊢
  have hQuot : i / m.pageSize = k := by
    apply Nat.div_eq_of_lt_le
    · exact hFrom
    · rw [hNext]
      omega
  have hSplit := Nat.div_add_mod i m.pageSize
  rw [hQuot, Nat.mul_comm] at hSplit
  constructor
  · rintro (hLast | hLast)
    · omega
    · omega
  · intro hEnd
    by_cases hWhole : k * m.pageSize + m.pageSize ≤ wsize
    · left
      omega
    · right
      omega

/-
  The rest of a page.  By induction on the bytes left in it;
  whether one before was tagged is in the flag.
-/
theorem byteOps_page
    (hPaged : m.paged = true)
    (hPage : 0 < m.pageSize)
    {wsize k n i : Nat}
    (hFrom : k * m.pageSize ≤ i)
    (hEnd : i + (n + 1) = pageLimit m wsize k)
    (rest : Nat)
    (newpage pageTainted : Bool) :
    byteOps m wsize (n + 1 + rest) i newpage pageTainted =
      (taggedFrom m i (n + 1)).map .byte ++
        (if (!newpage && pageTainted) = true ∨
            taggedFrom m i (n + 1) ≠ [] then
          [.page (pageLimit m wsize k - 1)]
        else []) ++
        byteOps m wsize rest (pageLimit m wsize k) true
          false := by
  induction n generalizing i newpage pageTainted with
  | zero =>
      have hLast :=
        (lastByte_iff hPage hFrom (by omega)).mpr
          (show i + 1 = pageLimit m wsize k by omega)
      have hPlace : pageLimit m wsize k - 1 = i := by
        omega
      have hTurn : 0 + 1 + rest = rest + 1 := by
        omega
      rw [hTurn, byteOps, taggedFrom_cons, hPlace]
      simp only [decide_eq_true hLast, hPaged, Bool.true_and]
      rw [byteOps_newpage _ _ _ _ false,
        show i + 1 = pageLimit m wsize k by omega]
      congr 1
      cases m.tags i <;> cases newpage <;> cases pageTainted <;>
        rfl
  | succ n ih =>
      have hNotLast :
          ¬ (i % m.pageSize = m.pageSize - 1 ∨
            i = wsize - 1) := by
        intro hLast
        have hHere :=
          (lastByte_iff hPage hFrom (by omega)).mp hLast
        omega
      have hTurn : n + 1 + 1 + rest = n + 1 + rest + 1 := by
        omega
      rw [hTurn, byteOps, taggedFrom_cons]
      simp only [decide_eq_false hNotLast, hPaged,
        Bool.true_and, Bool.false_and, Bool.false_eq_true,
        if_false]
      rw [ih (by omega) (by omega)]
      cases m.tags i <;> cases newpage <;> cases pageTainted <;>
        simp

/- A page from its first byte on. -/
theorem byteOps_whole
    (hPaged : m.paged = true)
    (hPage : 0 < m.pageSize)
    {wsize k : Nat}
    (hBelow : k * m.pageSize < wsize) :
    byteOps m wsize (wsize - k * m.pageSize) (k * m.pageSize)
        true false =
      pageOps m wsize k ++
        byteOps m wsize (wsize - pageLimit m wsize k)
          (pageLimit m wsize k) true false := by
  have hNext : (k + 1) * m.pageSize =
      k * m.pageSize + m.pageSize := Nat.succ_mul _ _
  have hEnd :
      pageLimit m wsize k =
        min (k * m.pageSize + m.pageSize) wsize := by
    rw [pageLimit, hNext]
  rcases Nat.exists_eq_add_of_lt
      (show k * m.pageSize < pageLimit m wsize k by omega) with
    ⟨n, hLength⟩
  have hLeft :
      wsize - k * m.pageSize =
        n + 1 + (wsize - pageLimit m wsize k) := by
    omega
  have hCount :
      pageLimit m wsize k - k * m.pageSize = n + 1 := by
    omega
  rw [hLeft,
    byteOps_page hPaged hPage (Nat.le_refl _)
      (show k * m.pageSize + (n + 1) = pageLimit m wsize k by
        omega),
    pageOps]
  simp only [hCount]
  by_cases hNone : taggedFrom m (k * m.pageSize) (n + 1) = []
  · simp [hNone]
  · simp [hNone]

/-
  The bytes are written page by page, and each page with a
  tagged byte once, behind them.
-/
theorem byteOps_pages
    (hPaged : m.paged = true)
    (hPage : 0 < m.pageSize)
    {wsize n k : Nat}
    (hAll : wsize ≤ (k + n) * m.pageSize) :
    byteOps m wsize (wsize - k * m.pageSize) (k * m.pageSize)
        true false =
      (List.range' k n).flatMap (pageOps m wsize) := by
  induction n generalizing k with
  | zero =>
      rw [Nat.add_zero] at hAll
      rw [Nat.sub_eq_zero_of_le hAll]
      rfl
  | succ n ih =>
      have hRest :=
        ih (k := k + 1) (by rw [Nat.add_right_comm]; exact hAll)
      rw [List.range'_succ, List.flatMap_cons, ← hRest]
      by_cases hBelow : k * m.pageSize < wsize
      · rw [byteOps_whole hPaged hPage hBelow]
        congr 1
        by_cases hFits : (k + 1) * m.pageSize ≤ wsize
        · rw [pageLimit, Nat.min_eq_left hFits]
        · rw [pageLimit, Nat.min_eq_right (by omega),
            Nat.sub_self, Nat.sub_eq_zero_of_le (by omega)]
          rfl
      · have hNext : (k + 1) * m.pageSize =
            k * m.pageSize + m.pageSize := Nat.succ_mul _ _
        have hNone :
            pageLimit m wsize k - k * m.pageSize = 0 := by
          rw [pageLimit]
          omega
        have hEmpty : pageOps m wsize k = [] := by
          rw [pageOps]
          simp only [hNone]
          rfl
        rw [hEmpty, Nat.sub_eq_zero_of_le (by omega),
          Nat.sub_eq_zero_of_le (by omega)]
        rfl

end Ops

/-
  A programmer that writes no pages by itself is asked, page
  by page, for the tagged bytes that are to be written and
  then once for the page; a page without any is left alone.
-/
theorem avrWrite_pageOps
    {σ : Type}
    (pgm : Programmer σ)
    {m : TaggedMem}
    (hPaged : m.paged = true)
    (hPage : 0 < m.pageSize)
    (hNone : pgm.pagedWrite = none)
    (size : Nat)
    (autoErase : Bool)
    (s : σ)
    {pages : Nat}
    (hAll : min size m.size ≤ pages * m.pageSize) :
    (avrWrite pgm m size autoErase s).2 =
      ((List.range pages).flatMap
        (pageOps m (min size m.size))).foldl
          (ByteOp.exec pgm m)
          (pgm.writeSetup.elim s fun setup => setup m s) := by
  have hOps :=
    @byteOps_pages m hPaged hPage (min size m.size) pages 0
      (by rw [Nat.zero_add]; exact hAll)
  rw [Nat.zero_mul, Nat.sub_zero, ← List.range_eq_range']
    at hOps
  rw [avrWrite, hNone]
  simp only [Option.filter_none]
  rw [writeBytes_ops, hOps]

/- A programmer that keeps what it is asked for. -/
def recording : Programmer (List ByteOp) where
  pagedLoad := none
  pagedWrite := none
  pageErase := fun _ _ s => (-1, s)
  readByte := fun _ _ value s => ((-1, value), s)
  writeByte := fun _ i _ s => (0, s ++ [.byte i])
  writePage := fun _ i s => (0, s ++ [.page i])
  readSigBytes := none
  writeSetup := none

theorem recording_pageOps :
    (avrWrite recording (blankFlash.fill 510 [1, 2, 3]) 600
        false []).2 =
      ((List.range 2).flatMap
        (pageOps (blankFlash.fill 510 [1, 2, 3])
          600)).foldl
        (ByteOp.exec recording
          (blankFlash.fill 510 [1, 2, 3])) [] :=
  avrWrite_pageOps recording rfl (by decide) rfl 600 false []
    (by decide)

end Lucax
