import Mathlib.Data.List.Forall2
import Lucax.Files.Loading
import Lucax.Host.AvrWire
import Lucax.Host.Update

/-
  Updates carried out through the driver, the firmware and
  the PDI.

  Main declarations:
    * `doWrite_onWire`, `doVerify_onWire`
    * `programStep`, `programRun`
    * `verifyRun_iff`
-/

------------------------------------------------------------
-- Memories of the Part
------------------------------------------------------------

namespace Lucax

/- The same memory with other bytes and tags. -/
def TaggedMem.SameShape (m m' : TaggedMem) : Prop :=
  ∃ buf tags, m' = { m with buf := buf, tags := tags }

namespace TaggedMem.SameShape

variable {m m' m'' : TaggedMem}

theorem refl (m : TaggedMem) : m.SameShape m :=
  ⟨m.buf, m.tags, rfl⟩

theorem trans
    (hFirst : m.SameShape m')
    (hSecond : m'.SameShape m'') :
    m.SameShape m'' := by
  rcases hFirst with ⟨buf, tags, hFirst⟩
  rcases hSecond with ⟨buf', tags', hSecond⟩
  exact ⟨buf', tags', by rw [hSecond, hFirst]⟩

theorem size (hSame : m.SameShape m') : m'.size = m.size := by
  rcases hSame with ⟨buf, tags, hSame⟩
  rw [hSame]

theorem offset
    (hSame : m.SameShape m') :
    m'.offset = m.offset := by
  rcases hSame with ⟨buf, tags, hSame⟩
  rw [hSame]

theorem desc (hSame : m.SameShape m') : m'.desc = m.desc := by
  rcases hSame with ⟨buf, tags, hSame⟩
  rw [hSame]

theorem placed
    {p : Part}
    {mem : PagedMemory}
    (hSame : m.SameShape m')
    (hPlaced : m.Placed p mem) :
    m'.Placed p mem := by
  rcases hSame with ⟨buf, tags, hSame⟩
  rw [hSame]
  exact
    ⟨hPlaced.offset, hPlaced.inside, hPlaced.pageSize,
      hPlaced.pages, hPlaced.buffer, hPlaced.nvm⟩

theorem onPart
    {p : Part}
    {mem : PagedMemory}
    (hSame : m.SameShape m')
    (hPart : m.OnPart p mem) :
    m'.OnPart p mem where
  toPlaced := hSame.placed hPart.toPlaced
  desc := hSame.desc.trans hPart.desc
  size := hSame.size.trans hPart.size

end TaggedMem.SameShape

/- The same memories in the same order. -/
def SamePart (part part' : List TaggedMem) : Prop :=
  List.Forall₂ TaggedMem.SameShape part part'

section SamePart

variable {part part' part'' : List TaggedMem}
variable {memtype : List Char}

theorem SamePart.refl
    (part : List TaggedMem) :
    SamePart part part :=
  List.forall₂_same.mpr fun m _hMem =>
    TaggedMem.SameShape.refl m

theorem SamePart.trans
    (hFirst : SamePart part part')
    (hSecond : SamePart part' part'') :
    SamePart part part'' := by
  induction hFirst generalizing part'' with
  | nil => exact hSecond
  | cons hHead hTail ih =>
      cases hSecond with
      | cons hHead' hTail' =>
          exact
            List.Forall₂.cons (hHead.trans hHead') (ih hTail')

theorem SamePart.set
    {m m' : TaggedMem}
    (i : Nat)
    (hAt : part[i]? = some m)
    (hShape : m.SameShape m') :
    SamePart part (part.set i m') := by
  induction part generalizing i with
  | nil => exact SamePart.refl []
  | cons head part ih =>
      cases i with
      | zero =>
          rw [List.getElem?_cons_zero, Option.some.injEq] at hAt
          rw [hAt]
          exact List.Forall₂.cons hShape (SamePart.refl part)
      | succ i =>
          rw [List.getElem?_cons_succ] at hAt
          exact
            List.Forall₂.cons
              (TaggedMem.SameShape.refl head) (ih i hAt)

/- Only names are looked at. -/
theorem SamePart.filter
    (hSame : SamePart part part')
    (f : List Char → Bool)
    (k : Nat) :
    List.Forall₂
      (fun x y => x.1.SameShape y.1 ∧ x.2 = y.2)
      ((part.zipIdx k).filter fun m => f m.1.desc)
      ((part'.zipIdx k).filter fun m => f m.1.desc) := by
  induction hSame generalizing k with
  | nil => exact List.Forall₂.nil
  | cons hHead hTail ih =>
      rename_i m m' part part'
      rw [List.zipIdx_cons, List.zipIdx_cons]
      by_cases hNamed : f m.desc = true
      · have hNamed' : f m'.desc = true := by
          rw [hHead.desc, hNamed]
        rw [List.filter_cons, if_pos hNamed, List.filter_cons,
          if_pos hNamed']
        exact List.Forall₂.cons ⟨hHead, rfl⟩ (ih (k + 1))
      · have hNamed' : ¬ f m'.desc = true := by
          rw [hHead.desc]
          exact hNamed
        rw [List.filter_cons, if_neg hNamed, List.filter_cons,
          if_neg hNamed']
        exact ih (k + 1)

theorem SamePart.locate
    (hSame : SamePart part part') :
    avrLocateMem part memtype = none ∧
        avrLocateMem part' memtype = none ∨
      ∃ m m' i,
        avrLocateMem part memtype = some (m, i) ∧
          avrLocateMem part' memtype = some (m', i) ∧
          m.SameShape m' := by
  have hFound := hSame.filter memtype.isPrefixOf 0
  rw [avrLocateMem, avrLocateMem]
  generalize
    (part.zipIdx.filter fun m => memtype.isPrefixOf m.1.desc) =
      found at hFound ⊢
  generalize
    (part'.zipIdx.filter fun m => memtype.isPrefixOf m.1.desc) =
      found' at hFound ⊢
  cases hFound with
  | nil => exact Or.inl ⟨rfl, rfl⟩
  | cons hHead hTail =>
      rename_i x y found found'
      cases hTail with
      | nil =>
          refine Or.inr ⟨x.1, y.1, x.2, rfl, ?_, hHead.1⟩
          rw [hHead.2]
      | cons hHead' hTail' => exact Or.inl ⟨rfl, rfl⟩

theorem avrLocateMem_at
    {m : TaggedMem}
    {i : Nat}
    (hFound : avrLocateMem part memtype = some (m, i)) :
    part[i]? = some m := by
  rw [avrLocateMem] at hFound
  split at hFound
  · rename_i found hOne
    have hMem := List.mem_singleton_self found
    rw [← hOne, Option.some.inj hFound] at hMem
    exact
      List.mem_zipIdx_iff_getElem?.mp
        (List.mem_filter.mp hMem).1
  · cases hFound

/- What is named, if it is known, is such a memory. -/
def Names
    (P : TaggedMem → Prop)
    (part : List TaggedMem)
    (memtype : List Char) : Prop :=
  ∀ m i, avrLocateMem part memtype = some (m, i) → P m

theorem SamePart.names
    {P : TaggedMem → Prop}
    (hShapes : ∀ m m', m.SameShape m' → P m → P m')
    (hSame : SamePart part part')
    (hNames : Names P part memtype) :
    Names P part' memtype := by
  intro m' i hFound'
  rcases @SamePart.locate _ _ memtype hSame with
    ⟨_hNone, hNone'⟩ | ⟨m, m'', k, hFound, hThere, hShape⟩
  · rw [hNone'] at hFound'
    cases hFound'
  · rw [hFound', Option.some.injEq, Prod.mk.injEq] at hThere
    rw [hThere.1]
    exact hShapes m m'' hShape (hNames m k hFound)

/- The flash memory or the EEPROM of the part. -/
def TaggedMem.OfPart (p : Part) (m : TaggedMem) : Prop :=
  ∃ mem, m.OnPart p mem

theorem TaggedMem.SameShape.ofPart
    {p : Part}
    (m m' : TaggedMem)
    (hSame : m.SameShape m')
    (hOf : m.OfPart p) :
    m'.OfPart p := by
  rcases hOf with ⟨mem, hPart⟩
  exact ⟨mem, hSame.onPart hPart⟩

theorem blankFlash_names
    (memtype : List Char) :
    Names (·.OfPart smallPart) [blankFlash] memtype := by
  intro m i hFound
  have hMem := List.mem_of_getElem? (avrLocateMem_at hFound)
  rw [List.mem_singleton.mp hMem]
  exact ⟨.flash, blankFlash_onPart⟩

/- A memory keeps its name when its bytes are replaced. -/
theorem avrLocateMem_set
    {m m' : TaggedMem}
    {i : Nat}
    (hFound : avrLocateMem part memtype = some (m, i))
    (hShape : m.SameShape m') :
    SamePart part (part.set i m') ∧
      avrLocateMem (part.set i m') memtype = some (m', i) := by
  have hAt := avrLocateMem_at hFound
  have hSame := SamePart.set i hAt hShape
  refine ⟨hSame, ?_⟩
  rcases @SamePart.locate _ _ memtype hSame with
    ⟨hNone, _hNone'⟩ | ⟨m₁, m₂, k, hFirst, hSecond, _hSame⟩
  · rw [hFound] at hNone
    cases hNone
  · rw [hFound, Option.some.injEq, Prod.mk.injEq] at hFirst
    rw [← hFirst.2] at hSecond
    rcases List.getElem?_eq_some_iff.mp hAt with ⟨hIn, _hMem⟩
    have hHere := avrLocateMem_at hSecond
    rw [List.getElem?_set_self hIn, Option.some.injEq] at hHere
    rw [hSecond, hHere]

end SamePart

/- A tagged byte that is written shows the buffer. -/
theorem storedPages_tagged
    {m : TaggedMem}
    (hPage : 0 < m.pageSize)
    {limit j : Nat}
    (hBelow : j < limit)
    (hTag : m.tags j = true)
    (content : Nat → UInt8) :
    storedPages m limit content (m.offset.toNat + j) =
      m.buf j := by
  have hLow := Nat.div_mul_le_self j m.pageSize
  have hHigh := @Nat.lt_div_mul_add j m.pageSize hPage
  have hTagged :
      pageTagged m (j / m.pageSize * m.pageSize) = true := by
    rw [pageTagged, List.any_eq_true]
    exact ⟨j, List.mem_range'_1.mpr ⟨hLow, hHigh⟩, hTag⟩
  rw [storedPages]
  simp only [Nat.add_sub_cancel_left]
  exact if_pos ⟨Nat.le_add_right _ _, by omega, hTagged⟩

------------------------------------------------------------
-- Writing and Verifying
------------------------------------------------------------

section OnWire

variable {p : Part} {mem : PagedMemory} {m : TaggedMem}
variable (behind : UInt8) (locals : FileLocals)
variable (u : Update) (i : Nat)

/- What a write leaves, if its file is read. -/
theorem doWrite_onWire
    (hPart : m.OnPart p mem)
    {s : UpdateState (Device (Decoder Chip))}
    (hOnline : s.device.Online) :
    let pgm := wirePgm (Decoder.line p.bus) behind
    let loaded :=
      fileioRead locals u.format u.filename (s.files u.filename)
        m
    let out := doWrite pgm locals u ⟨false, false⟩ m i s
    0 ≤ loaded.1 →
      out.1 = 0 ∧
        out.2.part = s.part.set i loaded.2 ∧
        out.2.files = s.files ∧
        out.2.device.Online ∧
        out.2.device.content =
          storedPages loaded.2 (min loaded.1.toNat m.size)
            s.device.content := by
  intro pgm loaded out hLoads
  have hShape : m.SameShape loaded.2 :=
    fileioRead_shape locals u.format u.filename
      (s.files u.filename) m
  have hLoaded := hShape.onPart hPart
  have hSize := hShape.size
  have hRun :=
    @avrWrite_stores _ _ _ _ s.device.content
      (wirePgm_stores hLoaded behind) hLoaded.page_pos
      loaded.1.toNat s.device ⟨hOnline, rfl⟩
  rw [hSize] at hRun
  rcases hRun with ⟨_hCode, hOnline', hContent⟩
  have hZero : out.1 = 0 := by
    have hCode :=
      @doWrite_code _ pgm locals u ⟨false, false⟩ m i s
    rw [if_neg (Int.not_lt.mpr hLoads)] at hCode
    exact hCode
  have hState :
      out.2 =
        { s.setMem i loaded.2 with
          device :=
            (avrWrite pgm loaded.2 loaded.1.toNat false
              s.device).2 } := by
    change (doWrite pgm locals u ⟨false, false⟩ m i s).2 = _
    rw [doWrite]
    simp only [Bool.false_eq_true, if_false]
    rw [if_neg (Int.not_lt.mpr hLoads)]
    split <;> rfl
  rw [hState]
  exact ⟨hZero, rfl, rfl, hOnline', hContent⟩

/- If the file cannot be read, nothing is written. -/
theorem doWrite_unread
    {σ : Type}
    (pgm : Programmer σ)
    (flags : UpdateFlags)
    (s : UpdateState σ)
    (hUnread :
      (fileioRead locals u.format u.filename
        (s.files u.filename) m).1 < 0) :
    doWrite pgm locals u flags m i s =
      (-1,
        s.setMem i
          (fileioRead locals u.format u.filename
            (s.files u.filename) m).2) := by
  rw [doWrite]
  exact if_pos hUnread

/- Verifying looks at the tagged bytes the file reaches to. -/
theorem doVerify_onWire
    (hPlaced : m.Placed p mem)
    {s : UpdateState (Device (Decoder Chip))}
    (hOnline : s.device.Online) :
    let pgm := wirePgm (Decoder.line p.bus) behind
    let loaded :=
      fileioRead locals u.format u.filename (s.files u.filename)
        m
    let out := doVerify pgm locals u m i s
    (out.1 = 0 ↔
      0 ≤ loaded.1 ∧
        ∀ j < min loaded.1.toNat m.size,
          loaded.2.tags j = true →
            s.device.content (m.offset.toNat + j) =
              loaded.2.buf j) ∧
      (∃ m', m.SameShape m' ∧
        out.2.part = s.part.set i m') ∧
      out.2.files = s.files ∧
      out.2.device.Online ∧
      out.2.device.content = s.device.content := by
  intro pgm loaded out
  have hShape : m.SameShape loaded.2 :=
    fileioRead_shape locals u.format u.filename
      (s.files u.filename) m
  have hLoaded := hShape.placed hPlaced
  have hSize := hShape.size
  have hOffset := hShape.offset
  by_cases hFails : loaded.1 < 0
  · have hOut : out = (-1, s.setMem i loaded.2) := by
      change doVerify pgm locals u m i s = _
      rw [doVerify]
      exact if_pos hFails
    rw [hOut]
    refine
      ⟨iff_of_false (by simp) ?_, ⟨loaded.2, hShape, rfl⟩, rfl,
        hOnline, rfl⟩
    exact fun hAll => absurd hFails (Int.not_lt.mpr hAll.1)
  · have hRead :=
      @avrRead_shows _ _ _ _ s.device.content
        (wirePgm_shows hLoaded behind) rfl
        (some loaded.2.tags) s.device ⟨hOnline, rfl⟩
    simp only at hRead
    rcases hRead with
      ⟨⟨hOnline', hContent⟩, buf', hMem, hCode⟩
    have hNever := wirePgm_neverFails hLoaded behind
    rcases hCode with ⟨_hCode, hFailed⟩ | ⟨hCode, hBytes⟩
    · exact absurd hNever hFailed
    · have hReadOk :
          ¬ (avrRead pgm loaded.2 (some loaded.2.tags)
              s.device).1.1 < 0 := by
        rw [show (avrRead pgm loaded.2 (some loaded.2.tags)
          s.device).1.1 = _ from hCode, readCode]
        split <;> omega
      have hVerify :=
        avrVerify_iff (loaded.2.withBuf buf') loaded.2
          loaded.1.toNat
      rw [TaggedMem.withBuf_size, hSize] at hVerify
      have hOut :
          out =
            (if avrVerify (loaded.2.withBuf buf') loaded.2
                loaded.1.toNat < 0 then -1 else 0,
              { s.setMem i (loaded.2.withBuf buf') with
                device :=
                  (avrRead pgm loaded.2 (some loaded.2.tags)
                    s.device).2 }) := by
        change doVerify pgm locals u m i s = _
        rw [doVerify]
        simp only
        rw [if_neg hFails, if_neg hReadOk, ← hMem]
        split <;> rfl
      rw [hOut]
      refine
        ⟨?_,
          ⟨loaded.2.withBuf buf',
            hShape.trans ⟨buf', loaded.2.tags, rfl⟩, rfl⟩,
          rfl, hOnline', hContent⟩
      have hAgree :
          (∀ j < min loaded.1.toNat m.size,
            loaded.2.tags j = true →
              (loaded.2.withBuf buf').buf j =
                loaded.2.buf j) ↔
            ∀ j < min loaded.1.toNat m.size,
              loaded.2.tags j = true →
                s.device.content (m.offset.toNat + j) =
                  loaded.2.buf j := by
        apply forall_congr'
        intro j
        apply forall_congr'
        intro hBelow
        apply forall_congr'
        intro hTag
        rw [TaggedMem.withBuf_buf,
          hBytes j (by rw [hSize]; omega) hTag, hOffset]
      rw [← hAgree, ← hVerify]
      simp only
      split
      · rename_i hDiffers
        refine iff_of_false (by simp) ?_
        exact fun hBoth =>
          absurd hDiffers (Int.not_lt.mpr hBoth.2)
      · rename_i hSame
        exact
          iff_of_true rfl
            ⟨Int.not_lt.mp hFails, Int.not_lt.mp hSame⟩

/- The memory may have been loaded from the file before. -/
theorem doVerify_again
    (hPlaced : m.Placed p mem)
    {s : UpdateState (Device (Decoder Chip))}
    (hOnline : s.device.Online) :
    let pgm := wirePgm (Decoder.line p.bus) behind
    let loaded :=
      fileioRead locals u.format u.filename (s.files u.filename)
        m
    let out := doVerify pgm locals u loaded.2 i s
    (out.1 = 0 ↔
      0 ≤ loaded.1 ∧
        ∀ j < min loaded.1.toNat m.size,
          loaded.2.tags j = true →
            s.device.content (m.offset.toNat + j) =
              loaded.2.buf j) ∧
      (∃ m', m.SameShape m' ∧
        out.2.part = s.part.set i m') ∧
      out.2.files = s.files ∧
      out.2.device.Online ∧
      out.2.device.content = s.device.content := by
  intro pgm loaded out
  have hShape : m.SameShape loaded.2 :=
    fileioRead_shape locals u.format u.filename
      (s.files u.filename) m
  have hAgain :=
    fileioRead_again locals u.format u.filename
      (s.files u.filename) m loaded.2.buf loaded.2.tags
  have hReset :
      { m with buf := loaded.2.buf, tags := loaded.2.tags } =
        loaded.2 := by
    rcases hShape with ⟨buf, tags, hShape⟩
    rw [hShape]
  rw [hReset] at hAgain
  rcases hAgain with ⟨hCode, hAgrees⟩
  rcases
      doVerify_onWire behind locals u i (hShape.placed hPlaced)
        hOnline with
    ⟨hOut, ⟨m', hShape', hPart⟩, hRest⟩
  refine ⟨?_, ⟨m', hShape.trans hShape', hPart⟩, hRest⟩
  change out.1 = 0 ↔ _ at hOut
  rw [hOut, hCode, hShape.size, hShape.offset]
  apply and_congr_right
  intro _hLoads
  apply forall_congr'
  intro j
  apply forall_congr'
  intro hBelow
  have hIn : j < loaded.2.size := by
    rw [hShape.size]
    omega
  rw [hAgrees.tags j hIn, hAgrees.buf j hIn]

end OnWire

------------------------------------------------------------
-- Programming and Verifying
------------------------------------------------------------

section Program

variable (locals : FileLocals) (hasPdi : Bool)
variable (files : List Char → Option (List UInt8))

/- What an update is to write, if its file can be read. -/
def Update.image
    (part : List TaggedMem)
    (u : Update) : Option (Int × TaggedMem) :=
  (avrLocateMem part (u.memory hasPdi)).bind fun found =>
    let loaded :=
      fileioRead locals u.format u.filename (files u.filename)
        found.1
    if loaded.1 < 0 then none else some loaded

/- The device with an image written. -/
def storedImage
    (content : Nat → UInt8)
    (image : Option (Int × TaggedMem)) : Nat → UInt8 :=
  image.elim content fun loaded =>
    storedPages loaded.2 (min loaded.1.toNat loaded.2.size)
      content

/- Only what is inside the memory is looked at. -/
theorem storedPages_agrees
    {p : Part}
    {mem : PagedMemory}
    {m m' : TaggedMem}
    (hPart : m.OnPart p mem)
    (hAgrees : m.Agrees m')
    {limit : Nat}
    (hLimit : limit ≤ m.size)
    (content : Nat → UInt8) :
    storedPages m' limit content =
      storedPages m limit content := by
  have hPage := hPart.page_pos
  have hShape : m.SameShape m' := hAgrees.shape
  have hPageSize : m'.pageSize = m.pageSize := by
    rw [(hShape.onPart hPart).pageSize, hPart.pageSize]
  have hInside
      {i j : Nat}
      (hStart : i / m.pageSize * m.pageSize < limit)
      (hBelow :
        j < i / m.pageSize * m.pageSize + m.pageSize) :
      j < m.size := by
    have hFits :=
      hPart.page_inside (Nat.dvd_mul_left m.pageSize _)
        (Nat.lt_of_lt_of_le hStart hLimit)
    omega
  funext k
  rw [storedPages, storedPages, hPageSize, hShape.offset]
  by_cases hStart :
      (k - m.offset.toNat) / m.pageSize * m.pageSize < limit
  · have hTagged :
        pageTagged m'
            ((k - m.offset.toNat) / m.pageSize * m.pageSize) =
          pageTagged m
            ((k - m.offset.toNat) / m.pageSize *
              m.pageSize) := by
      rw [pageTagged, pageTagged, hPageSize, Bool.eq_iff_iff,
        List.any_eq_true, List.any_eq_true]
      apply exists_congr
      intro j
      apply and_congr_right
      intro hIn
      rw [List.mem_range'_1] at hIn
      rw [hAgrees.tags j (hInside hStart hIn.2)]
    rw [hTagged, hAgrees.buf _ (hInside hStart
      (Nat.lt_div_mul_add hPage))]
  · rw [if_neg fun hAll => hStart hAll.2.1,
      if_neg fun hAll => hStart hAll.2.1]

variable {locals} {hasPdi} {files}

/- A file of two bytes for a flash memory, written. -/
theorem blankFlash_pair
    {part : List TaggedMem}
    {u : Update}
    {i : Nat}
    (hFound :
      avrLocateMem part (u.memory hasPdi) =
        some (blankFlash, i))
    (hFormat : u.format = .rbin)
    {b c : UInt8}
    (hFile : files u.filename = some [b, c])
    (hLast : c ≠ 0xFF) :
    u.image locals hasPdi files part =
      some (2, blankFlash.cleared.fill 0 [b, c]) := by
  have hLoaded :
      fileioRead locals u.format u.filename (files u.filename)
          blankFlash =
        (2, blankFlash.cleared.fill 0 [b, c]) := by
    rw [hFormat, hFile]
    exact
      fileioRead_pair locals rfl (by decide) hLast u.filename
  rw [Update.image, hFound, Option.bind_some]
  simp only [hLoaded]
  rfl

theorem storedImage_pair
    (b c : UInt8)
    (content : Nat → UInt8) :
    let stored :=
      storedImage content
        (some (2, blankFlash.cleared.fill 0 [b, c]))
    stored 0x00800000 = b ∧ stored 0x00800001 = c := by
  have hStored
      (j : Nat)
      (hFew : j < 2)
      (hTag :
        (blankFlash.cleared.fill 0 [b, c]).tags j = true) :=
    @storedPages_tagged (blankFlash.cleared.fill 0 [b, c])
      (show 0 < blankFlash.pageSize by decide) 2 j hFew hTag
      content
  exact
    ⟨hStored 0 (by decide) rfl, hStored 1 (by decide) rfl⟩

/- What an update writes does not depend on earlier ones. -/
theorem Update.image_same
    {p : Part}
    {part part' : List TaggedMem}
    {u : Update}
    (hNames : Names (·.OfPart p) part (u.memory hasPdi))
    (hSame : SamePart part part') :
    ((u.image locals hasPdi files part').isSome =
        (u.image locals hasPdi files part).isSome) ∧
      ∀ content,
        storedImage content
            (u.image locals hasPdi files part') =
          storedImage content
            (u.image locals hasPdi files part) := by
  rcases @SamePart.locate _ _ (u.memory hasPdi) hSame with
    ⟨hNone, hNone'⟩ | ⟨m, m', i, hFound, hFound', hShape⟩
  · simp [Update.image, hNone, hNone']
  · rcases hNames m i hFound with ⟨mem, hPart⟩
    rcases hShape with ⟨buf, tags, hShape⟩
    have hAgain :=
      fileioRead_again locals u.format u.filename
        (files u.filename) m buf tags
    rw [← hShape] at hAgain
    rcases hAgain with ⟨hCode, hAgrees⟩
    have hLoaded :
        (fileioRead locals u.format u.filename
          (files u.filename) m).2.OnPart p mem :=
      TaggedMem.SameShape.onPart
        (fileioRead_shape locals u.format u.filename
          (files u.filename) m)
        hPart
    rw [Update.image, Update.image, hFound, hFound',
      Option.bind_some, Option.bind_some]
    simp only [hCode]
    split
    · exact ⟨rfl, fun content => rfl⟩
    · refine ⟨rfl, fun content => ?_⟩
      simp only [storedImage, Option.elim_some, hCode,
        hAgrees.size]
      exact
        storedPages_agrees hLoaded hAgrees
          (Nat.min_le_right _ _) content

theorem images_same
    {p : Part}
    {part part' : List TaggedMem}
    {us : List Update}
    (hNames :
      ∀ u ∈ us, Names (·.OfPart p) part (u.memory hasPdi))
    (hSame : SamePart part part')
    (content : Nat → UInt8) :
    (us.map (Update.image locals hasPdi files part')).foldl
        storedImage content =
      (us.map (Update.image locals hasPdi files part)).foldl
        storedImage content := by
  induction us generalizing content with
  | nil => rfl
  | cons u us ih =>
      rw [List.forall_mem_cons] at hNames
      rw [List.map_cons, List.map_cons, List.foldl_cons,
        List.foldl_cons, ih hNames.2,
        (Update.image_same hNames.1 hSame).2 content]

variable {p : Part} (behind : UInt8)

/-
  An image is written and verified, or its file cannot be
  read and the run is over.
-/
theorem programStep
    {u : Update}
    (hOp : u.op = .write)
    {s : UpdateState (Device (Decoder Chip))}
    (hNames : Names (·.OfPart p) s.part (u.memory hasPdi))
    (hOnline : s.device.Online)
    (rest : List Update) :
    let run :=
      runUpdates (wirePgm (Decoder.line p.bus) behind) locals
        hasPdi ⟨false, false⟩
    let image := u.image locals hasPdi s.files s.part
    image.isSome = false ∧
        (run (queued true u ++ rest) s).1 = 1 ∨
      image.isSome = true ∧
        ∃ s',
          run (queued true u ++ rest) s = run rest s' ∧
            s'.files = s.files ∧
            SamePart s.part s'.part ∧
            s'.device.Online ∧
            s'.device.content =
              storedImage s.device.content image := by
  intro run image
  let verify : Update := { u with op := .verify }
  have hQueued : queued true u = [u, verify] := by
    simp [queued, hOp, verify]
  have hMemory : verify.memory hasPdi = u.memory hasPdi := rfl
  rw [hQueued]
  cases hFound : avrLocateMem s.part (u.memory hasPdi) with
  | none =>
      refine Or.inl ⟨?_, ?_⟩
      · simp [image, Update.image, hFound]
      · simp [run, runUpdates, doOp, hFound]
  | some found =>
      rcases found with ⟨m, i⟩
      rcases hNames m i hFound with ⟨mem, hPart⟩
      let loaded :=
        fileioRead locals u.format u.filename
          (s.files u.filename) m
      have hImage :
          image =
            if loaded.1 < 0 then none else some loaded := by
        simp only [image, Update.image, hFound,
          Option.bind_some]
        rfl
      by_cases hUnread : loaded.1 < 0
      · refine Or.inl ⟨?_, ?_⟩
        · rw [hImage, if_pos hUnread]
          rfl
        · simp [run, runUpdates, doOp, hFound, hOp,
            doWrite_unread locals u i _ _ s hUnread]
      · have hWritten :=
          doWrite_onWire behind locals u i hPart hOnline
            (Int.not_lt.mp hUnread)
        have hShape : m.SameShape loaded.2 :=
          fileioRead_shape locals u.format u.filename
            (s.files u.filename) m
        rcases avrLocateMem_set hFound hShape with
          ⟨hSame, hFound'⟩
        generalize hOut :
            doWrite (wirePgm (Decoder.line p.bus) behind) locals
              u ⟨false, false⟩ m i s = out at hWritten
        rcases out with ⟨code, s₁⟩
        rcases hWritten with
          ⟨hCode, hPart₁, hFiles₁, hOnline₁, hContent₁⟩
        simp only at hCode hPart₁ hFiles₁ hOnline₁ hContent₁
        rw [← hPart₁] at hSame hFound'
        have hVerified :=
          doVerify_again behind locals verify i hPart.toPlaced
            hOnline₁
        simp only [verify, hFiles₁] at hVerified
        generalize hOut' :
            doVerify (wirePgm (Decoder.line p.bus) behind)
              locals verify loaded.2 i s₁ = out' at hVerified
        rcases out' with ⟨code', s₂⟩
        rcases hVerified with
          ⟨hCode', ⟨m', hShape', hPart₂⟩, hFiles₂, hOnline₂,
            hContent₂⟩
        simp only at hCode' hPart₂ hFiles₂ hOnline₂ hContent₂
        have hEqual : code' = 0 := by
          rw [hCode']
          refine ⟨Int.not_lt.mp hUnread, ?_⟩
          intro j hBelow hTag
          have hStored :=
            storedPages_tagged (hShape.onPart hPart).page_pos
              hBelow hTag s.device.content
          rw [hShape.offset] at hStored
          rw [hContent₁]
          exact hStored
        have hPart₂' : SamePart s.part s₂.part := by
          rw [hPart₂, hPart₁, List.set_set]
          exact
            SamePart.set i (avrLocateMem_at hFound) hShape'
        refine
          Or.inr
            ⟨?_, s₂, ?_, hFiles₂, hPart₂',
              hOnline₂, ?_⟩
        · rw [hImage, if_neg hUnread]
          rfl
        · have hFirst :
              doOp (wirePgm (Decoder.line p.bus) behind) locals
                ⟨false, false⟩ (u.memory hasPdi) u s =
                (0, s₁) := by
            rw [doOp, hFound, ← hCode, ← hOut]
            simp only [hOp]
          have hSecond :
              doOp (wirePgm (Decoder.line p.bus) behind) locals
                ⟨false, false⟩ (verify.memory hasPdi) verify
                s₁ = (0, s₂) := by
            rw [doOp, hMemory, hFound', ← hEqual, ← hOut']
          change
            runUpdates _ _ _ _ (u :: verify :: rest) s = _
          rw [runUpdates, hFirst]
          simp only [ne_eq, not_true_eq_false, if_false]
          rw [runUpdates, hSecond]
          rfl
        · rw [hContent₂, hContent₁, hImage, if_neg hUnread,
            storedImage, Option.elim_some, hShape.size]

/-
  Any number of files, each written to its memory and then
  verified: the run succeeds exactly if every memory is known
  and every file can be read, and the images are on the device
  then, one over the other.
-/
theorem programRun
    {us : List Update}
    (hOps : ∀ u ∈ us, u.op = .write)
    {s : UpdateState (Device (Decoder Chip))}
    (hNames :
      ∀ u ∈ us, Names (·.OfPart p) s.part (u.memory hasPdi))
    (hOnline : s.device.Online) :
    let out :=
      runUpdates (wirePgm (Decoder.line p.bus) behind) locals
        hasPdi ⟨false, false⟩ (us.flatMap (queued true)) s
    let images :=
      us.map (Update.image locals hasPdi s.files s.part)
    (out.1 = 0 ↔ ∀ image ∈ images, image.isSome = true) ∧
      (out.1 = 0 →
        out.2.device.Online ∧
          out.2.device.content =
            images.foldl storedImage s.device.content) := by
  induction us generalizing s with
  | nil =>
      exact
        ⟨iff_of_true rfl fun image hNone =>
          absurd hNone List.not_mem_nil, fun _hZero =>
          ⟨hOnline, rfl⟩⟩
  | cons u us ih =>
      rw [List.forall_mem_cons] at hOps hNames
      rw [List.flatMap_cons, List.map_cons]
      rcases @programStep locals hasPdi p behind u hOps.1 s
          hNames.1 hOnline (us.flatMap (queued true)) with
        ⟨hNone, hFailed⟩ |
          ⟨hImage, s', hRun, hFiles, hSame, hOnline', hContent⟩
      · simp only [List.forall_mem_cons, hFailed, hNone]
        exact ⟨by simp, by simp⟩
      · have hNames' :
            ∀ u ∈ us,
              Names (·.OfPart p) s'.part (u.memory hasPdi) :=
          fun u hMem =>
            hSame.names TaggedMem.SameShape.ofPart
              (hNames.2 u hMem)
        rcases @ih hOps.2 s' hNames' hOnline' with
          ⟨hCode, hStored⟩
        have hLoads :
            (∀ image ∈
                us.map (Update.image locals hasPdi s'.files
                  s'.part),
              image.isSome = true) ↔
              ∀ image ∈
                us.map (Update.image locals hasPdi s.files
                  s.part),
                image.isSome = true := by
          rw [List.forall_mem_map, List.forall_mem_map]
          apply forall_congr'
          intro u'
          apply forall_congr'
          intro hMem
          rw [hFiles,
            (Update.image_same (hNames.2 u' hMem) hSame).1]
        rw [hLoads] at hCode
        rw [hFiles, images_same hNames.2 hSame, hContent]
          at hStored
        simp only [hRun, List.forall_mem_cons, hImage, true_and,
          List.foldl_cons]
        exact ⟨hCode, hStored⟩

------------------------------------------------------------
-- Verifying Alone
------------------------------------------------------------

/- A memory that can be read through the driver. -/
def TaggedMem.Readable (p : Part) (m : TaggedMem) : Prop :=
  ∃ mem, m.Placed p mem

theorem TaggedMem.SameShape.readable
    (m m' : TaggedMem)
    (hSame : m.SameShape m')
    (hReadable : m.Readable p) :
    m'.Readable p := by
  rcases hReadable with ⟨mem, hPlaced⟩
  exact ⟨mem, hSame.placed hPlaced⟩

end Program

end Lucax
