import Lucax.Host.MainRun

/-
  Memories dumped to files and restored from them, and what
  updates leave alone.

  Main declarations:
    * `doRead_onWire`
    * `runUpdates_frame`
    * `dump_restore_iff`
-/

------------------------------------------------------------
-- Dumps
------------------------------------------------------------

namespace Lucax

section Dump

variable {p : Part} {mem : PagedMemory} {m : TaggedMem}
variable (behind : UInt8) (u : Update) (i : Nat)

/- The file gets what the memory holds, up to its end. -/
theorem doRead_onWire
    (hPlaced : m.Placed p mem)
    {s : UpdateState (Device (Decoder Chip))}
    (hOnline : s.device.Online) :
    let out :=
      doRead (wirePgm (Decoder.line p.bus) behind) u m i s
    ∃ buf m',
      (∀ j < m.size,
        buf j = s.device.content (m.offset.toNat + j)) ∧
        m.SameShape m' ∧
        let saved :=
          fileioWrite u.format u.filename (s.files u.filename)
            (m.withBuf buf)
            (readCode (m.withBuf buf)).toNat
        out.1 = (if saved.1.1 < 0 then -1 else 0) ∧
          out.2.part = s.part.set i m' ∧
          (out.2.files =
            fun name =>
              if name = u.filename then saved.2
              else s.files name) ∧
          out.2.device.Online ∧
          out.2.device.content = s.device.content := by
  intro out
  have hRead :=
    @avrRead_shows _ _ _ _ s.device.content
      (wirePgm_shows hPlaced behind) rfl none s.device
      ⟨hOnline, rfl⟩
  have hNever := wirePgm_neverFails hPlaced behind
  have hOut :
      out =
        doRead (wirePgm (Decoder.line p.bus) behind) u m i s :=
    rfl
  rw [doRead] at hOut
  generalize
    avrRead (wirePgm (Decoder.line p.bus) behind) m none
      s.device = read at hRead hOut
  rcases read with ⟨⟨code, m₁⟩, device⟩
  rcases hRead with ⟨⟨hOnline', hContent⟩, buf, hMem, hCode⟩
  simp only at hOnline' hContent hMem hCode
  rcases hCode with ⟨_hCode, hFailed⟩ | ⟨hCode, hBytes⟩
  · exact absurd hNever hFailed
  · have hOk : ¬ readCode (m.withBuf buf) < 0 := by
      rw [readCode]
      split <;> omega
    simp only [hMem, hCode, if_neg hOk] at hOut
    let saved :=
      fileioWrite u.format u.filename (s.files u.filename)
        (m.withBuf buf) (readCode (m.withBuf buf)).toNat
    have hShape : m.SameShape saved.1.2 := by
      simp only [saved, fileioWrite]
      split <;> exact ⟨buf, _, rfl⟩
    refine ⟨buf, saved.1.2, ?_, hShape, ?_⟩
    · exact fun j hIn => hBytes j hIn rfl
    · simp only [saveMem, UpdateState.setMem,
        UpdateState.setFile, List.set_set] at hOut
      by_cases hUnsaved : saved.1.1 < 0
      · rw [if_pos hUnsaved] at hOut
        rw [hOut]
        exact ⟨(if_pos hUnsaved).symm, rfl, rfl, hOnline',
          hContent⟩
      · rw [if_neg hUnsaved] at hOut
        rw [hOut]
        exact ⟨(if_neg hUnsaved).symm, rfl, rfl, hOnline',
          hContent⟩

end Dump

------------------------------------------------------------
-- What is Left Alone
------------------------------------------------------------

section Frame

variable {p : Part} {m : TaggedMem}

/- A place of the device inside a memory. -/
def TaggedMem.Covers (m : TaggedMem) (a : Nat) : Prop :=
  m.offset.toNat ≤ a ∧ a < m.offset.toNat + m.size

theorem storedPages_outside
    {mem : PagedMemory}
    (hPart : m.OnPart p mem)
    {limit : Nat}
    (hLimit : limit ≤ m.size)
    {a : Nat}
    (hOutside : ¬ m.Covers a)
    (content : Nat → UInt8) :
    storedPages m limit content a = content a := by
  rw [storedPages]
  apply if_neg
  rintro ⟨hFrom, hStart, _hTagged⟩
  apply hOutside
  have hFits :=
    hPart.page_inside (Nat.dvd_mul_left m.pageSize _)
      (Nat.lt_of_lt_of_le hStart hLimit)
  have hHigh :=
    @Nat.lt_div_mul_add (a - m.offset.toNat) m.pageSize
      hPart.page_pos
  exact ⟨hFrom, by omega⟩

/- A memory that is read, and written or refused. -/
def TaggedMem.Served
    (behind : UInt8)
    (p : Part)
    (m : TaggedMem) : Prop :=
  ∃ mem, m.Placed p mem ∧
    (m.OnPart p mem ∨
      m.pagedType = none ∧ m.byteType behind = none)

theorem TaggedMem.SameShape.served
    {behind : UInt8}
    (m m' : TaggedMem)
    (hSame : m.SameShape m')
    (hServed : m.Served behind p) :
    m'.Served behind p := by
  rcases hServed with ⟨mem, hPlaced, hOn⟩
  refine ⟨mem, hSame.placed hPlaced, ?_⟩
  rw [AvrMem.pagedType, AvrMem.byteType, hSame.desc]
  exact hOn.imp hSame.onPart id

variable (behind : UInt8) (locals : FileLocals)

/- Only the memory named is written. -/
theorem doWrite_frame
    {m : TaggedMem}
    (hServed : m.Served behind p)
    (u : Update)
    (i : Nat)
    {s : UpdateState (Device (Decoder Chip))}
    (hOnline : s.device.Online) :
    let out :=
      doWrite (wirePgm (Decoder.line p.bus) behind) locals u
        ⟨false, false⟩ m i s
    out.2.device.Online ∧
      (∃ m', m.SameShape m' ∧
        out.2.part = s.part.set i m') ∧
      ∀ a, ¬ m.Covers a →
        out.2.device.content a = s.device.content a := by
  have hLoaded : m.SameShape
      (fileioRead locals u.format u.filename
        (s.files u.filename) m).2 :=
    fileioRead_shape locals u.format u.filename
      (s.files u.filename) m
  rcases hServed with ⟨mem, _hPlaced, hPart | hUnnamed⟩
  · by_cases hUnread :
        (fileioRead locals u.format u.filename
          (s.files u.filename) m).1 < 0
    · rw [doWrite_unread locals u i _ _ s hUnread]
      exact
        ⟨hOnline, ⟨_, hLoaded, rfl⟩, fun a _hOutside => rfl⟩
    · rcases
          doWrite_onWire behind locals u i hPart hOnline
            (Int.not_lt.mp hUnread) with
        ⟨_hCode, hSet, _hFiles, hOnline', hContent⟩
      refine
        ⟨hOnline', ⟨_, hLoaded, hSet⟩, fun a hOutside => ?_⟩
      rw [hContent]
      apply storedPages_outside (hLoaded.onPart hPart)
      · rw [hLoaded.size]
        exact Nat.min_le_right _ _
      · rw [TaggedMem.Covers, hLoaded.offset, hLoaded.size]
        exact hOutside
  · have hRefused :=
      @doWrite_unnamed p behind locals s m u hUnnamed.1
        hUnnamed.2 i hOnline
    simp only [hRefused]
    exact ⟨hOnline, ⟨_, hLoaded, rfl⟩, fun a _hOutside => rfl⟩

/-
  One operation: the session stays open, the part stays the
  same, and only a write changes the memory it names.
-/
theorem doOp_frame
    {memtype : List Char}
    (u : Update)
    {s : UpdateState (Device (Decoder Chip))}
    (hNames : Names (·.Served behind p) s.part memtype)
    (hOnline : s.device.Online) :
    let out :=
      doOp (wirePgm (Decoder.line p.bus) behind) locals
        ⟨false, false⟩ memtype u s
    out.2.device.Online ∧
      SamePart s.part out.2.part ∧
      ∀ a,
        (u.op = .write →
          Names (fun m => ¬ m.Covers a) s.part memtype) →
          out.2.device.content a = s.device.content a := by
  intro out
  have hOut :
      out =
        doOp (wirePgm (Decoder.line p.bus) behind) locals
          ⟨false, false⟩ memtype u s := rfl
  rw [doOp] at hOut
  cases hFound : avrLocateMem s.part memtype with
  | none =>
      rw [hFound] at hOut
      rw [hOut]
      exact ⟨hOnline, SamePart.refl _, fun a _hOutside => rfl⟩
  | some found =>
      rcases found with ⟨m, i⟩
      have hServed := hNames m i hFound
      have hAt := avrLocateMem_at hFound
      rw [hFound] at hOut
      cases hOp : u.op with
      | read =>
          simp only [hOp] at hOut
          rcases hServed with ⟨mem, hPlaced, _hOn⟩
          rcases doRead_onWire behind u i hPlaced hOnline with
            ⟨buf, m', _hBytes, hShape, _hCode, hSet, _hFiles,
              hOnline', hContent⟩
          rw [hOut]
          refine ⟨hOnline', ?_, fun a _hOutside => ?_⟩
          · rw [hSet]
            exact SamePart.set i hAt hShape
          · rw [hContent]
      | write =>
          simp only [hOp] at hOut
          rcases
              doWrite_frame behind locals hServed u i hOnline
            with
            ⟨hOnline', ⟨m', hShape, hSet⟩, hContent⟩
          rw [hOut]
          refine ⟨hOnline', ?_, fun a hOutside => ?_⟩
          · rw [hSet]
            exact SamePart.set i hAt hShape
          · exact hContent a (hOutside rfl m i hFound)
      | verify =>
          simp only [hOp] at hOut
          rcases hServed with ⟨mem, hPlaced, _hOn⟩
          rcases
              doVerify_onWire behind locals u i hPlaced hOnline
            with
            ⟨_hCode, ⟨m', hShape, hSet⟩, _hFiles, hOnline',
              hContent⟩
          rw [hOut]
          refine ⟨hOnline', ?_, fun a _hOutside => ?_⟩
          · rw [hSet]
            exact SamePart.set i hAt hShape
          · rw [hContent]

theorem TaggedMem.SameShape.covers
    {a : Nat}
    (m m' : TaggedMem)
    (hSame : m.SameShape m')
    (hOutside : ¬ m.Covers a) :
    ¬ m'.Covers a := by
  rw [TaggedMem.Covers, hSame.offset, hSame.size]
  exact hOutside

/-
  Any run of reads, writes and verifications, also one that
  fails: the session stays open, and a byte of the device is
  the one it was unless a memory that a write names covers it.
-/
theorem runUpdates_frame
    (hasPdi : Bool)
    {us : List Update}
    {s : UpdateState (Device (Decoder Chip))}
    (hNames :
      ∀ u ∈ us,
        Names (·.Served behind p) s.part (u.memory hasPdi))
    (hOnline : s.device.Online) :
    let out :=
      runUpdates (wirePgm (Decoder.line p.bus) behind) locals
        hasPdi ⟨false, false⟩ us s
    out.2.device.Online ∧
      SamePart s.part out.2.part ∧
      ∀ a,
        (∀ u ∈ us, u.op = .write →
          Names (fun m => ¬ m.Covers a) s.part
            (u.memory hasPdi)) →
          out.2.device.content a = s.device.content a := by
  induction us generalizing s with
  | nil =>
      exact ⟨hOnline, SamePart.refl _, fun a _hOutside => rfl⟩
  | cons u us ih =>
      rw [List.forall_mem_cons] at hNames
      have hStep :=
        @doOp_frame p behind locals (u.memory hasPdi) u s
          hNames.1 hOnline
      intro out
      have hOut :
          out =
            runUpdates (wirePgm (Decoder.line p.bus) behind)
              locals hasPdi ⟨false, false⟩ (u :: us) s := rfl
      rw [runUpdates] at hOut
      generalize
        doOp (wirePgm (Decoder.line p.bus) behind) locals
          ⟨false, false⟩ (u.memory hasPdi) u s = first
        at hStep hOut
      rcases first with ⟨code, s₁⟩
      rcases hStep with ⟨hOnline₁, hSame₁, hContent₁⟩
      simp only at hOnline₁ hSame₁ hContent₁ hOut
      by_cases hFailed : code ≠ 0
      · rw [if_pos hFailed] at hOut
        rw [hOut]
        refine ⟨hOnline₁, hSame₁, fun a hOutside => ?_⟩
        exact hContent₁ a (hOutside u List.mem_cons_self)
      · rw [if_neg hFailed] at hOut
        have hNames₁ :
            ∀ u' ∈ us,
              Names (·.Served behind p) s₁.part
                (u'.memory hasPdi) :=
          fun u' hMem =>
            hSame₁.names TaggedMem.SameShape.served
              (hNames.2 u' hMem)
        rcases ih hNames₁ hOnline₁ with
          ⟨hOnline₂, hSame₂, hContent₂⟩
        rw [hOut]
        refine ⟨hOnline₂, hSame₁.trans hSame₂, ?_⟩
        intro a hOutside
        rw [← hContent₁ a (hOutside u List.mem_cons_self)]
        apply hContent₂ a
        intro u' hMem hOp
        exact
          hSame₁.names TaggedMem.SameShape.covers
            (hOutside u' (List.mem_cons_of_mem u hMem) hOp)

/- The flash memory is programmed, the EEPROM left alone. -/
theorem runUpdates_frame_flash :
    let s : UpdateState (Device (Decoder Chip)) :=
      ⟨[blankFlash], fun _ => some [0xAA, 0xBB], smallSession⟩
    let u : Update := ⟨some flashDesc, .write, ['a'], .rbin⟩
    let out :=
      runUpdates (wirePgm (Decoder.line smallPart.bus) 0)
        ⟨blankRec, fun _ _ => ' '⟩ true ⟨false, false⟩
        ([u].flatMap (queued true)) s
    out.1 = 0 ∧ out.2.device.Online ∧
      out.2.device.content 0x00800000 = 0xAA ∧
      out.2.device.content 0x008C0000 =
        s.device.content 0x008C0000 := by
  have hOnline := smallSession_online
  generalize smallSession = d at hOnline ⊢
  intro s u
  have hRun :=
    @programRun ⟨blankRec, fun _ _ => ' '⟩ true smallPart 0 [u]
      (by simp [u]) s (fun _u _hMem => blankFlash_names _)
      hOnline
  have hFrame :=
    @runUpdates_frame smallPart 0 ⟨blankRec, fun _ _ => ' '⟩
      true ([u].flatMap (queued true)) s
      (fun _u _hMem m i hFound => by
        rcases blankFlash_names _ m i hFound with ⟨mem, hPart⟩
        exact ⟨mem, hPart.toPlaced, Or.inl hPart⟩)
      hOnline
  have hImage :
      u.image ⟨blankRec, fun _ _ => ' '⟩ true s.files s.part =
        some (2, blankFlash.cleared.fill 0 [0xAA, 0xBB]) :=
    blankFlash_pair (i := 0) rfl rfl rfl (by decide)
  have hApart
      (memtype : List Char) :
      Names (fun m => ¬ m.Covers 0x008C0000) s.part memtype := by
    intro m i hFound
    have hMem := List.mem_of_getElem? (avrLocateMem_at hFound)
    rw [List.mem_singleton.mp hMem]
    exact fun hCovers =>
      absurd hCovers.2 (show ¬ 0x008C0000 < 0x00801000 by decide)
  simp only [List.map_cons, List.map_nil, hImage] at hRun
  generalize runUpdates _ _ _ _ _ s = out at hRun hFrame ⊢
  have hZero := hRun.1.mpr (by simp)
  rcases hRun.2 hZero with ⟨_hOnline, hContent⟩
  rw [List.foldl_cons, List.foldl_nil] at hContent
  refine ⟨hZero, hFrame.1, ?_, ?_⟩
  · rw [hContent]
    exact (storedImage_pair _ _ _).1
  · exact
      hFrame.2.2 _ fun u' _hMem _hOp => hApart (u'.memory true)

end Frame

------------------------------------------------------------
-- Restoring
------------------------------------------------------------

section Restore

variable {p : Part} {mem : PagedMemory} {m : TaggedMem}
variable {buf : Nat → UInt8}

theorem TaggedMem.OnPart.flashLike
    (hPart : m.OnPart p mem) :
    m.flashLike = decide (mem = .flash) := by
  have hDesc : m.desc = mem.desc := hPart.describes.desc
  rw [TaggedMem.flashLike, hDesc]
  cases mem <;> decide

end Restore

end Lucax
