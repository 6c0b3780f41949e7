import Lucax.Host.Requests
import Lucax.Host.UpdateRuns

/-
  The erase and the updates of a run of avrdude (main.c), in
  an open session and not in terminal mode.

  Key definitions include:
    * `MainOptions`, `mainErases`, `mainRun`

  Main declarations:
    * `chipErase_onWire`
    * `mainRun_programs`
    * `mainRun_default`
-/

------------------------------------------------------------
-- Runs
------------------------------------------------------------

namespace Lucax

/- `-e`, no `-D`, and `-n` -/
structure MainOptions where
  erase : Bool
  autoErase : Bool
  noWrite : Bool

section Main

variable {σ : Type} (pgm : Programmer σ) (locals : FileLocals)

/- `pgm->page_erase != NULL` is `pageErase`. -/
def pageErases
    (pageErase hasPdi : Bool)
    (o : MainOptions)
    (updates : List Update) : Bool :=
  o.autoErase && hasPdi && pageErase && !updates.isEmpty

/-
  The chip is erased on demand, and before the memory for
  programs is written unless its pages are erased one by one.
-/
def mainErases
    (pageErase hasPdi : Bool)
    (o : MainOptions)
    (part : List TaggedMem)
    (updates : List Update) : Bool :=
  let memname :=
    if hasPdi then "application".toList else flashDesc
  let written (u : Update) : Bool :=
    match avrLocateMem part (u.memory hasPdi) with
    | none => false
    | some (m, _) =>
        strcasecmpEq m.desc memname && u.op = .write
  o.erase ||
    (o.autoErase && !pageErases pageErase hasPdi o updates &&
      updates.any written)

/- `chipErase` is `avr_chip_erase`. -/
def mainRun
    (chipErase : σ → Int × σ)
    (pageErase hasPdi : Bool)
    (o : MainOptions)
    (updates : List Update)
    (s : UpdateState σ) : Int × UpdateState σ :=
  let erased :=
    if mainErases pageErase hasPdi o s.part updates &&
        !o.noWrite then
      chipErase s.device
    else (0, s.device)
  let s := { s with device := erased.2 }
  if erased.1 ≠ 0 then (erased.1, s)
  else
    runUpdates pgm locals hasPdi
      ⟨o.noWrite, pageErases pageErase hasPdi o updates⟩ updates
      s

end Main

------------------------------------------------------------
-- Chip Erase
------------------------------------------------------------

/- The memories of the part after a chip erase. -/
def Part.erased
    (p : Part)
    (content : Nat → UInt8) : Nat → UInt8 :=
  fun j => if (p.memoryAt j).isSome then 0xFF else content j

theorem Part.erased_memory
    (p : Part)
    {mem : PagedMemory}
    {j : Nat}
    (hIn : (p.region mem).Contains j)
    (content : Nat → UInt8) :
    p.erased content j = 0xFF := by
  rw [Part.erased, p.memoryAt_of_contains hIn]
  rfl

theorem Direct.chipErase_chip
    (p : Part)
    {k : Direct Chip}
    (hReady : k.bus.Ready) :
    let out := Direct.call p.bus .nvmChipErase k
    out.1.1 = .noError ∧ out.2.bus.Ready ∧
      out.2.bus.content = p.erased k.bus.content := by
  have hSelected : (k.bus.select cmdChipErase).Ready :=
    ⟨hReady.enabled, hReady.busy⟩
  have hTriggered :
      (trigger p.bus (command p.bus cmdChipErase k)).bus =
        ((k.bus.select cmdChipErase).withContent
          (p.erased k.bus.content)).start p := by
    have hCommand := command_chip p k hReady cmdChipErase
    have hStore := hSelected.store_ctrla p
    rw [← hCommand] at hStore
    exact hStore.trans (by rw [hCommand]; rfl)
  have hWait :=
    wait_chip p (trigger p.bus (command p.bus cmdChipErase k))
      (by
        rw [hTriggered]
        exact p.settles _)
  rcases hWait with ⟨hResult, loads, hBus⟩
  simp only [Direct.call, hResult, hBus, hTriggered]
  exact ⟨trivial, ⟨hReady.enabled, rfl⟩, rfl⟩

/- `lucax_chip_erase`, and what the firmware still does. -/
def wireChipErase
    {τ : Type}
    (line : Line τ)
    (ret : UInt8)
    (d : Device τ) : Int × Device τ :=
  let out := lucaxChipErase (wireUsb line) ret d
  (out.1, settle line out.2)

/- A chip erase in a session. -/
theorem chipErase_onWire
    (p : Part)
    (ret : UInt8)
    {d : Device (Decoder Chip)}
    (hOnline : d.Online) :
    let out := wireChipErase (Decoder.line p.bus) ret d
    out.1 = 0 ∧ out.2.Online ∧
      out.2.content = p.erased d.content := by
  let line := Decoder.line p.bus
  let r := inRequest lucaxPdiChipEraseReq 0 0
  have hStarted : (started r [] d).Online :=
    ⟨started_idle hOnline.idle _ _, hOnline.quiet,
      hOnline.open_, hOnline.boundary, hOnline.ready⟩
  rcases hStarted.call p (c := .nvmChipErase) trivial with
    ⟨_hValue, hLastOp, _hRam, hBus, hAfter⟩
  rcases
      @Direct.chipErase_chip p (started r [] d).fw.direct
        hStarted.ready with
    ⟨hResult, hReady, hContent⟩
  let called := ((started r [] d).call line .nvmChipErase).2
  have hCalled : called.Online := hAfter hReady
  have hMade :
      settle line (submit r [] d) =
        lucaxReportError wireLink called := by
    have hKind :
        (started r [] d).request.kind =
          some .pdiChipErase := by
      have hSame : (started r [] d).request = r := rfl
      rw [hSame]
      decide
    rw [settle_submit, eventUsbDeviceControlRequest, hKind]
    rfl
  have hAnswer :
      (wireUsb line).controlIn d r =
        ((1, [called.lastOp.toByte]),
          lucaxReportError wireLink called) := by
    simp only [wireUsb, settle_idle line hOnline.idle.setup,
      hMade]
    rfl
  have hZero : called.lastOp.toByte = 0 := by
    rw [show called.lastOp = .noError from
      hLastOp.trans hResult]
    rfl
  have hIdle : (lucaxReportError wireLink called).Idle :=
    hCalled.idle.reportError
  have hOut :
      wireChipErase line ret d =
        (0, lucaxReportError wireLink called) := by
    rw [wireChipErase, lucaxChipErase]
    simp only [r] at hAnswer
    simp only [hAnswer, List.headD_cons, hZero, ne_eq,
      not_true_eq_false, if_false,
      settle_idle line hIdle.setup]
  simp only [line] at hOut
  simp only [hOut]
  refine ⟨trivial,
    ⟨hIdle, hCalled.quiet, hCalled.open_, hCalled.boundary,
      hCalled.ready⟩, ?_⟩
  exact (congrArg Chip.content hBus).trans hContent

------------------------------------------------------------
-- Whole Runs
------------------------------------------------------------

section Runs

variable {p : Part} (behind ret : UInt8) (locals : FileLocals)
variable {hasPdi : Bool} {o : MainOptions}
variable {s : UpdateState (Device (Decoder Chip))}

/- The driver has no `page_erase`. -/
@[simp] theorem pageErases_none
    (hasPdi : Bool)
    (o : MainOptions)
    (updates : List Update) :
    pageErases false hasPdi o updates = false := by
  simp [pageErases]

/- The updates are carried out on a part that may be erased. -/
theorem mainRun_onWire
    (hWrites : o.noWrite = false)
    (updates : List Update)
    (hOnline : s.device.Online) :
    ∃ d : Device (Decoder Chip),
      d.Online ∧
        (d.content =
          if mainErases false hasPdi o s.part updates =
              true then
            p.erased s.device.content
          else s.device.content) ∧
        mainRun (wirePgm (Decoder.line p.bus) behind) locals
            (wireChipErase (Decoder.line p.bus) ret) false
            hasPdi o updates s =
          runUpdates (wirePgm (Decoder.line p.bus) behind)
            locals hasPdi ⟨false, false⟩ updates
            { s with device := d } := by
  rcases chipErase_onWire p ret hOnline with
    ⟨hZero, hOnline', hContent⟩
  cases hErase : mainErases false hasPdi o s.part updates with
  | true =>
      refine
        ⟨(wireChipErase (Decoder.line p.bus) ret s.device).2,
          hOnline', ?_, ?_⟩
      · rw [if_pos rfl]
        exact hContent
      · rw [mainRun, pageErases_none, hErase, hWrites]
        simp only [Bool.not_false, Bool.and_self, if_true,
          hZero, ne_eq, not_true_eq_false, if_false]
  | false =>
      refine ⟨s.device, hOnline, ?_, ?_⟩
      · rw [if_neg (by decide)]
      · rw [mainRun, pageErases_none, hErase, hWrites]
        rfl

/- A write to a memory that the driver does not know. -/
theorem doWrite_unnamed
    {m : TaggedMem}
    {u : Update}
    (hNoPages : m.pagedType = none)
    (hNoBytes : m.byteType behind = none)
    (i : Nat)
    (hOnline : s.device.Online) :
    let loaded :=
      fileioRead locals u.format u.filename (s.files u.filename)
        m
    doWrite (wirePgm (Decoder.line p.bus) behind) locals u
        ⟨false, false⟩ m i s =
      (if loaded.1 < 0 then -1 else 0,
        s.setMem i loaded.2) := by
  intro loaded
  have hShape : m.SameShape loaded.2 :=
    fileioRead_shape locals u.format u.filename
      (s.files u.filename) m
  by_cases hUnread : loaded.1 < 0
  · rw [doWrite_unread locals u i _ _ s hUnread, if_pos hUnread]
  · have hNoPages' : loaded.2.pagedType = none := by
      rw [AvrMem.pagedType, hShape.desc]
      exact hNoPages
    have hNoBytes' : loaded.2.byteType behind = none := by
      rw [AvrMem.byteType, hShape.desc]
      exact hNoBytes
    have hWritten :=
      wireWrite_unnamed (Decoder.line p.bus) hNoPages'
        hNoBytes' loaded.1.toNat hOnline.idle
    have hCount :
        ¬ ((min loaded.1.toNat loaded.2.size : Nat) : Int) <
            0 :=
      Int.not_lt.mpr (Int.natCast_nonneg _)
    rw [doWrite, if_neg hUnread]
    simp only [loaded, UpdateState.setMem]
      at hWritten hCount hUnread ⊢
    simp only [if_neg hUnread, Bool.false_eq_true, if_false,
      hWritten, if_neg hCount]

/-
  A memory that the driver can read and does not write: the
  write is given up without a code, and the verification
  looks at what the part holds.
-/
theorem runUpdates_unnamed
    {mem : PagedMemory}
    {u : Update}
    (hOp : u.op = .write)
    {m : TaggedMem}
    {i : Nat}
    (hFound :
      avrLocateMem s.part (u.memory hasPdi) = some (m, i))
    (hNoPages : m.pagedType = none)
    (hNoBytes : m.byteType behind = none)
    (hPlaced : m.Placed p mem)
    (hOnline : s.device.Online)
    (verify : Bool) :
    let loaded :=
      fileioRead locals u.format u.filename (s.files u.filename)
        m
    let out :=
      runUpdates (wirePgm (Decoder.line p.bus) behind) locals
        hasPdi ⟨false, false⟩ (queued verify u) s
    out.2.device.Online ∧
      out.2.device.content = s.device.content ∧
      (out.1 = 0 ↔
        0 ≤ loaded.1 ∧
          (verify = true →
            ∀ j < min loaded.1.toNat m.size,
              loaded.2.tags j = true →
                s.device.content (m.offset.toNat + j) =
                  loaded.2.buf j)) := by
  intro loaded
  have hFirst :
      doOp (wirePgm (Decoder.line p.bus) behind) locals
          ⟨false, false⟩ (u.memory hasPdi) u s =
        (if loaded.1 < 0 then -1 else 0,
          s.setMem i loaded.2) := by
    rw [doOp, hFound]
    simp only [hOp]
    exact
      doWrite_unnamed behind locals hNoPages hNoBytes i hOnline
  by_cases hUnread : loaded.1 < 0
  · obtain ⟨us, hQueued⟩ :
        ∃ us, queued verify u = u :: us := by
      cases verify <;> simp [queued, hOp]
    rw [hQueued, runUpdates, hFirst, if_pos hUnread]
    refine ⟨hOnline, rfl, iff_of_false (by simp) ?_⟩
    exact fun hBoth => absurd hUnread (Int.not_lt.mpr hBoth.1)
  · have hLoads := Int.not_lt.mp hUnread
    rw [if_neg hUnread] at hFirst
    cases verify with
    | false =>
        have hQueued : queued false u = [u] := rfl
        rw [hQueued, runUpdates, hFirst]
        exact
          ⟨hOnline, rfl,
            iff_of_true rfl
              ⟨hLoads, fun hNever => by cases hNever⟩⟩
    | true =>
        let again : Update := { u with op := .verify }
        have hQueued : queued true u = [u, again] := by
          simp [queued, hOp, again]
        have hShape : m.SameShape loaded.2 :=
          fileioRead_shape locals u.format u.filename
            (s.files u.filename) m
        have hFound' := (avrLocateMem_set hFound hShape).2
        have hVerified :=
          doVerify_again behind locals again i hPlaced
            (s := s.setMem i loaded.2) hOnline
        have hSecond :
            doOp (wirePgm (Decoder.line p.bus) behind) locals
                ⟨false, false⟩ (again.memory hasPdi) again
                (s.setMem i loaded.2) =
              doVerify (wirePgm (Decoder.line p.bus) behind)
                locals again loaded.2 i
                (s.setMem i loaded.2) := by
          rw [doOp,
            show again.memory hasPdi = u.memory hasPdi from rfl]
          simp only [UpdateState.setMem, hFound', again]
        rw [hQueued, runUpdates, hFirst]
        simp only [ne_eq, not_true_eq_false, if_false]
        rw [runUpdates, hSecond]
        have hSame :
            fileioRead locals again.format again.filename
                ((s.setMem i loaded.2).files again.filename)
                m =
              loaded := rfl
        simp only [hSame] at hVerified
        generalize
          doVerify (wirePgm (Decoder.line p.bus) behind) locals
            again loaded.2 i (s.setMem i loaded.2) = out
          at hVerified
        rcases out with ⟨code, s'⟩
        rcases hVerified with
          ⟨hOut, _hPart, _hFiles, hOnline', hContent⟩
        by_cases hZero : code = 0
        · simp only [hZero, ne_eq, not_true_eq_false, if_false,
            runUpdates]
          refine ⟨hOnline', hContent, iff_of_true trivial ?_⟩
          exact (hOut.mp hZero).imp_right fun hAll _hAsked =>
            hAll
        · simp only [ne_eq, hZero, not_false_eq_true, if_true]
          refine ⟨hOnline', hContent, iff_of_false (by simp) ?_⟩
          exact fun hBoth =>
            hZero (hOut.mpr ⟨hBoth.1, hBoth.2 trivial⟩)

/- The chip is erased before "application" is written. -/
theorem mainErases_application
    (hErases : o.autoErase = true)
    {part : List TaggedMem}
    {u : Update}
    (hOp : u.op = .write)
    {m : TaggedMem}
    {i : Nat}
    (hFound :
      avrLocateMem part (u.memory true) = some (m, i))
    (hDesc : m.desc = "application".toList)
    (verify : Bool) :
    mainErases false true o part (queued verify u) = true := by
  have hMember : u ∈ queued verify u := by
    cases verify <;> simp [queued, hOp]
  rw [mainErases]
  simp only [hErases, pageErases_none, Bool.not_false,
    Bool.and_self, Bool.true_and, Bool.or_eq_true,
    List.any_eq_true]
  refine Or.inr ⟨u, hMember, ?_⟩
  rw [hFound]
  simp only [hDesc, hOp]
  decide

/-
  `-U file` without a memory means "application" for a part
  with PDI.  The chip is erased for it, nothing is written,
  and without a verification the run succeeds; with one it
  does only if the file holds nothing but 0xFF.
-/
theorem mainRun_default
    (hWrites : o.noWrite = false)
    (hErases : o.autoErase = true)
    {u : Update}
    (hOp : u.op = .write)
    (hNone : u.memtype = none)
    {m : TaggedMem}
    {i : Nat}
    (hFound :
      avrLocateMem s.part "application".toList = some (m, i))
    (hDesc : m.desc = "application".toList)
    (hPlaced : m.Placed p .flash)
    (hOnline : s.device.Online)
    (verify : Bool) :
    let loaded :=
      fileioRead locals u.format u.filename (s.files u.filename)
        m
    let out :=
      mainRun (wirePgm (Decoder.line p.bus) behind) locals
        (wireChipErase (Decoder.line p.bus) ret) false true o
        (queued verify u) s
    out.2.device.Online ∧
      out.2.device.content = p.erased s.device.content ∧
      (out.1 = 0 ↔
        0 ≤ loaded.1 ∧
          (verify = true →
            ∀ j < min loaded.1.toNat m.size,
              loaded.2.tags j = true →
                loaded.2.buf j = 0xFF)) := by
  intro loaded
  have hMemory : u.memory true = "application".toList := by
    rw [Update.memory, hNone]
    rfl
  rw [← hMemory] at hFound
  have hNoPages : m.pagedType = none := by
    rw [AvrMem.pagedType, hDesc]
    decide
  have hNoBytes : m.byteType behind = none := by
    rw [AvrMem.byteType, hDesc, if_neg (by decide),
      if_neg fun hBoth => absurd hBoth.1 (by decide)]
  rcases
      @mainRun_onWire p behind ret locals true o s hWrites
        (queued verify u) hOnline with
    ⟨d, hOnline', hContent, hRun⟩
  rw [mainErases_application hErases hOp hFound hDesc verify,
    if_pos rfl] at hContent
  have hUpdates :=
    @runUpdates_unnamed p behind locals true
      { s with device := d } .flash u hOp m i hFound hNoPages
      hNoBytes hPlaced hOnline' verify
  have hErased
      {j : Nat}
      (hIn : j < m.size) :
      d.content (m.offset.toNat + j) = 0xFF := by
    rw [hContent]
    exact p.erased_memory (hPlaced.contains hIn) _
  simp only [hRun, ← hContent]
  refine ⟨hUpdates.1, hUpdates.2.1, hUpdates.2.2.trans ?_⟩
  apply and_congr_right
  intro _hLoads
  apply forall_congr'
  intro _hVerify
  apply forall_congr'
  intro j
  apply forall_congr'
  intro hBelow
  apply forall_congr'
  intro _hTag
  rw [hErased (Nat.lt_of_lt_of_le hBelow (Nat.min_le_right _ _))]
  exact eq_comm

/- Two bytes: accepted unless they are to be verified. -/
theorem mainRun_default_twoBytes :
    let application : TaggedMem :=
      { blankFlash with desc := "application".toList }
    let s : UpdateState (Device (Decoder Chip)) :=
      ⟨[application], fun _ => some [0xAA, 0xBB], smallSession⟩
    let u : Update := ⟨none, .write, ['a'], .rbin⟩
    let pgm := wirePgm (Decoder.line smallPart.bus) 0
    let erase := wireChipErase (Decoder.line smallPart.bus) 0
    let locals : FileLocals := ⟨blankRec, fun _ _ => ' '⟩
    let plain :=
      mainRun pgm locals erase false true ⟨false, true, false⟩
        (queued false u) s
    let verified :=
      mainRun pgm locals erase false true ⟨false, true, false⟩
        (queued true u) s
    plain.1 = 0 ∧ verified.1 ≠ 0 ∧
      verified.2.device.content =
        smallPart.erased s.device.content := by
  have hOnline := smallSession_online
  generalize smallSession = d at hOnline ⊢
  intro application s u pgm erase locals
  have hPlaced := blankFlash_onPart.toPlaced
  have hRun (verify : Bool) :=
    @mainRun_default smallPart 0 0 locals ⟨false, true, false⟩ s
      rfl rfl u rfl rfl application 0 rfl rfl
      ⟨hPlaced.offset, hPlaced.inside, hPlaced.pageSize,
        hPlaced.pages, hPlaced.buffer, hPlaced.nvm⟩
      hOnline verify
  have hLoaded :
      fileioRead locals u.format u.filename
          (s.files u.filename) application =
        (2, application.cleared.fill 0 [0xAA, 0xBB]) :=
    fileioRead_pair _ rfl (by decide) (by decide) ['a']
  simp only [hLoaded] at hRun ⊢
  refine
    ⟨(hRun false).2.2.mpr ⟨by decide, by simp⟩, fun hZero => ?_,
      (hRun true).2.1⟩
  have hBlank :=
    ((hRun true).2.2.mp hZero).2 rfl 0
      (show 0 < min 2 4096 by decide) rfl
  exact absurd hBlank (show (0xAA : UInt8) ≠ 0xFF by decide)

end Runs

end Lucax
