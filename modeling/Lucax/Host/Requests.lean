import Lucax.Driver.Session
import Lucax.Host.Exchange

/-
  The requests the driver makes and what the firmware makes
  of them.

  Key definitions include:
    * `HostCall.kinds`, `HostCall.operations`
    * `HostCall.Accepted`
    * `HostCall.Decoded`

  Main declarations:
    * `init_wire`
    * `decoded_of_quiet`
    * `requests_decoded`
-/

------------------------------------------------------------
-- Opening the Session
------------------------------------------------------------

namespace Lucax

open Simulation

section Init

variable {τ : Type} (line : Line τ)

theorem settle_descriptor
    (d : Device τ) :
    settle line
        (submit (inRequest lucaxGetDescriptorReq 0 0) [] d) =
      clearControlIn wireLink [0x01]
        (started (inRequest lucaxGetDescriptorReq 0 0) []
          d) := by
  have hKind :
      (started (inRequest lucaxGetDescriptorReq 0 0) []
        d).request.kind = some .getDescriptor :=
    (show _ = (inRequest lucaxGetDescriptorReq 0 0).kind
      from rfl).trans (by decide)
  rw [settle_submit, eventUsbDeviceControlRequest, hKind]
  rfl

theorem settle_pdiInit
    (d : Device τ)
    (wValue : UInt16) :
    settle line
        (submit (inRequest lucaxPdiInitReq wValue 0) [] d) =
      lucaxPdiInit line wireLink
        (started (inRequest lucaxPdiInitReq wValue 0) []
          d) := by
  have hKind :
      (started (inRequest lucaxPdiInitReq wValue 0) []
        d).request.kind = some .pdiInit :=
    (show _ = (inRequest lucaxPdiInitReq 0 0).kind
      from rfl).trans (by decide)
  rw [settle_submit, eventUsbDeviceControlRequest, hKind]

theorem controlIn_descriptor
    {d : Device τ}
    (hIdle : d.Idle) :
    (wireUsb line).controlIn d
        (inRequest lucaxGetDescriptorReq 0 0) =
      ((1, [0x01]),
        settle line
          (submit (inRequest lucaxGetDescriptorReq 0 0) []
            d)) := by
  simp only [wireUsb, settle_idle line hIdle.setup,
    settle_descriptor]
  rfl

/- The `wValue` of the request that opens a session. -/
def initFrequency (ioFrequency : Int) : UInt16 :=
  UInt16.ofNat (usedFrequency ioFrequency).toNat

/- The device after the descriptor has been read. -/
def described (d : Device τ) : Device τ :=
  settle line
    (submit (inRequest lucaxGetDescriptorReq 0 0) [] d)

theorem described_idle
    {d : Device τ}
    (hIdle : d.Idle) :
    (described line d).Idle := by
  rw [described, settle_descriptor]
  exact (started_idle hIdle _ _).clearControlIn _

/- `lucax_init` asks for a session when the part has PDI. -/
theorem init_device
    {d : Device τ}
    (hIdle : d.Idle)
    (hasPdi : Bool)
    (ioFrequency : Int)
    (info status : UInt8) :
    (lucaxInit (wireUsb line) hasPdi ioFrequency info status
        d).2 =
      if hasPdi = true then
        settle line
          (submit
            (inRequest lucaxPdiInitReq
              (initFrequency ioFrequency) 0)
            [] (described line d))
      else described line d := by
  have hInit :=
    wireUsb_controlIn_device line (described_idle line hIdle)
      (inRequest lucaxPdiInitReq (initFrequency ioFrequency) 0)
  simp only [lucaxInit, controlIn_descriptor line hIdle]
  cases hasPdi with
  | false => rfl
  | true =>
      simp only [← hInit]
      split
      · rename_i hFailed
        exact absurd hFailed (by decide)
      · split
        · rename_i hNone
          rw [List.headD_cons] at hNone
          exact absurd hNone (by decide)
        · split
          · rfl
          · split
            · rfl
            · rfl

/- What a successful `lucax_init` leaves behind. -/
theorem init_wire
    {d : Device τ}
    (hIdle : d.Idle)
    (hasPdi : Bool)
    (ioFrequency : Int)
    (info status : UInt8)
    (hZero :
      (lucaxInit (wireUsb line) hasPdi ioFrequency info status
        d).1 = 0) :
    let out :=
      (lucaxInit (wireUsb line) hasPdi ioFrequency info status
        d).2
    ∃ freqKhz,
      out.fw = (pdiInit line freqKhz d.fw).2 ∧
        out.link.bulkOut = d.link.bulkOut := by
  have hDevice :=
    init_device line hIdle hasPdi ioFrequency info status
  have hDescribed :
      (described line d).fw = d.fw ∧
        (described line d).link.bulkOut = d.link.bulkOut := by
    rw [described, settle_descriptor]
    exact ⟨rfl, rfl⟩
  cases hasPdi with
  | false =>
      have hRefused :
          (lucaxInit (wireUsb line) false ioFrequency info
            status d).1 = -1 := by
        simp only [lucaxInit, controlIn_descriptor line hIdle]
        rfl
      rw [hRefused] at hZero
      exact absurd hZero (by decide)
  | true =>
      rw [if_pos rfl, settle_pdiInit] at hDevice
      rw [hDevice]
      refine ⟨initFrequency ioFrequency, ?_, ?_⟩
      · rw [← hDescribed.1]
        rfl
      · rw [← hDescribed.2]
        rfl

end Init

------------------------------------------------------------
-- What the Driver Asks For
------------------------------------------------------------

/- The memory a page goes to, by the name in its description. -/
def AvrMem.pagedMemory (m : AvrMem) : PagedMemory :=
  if m.desc = flashDesc then .flash else .eeprom

/- The memory a byte goes to. -/
def AvrMem.byteMemory (m : AvrMem) : ByteMemory :=
  if m.desc = lockDesc then .lock else .fuse

namespace HostCall

/- The handlers a call is meant for. -/
def kinds : HostCall → List RequestKind
| .init hasPdi _ _ _ =>
    if hasPdi = true then [.getDescriptor, .pdiInit]
    else [.getDescriptor]
| .close => [.releaseInterface]
| .chipErase _ => [.pdiChipErase]
| .readByte m addr _ =>
    if isRawAddress (m.address addr) then [.pdiRawRead]
    else [.pdiNvmRead]
| .pagedLoad _ _ _ => [.pdiNvmRead]
| .pagedWrite _ _ _ => [.pdiNvmWritePage]
| .writeByte _ _ _ _ => [.pdiNvmWriteByte]

/- The operations it stands for; a session has none. -/
def operations : HostCall → List Call
| .init _ _ _ _ => []
| .close => []
| .chipErase _ => [.nvmChipErase]
| .readByte m addr _ =>
    if isRawAddress (m.address addr) then
      [.pdiReadBytes (m.address addr) 0 1]
    else [.nvmReadByte (m.address addr)]
| .pagedLoad m baseaddr nBytes =>
    if nBytes.toNat = 1 then [.nvmReadByte (m.address baseaddr)]
    else
      [.nvmReadBytes (m.address baseaddr) 0
        (UInt16.ofNat nBytes.toNat)]
| .pagedWrite m addr nBytes =>
    [.nvmPagedWrite (m.address addr) (.buffer 0)
      (UInt16.ofNat nBytes.toNat) m.pagedMemory]
| .writeByte m _ addr value =>
    [.nvmWriteByte (m.address addr) value m.byteMemory]

/- The driver takes the memory and the buffer the length. -/
def Accepted : HostCall → Prop
| .pagedLoad _ _ nBytes => 1 ≤ nBytes.toNat ∧ nBytes.toNat ≤ 1024
| .pagedWrite m _ nBytes =>
    m.pagedType ≠ none ∧ 1 ≤ nBytes.toNat ∧ nBytes.toNat ≤ 1024
| .writeByte m behind _ _ => m.byteType behind ≠ none
| _ => True

end HostCall

section Decoding

variable {τ : Type} (line : Line τ)

/-
  The requests of a call reach the handlers they are meant
  for, and these carry out the operations it stands for; the
  calls of a session open and close it.
-/
structure HostCall.Decoded
    (c : HostCall)
    (d : Device τ) : Prop where
  handled :
    ∃ requests,
      (c.onWire line d).2.handled = d.handled ++ requests ∧
        requests.map Request.kind = c.kinds.map some
  calls :
    (c.onWire line d).2.calls.map Prod.fst =
      d.calls.map Prod.fst ++ c.operations
  opened :
    ∀ ioFrequency info status,
      c = .init true ioFrequency info status →
        (c.onWire line d).2.fw =
          (pdiInit line (initFrequency ioFrequency) d.fw).2
  closed :
    c = .close → (c.onWire line d).2.fw = pdiExit line d.fw

/- Nothing is under way and no packet is left over. -/
structure World.Quiet (d : Device τ) : Prop where
  idle : d.Idle
  bulkOut : d.link.bulkOut = []

section Call

variable {η : Type} (w : World τ η) (operation : Call)

theorem World.call_calls :
    (w.call line operation).2.calls =
      w.calls ++
        [(operation, (operation.exec line w.fw).1.1)] := rfl

theorem World.call_handled :
    (w.call line operation).2.handled = w.handled := rfl

theorem World.call_link :
    (w.call line operation).2.link = w.link := rfl

end Call

/- A call of one request and one operation. -/
theorem HostCall.Decoded.of_one
    {c : HostCall}
    {d after : Device τ}
    {r : Request}
    {kind : RequestKind}
    {operation : Call}
    {result : PdiResult}
    (hAfter : (c.onWire line d).2 = after)
    (hKinds : c.kinds = [kind])
    (hOperations : c.operations = [operation])
    (hHandled : after.handled = d.handled ++ [r])
    (hKind : r.kind = some kind)
    (hCalls : after.calls = d.calls ++ [(operation, result)]) :
    c.Decoded line d := by
  constructor
  · refine ⟨[r], ?_, ?_⟩
    · rw [hAfter, hHandled]
    · rw [hKinds, List.map_singleton, hKind,
        List.map_singleton]
  · rw [hAfter, hCalls, hOperations, List.map_append,
      List.map_singleton]
  · rintro ioFrequency info status rfl
    cases hOperations
  · rintro rfl
    cases hOperations

variable {d : Device τ}

theorem chipErase_decoded
    (hIdle : d.Idle)
    (ret : UInt8) :
    (HostCall.chipErase ret).Decoded line d ∧
      ((HostCall.chipErase ret).onWire line d).2.link.bulkOut =
        d.link.bulkOut := by
  have hMade :
      settle line
          (submit (inRequest lucaxPdiChipEraseReq 0 0) [] d) =
        lucaxPdiChipErase line wireLink
          (started (inRequest lucaxPdiChipEraseReq 0 0) []
            d) := by
    have hKind :
        (started (inRequest lucaxPdiChipEraseReq 0 0) []
          d).request.kind = some .pdiChipErase := by
      have hSame :
          (started (inRequest lucaxPdiChipEraseReq 0 0) []
            d).request = inRequest lucaxPdiChipEraseReq 0 0 :=
        rfl
      rw [hSame]
      decide
    rw [settle_submit, eventUsbDeviceControlRequest, hKind]
  have hIdleAfter :
      (lucaxPdiChipErase line wireLink
        (started (inRequest lucaxPdiChipEraseReq 0 0) []
          d)).Idle :=
    ((started_idle hIdle _ _).call line _).reportError
  have hDevice :=
    wireUsb_controlIn_device line hIdle
      (inRequest lucaxPdiChipEraseReq 0 0)
  rw [hMade] at hDevice
  have hAfter :
      ((HostCall.chipErase ret).onWire line d).2 =
        lucaxPdiChipErase line wireLink
          (started (inRequest lucaxPdiChipEraseReq 0 0) []
            d) := by
    simp only [HostCall.onWire, HostCall.exec, lucaxChipErase]
    rw [← hDevice] at hIdleAfter ⊢
    split
    · exact settle_idle line hIdleAfter.setup
    · exact settle_idle line hIdleAfter.setup
  constructor
  · apply HostCall.Decoded.of_one line hAfter rfl rfl
    · rfl
    · decide
    · rfl
  · rw [hAfter]
    rfl

theorem close_decoded
    (hIdle : d.Idle) :
    HostCall.close.Decoded line d ∧
      (HostCall.close.onWire line d).2.link.bulkOut =
        d.link.bulkOut := by
  have hAfter :
      (HostCall.close.onWire line d).2 =
        lucaxReleaseInterface line wireLink
          (started (outRequest lucaxReleaseInterfaceReq 0 0 0)
            [] d) := by
    have hKind :
        (started (outRequest lucaxReleaseInterfaceReq 0 0 0) []
          d).request.kind = some .releaseInterface := by
      have hSame :
          (started (outRequest lucaxReleaseInterfaceReq 0 0 0)
            [] d).request =
            outRequest lucaxReleaseInterfaceReq 0 0 0 := rfl
      rw [hSame]
      decide
    simp only [HostCall.onWire, HostCall.exec, lucaxClose,
      wireUsb, settle_idle line hIdle.setup]
    rw [settle_submit, eventUsbDeviceControlRequest, hKind]
  refine ⟨⟨?_, ?_, ?_, ?_⟩, ?_⟩
  · refine ⟨[outRequest lucaxReleaseInterfaceReq 0 0 0], ?_,
      by decide⟩
    rw [hAfter]
    rfl
  · rw [hAfter, HostCall.operations, List.append_nil]
    rfl
  · intro ioFrequency info status hSame
    cases hSame
  · intro _hSame
    rw [hAfter]
    rfl
  · rw [hAfter]
    rfl

theorem init_decoded
    (hIdle : d.Idle)
    (hasPdi : Bool)
    (ioFrequency : Int)
    (info status : UInt8) :
    (HostCall.init hasPdi ioFrequency info status).Decoded line
        d ∧
      ((HostCall.init hasPdi ioFrequency info status).onWire
        line d).2.link.bulkOut = d.link.bulkOut := by
  have hIdleAfter :=
    HostCall.init_idle line hIdle hasPdi ioFrequency info
      status
  have hAfter :
      ((HostCall.init hasPdi ioFrequency info status).onWire
          line d).2 =
        (lucaxInit (wireUsb line) hasPdi ioFrequency info
          status d).2 :=
    settle_idle line hIdleAfter.setup
  rw [init_device line hIdle, settle_pdiInit, described,
    settle_descriptor] at hAfter
  have hDescriptor :
      (inRequest lucaxGetDescriptorReq 0 0).kind =
        some .getDescriptor := by
    decide
  have hInit :
      (inRequest lucaxPdiInitReq (initFrequency ioFrequency)
        0).kind = some .pdiInit :=
    (show _ = (inRequest lucaxPdiInitReq 0 0).kind
      from rfl).trans (by decide)
  cases hasPdi with
  | false =>
      simp only [Bool.false_eq_true, if_false] at hAfter
      refine ⟨⟨?_, ?_, ?_, ?_⟩, ?_⟩
      · refine ⟨[inRequest lucaxGetDescriptorReq 0 0], ?_, ?_⟩
        · rw [hAfter]
          rfl
        · rw [List.map_singleton, hDescriptor]
          rfl
      · rw [hAfter]
        exact (List.append_nil _).symm
      · intro otherFrequency otherInfo otherStatus hSame
        cases hSame
      · intro hSame
        cases hSame
      · rw [hAfter]
        rfl
  | true =>
      simp only [if_true] at hAfter
      refine ⟨⟨?_, ?_, ?_, ?_⟩, ?_⟩
      · refine
          ⟨[inRequest lucaxGetDescriptorReq 0 0,
            inRequest lucaxPdiInitReq
              (initFrequency ioFrequency) 0], ?_, ?_⟩
        · rw [hAfter]
          exact List.append_assoc _ _ _
        · rw [List.map_cons, List.map_singleton, hDescriptor,
            hInit]
          rfl
      · rw [hAfter]
        exact (List.append_nil _).symm
      · intro otherFrequency otherInfo otherStatus hSame
        cases hSame
        rw [hAfter]
        rfl
      · intro hSame
        cases hSame
      · rw [hAfter]
        rfl

theorem readByte_decoded
    (hIdle : d.Idle)
    (m : AvrMem)
    (addr : UInt32)
    (value : UInt8) :
    (HostCall.readByte m addr value).Decoded line d ∧
      ((HostCall.readByte m addr value).onWire
        line d).2.link.bulkOut = d.link.bulkOut := by
  cases hRaw : isRawAddress (m.address addr) with
  | true =>
      have hAfter :
          ((HostCall.readByte m addr value).onWire line d).2 =
            _ :=
        (readByte_wire_raw line hIdle m addr value hRaw).2
      constructor
      · apply HostCall.Decoded.of_one line hAfter
        · simp only [HostCall.kinds, hRaw]
          rfl
        · simp only [HostCall.operations, hRaw]
          rfl
        · rfl
        · exact (show _ = (inRequest lucaxPdiRawReadReq 0 0).kind
            from rfl).trans (by decide)
        · rfl
      · exact congrArg (fun e => e.link.bulkOut) hAfter
  | false =>
      have hAfter :
          ((HostCall.readByte m addr value).onWire line d).2 =
            _ :=
        (readByte_wire line hIdle m addr value hRaw).2
      constructor
      · apply HostCall.Decoded.of_one line hAfter
        · simp only [HostCall.kinds, hRaw]
          rfl
        · simp only [HostCall.operations, hRaw]
          rfl
        · rfl
        · decide
        · rfl
      · exact congrArg (fun e => e.link.bulkOut) hAfter

/- The count of a page arrives as it was sent. -/
theorem clamp_ofNat
    {nBytes : UInt32}
    (hFits : nBytes.toNat ≤ 1024) :
    clamp nBytes.toUInt16 = UInt16.ofNat nBytes.toNat := by
  rcases clamp_of_le hFits with ⟨hClamp, hCount⟩
  rw [hClamp, ← hCount, UInt16.ofNat_toNat]

theorem pagedLoad_decoded
    (hIdle : d.Idle)
    (m : AvrMem)
    (baseaddr nBytes : UInt32)
    (hFits : nBytes.toNat ≤ 1024) :
    (HostCall.pagedLoad m baseaddr nBytes).Decoded line d ∧
      ((HostCall.pagedLoad m baseaddr nBytes).onWire
        line d).2.link.bulkOut = d.link.bulkOut := by
  have hAfter :
      ((HostCall.pagedLoad m baseaddr nBytes).onWire
        line d).2 = _ :=
    (pagedLoad_wire line hIdle m baseaddr nBytes).2
  have hKind :
      (loadRequest nBytes).kind = some .pdiNvmRead :=
    (outRequest_kind _ _ _ _).trans (by decide)
  have hCount := (clamp_of_le hFits).2
  by_cases hOne : nBytes.toUInt16 = 1
  · have hSingle : nBytes.toNat = 1 := by
      rw [← hCount, hOne]
      rfl
    simp only [readAnswer, hOne, if_true] at hAfter
    constructor
    · apply HostCall.Decoded.of_one line hAfter rfl
      · exact if_pos hSingle
      · rfl
      · exact hKind
      · rfl
    · exact congrArg (fun e => e.link.bulkOut) hAfter
  · have hSeveral : ¬ nBytes.toNat = 1 := by
      intro hSingle
      apply hOne
      apply UInt16.toNat_inj.mp
      rw [hCount, hSingle]
      rfl
    simp only [readAnswer, hOne, if_false, clamp_ofNat hFits]
      at hAfter
    constructor
    · apply HostCall.Decoded.of_one line hAfter rfl
      · exact if_neg hSeveral
      · rfl
      · exact hKind
      · rfl
    · exact congrArg (fun e => e.link.bulkOut) hAfter

/- The number sent for a memory is the one it is named by. -/
theorem pagedMemory_of_pagedType
    {m : AvrMem}
    {mem : UInt16}
    (hMem : m.pagedType = some mem) :
    pagedMemory mem.toUInt8 = m.pagedMemory := by
  unfold AvrMem.pagedType at hMem
  unfold AvrMem.pagedMemory
  split at hMem
  · rename_i hFlash
    cases hMem
    rw [if_pos hFlash]
    rfl
  · rename_i hNotFlash
    rw [if_neg hNotFlash]
    split at hMem
    · cases hMem
      rfl
    · cases hMem

theorem byteMemory_of_byteType
    {m : AvrMem}
    {behind : UInt8}
    {memType : UInt16}
    (hMem : m.byteType behind = some memType) :
    byteMemory memType.toUInt8 = m.byteMemory := by
  unfold AvrMem.byteType at hMem
  unfold AvrMem.byteMemory
  split at hMem
  · rename_i hLock
    cases hMem
    rw [if_pos hLock]
    rfl
  · rename_i hNotLock
    rw [if_neg hNotLock]
    split at hMem
    · cases hMem
      rfl
    · cases hMem

theorem writeByte_decoded
    (hIdle : d.Idle)
    (m : AvrMem)
    (behind : UInt8)
    (addr : UInt32)
    (value : UInt8)
    (hAccepted : m.byteType behind ≠ none) :
    (HostCall.writeByte m behind addr value).Decoded line d ∧
      ((HostCall.writeByte m behind addr value).onWire
        line d).2.link.bulkOut = d.link.bulkOut := by
  cases hMem : m.byteType behind with
  | none => exact absurd hMem hAccepted
  | some memType =>
      have hKind :
          (writeByteRequest memType value).kind =
            some .pdiNvmWriteByte :=
        (outRequest_kind _ _ _ _).trans (by decide)
      have hData :
          (writeByteRequest memType value).wIndex.toUInt8 =
            value := by
        simp [writeByteRequest, outRequest]
      have hMemory :
          byteMemory
              (writeByteRequest memType value).wValue.toUInt8 =
            m.byteMemory := byteMemory_of_byteType hMem
      have hSettled :=
        settle_writeByte line hIdle hKind
          (addressBytes (m.address addr))
      rw [endpointRead32LE_addressBytes, hData, hMemory]
        at hSettled
      have hAfter :
          ((HostCall.writeByte m behind addr value).onWire
            line d).2 =
            settle line
              (submit (writeByteRequest memType value)
                (addressBytes (m.address addr)) d) := by
        simp only [HostCall.onWire, HostCall.exec]
        rw [writeByte_wire line hIdle m behind addr value hMem]
      rw [hSettled] at hAfter
      constructor
      · apply HostCall.Decoded.of_one line hAfter rfl rfl
        · rfl
        · exact hKind
        · rfl
      · exact congrArg (fun e => e.link.bulkOut) hAfter

/- A page queued on a device with nothing left over. -/
theorem World.Quiet.queued
    (hQuiet : d.Quiet)
    (bytes : List UInt8) :
    (d.withLink
      { d.link with
        bulkOut :=
          d.link.bulkOut ++
            Packets.split vendorIoEpsize bytes }).Idle := by
  constructor
  · exact hQuiet.idle.setup
  · intro packet hPacket
    rw [World.withLink, hQuiet.bulkOut, List.nil_append]
      at hPacket
    exact Packets.ne_nil_of_mem_split hPacket
  · exact hQuiet.idle.bulkIn
  · exact hQuiet.idle.outBank
  · exact hQuiet.idle.inBank
  · exact hQuiet.idle.hung

/-
  A page write on the wire: the page is in the buffer when
  `nvm_paged_write` is called.
-/
theorem pagedWrite_settled
    (hQuiet : d.Quiet)
    (m : AvrMem)
    (addr nBytes : UInt32)
    (hAccepted : m.pagedType ≠ none)
    (hFits : nBytes.toNat ≤ 1024) :
    ∃ r loaded,
      (HostCall.pagedWrite m addr nBytes).onWire line d =
          (0,
            (World.call line
              (.nvmPagedWrite (m.address addr) (.buffer 0)
                (UInt16.ofNat nBytes.toNat) m.pagedMemory)
              loaded).2) ∧
        r.kind = some .pdiNvmWritePage ∧
        loaded.handled = d.handled ++ [r] ∧
        loaded.calls = d.calls ∧
        loaded.fw =
          d.fw.storeBytes 0
            (m.bytes addr.toNat nBytes.toNat) ∧
        loaded.Quiet := by
  cases hMem : m.pagedType with
  | none => exact absurd hMem hAccepted
  | some mem =>
      have hKind :
          (pageRequest mem nBytes).kind =
            some .pdiNvmWritePage :=
        (outRequest_kind _ _ _ _).trans (by decide)
      have hCount :
          clamp (pageRequest mem nBytes).wIndex =
            UInt16.ofNat nBytes.toNat := clamp_ofNat hFits
      have hMemory :
          pagedMemory
              (pageRequest mem nBytes).wValue.toUInt8 =
            m.pagedMemory := pagedMemory_of_pagedType hMem
      have hLength :
          (m.bytes addr.toNat nBytes.toNat).length =
            (clamp nBytes.toUInt16).toNat := by
        rw [AvrMem.bytes_length, (clamp_of_le hFits).1,
          (clamp_of_le hFits).2]
      have hSettled :=
        settle_writePage line
          (hQuiet.queued (m.bytes addr.toNat nBytes.toNat))
          hKind (addressBytes (m.address addr))
          (m.bytes addr.toNat nBytes.toNat) [] hLength
          (by
            rw [World.withLink, hQuiet.bulkOut, List.nil_append,
              List.append_nil])
      rw [endpointRead32LE_addressBytes, hCount, hMemory]
        at hSettled
      have hOut :
          (HostCall.pagedWrite m addr nBytes).onWire line d =
            (0,
              settle line
                (submit (pageRequest mem nBytes)
                  (addressBytes (m.address addr))
                  (d.withLink
                    { d.link with
                      bulkOut :=
                        d.link.bulkOut ++
                          Packets.split vendorIoEpsize
                            (m.bytes addr.toNat
                              nBytes.toNat) }))) := by
        simp only [HostCall.onWire, HostCall.exec]
        rw [pagedWrite_wire line hQuiet.idle m addr nBytes hMem]
      rw [hSettled] at hOut
      refine ⟨_, _, hOut, hKind, rfl, rfl, rfl, ?_, rfl⟩
      exact ⟨rfl, by simp [World.withLink],
        hQuiet.idle.bulkIn, hQuiet.idle.outBank,
        hQuiet.idle.inBank, hQuiet.idle.hung⟩

theorem pagedWrite_decoded
    (hQuiet : d.Quiet)
    (m : AvrMem)
    (addr nBytes : UInt32)
    (hAccepted : m.pagedType ≠ none)
    (hFits : nBytes.toNat ≤ 1024) :
    (HostCall.pagedWrite m addr nBytes).Decoded line d ∧
      ((HostCall.pagedWrite m addr nBytes).onWire
        line d).2.link.bulkOut = d.link.bulkOut := by
  rcases pagedWrite_settled line hQuiet m addr nBytes
      hAccepted hFits with
    ⟨r, loaded, hOut, hKind, hHandled, hCalls, _hFw,
      hLoaded⟩
  have hLogged := loaded.call_calls line
    (.nvmPagedWrite (m.address addr) (.buffer 0)
      (UInt16.ofNat nBytes.toNat) m.pagedMemory)
  rw [hCalls] at hLogged
  have hTaken := loaded.call_handled line
    (.nvmPagedWrite (m.address addr) (.buffer 0)
      (UInt16.ofNat nBytes.toNat) m.pagedMemory)
  rw [hHandled] at hTaken
  have hLink := loaded.call_link line
    (.nvmPagedWrite (m.address addr) (.buffer 0)
      (UInt16.ofNat nBytes.toNat) m.pagedMemory)
  generalize
    (World.call line
      (.nvmPagedWrite (m.address addr) (.buffer 0)
        (UInt16.ofNat nBytes.toNat) m.pagedMemory)
      loaded).2 = after at hOut hLogged hTaken hLink
  have hAfter := congrArg Prod.snd hOut
  constructor
  · exact HostCall.Decoded.of_one line hAfter rfl rfl hTaken
      hKind hLogged
  · rw [hAfter, hLink, hQuiet.bulkOut]
    exact hLoaded.bulkOut

/- Every call the driver accepts, on a device left in order. -/
theorem decoded_of_quiet
    (hQuiet : d.Quiet)
    {c : HostCall}
    (hAccepted : c.Accepted) :
    c.Decoded line d ∧ (c.onWire line d).2.Quiet := by
  have hIdle := c.onWire_idle line hQuiet.idle
  have hCall :
      c.Decoded line d ∧
        (c.onWire line d).2.link.bulkOut = d.link.bulkOut := by
    cases c with
    | init hasPdi ioFrequency info status =>
        exact init_decoded line hQuiet.idle hasPdi ioFrequency
          info status
    | close => exact close_decoded line hQuiet.idle
    | chipErase ret =>
        exact chipErase_decoded line hQuiet.idle ret
    | readByte m addr value =>
        exact readByte_decoded line hQuiet.idle m addr value
    | pagedLoad m baseaddr nBytes =>
        exact pagedLoad_decoded line hQuiet.idle m baseaddr
          nBytes hAccepted.2
    | pagedWrite m addr nBytes =>
        exact pagedWrite_decoded line hQuiet m addr nBytes
          hAccepted.1 hAccepted.2.2
    | writeByte m behind addr value =>
        exact writeByte_decoded line hQuiet.idle m behind addr
          value hAccepted
  exact ⟨hCall.1, hIdle, hCall.2.trans hQuiet.bulkOut⟩

theorem quiet_powerOn
    (target : τ) :
    (World.powerOn target Wire.quiet).Quiet :=
  ⟨World.idle_powerOn target, rfl⟩

/-
  In every run of the driver, each call it accepts is decoded
  to the operation it stands for, whatever the target does.
-/
theorem requests_decoded
    (target : τ)
    (calls : List HostCall)
    (hCalls : ∀ c ∈ calls, c.Accepted)
    (c : HostCall)
    (hAccepted : c.Accepted) :
    c.Decoded line
      (runAll (HostCall.onWire line) calls
        (World.powerOn target Wire.quiet)).2 := by
  have hRun :
      (runAll (HostCall.onWire line) calls
        (World.powerOn target Wire.quiet)).2.Quiet := by
    apply Preserves.runAll (P := World.Quiet)
    · intro other hMem d hQuiet
      exact (decoded_of_quiet line hQuiet
        (hCalls other hMem)).2
    · exact quiet_powerOn target
  exact (decoded_of_quiet line hRun hAccepted).1

/- A read above 0x80000000 after a short EEPROM page. -/
theorem requests_decoded_high :
    (HostCall.readByte
        { desc := eepromDesc, offset := 0x80000000,
          buf := fun _ => 0 }
        0x20 0).Decoded scripted
      (runAll (HostCall.onWire scripted)
        [.pagedWrite
          { desc := eepromDesc, offset := 0x008C0000,
            buf := fun _ => 0 }
          0 32]
        (World.powerOn [] Wire.quiet)).2 := by
  apply requests_decoded
  · intro c hMem
    rw [List.mem_singleton] at hMem
    subst hMem
    refine ⟨?_, ?_, ?_⟩
    · decide
    · decide
    · decide
  · trivial

end Decoding

end Lucax
