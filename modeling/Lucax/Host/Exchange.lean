import Lucax.Common.Simulation
import Lucax.Host.Wire

/-
  What the driver's calls do to a device on the wire.

  Key definitions include:
    * `readAnswer`
    * `HostCall`, `HostCall.exec`

  Main declarations:
    * `pagedLoad_wire`, `readByte_wire`, `readByte_wire_raw`
    * `pagedWrite_wire`, `writeByte_wire`
    * `HostCall.onWire_idle`
-/

------------------------------------------------------------
-- Addresses
------------------------------------------------------------

namespace Lucax

variable {τ : Type}

/- The firmware reads the address the driver sent. -/
@[simp] theorem endpointRead32LE_addressBytes
    (address : UInt32) :
    endpointRead32LE (addressBytes address) = address := by
  have hBytes :
      (addressBytes address).take 4 =
        ByteOrder.leBytes 4 address.toNat := by
    rw [← leBytes_four]
    rfl
  rw [endpointRead32LE, hBytes,
    ByteOrder.ofNat_leValue_leBytes]

------------------------------------------------------------
-- Operations on an Idle Device
------------------------------------------------------------

namespace World.Idle

variable {d : Device τ}

theorem withFw
    (hIdle : d.Idle)
    (s : Fw τ) :
    (d.withFw s).Idle :=
  ⟨hIdle.setup, hIdle.bulkOut, hIdle.bulkIn, hIdle.outBank,
    hIdle.inBank, hIdle.hung⟩

theorem call
    (hIdle : d.Idle)
    (line : Line τ)
    (c : Call) :
    (d.call line c).2.Idle :=
  ⟨hIdle.setup, hIdle.bulkOut, hIdle.bulkIn, hIdle.outBank,
    hIdle.inBank, hIdle.hung⟩

/- An answer on the control endpoint. -/
theorem clearControlIn
    (hIdle : d.Idle)
    (packet : List UInt8) :
    (clearControlIn wireLink packet d).Idle :=
  ⟨hIdle.setup, hIdle.bulkOut, hIdle.bulkIn, hIdle.outBank,
    hIdle.inBank, hIdle.hung⟩

theorem reportError
    (hIdle : d.Idle) :
    (lucaxReportError wireLink d).Idle :=
  hIdle.clearControlIn _

end World.Idle

------------------------------------------------------------
-- Reads
------------------------------------------------------------

section Reads

variable (line : Line τ)

/-
  The bytes `lucax_pdi_nvm_read` answers with, and the device
  before they are sent.
-/
def readAnswer
    (address : UInt32)
    (count : UInt16)
    (d : Device τ) : List UInt8 × Device τ :=
  if count = 1 then
    let out := d.call line (.nvmReadByte address)
    ([out.1], out.2)
  else
    let out :=
      (d.call line (.nvmReadBytes address 0 (clamp count))).2
    ((Ptr.buffer 0).bytes out.fw.ram (clamp count).toNat,
      out.withFw
        (out.fw.touch
          ((Ptr.buffer 0).indices (clamp count).toNat)))

/- The answer is as long as the request asks, up to 1024. -/
theorem readAnswer_length
    (address : UInt32)
    (count : UInt16)
    (d : Device τ) :
    (readAnswer line address count d).1.length =
      (clamp count).toNat := by
  unfold readAnswer
  by_cases hOne : count = 1
  · subst hOne
    rfl
  · simp only [hOne, if_false]
    exact Ptr.bytes_length _ _ _

theorem readAnswer_idle
    {d : Device τ}
    (hIdle : d.Idle)
    (address : UInt32)
    (count : UInt16) :
    (readAnswer line address count d).2.Idle := by
  unfold readAnswer
  by_cases hOne : count = 1
  · simp only [hOne, if_true]
    exact hIdle.call line _
  · simp only [hOne, if_false]
    exact (hIdle.call line _).withFw _

/- A read request leaves its answer on the IN endpoint. -/
theorem settle_read
    {d : Device τ}
    (hIdle : d.Idle)
    {r : Request}
    (hKind : r.kind = some .pdiNvmRead)
    (data : List UInt8) :
    settle line (submit r data d) =
      let answer :=
        readAnswer line (endpointRead32LE data) r.wIndex
          (started r data d)
      answer.2.withLink
        { answer.2.link with
          bulkIn := Packets.split vendorIoEpsize answer.1 } := by
  have hStart := started_idle hIdle r data
  have hRequest : (started r data d).request = r := rfl
  have hAwait :
      awaitControlOut wireLink (started r data d) =
        (some data, started r data d) := rfl
  have hStatus :
      endpointClearStatusStage wireLink (started r data d) =
        started r data d := rfl
  rw [settle_submit, eventUsbDeviceControlRequest, hRequest,
    hKind]
  simp only [lucaxPdiNvmRead, hAwait, hStatus, World.andThen,
    hStart.hung, Bool.false_eq_true, if_false, hRequest,
    readAnswer]
  by_cases hOne : r.wIndex = 1
  · simp only [hOne, if_true]
    have hByte :
        Packets.split vendorIoEpsize
            [((started r data d).call line
              (.nvmReadByte (endpointRead32LE data))).1] =
          [[((started r data d).call line
            (.nvmReadByte (endpointRead32LE data))).1]] :=
      Packets.split_of_length_le (List.cons_ne_nil _ _)
        (by simp [vendorIoEpsize])
    rw [hByte]
    simp [clearIn, World.call, World.withLink, wireLink,
      hStart.inBank, hStart.bulkIn]
  · simp only [hOne, if_false]
    have hCalled :=
      hStart.call line
        (.nvmReadBytes (endpointRead32LE data) 0
          (clamp r.wIndex))
    rw [sendChunks_wire _ _ _ _ _ (Nat.le_refl _)
      hCalled.inBank hCalled.hung, hCalled.bulkIn,
      List.nil_append]
    rfl

/- The wire as the driver finds it at a bulk read. -/
theorem wireUsb_bulkIn_settle
    {d : Device τ}
    (hNone : (settle line d).link.setup = none)
    (length : Nat) :
    (wireUsb line).bulkIn d length =
      (wireUsb line).bulkIn (settle line d) length := by
  simp only [wireUsb, settle_idle line hNone]

end Reads

/- Bytes stored in two parts. -/
theorem AvrMem.store_append
    (m : AvrMem)
    (i : Nat)
    (front bytes : List UInt8) :
    m.store i (front ++ bytes) =
      (m.store i front).store (i + front.length) bytes := by
  induction front generalizing m i with
  | nil => rfl
  | cons b front ih =>
      rw [List.cons_append, AvrMem.store, ih, AvrMem.store,
        List.length_cons, Nat.add_right_comm, Nat.add_assoc]

theorem AvrMem.store_buf
    (m : AvrMem)
    (i : Nat)
    (bytes : List UInt8) :
    (m.store i bytes).buf = Pages.put i bytes m.buf := by
  induction bytes generalizing m i with
  | nil =>
      rw [Pages.put_nil]
      rfl
  | cons b bytes ih =>
      rw [AvrMem.store, ih, Pages.put_cons]
      rfl

section Loads

variable (line : Line τ)

/-
  The driver's loop stores the packets it finds; it succeeds
  when they are as many bytes as it asked for.
-/
theorem loadLoop_wire
    (base nBytes fuel total : Nat)
    (m : AvrMem)
    (bytes : List UInt8)
    (d : Device τ)
    (hTurns : nBytes ≤ total + fuel)
    (hFits : total + bytes.length ≤ nBytes)
    (hNone : d.link.setup = none)
    (hQueue :
      d.link.bulkIn = Packets.split vendorIoEpsize bytes) :
    loadLoop (wireUsb line) base nBytes fuel total m d =
      ((if total + bytes.length = nBytes then 0 else -1,
          m.store (base + total) bytes),
        d.withLink { d.link with bulkIn := [] }) := by
  induction fuel generalizing total m bytes d with
  | zero =>
      have hNil : bytes = [] :=
        List.eq_nil_of_length_eq_zero (by omega)
      subst hNil
      have hDone : total = nBytes := by
        rw [List.length_nil] at hFits
        omega
      rw [Packets.split_nil] at hQueue
      rw [loadLoop, hDone, ← hQueue]
      simp [AvrMem.store, World.withLink]
  | succ fuel ih =>
      rw [loadLoop]
      by_cases hMore : total < nBytes
      · simp only [hMore, if_true]
        by_cases hNil : bytes = []
        · subst hNil
          rw [Packets.split_nil] at hQueue
          have hTimeOut :
              (wireUsb line).bulkIn d 64 = ((-7, []), d) := by
            simp only [wireUsb, settle_idle line hNone, hQueue]
          have hShort :
              ¬ total + ([] : List UInt8).length = nBytes := by
            rw [List.length_nil]
            omega
          rw [hTimeOut, if_neg hShort, ← hQueue]
          rfl
        · rw [Packets.split_of_ne_nil (by decide) hNil]
            at hQueue
          have hLength :
              (bytes.take vendorIoEpsize).length ≤ 64 :=
            List.length_take_le _ _
          have hPacket :
              (wireUsb line).bulkIn d 64 =
                ((0, bytes.take vendorIoEpsize),
                  d.withLink
                    { d.link with
                      bulkIn :=
                        Packets.split vendorIoEpsize
                          (bytes.drop vendorIoEpsize) }) := by
            simp only [wireUsb, settle_idle line hNone, hQueue,
              hLength, if_true]
          have hPos : 0 < bytes.length :=
            List.length_pos_iff.mpr hNil
          have hTaken :
              (bytes.take vendorIoEpsize).length ≠ 0 := by
            simp only [List.length_take, vendorIoEpsize]
            omega
          have hParts :
              (bytes.take vendorIoEpsize).length +
                  (bytes.drop vendorIoEpsize).length =
                bytes.length := by
            simp only [List.length_take, List.length_drop]
            omega
          rw [hPacket]
          simp only [Int.lt_irrefl, if_false, hTaken]
          have hRest :=
            ih (total + (bytes.take vendorIoEpsize).length)
              (m.store (base + total)
                (bytes.take vendorIoEpsize))
              (bytes.drop vendorIoEpsize)
              (d.withLink
                { d.link with
                  bulkIn :=
                    Packets.split vendorIoEpsize
                      (bytes.drop vendorIoEpsize) })
              (by omega) (by omega) hNone rfl
          rw [hRest]
          have hStored :=
            m.store_append (base + total)
              (bytes.take vendorIoEpsize)
              (bytes.drop vendorIoEpsize)
          rw [List.take_append_drop] at hStored
          rw [hStored, Nat.add_assoc total, hParts,
            Nat.add_assoc base]
          rfl
      · have hNil : bytes = [] :=
          List.eq_nil_of_length_eq_zero (by omega)
        subst hNil
        have hDone : total + ([] : List UInt8).length = nBytes := by
          rw [List.length_nil] at *
          omega
        rw [Packets.split_nil] at hQueue
        rw [if_neg hMore, if_pos hDone, ← hQueue]
        rfl

/- A bulk read lets the firmware run first. -/
theorem loadLoop_settle
    {base nBytes fuel total : Nat}
    (hMore : total < nBytes)
    (m : AvrMem)
    {d : Device τ}
    (hNone : (settle line d).link.setup = none) :
    loadLoop (wireUsb line) base nBytes (fuel + 1) total m d =
      loadLoop (wireUsb line) base nBytes (fuel + 1) total m
        (settle line d) := by
  rw [loadLoop, if_pos hMore, wireUsb_bulkIn_settle line hNone,
    loadLoop, if_pos hMore]

/- A clamped count is at most the one asked for. -/
theorem clamp_toUInt16_le
    (nBytes : UInt32) :
    (clamp nBytes.toUInt16).toNat ≤ nBytes.toNat := by
  have hLow : nBytes.toUInt16.toNat ≤ nBytes.toNat := by
    rw [UInt32.toNat_toUInt16]
    exact Nat.mod_le _ _
  unfold clamp
  split
  · rename_i hMore
    have hLess := UInt16.lt_iff_toNat_lt.mp hMore
    omega
  · exact hLow

/- A count within the buffer is sent as it is. -/
theorem clamp_of_le
    {nBytes : UInt32}
    (hFits : nBytes.toNat ≤ 1024) :
    clamp nBytes.toUInt16 = nBytes.toUInt16 ∧
      nBytes.toUInt16.toNat = nBytes.toNat := by
  have hExact : nBytes.toUInt16.toNat = nBytes.toNat := by
    rw [UInt32.toNat_toUInt16]
    exact Nat.mod_eq_of_lt (by omega)
  refine ⟨?_, hExact⟩
  have hNotMore : ¬ nBytes.toUInt16 > maxBuffer := by
    intro hMore
    have hLess := UInt16.lt_iff_toNat_lt.mp hMore
    have hMax : maxBuffer.toNat = 1024 := rfl
    omega
  rw [clamp, if_neg hNotMore]

/- Only type and code decide who handles a request. -/
theorem outRequest_kind
    (bRequest : UInt8)
    (wValue wIndex wLength : UInt16) :
    (outRequest bRequest wValue wIndex wLength).kind =
      (outRequest bRequest 0 0 0).kind := rfl

/- The request `lucax_paged_load` makes. -/
def loadRequest (nBytes : UInt32) : Request :=
  outRequest lucaxPdiNvmReadReq 0 nBytes.toUInt16 4

/-
  `lucax_paged_load` stores the answer of the firmware and
  succeeds when it is as long as the page.
-/
theorem pagedLoad_wire
    {d : Device τ}
    (hIdle : d.Idle)
    (m : AvrMem)
    (baseaddr nBytes : UInt32) :
    let answer :=
      readAnswer line (m.address baseaddr) nBytes.toUInt16
        (started (loadRequest nBytes)
          (addressBytes (m.address baseaddr)) d)
    let out :=
      lucaxPagedLoad (wireUsb line) m baseaddr nBytes d
    out.1 =
        (if answer.1.length = nBytes.toNat then 0 else -1,
          m.store baseaddr.toNat answer.1) ∧
      settle line out.2 = answer.2 := by
  intro answer out
  have hKind :
      (loadRequest nBytes).kind = some .pdiNvmRead :=
    (outRequest_kind _ _ _ _).trans (by decide)
  have hAnswerIdle : answer.2.Idle :=
    readAnswer_idle line (started_idle hIdle _ _) _ _
  have hSettled :
      settle line
          (submit (loadRequest nBytes)
            (addressBytes (m.address baseaddr)) d) =
        answer.2.withLink
          { answer.2.link with
            bulkIn :=
              Packets.split vendorIoEpsize answer.1 } := by
    have hRead :=
      settle_read line hIdle hKind
        (addressBytes (m.address baseaddr))
    rw [endpointRead32LE_addressBytes] at hRead
    exact hRead
  have hSent :
      (wireUsb line).controlOut d
          (loadRequest nBytes)
          (addressBytes (m.address baseaddr)) =
        (4,
          submit (loadRequest nBytes)
            (addressBytes (m.address baseaddr)) d) := by
    simp only [wireUsb, settle_idle line hIdle.setup]
    rfl
  have hLength : answer.1.length ≤ nBytes.toNat := by
    rw [readAnswer_length]
    exact clamp_toUInt16_le nBytes
  have hSetup :
      (settle line
        (submit (loadRequest nBytes)
          (addressBytes (m.address baseaddr)) d)).link.setup =
        none := by
    rw [hSettled]
    exact hAnswerIdle.setup
  have hLoop :=
    loadLoop_wire line baseaddr.toNat nBytes.toNat nBytes.toNat
      0 m answer.1 (settle line (submit (loadRequest nBytes)
        (addressBytes (m.address baseaddr)) d))
      (by omega) (by omega) hSetup
      (by
        rw [hSettled]
        rfl)
  have hAfter :
      (settle line
          (submit (loadRequest nBytes)
            (addressBytes (m.address baseaddr)) d)).withLink
          { (settle line
              (submit (loadRequest nBytes)
                (addressBytes (m.address baseaddr)) d)).link with
            bulkIn := [] } =
        answer.2 := by
    rw [hSettled, ← hAnswerIdle.bulkIn]
    rfl
  simp only [Nat.zero_add, Nat.add_zero] at hLoop
  simp only [out, lucaxPagedLoad]
  rw [← loadRequest, hSent]
  simp only [show ¬ (4 : Int) < 0 by decide, if_false]
  cases hCount : nBytes.toNat with
  | zero =>
      rw [hCount] at hLength hLoop
      have hNil : answer.1 = [] :=
        List.eq_nil_of_length_eq_zero (by omega)
      rw [loadLoop]
      simp only [Nat.lt_irrefl, if_false, hNil, AvrMem.store]
      refine ⟨rfl, ?_⟩
      rw [hNil, Packets.split_nil] at hSettled
      rw [hSettled, ← hAnswerIdle.bulkIn]
      rfl
  | succ n =>
      rw [hCount] at hLoop
      rw [loadLoop_settle line (Nat.succ_pos n) m hSetup, hLoop,
        hAfter]
      exact ⟨rfl, settle_idle line hAnswerIdle.setup⟩

end Loads

section ByteReads

variable (line : Line τ)

/- The request `lucax_read_byte` makes for memory below I/O. -/
def byteRequest : Request :=
  outRequest lucaxPdiNvmReadReq 0 1 4

/- The request it makes for data space. -/
def rawRequest (address : UInt32) : Request :=
  inRequest lucaxPdiRawReadReq address.toUInt16
    (address >>> 16).toUInt16

/- An address survives the two words of a raw request. -/
theorem rawAddress_rawRequest
    (address : UInt32) :
    (rawRequest address).rawAddress = address := by
  have hBound := address.toNat_lt
  have hHigh :
      address.toNat / 2 ^ 16 % 2 ^ 16 =
        address.toNat / 2 ^ 16 := by
    apply Nat.mod_eq_of_lt
    omega
  have hFits : (address.toNat / 2 ^ 16) <<< 16 < 2 ^ 32 := by
    rw [Nat.shiftLeft_eq]
    omega
  have hShift : (16 : UInt32).toNat % 32 = 16 := by decide
  apply UInt32.toNat_inj.mp
  simp only [Request.rawAddress, rawRequest, inRequest,
    UInt32.toNat_or, UInt32.toNat_shiftLeft,
    UInt16.toNat_toUInt32, UInt32.toNat_toUInt16,
    UInt32.toNat_shiftRight, hShift]
  rw [Nat.shiftRight_eq_div_pow, hHigh, Nat.mod_eq_of_lt hFits,
    ← Nat.shiftLeft_add_eq_or_of_lt
      (Nat.mod_lt _ (by decide)),
    Nat.shiftLeft_eq]
  omega

/- A byte read through the bulk endpoint. -/
theorem readByte_wire
    {d : Device τ}
    (hIdle : d.Idle)
    (m : AvrMem)
    (addr : UInt32)
    (value : UInt8)
    (hNvm : isRawAddress (m.address addr) = false) :
    let called :=
      (started byteRequest (addressBytes (m.address addr))
        d).call line (.nvmReadByte (m.address addr))
    let out := lucaxReadByte (wireUsb line) m addr value d
    out.1 = (0, called.1) ∧
      settle line out.2 = called.2 := by
  intro called out
  have hCalled : called.2.Idle :=
    (started_idle hIdle _ _).call line _
  have hSent :
      (wireUsb line).controlOut d byteRequest
          (addressBytes (m.address addr)) =
        (4,
          submit byteRequest (addressBytes (m.address addr))
            d) := by
    simp only [wireUsb, settle_idle line hIdle.setup]
    rfl
  have hSettled :
      settle line
          (submit byteRequest (addressBytes (m.address addr))
            d) =
        called.2.withLink
          { called.2.link with bulkIn := [[called.1]] } := by
    have hRead :=
      settle_read line hIdle (r := byteRequest)
        (by decide) (addressBytes (m.address addr))
    have hByte :
        Packets.split vendorIoEpsize [called.1] =
          [[called.1]] :=
      Packets.split_of_length_le (List.cons_ne_nil _ _)
        (by simp [vendorIoEpsize])
    rw [endpointRead32LE_addressBytes] at hRead
    rw [← hByte]
    exact hRead
  have hSetup :
      (settle line
        (submit byteRequest (addressBytes (m.address addr))
          d)).link.setup = none := by
    rw [hSettled]
    exact hCalled.setup
  have hPacket :
      (wireUsb line).bulkIn
          (submit byteRequest (addressBytes (m.address addr))
            d) 1 =
        ((0, [called.1]), called.2) := by
    rw [wireUsb_bulkIn_settle line hSetup]
    simp only [wireUsb, settle_idle line hSetup]
    rw [hSettled]
    simp only [World.withLink, List.length_singleton,
      Nat.le_refl, if_true]
    rw [← hCalled.bulkIn]
  simp only [out, lucaxReadByte, hNvm, Bool.false_eq_true,
    if_false]
  rw [← byteRequest, hSent]
  simp only [show ¬ (4 : Int) < 0 by decide, if_false, hPacket,
    Int.lt_irrefl, List.length_singleton, List.headD_cons,
    ne_eq, not_true_eq_false]
  exact ⟨trivial, settle_idle line hCalled.setup⟩

/- The control endpoint carries one byte of the buffer. -/
theorem endpointWriteControlStreamLE_wire
    (d : Device τ) :
    endpointWriteControlStreamLE wireLink wireFuel 0 1 d =
      clearControlIn wireLink [d.fw.ram 0]
        (d.withFw (d.fw.touch [0])) := rfl

/- A byte read through the control endpoint. -/
theorem readByte_wire_raw
    {d : Device τ}
    (hIdle : d.Idle)
    (m : AvrMem)
    (addr : UInt32)
    (value : UInt8)
    (hRaw : isRawAddress (m.address addr) = true) :
    let called :=
      ((started (rawRequest (m.address addr)) [] d).call line
        (.pdiReadBytes (m.address addr) 0 1)).2
    let out := lucaxReadByte (wireUsb line) m addr value d
    out.1 = (0, called.fw.ram 0) ∧
      settle line out.2 =
        clearControlIn wireLink [called.fw.ram 0]
          (called.withFw (called.fw.touch [0])) := by
  intro called out
  have hCalled : called.Idle :=
    (started_idle hIdle _ _).call line _
  have hKind :
      (rawRequest (m.address addr)).kind =
        some .pdiRawRead :=
    (show _ = (inRequest lucaxPdiRawReadReq 0 0).kind
      from rfl).trans (by decide)
  have hSettled :
      settle line
          (submit (rawRequest (m.address addr)) [] d) =
        clearControlIn wireLink [called.fw.ram 0]
          (called.withFw (called.fw.touch [0])) := by
    have hRequest :
        (started (rawRequest (m.address addr)) [] d).request =
          rawRequest (m.address addr) := rfl
    have hMade :
        ((started (rawRequest (m.address addr)) [] d).call line
            (.pdiReadBytes
              (rawRequest (m.address addr)).rawAddress 0
              (rawRequest (m.address addr)).wLength)).2 =
          called := by
      rw [rawAddress_rawRequest]
      rfl
    have hLength :
        (rawRequest (m.address addr)).wLength.toNat = 1 := rfl
    rw [settle_submit, eventUsbDeviceControlRequest, hRequest,
      hKind]
    simp only [lucaxPdiRawRead, hRequest, hMade, hLength]
    rw [endpointWriteControlStreamLE_wire]
    simp only [World.andThen]
    split
    · rfl
    · rfl
  have hAnswer :
      (wireUsb line).controlIn d
          (rawRequest (m.address addr)) =
        ((1, [called.fw.ram 0]),
          clearControlIn wireLink [called.fw.ram 0]
            (called.withFw (called.fw.touch [0]))) := by
    simp only [wireUsb, settle_idle line hIdle.setup, hSettled]
    rfl
  simp only [out, lucaxReadByte, hRaw, if_true]
  rw [← rawRequest, hAnswer]
  refine ⟨rfl, ?_⟩
  exact settle_idle line
    ((hCalled.withFw _).clearControlIn _).setup

end ByteReads

------------------------------------------------------------
-- Writes
------------------------------------------------------------

@[simp] theorem AvrMem.bytes_length
    (m : AvrMem)
    (i n : Nat) :
    (m.bytes i n).length = n := by
  rw [AvrMem.bytes, List.length_map, List.length_range']

theorem AvrMem.bytes_add
    (m : AvrMem)
    (i k n : Nat) :
    m.bytes i (k + n) = m.bytes i k ++ m.bytes (i + k) n := by
  simp only [AvrMem.bytes, ← List.map_append]
  rw [← List.range'_append_1]

/- A piece of a page as the first packet of the rest. -/
theorem split_bytes
    (m : AvrMem)
    (base count : Nat)
    (hSome : 0 < count) :
    Packets.split vendorIoEpsize (m.bytes base count) =
      m.bytes base (min count 64) ::
        Packets.split vendorIoEpsize
          (m.bytes (base + min count 64)
            (count - min count 64)) := by
  have hParts :=
    m.bytes_add base (min count 64) (count - min count 64)
  rw [Nat.add_sub_cancel' (Nat.min_le_left _ _)] at hParts
  rw [hParts]
  apply Packets.split_append
  · apply List.ne_nil_of_length_pos
    rw [AvrMem.bytes_length]
    omega
  · rw [AvrMem.bytes_length]
    by_cases hShort : count ≤ vendorIoEpsize
    · right
      have hMin : min count 64 = count := Nat.min_eq_left hShort
      rw [hMin, Nat.sub_self]
      exact ⟨hShort, rfl⟩
    · left
      simp only [vendorIoEpsize] at *
      omega

section Writes

variable (line : Line τ)

/- The driver's loop queues the page in packets. -/
theorem writeLoop_wire
    (m : AvrMem)
    (base nBytes fuel total : Nat)
    (d : Device τ)
    (hTurns : nBytes ≤ total + fuel) :
    writeLoop (wireUsb line) m base nBytes fuel total d =
      (0,
        d.withLink
          { d.link with
            bulkOut :=
              d.link.bulkOut ++
                Packets.split vendorIoEpsize
                  (m.bytes (base + total)
                    (nBytes - total)) }) := by
  induction fuel generalizing total d with
  | zero =>
      have hDone : ¬ total < nBytes := by omega
      have hNone : nBytes - total = 0 := by omega
      rw [writeLoop, if_neg hDone, hNone]
      simp [AvrMem.bytes, World.withLink]
  | succ fuel ih =>
      rw [writeLoop]
      by_cases hMore : total < nBytes
      · have hPacket :
            min (nBytes - total) 64 ≠ 0 := by omega
        have hSplit :=
          split_bytes m (base + total) (nBytes - total)
            (by omega)
        rw [Nat.add_assoc base, Nat.sub_sub] at hSplit
        have hSent :
            (wireUsb line).bulkOut d
                (m.bytes (base + total)
                  (min (nBytes - total) 64)) =
              ((0, min (nBytes - total) 64),
                d.withLink
                  { d.link with
                    bulkOut :=
                      d.link.bulkOut ++
                        [m.bytes (base + total)
                          (min (nBytes - total) 64)] }) := by
          simp only [wireUsb, AvrMem.bytes_length]
        simp only [hMore, if_true, hSent, Int.lt_irrefl,
          if_false, hPacket]
        rw [ih _ _ (by omega), hSplit]
        simp [World.withLink]
      · have hNone : nBytes - total = 0 := by omega
        rw [if_neg hMore, hNone]
        simp [AvrMem.bytes, World.withLink]

/- The request `lucax_paged_write` makes. -/
def pageRequest
    (mem : UInt16)
    (nBytes : UInt32) : Request :=
  outRequest lucaxPdiNvmWritePageReq mem nBytes.toUInt16 4

/- The request `lucax_write_byte` makes. -/
def writeByteRequest
    (memType : UInt16)
    (value : UInt8) : Request :=
  outRequest lucaxPdiNvmWriteByteReq memType value.toUInt16 4

theorem pagedWrite_wire
    {d : Device τ}
    (hIdle : d.Idle)
    (m : AvrMem)
    (addr nBytes : UInt32)
    {mem : UInt16}
    (hMem : m.pagedType = some mem) :
    lucaxPagedWrite (wireUsb line) m addr nBytes d =
      (0,
        submit (pageRequest mem nBytes)
          (addressBytes (m.address addr))
          (d.withLink
            { d.link with
              bulkOut :=
                d.link.bulkOut ++
                  Packets.split vendorIoEpsize
                    (m.bytes addr.toNat nBytes.toNat) })) := by
  have hSent :
      (wireUsb line).controlOut d (pageRequest mem nBytes)
          (addressBytes (m.address addr)) =
        (4,
          submit (pageRequest mem nBytes)
            (addressBytes (m.address addr)) d) := by
    simp only [wireUsb, settle_idle line hIdle.setup]
    rfl
  simp only [lucaxPagedWrite, hMem]
  rw [← pageRequest, hSent]
  simp only [show ¬ (4 : Int) < 0 by decide, if_false]
  rw [writeLoop_wire line m addr.toNat nBytes.toNat
    nBytes.toNat 0 _ (by omega)]
  rfl

theorem writeByte_wire
    {d : Device τ}
    (hIdle : d.Idle)
    (m : AvrMem)
    (behind : UInt8)
    (addr : UInt32)
    (value : UInt8)
    {memType : UInt16}
    (hMem : m.byteType behind = some memType) :
    lucaxWriteByte (wireUsb line) m behind addr value d =
      (0,
        submit (writeByteRequest memType value)
          (addressBytes (m.address addr)) d) := by
  simp only [lucaxWriteByte, hMem, wireUsb,
    settle_idle line hIdle.setup]
  rfl

/- The address of a page arrives before its data. -/
theorem receivePage_wire
    {task : Device τ → Device τ}
    {d : Device τ}
    (hIdle : d.Idle)
    (r : Request)
    (data : List UInt8) :
    receivePage wireLink task wireFuel (started r data d) =
      match
        receiveChunks wireLink task wireFuel
          (clamp r.wIndex).toNat (clamp r.wIndex).toNat 0
          (started r data d) with
      | (none, w) => (none, w)
      | (some done, w) =>
          (some (endpointRead32LE data, done), w) := by
  have hStart := started_idle hIdle r data
  have hRequest : (started r data d).request = r := rfl
  have hAwait :
      awaitControlOut wireLink (started r data d) =
        (some data, started r data d) := rfl
  have hStatus :
      endpointClearStatusStage wireLink (started r data d) =
        started r data d := rfl
  simp only [receivePage, hAwait, hStatus, hStart.hung,
    Bool.false_eq_true, if_false, hRequest]
  rcases receiveChunks wireLink task wireFuel
      (clamp r.wIndex).toNat (clamp r.wIndex).toNat 0
      (started r data d) with ⟨total, after⟩
  cases total with
  | none => rfl
  | some done => rfl

/- A page whose bytes are there is written to the target. -/
theorem settle_writePage_queue
    {d : Device τ}
    (hIdle : d.Idle)
    {r : Request}
    (hKind : r.kind = some .pdiNvmWritePage)
    (data bytes : List UInt8)
    (later : List (List UInt8))
    (hThere : (clamp r.wIndex).toNat ≤ bytes.length)
    (hQueue :
      d.link.bulkOut =
        Packets.split vendorIoEpsize bytes ++ later) :
    settle line (submit r data d) =
      (World.call line
        (.nvmPagedWrite (endpointRead32LE data) (.buffer 0)
          (clamp r.wIndex) (pagedMemory r.wValue.toUInt8))
        (((started r data d).withFw
            (d.fw.storeBytes 0
              (bytes.take (clamp r.wIndex).toNat))).withLink
          { (started r data d).link with
            bulkOut :=
              (Packets.split vendorIoEpsize bytes).drop
                  (((clamp r.wIndex).toNat +
                      (vendorIoEpsize - 1)) /
                    vendorIoEpsize) ++
                later })).2 := by
  have hStart := started_idle hIdle r data
  have hRequest : (started r data d).request = r := rfl
  have hReceived :=
    receiveChunks_wire
      (usbTask_turns line wireLink d.lastOp wireFuel 0)
      (clamp r.wIndex).toNat (clamp r.wIndex).toNat 0 bytes
      later (started r data d) (Nat.le_refl _) hThere hQueue
      rfl hStart.outBank hStart.hung
  have hOperand :
      UInt16.ofNat (0 + (clamp r.wIndex).toNat) =
        clamp r.wIndex := by
    rw [Nat.zero_add, UInt16.ofNat_toNat]
  rw [settle_submit, eventUsbDeviceControlRequest, hRequest,
    hKind]
  simp only [lucaxPdiNvmWritePage, receivePage_wire hIdle,
    hReceived, hRequest]
  rw [hOperand]
  rfl

/- A page that is all there is written to the target. -/
theorem settle_writePage
    {d : Device τ}
    (hIdle : d.Idle)
    {r : Request}
    (hKind : r.kind = some .pdiNvmWritePage)
    (data bytes : List UInt8)
    (later : List (List UInt8))
    (hCount : bytes.length = (clamp r.wIndex).toNat)
    (hQueue :
      d.link.bulkOut =
        Packets.split vendorIoEpsize bytes ++ later) :
    settle line (submit r data d) =
      (World.call line
        (.nvmPagedWrite (endpointRead32LE data) (.buffer 0)
          (clamp r.wIndex) (pagedMemory r.wValue.toUInt8))
        (((started r data d).withFw
            (d.fw.storeBytes 0 bytes)).withLink
          { (started r data d).link with
            bulkOut := later })).2 := by
  have hQueued :=
    settle_writePage_queue line hIdle hKind data bytes later
      (Nat.le_of_eq hCount.symm) hQueue
  rw [← hCount, List.take_length,
    ← Packets.length_split (by decide), List.drop_length,
    List.nil_append] at hQueued
  exact hQueued

/- A page of which whole packets are missing is dropped. -/
theorem settle_writePage_short
    {d : Device τ}
    (hIdle : d.Idle)
    {r : Request}
    (hKind : r.kind = some .pdiNvmWritePage)
    (data bytes : List UInt8)
    (hShort : bytes.length < (clamp r.wIndex).toNat)
    (hWhole : vendorIoEpsize ∣ bytes.length)
    (hQueue :
      d.link.bulkOut = Packets.split vendorIoEpsize bytes) :
    (settle line (submit r data d)).link.bulkOut = [] ∧
      (settle line (submit r data d)).calls = d.calls := by
  have hStart := started_idle hIdle r data
  have hRequest : (started r data d).request = r := rfl
  have hReceived :=
    receiveChunks_wire_short
      (usbTask_turns line wireLink d.lastOp wireFuel 0)
      (clamp r.wIndex).toNat (clamp r.wIndex).toNat 0 bytes
      (started r data d) (Nat.le_refl _) hShort hWhole hQueue
      rfl hStart.outBank hStart.hung
  rw [settle_submit, eventUsbDeviceControlRequest, hRequest,
    hKind]
  simp only [lucaxPdiNvmWritePage, receivePage_wire hIdle,
    hReceived]
  exact ⟨rfl, rfl⟩

theorem settle_writePage_idle
    {d : Device τ}
    (hIdle : d.Idle)
    {r : Request}
    (hKind : r.kind = some .pdiNvmWritePage)
    (data : List UInt8) :
    (settle line (submit r data d)).Idle := by
  have hStart := started_idle hIdle r data
  have hRequest : (started r data d).request = r := rfl
  have hReceived :=
    receiveChunks_idle
      (fun e hNone =>
        usbTask_wire_none line wireFuel 0 (d := e) hNone)
      (clamp r.wIndex).toNat (clamp r.wIndex).toNat 0
      (started r data d) (Nat.le_refl _) hStart
  rw [settle_submit, eventUsbDeviceControlRequest, hRequest,
    hKind]
  simp only [lucaxPdiNvmWritePage, receivePage_wire hIdle]
  split
  · rename_i after hEnd
    split at hEnd
    · rename_i w hChunks
      rw [hChunks] at hReceived
      cases hEnd
      exact hReceived
    · cases hEnd
  · rename_i address done after hEnd
    split at hEnd
    · cases hEnd
    · rename_i total w hChunks
      rw [hChunks] at hReceived
      cases hEnd
      exact hReceived.call line _

/- A byte write is passed on to the target. -/
theorem settle_writeByte
    {d : Device τ}
    (hIdle : d.Idle)
    {r : Request}
    (hKind : r.kind = some .pdiNvmWriteByte)
    (data : List UInt8) :
    settle line (submit r data d) =
      ((started r data d).call line
        (.nvmWriteByte (endpointRead32LE data)
          r.wIndex.toUInt8
          (byteMemory r.wValue.toUInt8))).2 := by
  have hStart := started_idle hIdle r data
  have hRequest : (started r data d).request = r := rfl
  have hAwait :
      awaitControlOut wireLink (started r data d) =
        (some data, started r data d) := rfl
  have hStatus :
      endpointClearStatusStage wireLink (started r data d) =
        started r data d := rfl
  rw [settle_submit, eventUsbDeviceControlRequest, hRequest,
    hKind]
  simp only [lucaxPdiNvmWriteByte, receiveByteAddress, hAwait,
    hStatus, hStart.hung, Bool.false_eq_true, if_false,
    hRequest]

end Writes

------------------------------------------------------------
-- Runs of the Driver
------------------------------------------------------------

/- A call of the driver, with what its memory holds. -/
inductive HostCall where
| init (hasPdi : Bool) (ioFrequency : Int) (info status : UInt8)
| close
| chipErase (ret : UInt8)
| readByte (m : AvrMem) (addr : UInt32) (value : UInt8)
| pagedLoad (m : AvrMem) (baseaddr nBytes : UInt32)
| pagedWrite (m : AvrMem) (addr nBytes : UInt32)
| writeByte
    (m : AvrMem) (behind : UInt8) (addr : UInt32) (value : UInt8)

/- The code returned; `lucax_close` returns none. -/
def HostCall.exec
    {ℓ : Type}
    (usb : Libusb ℓ) :
    HostCall → ℓ → Int × ℓ
| .init hasPdi ioFrequency info status, l =>
    lucaxInit usb hasPdi ioFrequency info status l
| .close, l => (0, lucaxClose usb l)
| .chipErase ret, l => lucaxChipErase usb ret l
| .readByte m addr value, l =>
    let out := lucaxReadByte usb m addr value l
    (out.1.1, out.2)
| .pagedLoad m baseaddr nBytes, l =>
    let out := lucaxPagedLoad usb m baseaddr nBytes l
    (out.1.1, out.2)
| .pagedWrite m addr nBytes, l =>
    lucaxPagedWrite usb m addr nBytes l
| .writeByte m behind addr value, l =>
    lucaxWriteByte usb m behind addr value l

section Runs

variable (line : Line τ)

/- A call, and what the firmware still does for it. -/
def HostCall.onWire
    (c : HostCall)
    (d : Device τ) : Int × Device τ :=
  let out := c.exec (wireUsb line) d
  (out.1, settle line out.2)

theorem wireUsb_controlIn_device
    {d : Device τ}
    (hIdle : d.Idle)
    (r : Request) :
    ((wireUsb line).controlIn d r).2 =
      settle line (submit r [] d) := by
  simp only [wireUsb, settle_idle line hIdle.setup]
  split
  · rfl
  · rfl

/- Requests of a session leave the bulk endpoints alone. -/
theorem settle_session_idle
    {d : Device τ}
    (hIdle : d.Idle)
    {r : Request}
    (data : List UInt8)
    (hKind :
      r.kind = some .getDescriptor ∨ r.kind = some .pdiInit ∨
        r.kind = some .pdiChipErase ∨
        r.kind = some .releaseInterface) :
    (settle line (submit r data d)).Idle := by
  have hStart := started_idle hIdle r data
  have hRequest : (started r data d).request = r := rfl
  rw [settle_submit, eventUsbDeviceControlRequest, hRequest]
  rcases hKind with hKind | hKind | hKind | hKind
  · rw [hKind]
    exact hStart.clearControlIn _
  · rw [hKind]
    exact World.Idle.reportError ⟨hStart.setup, hStart.bulkOut,
      hStart.bulkIn, hStart.outBank, hStart.inBank,
      hStart.hung⟩
  · rw [hKind]
    exact (hStart.call line _).reportError
  · rw [hKind]
    have hCleared := hStart.clearControlIn []
    exact ⟨hCleared.setup, hCleared.bulkOut, hCleared.bulkIn,
      hCleared.outBank, hCleared.inBank, hCleared.hung⟩

theorem HostCall.init_idle
    {d : Device τ}
    (hIdle : d.Idle)
    (hasPdi : Bool)
    (ioFrequency : Int)
    (info status : UInt8) :
    (lucaxInit (wireUsb line) hasPdi ioFrequency info status
      d).2.Idle := by
  have hGot :
      ((wireUsb line).controlIn d
        (inRequest lucaxGetDescriptorReq 0 0)).2.Idle := by
    rw [wireUsb_controlIn_device line hIdle]
    exact settle_session_idle line hIdle []
      (Or.inl (by decide))
  have hInit := fun wValue =>
    settle_session_idle line hGot
      (r := inRequest lucaxPdiInitReq wValue 0) []
      (Or.inr (Or.inl
        ((show _ = (inRequest lucaxPdiInitReq 0 0).kind
          from rfl).trans (by decide))))
  simp only [← wireUsb_controlIn_device line hGot] at hInit
  simp only [lucaxInit]
  by_cases hFailed :
      ((wireUsb line).controlIn d
        (inRequest lucaxGetDescriptorReq 0 0)).1.1 < 0
  · rw [if_pos hFailed]
    exact hGot
  · rw [if_neg hFailed]
    split
    · exact hGot
    · split
      · exact hInit _
      · split
        · exact hInit _
        · exact hInit _

/- No call of the driver leaves a transfer under way. -/
theorem HostCall.onWire_idle
    {d : Device τ}
    (hIdle : d.Idle)
    (c : HostCall) :
    (c.onWire line d).2.Idle := by
  cases c with
  | init hasPdi ioFrequency info status =>
      have hAfter :=
        HostCall.init_idle line hIdle hasPdi ioFrequency info
          status
      simp only [HostCall.onWire, HostCall.exec]
      rw [settle_idle line hAfter.setup]
      exact hAfter
  | close =>
      simp only [HostCall.onWire, HostCall.exec, lucaxClose,
        wireUsb, settle_idle line hIdle.setup]
      apply settle_session_idle line hIdle
      right
      right
      right
      decide
  | chipErase ret =>
      have hAfter :
          (settle line
            (submit (inRequest lucaxPdiChipEraseReq 0 0) []
              d)).Idle := by
        apply settle_session_idle line hIdle
        right
        right
        left
        decide
      rw [← wireUsb_controlIn_device line hIdle] at hAfter
      simp only [HostCall.onWire, HostCall.exec, lucaxChipErase]
      split
      · rw [settle_idle line hAfter.setup]
        exact hAfter
      · rw [settle_idle line hAfter.setup]
        exact hAfter
  | readByte m addr value =>
      cases hRaw : isRawAddress (m.address addr) with
      | true =>
          rcases readByte_wire_raw line hIdle m addr value hRaw
            with ⟨_hValue, hAfter⟩
          simp only [HostCall.onWire, HostCall.exec, hAfter]
          exact World.Idle.clearControlIn
            (((started_idle hIdle _ _).call line _).withFw _) _
      | false =>
          rcases readByte_wire line hIdle m addr value hRaw
            with ⟨_hValue, hAfter⟩
          simp only [HostCall.onWire, HostCall.exec, hAfter]
          exact (started_idle hIdle _ _).call line _
  | pagedLoad m baseaddr nBytes =>
      rcases pagedLoad_wire line hIdle m baseaddr nBytes
        with ⟨_hStored, hAfter⟩
      simp only [HostCall.onWire, HostCall.exec, hAfter]
      exact readAnswer_idle line (started_idle hIdle _ _) _ _
  | pagedWrite m addr nBytes =>
      simp only [HostCall.onWire, HostCall.exec]
      cases hMem : m.pagedType with
      | none =>
          simp only [lucaxPagedWrite, hMem]
          rw [settle_idle line hIdle.setup]
          exact hIdle
      | some mem =>
          rw [pagedWrite_wire line hIdle m addr nBytes hMem]
          apply settle_writePage_idle line
          · constructor
            · exact hIdle.setup
            · intro packet hPacket
              rcases List.mem_append.mp hPacket with
                hOld | hNew
              · exact hIdle.bulkOut packet hOld
              · exact Packets.ne_nil_of_mem_split hNew
            · exact hIdle.bulkIn
            · exact hIdle.outBank
            · exact hIdle.inBank
            · exact hIdle.hung
          · exact (outRequest_kind _ _ _ _).trans (by decide)
  | writeByte m behind addr value =>
      simp only [HostCall.onWire, HostCall.exec]
      cases hMem : m.byteType behind with
      | none =>
          simp only [lucaxWriteByte, hMem]
          rw [settle_idle line hIdle.setup]
          exact hIdle
      | some memType =>
          have hKind :
              (writeByteRequest memType value).kind =
                some .pdiNvmWriteByte :=
            (outRequest_kind _ _ _ _).trans (by decide)
          rw [writeByte_wire line hIdle m behind addr value
            hMem]
          simp only [settle_writeByte line hIdle hKind]
          exact (started_idle hIdle _ _).call line _

/- The device after any calls of the driver is idle. -/
theorem runAll_idle
    (target : τ)
    (calls : List HostCall) :
    (Simulation.runAll (HostCall.onWire line) calls
      (World.powerOn target Wire.quiet)).2.Idle := by
  apply Simulation.Preserves.runAll (P := World.Idle)
  · intro c _hMem d hIdle
    exact c.onWire_idle line hIdle
  · exact World.idle_powerOn target

end Runs

end Lucax
