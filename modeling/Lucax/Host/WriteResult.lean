import Lucax.Driver.Session
import Lucax.Driver.Wait
import Lucax.Host.Exchange
import Lucax.Host.Timing

/-
  What a successful return of a writing call says about the
  operation of the firmware.

  Key definitions include:
    * `Line.byteSent`, `Line.pageSent`, `Call.sentTo`
    * `WriteCall`, `WriteCall.asked`
    * `WriteCall.Arrives`

  Main declarations:
    * `Call.noError_iff`
    * `WriteCall.calls_of_returned`
    * `writeSucceeds_iff`
-/

------------------------------------------------------------
-- The Operations up to Their Last Wait
------------------------------------------------------------

namespace Lucax

variable {τ η ℓ : Type}

/- `nvm_write_byte` before `return wait_nvm();` -/
def nvmByteSent
    (line : Line τ)
    (address : UInt32)
    (data : UInt8)
    (mem : ByteMemory)
    (s : Fw τ) : Fw τ :=
  let s := nvmCmd line mem.writeCmd s
  let s := (pdiWriteByte line address data s).2
  if mem = .lock then trigCmdex line s else s

/- `nvm_paged_write` before `return wait_nvm();` -/
def nvmPageSent
    (line : Line τ)
    (address : UInt32)
    (data : Ptr)
    (count : UInt16)
    (mem : PagedMemory)
    (s : Fw τ) : Fw τ :=
  let s := nvmPointer line address s
  let s := nvmCmd line mem.eraseBufferCmd s
  let s := trigCmdex line s
  let s := (waitNvm line s).2
  let s := nvmCmd line mem.loadBufferCmd s
  let s := (pdiWriteBytes line address data count s).2
  let s := nvmCmd line mem.eraseWriteCmd s
  let s := nvmPointer line address s
  pdiWriteRaw line
    (.array [pdiStoreIndirect ||| (ptrDataInc <<< 2), 0x00])
    2 s

/- The target at the last wait of `nvm_write_byte`. -/
def Line.byteSent
    (line : Line τ)
    (address : UInt32)
    (data : UInt8)
    (mem : ByteMemory)
    (t : τ) : τ :=
  line.frames t
    (stsFrames nvmCmdReg mem.writeCmd ++
      stsFrames address data ++
      if mem = .lock then stsFrames nvmCtrlaReg 0x01 else [])

/-
  The target at the last wait of `nvm_paged_write`: erase the
  page buffer and wait, load it, erase and write the page.
-/
def Line.pageSent
    (line : Line τ)
    (address : UInt32)
    (bytes : List UInt8)
    (count : UInt16)
    (mem : PagedMemory)
    (t : τ) : τ :=
  let erased :=
    line.waited 0xff
      (line.frames t
        (pointerFrames address ++
          stsFrames nvmCmdReg mem.eraseBufferCmd ++
          stsFrames nvmCtrlaReg 0x01))
  line.frames erased
    (stsFrames nvmCmdReg mem.loadBufferCmd ++
      streamFrames address count 0x64 ++ bytes ++
      stsFrames nvmCmdReg mem.eraseWriteCmd ++
      pointerFrames address ++ [0x64, 0x00])

/- The target at the last wait of a write of `bytes`. -/
def Call.sentTo
    (line : Line τ)
    (bytes : List UInt8) :
    Call → τ → τ
| .nvmWriteByte address data mem, t =>
    line.byteSent address data mem t
| .nvmPagedWrite address _ count mem, t =>
    line.pageSent address bytes count mem t
| _, t => t

/- The bytes that a page write takes from the buffer. -/
def Call.buffered
    (ram : Nat → UInt8) :
    Call → List UInt8
| .nvmPagedWrite _ data count _ => data.bytes ram count.toNat
| _ => []

/- The two operations that write to the target's memory. -/
def Call.IsWrite : Call → Prop
| .nvmWriteByte _ _ _ => True
| .nvmPagedWrite _ _ _ _ => True
| _ => False

/- A writing operation up to its last wait. -/
def Call.beforeWait
    (line : Line τ) :
    Call → Fw τ → Fw τ
| .nvmWriteByte address data mem, s =>
    nvmByteSent line address data mem s
| .nvmPagedWrite address data count mem, s =>
    nvmPageSent line address data count mem s
| _, s => s

section Operations

variable (line : Line τ) (s : Fw τ) {c : Call}

/- The result of a write is that of its last wait. -/
theorem Call.exec_eq_wait
    (hWrite : c.IsWrite) :
    (c.exec line s).1.1 =
      (waitNvm line (c.beforeWait line s)).1 := by
  cases c with
  | nvmWriteByte address data mem =>
      simp only [Call.exec, Lucax.nvmWriteByte,
        Call.beforeWait, nvmByteSent]
  | nvmPagedWrite address data count mem =>
      simp only [Call.exec, Lucax.nvmPagedWrite,
        Call.beforeWait, nvmPageSent]
  | _ => exact absurd hWrite id

@[simp] theorem Call.beforeWait_pdiOn :
    (c.beforeWait line s).pdiOn = s.pdiOn := by
  cases c with
  | nvmWriteByte address data mem =>
      cases mem <;> simp [Call.beforeWait, nvmByteSent]
  | nvmPagedWrite address data count mem =>
      simp [Call.beforeWait, nvmPageSent, nvmPointer_eq_feed]
  | _ => rfl

theorem pdiWriteByte_target
    {s : Fw τ}
    (hOn : s.pdiOn = true)
    (address : UInt32)
    (data : UInt8) :
    (pdiWriteByte line address data s).2.target =
      line.frames s.target (stsFrames address data) := by
  rw [pdiWriteByte_enabled line hOn, feed_target]

theorem nvmByteSent_target
    {s : Fw τ}
    (hOn : s.pdiOn = true)
    (address : UInt32)
    (data : UInt8)
    (mem : ByteMemory) :
    (nvmByteSent line address data mem s).target =
      line.byteSent address data mem s.target := by
  have hCmd : (nvmCmd line mem.writeCmd s).pdiOn = true := by
    rw [nvmCmd_pdiOn, hOn]
  have hStored :
      (pdiWriteByte line address data
        (nvmCmd line mem.writeCmd s)).2.pdiOn = true := by
    rw [pdiWriteByte_pdiOn, hCmd]
  have hSent :
      (pdiWriteByte line address data
        (nvmCmd line mem.writeCmd s)).2.target =
        line.frames s.target
          (stsFrames nvmCmdReg mem.writeCmd ++
            stsFrames address data) := by
    rw [pdiWriteByte_target line hCmd, nvmCmd,
      pdiWriteByte_target line hOn, ← line.frames_append]
  rw [nvmByteSent, Line.byteSent, line.frames_append, ← hSent]
  cases mem with
  | fuse => rfl
  | lock =>
      simp only [if_true, trigCmdex]
      rw [pdiWriteByte_target line hStored]

theorem nvmPointer_target
    (address : UInt32)
    (s : Fw τ) :
    (nvmPointer line address s).target =
      line.frames s.target (pointerFrames address) := by
  rw [nvmPointer_eq_feed, feed_target]

theorem nvmPointer_pdiOn
    (address : UInt32)
    (s : Fw τ) :
    (nvmPointer line address s).pdiOn = s.pdiOn := by
  rw [nvmPointer_eq_feed, feed_pdiOn]

/- The page buffer erased, and the first wait. -/
theorem nvmPageErased_target
    {s : Fw τ}
    (hOn : s.pdiOn = true)
    (address : UInt32)
    (mem : PagedMemory) :
    (waitNvm line
        (trigCmdex line
          (nvmCmd line mem.eraseBufferCmd
            (nvmPointer line address s)))).2.target =
      line.waited 0xff
        (line.frames s.target
          (pointerFrames address ++
            stsFrames nvmCmdReg mem.eraseBufferCmd ++
            stsFrames nvmCtrlaReg 0x01)) := by
  have hPointed : (nvmPointer line address s).pdiOn = true := by
    rw [nvmPointer_pdiOn, hOn]
  have hCmd :
      (nvmCmd line mem.eraseBufferCmd
        (nvmPointer line address s)).pdiOn = true := by
    rw [nvmCmd_pdiOn, hPointed]
  have hTriggered :
      (trigCmdex line
        (nvmCmd line mem.eraseBufferCmd
          (nvmPointer line address s))).pdiOn = true := by
    rw [trigCmdex_pdiOn, hCmd]
  rw [waitNvm_target line hTriggered, trigCmdex,
    pdiWriteByte_target line hCmd, nvmCmd,
    pdiWriteByte_target line hPointed, nvmPointer_target,
    line.frames_append, line.frames_append]

/- The page buffer loaded, and the write triggered. -/
theorem nvmPageLoaded_target
    {s : Fw τ}
    (hOn : s.pdiOn = true)
    (address : UInt32)
    (data : Ptr)
    (count : UInt16)
    (mem : PagedMemory) :
    (pdiWriteRaw line
        (.array
          [pdiStoreIndirect ||| (ptrDataInc <<< 2), 0x00])
        2
        (nvmPointer line address
          (nvmCmd line mem.eraseWriteCmd
            (pdiWriteBytes line address data count
              (nvmCmd line mem.loadBufferCmd
                s)).2))).target =
      line.frames s.target
        (stsFrames nvmCmdReg mem.loadBufferCmd ++
          streamFrames address count 0x64 ++
          data.bytes s.ram count.toNat ++
          stsFrames nvmCmdReg mem.eraseWriteCmd ++
          pointerFrames address ++ [0x64, 0x00]) := by
  have hCmd :
      (nvmCmd line mem.loadBufferCmd s).pdiOn = true := by
    rw [nvmCmd_pdiOn, hOn]
  have hLoaded :
      (pdiWriteBytes line address data count
        (nvmCmd line mem.loadBufferCmd s)).2.pdiOn = true := by
    rw [pdiWriteBytes_pdiOn, hCmd]
  have hRam :
      (nvmCmd line mem.loadBufferCmd s).ram = s.ram :=
    pdiWriteByte_ram line s nvmCmdReg mem.loadBufferCmd
  have hDummy :
      (Ptr.array
          [pdiStoreIndirect ||| (ptrDataInc <<< 2),
            0x00]).bytes
        (nvmPointer line address
          (nvmCmd line mem.eraseWriteCmd
            (pdiWriteBytes line address data count
              (nvmCmd line mem.loadBufferCmd s)).2)).ram 2 =
        [0x64, 0x00] := rfl
  rw [pdiWriteRaw_target, hDummy, nvmPointer_target,
    nvmCmd, pdiWriteByte_target line hLoaded,
    pdiWriteBytes_enabled line hCmd]
  simp only [pdiWriteRaw_target, feed_target, feed_ram, hRam]
  rw [nvmCmd, pdiWriteByte_target line hOn]
  simp only [← line.frames_append]

theorem nvmPageSent_target
    {s : Fw τ}
    (hOn : s.pdiOn = true)
    (address : UInt32)
    (data : Ptr)
    (count : UInt16)
    (mem : PagedMemory) :
    (nvmPageSent line address data count mem s).target =
      line.pageSent address (data.bytes s.ram count.toNat)
        count mem s.target := by
  have hErased := nvmPageErased_target line hOn address mem
  have hErasedOn :
      (waitNvm line
        (trigCmdex line
          (nvmCmd line mem.eraseBufferCmd
            (nvmPointer line address s)))).2.pdiOn = true := by
    rw [waitNvm_pdiOn, trigCmdex_pdiOn, nvmCmd_pdiOn,
      nvmPointer_pdiOn, hOn]
  have hRam :
      (waitNvm line
        (trigCmdex line
          (nvmCmd line mem.eraseBufferCmd
            (nvmPointer line address s)))).2.ram = s.ram := by
    rw [waitNvm_ram]
    simp only [trigCmdex, nvmCmd, pdiWriteByte_ram]
    rw [nvmPointer_eq_feed, feed_ram]
  have hLoaded :=
    nvmPageLoaded_target line hErasedOn address data count mem
  rw [hErased, hRam] at hLoaded
  exact hLoaded

/- What a write sends, as the target sees it. -/
theorem Call.beforeWait_target
    {s : Fw τ}
    (hOn : s.pdiOn = true)
    (hWrite : c.IsWrite) :
    (c.beforeWait line s).target =
      c.sentTo line (c.buffered s.ram) s.target := by
  cases c with
  | nvmWriteByte address data mem =>
      exact nvmByteSent_target line hOn address data mem
  | nvmPagedWrite address data count mem =>
      exact nvmPageSent_target line hOn address data count mem
  | _ => exact absurd hWrite id

/-
  A write succeeds exactly in an open session on a target
  whose polls end well.
-/
theorem Call.noError_iff
    (hWrite : c.IsWrite) :
    (c.exec line s).1.1 = .noError ↔
      s.pdiOn = true ∧
        line.EndsWell
          (c.sentTo line (c.buffered s.ram) s.target) := by
  rw [Call.exec_eq_wait line s hWrite]
  cases hOn : s.pdiOn with
  | false =>
      have hOff : (c.beforeWait line s).pdiOn = false := by
        rw [Call.beforeWait_pdiOn, hOn]
      rw [waitNvm_disabled line hOff]
      simp
  | true =>
      have hStill : (c.beforeWait line s).pdiOn = true := by
        rw [Call.beforeWait_pdiOn, hOn]
      rw [waitNvm_noError_iff line hStill,
        Call.beforeWait_target line hOn hWrite]
      simp

end Operations


------------------------------------------------------------
-- Calls of the Driver
------------------------------------------------------------

/- A writing call of the driver. -/
inductive WriteCall where
| page (m : AvrMem) (addr nBytes : UInt32)
| byte
    (m : AvrMem) (behind : UInt8) (addr : UInt32) (value : UInt8)

namespace WriteCall

def exec
    {ℓ : Type}
    (usb : Libusb ℓ) :
    WriteCall → ℓ → Int × ℓ
| .page m addr nBytes => lucaxPagedWrite usb m addr nBytes
| .byte m behind addr value =>
    lucaxWriteByte usb m behind addr value

/- The operation it asks for, unless it refuses the memory. -/
def asked : WriteCall → Option Call
| .page m addr nBytes =>
    m.pagedType.map fun mem =>
      .nvmPagedWrite (m.address addr) (.buffer 0)
        (clamp nBytes.toUInt16) (pagedMemory mem.toUInt8)
| .byte m behind addr value =>
    (m.byteType behind).map fun memType =>
      .nvmWriteByte (m.address addr) value
        (byteMemory memType.toUInt8)

/-
  The packets of a page arrive in time, and `bytes` is what
  the buffer then holds.
-/
def Arrives
    (traffic : Traffic η)
    (sent : World τ (Timed η)) :
    WriteCall → List UInt8 → Prop
| .page _ _ nBytes, bytes =>
    let count := clamp nBytes.toUInt16
    ∃ chunks taken freed,
      pageArriving (timedLink traffic) sent.lastOp wireFuel
          count.toNat count.toNat sent.link.taken =
        .complete chunks taken freed ∧
      bytes =
        (Ptr.buffer 0).bytes
          (sent.fw.storeChunks 0 chunks).ram count.toNat
| .byte _ _ _ _, bytes => bytes = []

end WriteCall

section Writes

variable (line : Line τ) (traffic : Traffic η)

/-
  A submitted page: the firmware makes the write it was asked
  for with what arrived, or no call.
-/
theorem timedSettle_writePage
    (sent : World τ (Timed η))
    (mem : UInt16)
    (nBytes : UInt32)
    (hSetup :
      sent.link.wire.setup = some (pageRequest mem nBytes))
    (hBank : sent.outBank = none)
    (hHung : sent.hung = false) :
    let count := clamp nBytes.toUInt16
    let after := timedSettle line traffic sent
    ((∃ chunks taken freed,
          pageArriving (timedLink traffic) sent.lastOp wireFuel
              count.toNat count.toNat sent.link.taken =
            .complete chunks taken freed ∧
          after.calls =
            (World.call line
              (.nvmPagedWrite
                (endpointRead32LE sent.link.wire.dataOut)
                (.buffer 0) count (pagedMemory mem.toUInt8))
              (sent.withFw
                (sent.fw.storeChunks 0 chunks))).2.calls) ∨
      (∀ chunks taken freed,
          pageArriving (timedLink traffic) sent.lastOp wireFuel
              count.toNat count.toNat sent.link.taken ≠
            .complete chunks taken freed) ∧
        after.calls = sent.calls) := by
  intro count after
  have hKind :
      (timedStarted (pageRequest mem nBytes)
        sent).request.kind = some .pdiNvmWritePage :=
    (outRequest_kind _ _ _ _).trans (by decide)
  have hArriving :=
    lucaxPdiNvmWritePage_arriving line wireFuel
      (timedStarted (pageRequest mem nBytes) sent)
      (usbTask_turns line (timedLink traffic) sent.lastOp
        wireFuel 0)
      hBank hHung
  have hAfter :
      after =
        lucaxPdiNvmWritePage line (timedLink traffic)
          (usbTask line (timedLink traffic) wireFuel 1) wireFuel
          (timedStarted (pageRequest mem nBytes) sent) := by
    simp only [after]
    rw [timedSettle_submitted line traffic hSetup,
      eventUsbDeviceControlRequest, hKind]
  have hEnd :
      pageEnd (timedLink traffic) wireFuel
          (timedStarted (pageRequest mem nBytes) sent) =
        pageArriving (timedLink traffic) sent.lastOp wireFuel
          count.toNat count.toNat sent.link.taken := rfl
  have hQuiet :=
    pageArriving_timed_ne_acts traffic sent.lastOp wireFuel
      count.toNat count.toNat sent.link.taken rfl
  rw [hEnd, ← hAfter] at hArriving
  revert hArriving hQuiet
  cases pageArriving (timedLink traffic) sent.lastOp wireFuel
      count.toNat count.toNat sent.link.taken with
  | acts => exact fun _ hNot => absurd rfl hNot
  | endless =>
      intro hStuck _hQuiet
      exact Or.inr ⟨by simp, hStuck.2.1⟩
  | givenUp chunks taken freed =>
      intro hGiven _hQuiet
      refine Or.inr ⟨by simp, ?_⟩
      simp only at hGiven
      rw [hGiven]
      rfl
  | complete chunks taken freed =>
      intro hWritten _hQuiet
      rcases hWritten with ⟨packet, hPacket, hWritten⟩
      have hData : sent.link.wire.dataOut = packet :=
        Option.some.inj hPacket
      refine Or.inl ⟨chunks, taken, freed, rfl, ?_⟩
      rw [hWritten, hData]
      rfl

/- A submitted byte, which needs no packet. -/
theorem timedSettle_writeByte
    (sent : World τ (Timed η))
    (memType : UInt16)
    (value : UInt8)
    (hSetup :
      sent.link.wire.setup =
        some (writeByteRequest memType value))
    (hHung : sent.hung = false) :
    (timedSettle line traffic sent).calls =
      (World.call line
        (.nvmWriteByte (endpointRead32LE sent.link.wire.dataOut)
          value (byteMemory memType.toUInt8)) sent).2.calls := by
  have hKind :
      (timedStarted (writeByteRequest memType value)
        sent).request.kind = some .pdiNvmWriteByte :=
    (outRequest_kind _ _ _ _).trans (by decide)
  have hReceived :
      receiveByteAddress (timedLink traffic)
          (timedStarted (writeByteRequest memType value) sent) =
        (some (endpointRead32LE sent.link.wire.dataOut),
          timedStarted (writeByteRequest memType value) sent) := by
    have hStays :
        (timedStarted (writeByteRequest memType value)
          sent).hung = false := hHung
    have hAwait :
        awaitControlOut (timedLink traffic)
            (timedStarted (writeByteRequest memType value)
              sent) =
          (some sent.link.wire.dataOut,
            timedStarted (writeByteRequest memType value)
              sent) := rfl
    have hStatus :
        endpointClearStatusStage (timedLink traffic)
            (timedStarted (writeByteRequest memType value)
              sent) =
          timedStarted (writeByteRequest memType value) sent :=
      rfl
    simp only [receiveByteAddress, hAwait, hStatus, hStays,
      Bool.false_eq_true, if_false]
  have hValue : value.toUInt16.toUInt8 = value := by simp
  rw [timedSettle_submitted line traffic hSetup,
    eventUsbDeviceControlRequest, hKind]
  simp only [lucaxPdiNvmWriteByte, hReceived]
  simp only [timedStarted, World.take, writeByteRequest,
    outRequest, hValue]
  rfl

/-
  A page write that returned 0 has submitted its request; what
  it moved of the page is in the queue.
-/
theorem pagedWrite_timed
    {d : World τ (Timed η)}
    (hFree : d.Free)
    {m : AvrMem}
    {addr nBytes : UInt32}
    (hReturned :
      (lucaxPagedWrite (timedUsb line traffic) m addr nBytes
        d).1 = 0) :
    ∃ mem timing packets,
      m.pagedType = some mem ∧
        (lucaxPagedWrite (timedUsb line traffic) m addr nBytes
            d).2 =
          timedSubmit (pageRequest mem nBytes)
            (addressBytes (m.address addr))
            (d.withLink (d.link.sent timing packets)) := by
  have hRefused : (-1 : Int) ≠ 0 := by decide
  rw [lucaxPagedWrite] at hReturned ⊢
  cases hMem : m.pagedType with
  | none =>
      rw [hMem] at hReturned
      exact absurd hReturned hRefused
  | some mem =>
      rw [hMem] at hReturned
      simp only at hReturned ⊢
      rw [← pageRequest] at hReturned ⊢
      by_cases hFailed :
          ((timedUsb line traffic).controlOut d
            (pageRequest mem nBytes)
            (addressBytes (m.address addr))).1 < 0
      · rw [if_pos hFailed] at hReturned
        exact absurd hReturned hRefused
      · rw [if_neg hFailed,
          timedUsb_controlOut line traffic hFree.setup
            (Int.not_lt.mp hFailed)]
        rcases writeLoop_timed line traffic m addr.toNat
            nBytes.toNat nBytes.toNat 0
            (timedSubmit (pageRequest mem nBytes)
              (addressBytes (m.address addr))
              (d.withLink
                { d.link with
                  timing :=
                    (traffic.control d.link.timing).2 })) with
          ⟨timing, packets, hLoop⟩
        exact ⟨mem, timing, packets, rfl, hLoop⟩

/- A byte write that returned 0 has submitted its request. -/
theorem writeByte_timed
    {d : World τ (Timed η)}
    (hFree : d.Free)
    {m : AvrMem}
    {behind : UInt8}
    {addr : UInt32}
    {value : UInt8}
    (hReturned :
      (lucaxWriteByte (timedUsb line traffic) m behind addr value
        d).1 = 0) :
    ∃ memType timing packets,
      m.byteType behind = some memType ∧
        (lucaxWriteByte (timedUsb line traffic) m behind addr
            value d).2 =
          timedSubmit (writeByteRequest memType value)
            (addressBytes (m.address addr))
            (d.withLink (d.link.sent timing packets)) := by
  have hRefused : (-1 : Int) ≠ 0 := by decide
  rw [lucaxWriteByte] at hReturned ⊢
  cases hMem : m.byteType behind with
  | none =>
      rw [hMem] at hReturned
      exact absurd hReturned hRefused
  | some memType =>
      rw [hMem] at hReturned
      simp only at hReturned ⊢
      rw [← writeByteRequest] at hReturned ⊢
      by_cases hFailed :
          ((timedUsb line traffic).controlOut d
            (writeByteRequest memType value)
            (addressBytes (m.address addr))).1 < 0
      · rw [if_pos hFailed] at hReturned
        exact absurd hReturned hRefused
      · rw [if_neg hFailed,
          timedUsb_controlOut line traffic hFree.setup
            (Int.not_lt.mp hFailed)]
        refine ⟨memType, (traffic.control d.link.timing).2, [],
          rfl, ?_⟩
        simp [Timed.sent]

/-
  After a call that returned 0, one turn of the main loop
  makes the write it asked for with what arrived, or none.
-/
theorem WriteCall.calls_of_returned
    {d : World τ (Timed η)}
    (hFree : d.Free)
    {call : WriteCall}
    (hReturned :
      (call.exec (timedUsb line traffic) d).1 = 0) :
    let sent := (call.exec (timedUsb line traffic) d).2
    let after := timedSettle line traffic sent
    ∃ c,
      call.asked = some c ∧ c.IsWrite ∧
        ((∃ s : Fw τ,
            call.Arrives traffic sent (c.buffered s.ram) ∧
              s.pdiOn = d.fw.pdiOn ∧
              s.target = d.fw.target ∧
              after.calls =
                d.calls ++ [(c, (c.exec line s).1.1)]) ∨
          (∀ bytes, ¬ call.Arrives traffic sent bytes) ∧
            after.calls = d.calls) := by
  cases call with
  | page m addr nBytes =>
      rcases pagedWrite_timed line traffic hFree hReturned with
        ⟨mem, timing, packets, hMem, hSent⟩
      intro sent after
      have hHere :
          sent =
            timedSubmit (pageRequest mem nBytes)
              (addressBytes (m.address addr))
              (d.withLink (d.link.sent timing packets)) :=
        hSent
      have hData :
          endpointRead32LE sent.link.wire.dataOut =
            m.address addr := by
        rw [hHere]
        exact endpointRead32LE_addressBytes _
      have hSettled :=
        timedSettle_writePage line traffic sent mem nBytes
          (by rw [hHere]; rfl)
          (by rw [hHere]; exact hFree.outBank)
          (by rw [hHere]; exact hFree.hung)
      rw [hData] at hSettled
      refine
        ⟨.nvmPagedWrite (m.address addr) (.buffer 0)
            (clamp nBytes.toUInt16) (pagedMemory mem.toUInt8),
          by rw [asked, hMem]; rfl, trivial, ?_⟩
      rcases hSettled with
        ⟨chunks, taken, freed, hPage, hCalls⟩ | ⟨hNone, hCalls⟩
      · refine Or.inl ⟨sent.fw.storeChunks 0 chunks,
          ⟨chunks, taken, freed, hPage, rfl⟩, ?_, ?_, ?_⟩
        · rw [storeChunks_pdiOn, hHere]
          rfl
        · rw [storeChunks_target, hHere]
          rfl
        · refine hCalls.trans ?_
          rw [hHere]
          rfl
      · refine Or.inr ⟨?_, ?_⟩
        · rintro bytes ⟨chunks, taken, freed, hPage, _hBytes⟩
          exact hNone chunks taken freed hPage
        · refine hCalls.trans ?_
          rw [hHere]
          rfl
  | byte m behind addr value =>
      rcases writeByte_timed line traffic hFree hReturned with
        ⟨memType, timing, packets, hMem, hSent⟩
      intro sent after
      have hHere :
          sent =
            timedSubmit (writeByteRequest memType value)
              (addressBytes (m.address addr))
              (d.withLink (d.link.sent timing packets)) :=
        hSent
      have hData :
          endpointRead32LE sent.link.wire.dataOut =
            m.address addr := by
        rw [hHere]
        exact endpointRead32LE_addressBytes _
      have hCalls :=
        timedSettle_writeByte line traffic sent memType value
          (by rw [hHere]; rfl)
          (by rw [hHere]; exact hFree.hung)
      rw [hData] at hCalls
      refine
        ⟨.nvmWriteByte (m.address addr) value
            (byteMemory memType.toUInt8),
          by rw [asked, hMem]; rfl, trivial,
          Or.inl ⟨sent.fw, rfl, ?_, ?_, ?_⟩⟩
      · rw [hHere]
        rfl
      · rw [hHere]
        rfl
      · refine hCalls.trans ?_
        rw [hHere]
        rfl

/- What arrives is one list of bytes. -/
theorem WriteCall.Arrives.unique
    {traffic : Traffic η}
    {sent : World τ (Timed η)}
    {call : WriteCall}
    {bytes other : List UInt8}
    (hBytes : call.Arrives traffic sent bytes)
    (hOther : call.Arrives traffic sent other) :
    bytes = other := by
  cases call with
  | page m addr nBytes =>
      rcases hBytes with ⟨chunks, taken, freed, hPage, hHere⟩
      rcases hOther with ⟨chunks', taken', freed', hSame, hThere⟩
      rw [hPage] at hSame
      injection hSame with hChunks
      rw [hHere, hThere, hChunks]
  | byte m behind addr value =>
      exact Eq.trans hBytes (Eq.symm hOther)

/-
  The page on its way alone: it arrives exactly when each of
  its packets is there in time.
-/
theorem WriteCall.arrives_page_iff
    {sent : World τ (Timed η)}
    {m : AvrMem}
    {addr nBytes : UInt32}
    {later : List (List UInt8)}
    (hQueue :
      sent.link.wire.bulkOut =
        Packets.split vendorIoEpsize
            (m.bytes addr.toNat nBytes.toNat) ++
          later)
    (bytes : List UInt8) :
    (WriteCall.page m addr nBytes).Arrives traffic sent bytes ↔
      traffic.InTime
          (packetCount (clamp nBytes.toUInt16).toNat)
          sent.link.timing ∧
        bytes =
          m.bytes addr.toNat (clamp nBytes.toUInt16).toNat := by
  have hLength :
      (m.bytes addr.toNat nBytes.toNat).length =
        nBytes.toNat :=
    AvrMem.bytes_length _ _ _
  have hClamp := clamp_toUInt16_le nBytes
  have hPage :=
    pageArriving_timed (τ := τ) traffic sent.lastOp
      (clamp nBytes.toUInt16).toNat
      (clamp nBytes.toUInt16).toNat
      (m.bytes addr.toNat nBytes.toNat) later sent.link.taken
      (Nat.le_refl _) (by omega) hQueue
  rcases hPage with
    ⟨hTime, chunks, freed, hEnd, hStored⟩ |
    ⟨hLate, chunks, freed, hEnd⟩
  · have hArrives :
        (WriteCall.page m addr nBytes).Arrives traffic sent
          (m.bytes addr.toNat
            (clamp nBytes.toUInt16).toNat) := by
      refine ⟨chunks, [], freed, hEnd, ?_⟩
      have hTaken :
          (m.bytes addr.toNat nBytes.toNat).take
              (clamp nBytes.toUInt16).toNat =
            m.bytes addr.toNat (clamp nBytes.toUInt16).toNat := by
        have hParts :=
          m.bytes_add addr.toNat (clamp nBytes.toUInt16).toNat
            (nBytes.toNat - (clamp nBytes.toUInt16).toNat)
        rw [Nat.add_sub_cancel' hClamp] at hParts
        rw [hParts]
        apply List.take_left'
        exact AvrMem.bytes_length _ _ _
      have hRead :=
        Pages.read_put 0
          (m.bytes addr.toNat (clamp nBytes.toUInt16).toNat)
          sent.fw.ram
      rw [AvrMem.bytes_length] at hRead
      rw [hStored, Ptr.bytes_buffer, storeBytes_ram, hTaken,
        hRead]
    constructor
    · intro hBytes
      exact ⟨hTime, hBytes.unique hArrives⟩
    · rintro ⟨_hTime, hEq⟩
      subst hEq
      exact hArrives
  · constructor
    · rintro ⟨chunks', taken, freed', hComplete, _hBytes⟩
      rw [hEnd] at hComplete
      cases hComplete
    · rintro ⟨hTime, _hEq⟩
      exact absurd hTime hLate

/-
  After a writing call that returned 0 and the turn of the
  main loop behind it, the write it asked for has been made
  with `NO_ERROR` exactly when its packets arrived in time,
  the session was open and the polls of the target ended
  well.  Where the page is alone on the endpoint, its packets
  arrive when each wait for one finds it.
-/
theorem writeSucceeds_iff
    {d : World τ (Timed η)}
    (hFree : d.Free)
    (call : WriteCall)
    (hReturned :
      (call.exec (timedUsb line traffic) d).1 = 0) :
    let sent := (call.exec (timedUsb line traffic) d).2
    let after := timedSettle line traffic sent
    ∃ c,
      call.asked = some c ∧
        (after.calls = d.calls ++ [(c, .noError)] ↔
          ∃ bytes,
            call.Arrives traffic sent bytes ∧
              d.fw.pdiOn = true ∧
              line.EndsWell
                (c.sentTo line bytes d.fw.target)) ∧
        ∀ m addr nBytes later,
          call = .page m addr nBytes →
            sent.link.wire.bulkOut =
                Packets.split vendorIoEpsize
                    (m.bytes addr.toNat nBytes.toNat) ++
                  later →
              ∀ bytes,
                call.Arrives traffic sent bytes ↔
                  traffic.InTime
                      (packetCount (clamp nBytes.toUInt16).toNat)
                      sent.link.timing ∧
                    bytes =
                      m.bytes addr.toNat
                        (clamp nBytes.toUInt16).toNat := by
  intro sent after
  rcases call.calls_of_returned line traffic hFree hReturned with
    ⟨c, hAsked, hWrite, hMade⟩
  refine ⟨c, hAsked, ?_, ?_⟩
  · rcases hMade with
      ⟨s, hArrives, hOn, hTarget, hCalls⟩ | ⟨hNone, hCalls⟩
    · have hResult := Call.noError_iff line s hWrite
      rw [hOn, hTarget] at hResult
      have hLogged :
          after.calls = d.calls ++ [(c, .noError)] ↔
            (c.exec line s).1.1 = .noError := by
        have hHere : after.calls = _ := hCalls
        rw [hHere]
        simp
      rw [hLogged, hResult]
      constructor
      · rintro ⟨hOpen, hEnds⟩
        exact ⟨_, hArrives, hOpen, hEnds⟩
      · rintro ⟨bytes, hBytes, hOpen, hEnds⟩
        rw [hBytes.unique hArrives] at hEnds
        exact ⟨hOpen, hEnds⟩
    · constructor
      · intro hLogged
        have hHere : after.calls = d.calls := hCalls
        rw [hHere] at hLogged
        simp at hLogged
      · rintro ⟨bytes, hBytes, _hRest⟩
        exact absurd hBytes (hNone bytes)
  · intro m addr nBytes later hCall hQueue bytes
    subst hCall
    exact WriteCall.arrives_page_iff traffic hQueue bytes

end Writes

/- Every transfer goes through and every packet is in time. -/
def promptTraffic : Traffic Unit where
  control timing := (true, timing)
  bulk timing n := ((0, n), timing)
  inTime timing := (true, timing)

/- A page of one byte for the start of the flash. -/
def onePage : AvrMem where
  desc := flashDesc
  offset := 0x00800000
  buf := fun _ => 0xAA

/- The device after `lucax_init` on a target that replies so. -/
def afterInit
    (replies : List (Option UInt8)) :
    World (List (Option UInt8)) (Timed Unit) :=
  ((HostCall.init true 250 0 0).exec
    (timedUsb scripted promptTraffic)
    (World.powerOn replies ⟨Wire.quiet, ()⟩)).2

/- A page written and waited for. -/
theorem writeSucceeds_iff_onePage :
    let d := afterInit [some 2, some 0, some 0]
    let usb := timedUsb scripted promptTraffic
    let out := (WriteCall.page onePage 0 1).exec usb d
    out.1 = 0 ∧
      (timedSettle scripted promptTraffic out.2).calls =
        d.calls ++
          [(.nvmPagedWrite 0x00800000 (.buffer 0) 1 .flash,
            .noError)] := by
  intro d usb out
  have hReturned : out.1 = 0 := by decide
  have hFree : d.Free :=
    ⟨by decide, by decide, by decide⟩
  rcases writeSucceeds_iff scripted promptTraffic hFree
      (.page onePage 0 1) hReturned with
    ⟨c, hAsked, hIff, hPage⟩
  have hCall :
      c = .nvmPagedWrite 0x00800000 (.buffer 0) 1 .flash :=
    Option.some.inj (hAsked.symm.trans (by decide))
  subst hCall
  have hSplit :
      Packets.split vendorIoEpsize
          (onePage.bytes (UInt32.toNat 0) (UInt32.toNat 1)) =
        [[0xAA]] := by
    rw [Packets.split_of_ne_nil (by decide) (by decide)]
    simp [onePage, AvrMem.bytes, vendorIoEpsize,
      Packets.split_nil]
  have hQueue :
      out.2.link.wire.bulkOut = [[0xAA]] ++ [] := by
    decide
  rw [← hSplit] at hQueue
  refine ⟨hReturned, hIff.mpr ⟨[0xAA], ?_, by decide, ?_⟩⟩
  · exact (hPage onePage 0 1 [] rfl hQueue [0xAA]).mpr
      ⟨by decide, by decide⟩
  · refine Or.inl ⟨0, by decide, ?_, by omega⟩
    rw [Line.ClearAt]
    decide

/-
  After a `lucax_init` that failed, `lucax_paged_write`
  returns 0 and `nvm_paged_write` returned `PDI_DISABLED`.
-/
theorem pagedWrite_disabled_returns_zero :
    let d := afterInit []
    let usb := timedUsb scripted promptTraffic
    let out := (WriteCall.page onePage 0 1).exec usb d
    ((HostCall.init true 250 0 0).exec usb
        (World.powerOn [] ⟨Wire.quiet, ()⟩)).1 = -1 ∧
      out.1 = 0 ∧
      (timedSettle scripted promptTraffic out.2).calls =
        [(.nvmPagedWrite 0x00800000 (.buffer 0) 1 .flash,
          .pdiDisabled)] := by
  decide

end Lucax
