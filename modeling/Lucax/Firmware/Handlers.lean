import Lucax.Firmware.Usb

/-
  The request handlers and the main loop (Lucax.c), with the
  part of LUFA that dispatches to them.

  Key definitions include:
    * `lucaxPdiNvmRead`, `lucaxPdiNvmWritePage`
    * `lucaxPdiNvmWriteByte`
    * `lucaxPdiRawRead`, `lucaxPdiRawWrite`
    * `Request.kind`, `eventUsbDeviceControlRequest`
    * `usbTask`, `mainLoop`
-/

------------------------------------------------------------
-- Requests
------------------------------------------------------------

namespace Lucax

/- Lucax.h: control requests. -/
def lucaxGetDescriptorReq : UInt8 := 33
def lucaxReleaseInterfaceReq : UInt8 := 34
def lucaxPdiInitReq : UInt8 := 35
def lucaxPdiNvmReadReq : UInt8 := 36
def lucaxPdiNvmWriteByteReq : UInt8 := 38
def lucaxPdiNvmWritePageReq : UInt8 := 39
def lucaxPdiRawReadReq : UInt8 := 40
def lucaxPdiRawWriteReq : UInt8 := 41
def lucaxReportErrorReq : UInt8 := 42
def lucaxPdiChipEraseReq : UInt8 := 43

/- The handler a request is dispatched to. -/
inductive RequestKind where
| getDescriptor
| reportError
| releaseInterface
| pdiInit
| pdiChipErase
| pdiNvmRead
| pdiNvmWritePage
| pdiNvmWriteByte
| pdiRawRead
| pdiRawWrite
deriving DecidableEq, Repr

/- `bmRequestType & REQDIR_DEVICETOHOST` -/
def Request.toHost (r : Request) : Bool :=
  r.bmRequestType &&& ((1 : UInt8) <<< 7) ≠ 0

/-
  The `switch` of `EVENT_USB_Device_ControlRequest`.  What it
  does not take is left to LUFA, which answers or stalls it.
-/
def Request.kind (r : Request) : Option RequestKind :=
  if r.bRequest = lucaxGetDescriptorReq then
    if r.toHost then some .getDescriptor else none
  else if r.bRequest = lucaxReportErrorReq then
    if r.toHost then some .reportError else none
  else if r.bRequest = lucaxReleaseInterfaceReq then
    if r.toHost then none else some .releaseInterface
  else if r.bRequest = lucaxPdiInitReq then
    if r.toHost then some .pdiInit else none
  else if r.bRequest = lucaxPdiChipEraseReq then
    if r.toHost then some .pdiChipErase else none
  else if r.bRequest = lucaxPdiNvmReadReq then
    if r.toHost then none else some .pdiNvmRead
  else if r.bRequest = lucaxPdiNvmWritePageReq then
    if r.toHost then none else some .pdiNvmWritePage
  else if r.bRequest = lucaxPdiNvmWriteByteReq then
    if r.toHost then none else some .pdiNvmWriteByte
  else if r.bRequest = lucaxPdiRawReadReq then
    if r.toHost then some .pdiRawRead else none
  else if r.bRequest = lucaxPdiRawWriteReq then
    if r.toHost then none else some .pdiRawWrite
  else none

/- `(mem == FLASH) ? .. : ..` on an `unsigned char`. -/
def pagedMemory (memoryType : UInt8) : PagedMemory :=
  if memoryType = 0 then .flash else .eeprom

/- `(mem == LOCK) ? .. : ..` on an `unsigned char`. -/
def byteMemory (memoryType : UInt8) : ByteMemory :=
  if memoryType = 1 then .lock else .fuse

/- `if(count > MAX_BUFFER) count = MAX_BUFFER;` -/
def clamp (count : UInt16) : UInt16 :=
  if count > maxBuffer then maxBuffer else count

/- A clamped count fits the buffer. -/
theorem clamp_le
    (count : UInt16) :
    (clamp count).toNat ≤ 1024 := by
  unfold clamp
  split
  · decide
  · rename_i hSmall
    have hLe : count ≤ maxBuffer := UInt16.not_lt.mp hSmall
    exact UInt16.le_iff_toNat_le.mp hLe

/- A raw transfer is no longer than the buffer. -/
def Request.InBounds (r : Request) : Prop :=
  r.kind = some .pdiRawRead ∨ r.kind = some .pdiRawWrite →
    r.wLength ≤ maxBuffer

instance : DecidablePred Request.InBounds := fun r => by
  unfold Request.InBounds
  infer_instance

/- `wIndex << 16 | wValue` -/
def Request.rawAddress (r : Request) : UInt32 :=
  (r.wIndex.toUInt32 <<< 16) ||| r.wValue.toUInt32

------------------------------------------------------------
-- Handlers
------------------------------------------------------------

section Handlers

variable {τ η : Type} (line : Line τ) (link : Link η)

def lucaxGetDescriptor (w : World τ η) : World τ η :=
  -- bit 0: support PDI
  endpointClearStatusStage link (clearControlIn link [0x01] w)

def lucaxReportError (w : World τ η) : World τ η :=
  endpointClearStatusStage link
    (clearControlIn link [w.lastOp.toByte] w)

def lucaxReleaseInterface (w : World τ η) : World τ η :=
  let w := clearControlIn link [] w
  { w.withFw (pdiExit line w.fw) with lastOp := .noError }

def lucaxPdiInit (w : World τ η) : World τ η :=
  let out := pdiInit line w.request.wValue w.fw
  lucaxReportError link
    { w.withFw out.2 with lastOp := out.1 }

def lucaxPdiChipErase (w : World τ η) : World τ η :=
  lucaxReportError link (w.call line .nvmChipErase).2

/-
  The transmit loop of `lucax_pdi_nvm_read`: 64 bytes a
  packet, the bounded wait for the IN bank not acted on.  The
  first number bounds the turns; `count` of them are enough.
-/
def sendChunks
    (usbTask : World τ η → World τ η)
    (fuel : Nat) :
    Nat → Nat → Nat → World τ η → World τ η
| _, 0, _, w => w
| 0, _ + 1, _, w => w.hang
| n + 1, count + 1, done, w =>
    let packet := min (count + 1) vendorIoEpsize
    let w := (waitInReady link w).2
    let w :=
      endpointWriteStreamLE link usbTask fuel done packet w
    w.andThen fun w =>
      sendChunks usbTask fuel n (count + 1 - packet)
        (done + packet) (clearIn link w)

def lucaxPdiNvmRead
    (usbTask : World τ η → World τ η)
    (fuel : Nat)
    (w : World τ η) : World τ η :=
  let count := w.request.wIndex
  match awaitControlOut link w with
  | (none, w) => w
  | (some packet, w) =>
      let address := endpointRead32LE packet
      (endpointClearStatusStage link w).andThen fun w =>
        if count = 1 then
          let out := w.call line (.nvmReadByte address)
          clearIn link
            { out.2 with inBank := out.2.inBank ++ [out.1] }
        else
          let count := clamp count
          let w :=
            (w.call line (.nvmReadBytes address 0 count)).2
          sendChunks link usbTask fuel count.toNat
            count.toNat 0 w

/-
  The receive loop of `lucax_pdi_nvm_write_page`.  `none` is
  the return after a packet that did not arrive in time,
  `some done` the end of the loop.
-/
def receiveChunks
    (usbTask : World τ η → World τ η)
    (fuel : Nat) :
    Nat → Nat → Nat → World τ η → Option Nat × World τ η
| _, 0, done, w => (some done, w)
| 0, _ + 1, _, w => (none, w.hang)
| n + 1, count + 1, done, w =>
    let packet := min (count + 1) vendorIoEpsize
    match waitOutReceived link w with
    | (false, w) => (none, w)
    | (true, w) =>
        let w :=
          endpointReadStreamLE link usbTask fuel done packet w
        if w.hung then (none, w) else
        receiveChunks usbTask fuel n (count + 1 - packet)
          (done + packet) (clearOut w)

/-
  `lucax_pdi_nvm_write_page` up to the page write: the
  address and the number of bytes received, unless the
  handler ends before.
-/
def receivePage
    (usbTask : World τ η → World τ η)
    (fuel : Nat)
    (w : World τ η) :
    Option (UInt32 × Nat) × World τ η :=
  let count := clamp w.request.wIndex
  match awaitControlOut link w with
  | (none, w) => (none, w)
  | (some packet, w) =>
      let address := endpointRead32LE packet
      let w := endpointClearStatusStage link w
      if w.hung then (none, w) else
      match
        receiveChunks link usbTask fuel count.toNat
          count.toNat 0 w with
      | (none, w) => (none, w)
      | (some done, w) => (some (address, done), w)

def lucaxPdiNvmWritePage
    (usbTask : World τ η → World τ η)
    (fuel : Nat)
    (w : World τ η) : World τ η :=
  let memoryType := w.request.wValue.toUInt8
  match receivePage link usbTask fuel w with
  | (none, w) => w
  | (some (address, done), w) =>
      (w.call line
        (.nvmPagedWrite address (.buffer 0)
          (UInt16.ofNat done) (pagedMemory memoryType))).2

/- `lucax_pdi_nvm_write_byte` up to the byte write. -/
def receiveByteAddress
    (w : World τ η) : Option UInt32 × World τ η :=
  match awaitControlOut link w with
  | (none, w) => (none, w)
  | (some packet, w) =>
      let w := endpointClearStatusStage link w
      if w.hung then (none, w) else
      (some (endpointRead32LE packet), w)

def lucaxPdiNvmWriteByte (w : World τ η) : World τ η :=
  let data := w.request.wIndex.toUInt8
  let memoryType := w.request.wValue.toUInt8
  match receiveByteAddress link w with
  | (none, w) => w
  | (some address, w) =>
      (w.call line
        (.nvmWriteByte address data
          (byteMemory memoryType))).2

def lucaxPdiRawRead
    (fuel : Nat)
    (w : World τ η) : World τ η :=
  let address := w.request.rawAddress
  let length := w.request.wLength
  let w := (w.call line (.pdiReadBytes address 0 length)).2
  (endpointWriteControlStreamLE link fuel 0 length.toNat
    w).andThen (endpointClearStatusStage link)

def lucaxPdiRawWrite
    (fuel : Nat)
    (w : World τ η) : World τ η :=
  let address := w.request.rawAddress
  let length := w.request.wLength
  ((endpointReadControlStreamLE link fuel 0 length.toNat
    w).andThen (endpointClearStatusStage link)).andThen
    fun w =>
      (w.call line
        (.pdiWriteBytes address (.buffer 0) length)).2

------------------------------------------------------------
-- Dispatch
------------------------------------------------------------

def eventUsbDeviceControlRequest
    (usbTask : World τ η → World τ η)
    (fuel : Nat)
    (w : World τ η) : World τ η :=
  match w.request.kind with
  | none => w
  | some .getDescriptor => lucaxGetDescriptor link w
  | some .reportError => lucaxReportError link w
  | some .releaseInterface =>
      lucaxReleaseInterface line link w
  | some .pdiInit => lucaxPdiInit line link w
  | some .pdiChipErase => lucaxPdiChipErase line link w
  | some .pdiNvmRead =>
      lucaxPdiNvmRead line link usbTask fuel w
  | some .pdiNvmWritePage =>
      lucaxPdiNvmWritePage line link usbTask fuel w
  | some .pdiNvmWriteByte =>
      lucaxPdiNvmWriteByte line link w
  | some .pdiRawRead => lucaxPdiRawRead line link fuel w
  | some .pdiRawWrite => lucaxPdiRawWrite line link fuel w

/- Take a request into `USB_ControlRequest`. -/
def World.take
    (w : World τ η)
    (r : Request) : World τ η :=
  { w with request := r, handled := w.handled ++ [r] }

/-
  `USB_USBTask`, which the bulk streams enter again while a
  handler runs; `depth` bounds how often it does so within
  itself.
-/
def usbTask
    (fuel : Nat) :
    Nat → World τ η → World τ η
| 0, w => w.hang
| depth + 1, w =>
    match link.setup w.link with
    | (none, host) => w.withLink host
    | (some r, host) =>
        eventUsbDeviceControlRequest line link
          (usbTask fuel depth) fuel ((w.withLink host).take r)

/- `n` turns of the main loop. -/
def mainLoop
    (fuel depth : Nat) :
    Nat → World τ η → World τ η
| 0, w => w
| n + 1, w =>
    (usbTask line link fuel depth w).andThen
      (mainLoop fuel depth n)

@[simp] theorem mainLoop_one
    (fuel depth : Nat)
    (w : World τ η) :
    mainLoop line link fuel depth 1 w =
      usbTask line link fuel depth w := by
  simp [mainLoop, World.andThen]

/- A task that finds no request does nothing. -/
theorem usbTask_none
    (fuel depth : Nat)
    (w : World τ η)
    (host : η)
    (hNone : link.setup w.link = (none, host)) :
    usbTask line link fuel (depth + 1) w = w.withLink host := by
  rw [usbTask, hNone]

/- A task that finds a request dispatches it. -/
theorem usbTask_setup
    (fuel depth : Nat)
    {w : World τ η}
    {r : Request}
    {host : η}
    (hSetup : link.setup w.link = (some r, host)) :
    usbTask line link fuel (depth + 1) w =
      eventUsbDeviceControlRequest line link
        (usbTask line link fuel depth) fuel
        ((w.withLink host).take r) := by
  rw [usbTask, hSetup]

end Handlers

end Lucax
