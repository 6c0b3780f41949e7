import Lucax.Driver.Nvm

/-
  The USB device controller as the request handlers use it,
  and the LUFA stream functions they call.

  The other side of the cable is an arbitrary `Link`: it
  decides which requests and packets arrive and which waits
  end.

  Key definitions include:
    * `Request`, `Link`, `World`
    * `World.hang`, `World.andThen`, `World.call`
    * `rwStream`
    * `endpointWriteStreamLE`, `endpointReadStreamLE`
    * `endpointReadControlStreamLE`
    * `endpointWriteControlStreamLE`
-/

------------------------------------------------------------
-- The Link
------------------------------------------------------------

namespace Lucax

/- LUFA: `USB_Request_Header_t`. -/
structure Request where
  bmRequestType : UInt8
  bRequest : UInt8
  wValue : UInt16
  wIndex : UInt16
  wLength : UInt16
deriving DecidableEq, Repr

/-
  One turn of a control stream loop.  `stop` is a lost device
  state or a new SETUP, which end the loop; `never` is a loop
  that turns for ever.
-/
inductive OutTurn where
| packet (bytes : List UInt8)
| stop
| never
deriving DecidableEq, Repr

inductive InTurn where
| ready
| out
| stop
| never
deriving DecidableEq, Repr

/-
  What the firmware observes of the host and the cable:

    * `setup`: the request found by one `USB_USBTask`;
    * `controlOut`: the packet an unbounded wait for
      `Endpoint_IsOUTReceived` on the control endpoint ends
      with, `none` when it does not end;
    * `controlReady`: whether the wait at the end of a control
      stream ends, which leaves bank and packet as they are;
    * `controlWait`: whether a status stage ends;
    * `outTurn`, `inTurn`: the turns of the control streams;
    * `controlIn`: a packet handed over on the control
      endpoint;
    * `bulkOut`: the packet that fills the free OUT bank
      during a bounded wait;
    * `bulkInReady`: whether the IN bank is free by the end
      of a bounded wait;
    * `bulkIn`: a packet handed over on the IN endpoint.
-/
structure Link (η : Type) where
  setup : η → Option Request × η
  controlOut : η → Option (List UInt8) × η
  controlReady : η → Bool × η
  controlWait : η → Bool × η
  outTurn : η → OutTurn × η
  inTurn : η → InTurn × η
  controlIn : η → List UInt8 → η
  bulkOut : η → Option (List UInt8) × η
  bulkInReady : η → Bool × η
  bulkIn : η → List UInt8 → η

------------------------------------------------------------
-- Device State
------------------------------------------------------------

/-
  The firmware between two USB events: the driver's memory,
  the globals `last_op` and `USB_ControlRequest`, the unread
  bytes of the OUT bank, the bytes written to the IN bank and
  whether a wait without end was entered.

  The last two fields are ghost state: the requests taken and
  the driver calls made with their results.
-/
structure World (τ η : Type) where
  fw : Fw τ
  lastOp : PdiResult
  request : Request
  outBank : Option (List UInt8)
  inBank : List UInt8
  link : η
  hung : Bool
  handled : List Request
  calls : List (Call × PdiResult)

/- Descriptors.h: sizes of the endpoint banks. -/
def vendorIoEpsize : Nat := 64
def controlEndpointSize : Nat := 64

/- Lucax.h -/
def maxBuffer : UInt16 := 1024

namespace World

variable {τ η : Type}

/- The device after reset. -/
def powerOn
    (target : τ)
    (host : η) : World τ η where
  fw := Fw.powerOn target
  lastOp := .noError
  request := ⟨0, 0, 0, 0, 0⟩
  outBank := none
  inBank := []
  link := host
  hung := false
  handled := []
  calls := []

/- A wait that does not end. -/
def hang (w : World τ η) : World τ η :=
  { w with hung := true }

/- Go on unless a wait did not end. -/
def andThen
    (w : World τ η)
    (next : World τ η → World τ η) : World τ η :=
  if w.hung then w else next w

def withFw
    (w : World τ η)
    (fw : Fw τ) : World τ η :=
  { w with fw := fw }

def withLink
    (w : World τ η)
    (host : η) : World τ η :=
  { w with link := host }

/- A wait that the link ends or leaves without end. -/
def await
    (wait : η → Bool × η)
    (w : World τ η) : World τ η :=
  match wait w.link with
  | (true, host) => w.withLink host
  | (false, host) => (w.withLink host).hang

/-
  `last_op = f(..)`, with the byte `f` leaves through its
  pointer.
-/
def call
    (line : Line τ)
    (c : Call)
    (w : World τ η) : UInt8 × World τ η :=
  let out := c.exec line w.fw
  (out.1.2,
    { w with
      fw := out.2
      lastOp := out.1.1
      calls := w.calls ++ [(c, out.1.1)] })

end World

------------------------------------------------------------
-- Endpoints
------------------------------------------------------------

section Endpoints

variable {τ η : Type} (link : Link η)

/- `while(Endpoint_IsOUTReceived() == false);` -/
def awaitControlOut
    (w : World τ η) : Option (List UInt8) × World τ η :=
  match link.controlOut w.link with
  | (none, host) => (none, (w.withLink host).hang)
  | (some packet, host) => (some packet, w.withLink host)

/- Bytes missing from the bank read as zero. -/
def endpointRead32LE (packet : List UInt8) : UInt32 :=
  UInt32.ofNat (ByteOrder.leValue (packet.take 4))

def endpointClearStatusStage
    (w : World τ η) : World τ η :=
  w.await link.controlWait

/-
  The wait with which the control streams end: for a free IN
  bank or the status packet of the host, not acted on.
-/
def awaitControlReady
    (w : World τ η) : World τ η :=
  w.await link.controlReady

/- `Endpoint_ClearIN` on the control endpoint. -/
def clearControlIn
    (packet : List UInt8)
    (w : World τ η) : World τ η :=
  w.withLink (link.controlIn w.link packet)

/- `Endpoint_ClearIN` on the IN endpoint. -/
def clearIn (w : World τ η) : World τ η :=
  { w.withLink (link.bulkIn w.link w.inBank) with
    inBank := [] }

/- `Endpoint_ClearOUT` on the OUT endpoint. -/
def clearOut (w : World τ η) : World τ η :=
  { w with outBank := none }

/- A bounded wait for a free IN bank. -/
def waitInReady (w : World τ η) : Bool × World τ η :=
  let out := link.bulkInReady w.link
  (out.1, w.withLink out.2)

/- A bounded wait for a packet in the OUT bank. -/
def waitOutReceived (w : World τ η) : Bool × World τ η :=
  match w.outBank with
  | some _ => (true, w)
  | none =>
      match link.bulkOut w.link with
      | (none, host) => (false, w.withLink host)
      | (some packet, host) =>
          (true,
            { w.withLink host with outBank := some packet })

section Await

variable
  (wait : η → Bool × η)
  (w : World τ η)

/- A wait leaves the driver's memory and the banks alone. -/
@[simp] theorem World.await_fw :
    (w.await wait).fw = w.fw := by
  unfold World.await
  split <;> rfl

@[simp] theorem World.await_outBank :
    (w.await wait).outBank = w.outBank := by
  unfold World.await
  split <;> rfl

@[simp] theorem World.await_inBank :
    (w.await wait).inBank = w.inBank := by
  unfold World.await
  split <;> rfl

@[simp] theorem World.await_link :
    (w.await wait).link = (wait w.link).2 := by
  unfold World.await
  split
  · rename_i host hLook
    rw [hLook]
    rfl
  · rename_i host hLook
    rw [hLook]
    rfl

@[simp] theorem endpointClearStatusStage_fw :
    (endpointClearStatusStage link w).fw = w.fw :=
  w.await_fw link.controlWait

@[simp] theorem endpointClearStatusStage_outBank :
    (endpointClearStatusStage link w).outBank = w.outBank :=
  w.await_outBank link.controlWait

@[simp] theorem endpointClearStatusStage_link :
    (endpointClearStatusStage link w).link =
      (link.controlWait w.link).2 :=
  w.await_link link.controlWait

end Await

end Endpoints

------------------------------------------------------------
-- Bulk Streams
------------------------------------------------------------

/-
  What the two bulk streams do differently: the direction's
  `Endpoint_IsReadWriteAllowed`, `TEMPLATE_TRANSFER_BYTE`,
  `TEMPLATE_CLEAR_ENDPOINT` and `Endpoint_WaitUntilReady`.
-/
structure Direction (τ η : Type) where
  allowed : World τ η → Bool
  transfer : Nat → World τ η → World τ η
  clear : World τ η → World τ η
  wait : World τ η → Bool × World τ η

/-
  The loop of Template_Endpoint_RW.c with `Length` bytes left
  to move at `buffer[data]`.  `fuel` bounds its turns; a loop
  that uses it up counts as one without end.
-/
def rwStream
    {τ η : Type}
    (direction : Direction τ η)
    (usbTask : World τ η → World τ η) :
    Nat → Nat → Nat → World τ η → World τ η
| _, _, 0, w => w
| 0, _, _ + 1, w => w.hang
| fuel + 1, data, length + 1, w =>
    if direction.allowed w then
      rwStream direction usbTask fuel (data + 1) length
        (direction.transfer data w)
    else
      (usbTask (direction.clear w)).andThen fun w =>
        match direction.wait w with
        | (false, w) => w
        | (true, w) =>
            rwStream direction usbTask fuel data (length + 1)
              w

/- Template_Endpoint_RW.c, which begins with a wait. -/
def endpointStream
    {τ η : Type}
    (direction : Direction τ η)
    (usbTask : World τ η → World τ η)
    (fuel data length : Nat)
    (w : World τ η) : World τ η :=
  match direction.wait w with
  | (false, w) => w
  | (true, w) =>
      rwStream direction usbTask fuel data length w

section BulkStreams

variable {τ η : Type} (link : Link η)

def writeDirection : Direction τ η where
  allowed w := w.inBank.length < vendorIoEpsize
  transfer data w :=
    let byte := w.fw.loadByte data
    { w.withFw byte.2 with
      inBank := w.inBank ++ [byte.1] }
  clear := clearIn link
  wait := waitInReady link

def readDirection : Direction τ η where
  allowed w := w.outBank.any fun bytes => !bytes.isEmpty
  transfer data w :=
    match w.outBank with
    | some (b :: bytes) =>
        { w.withFw (w.fw.storeByte data b) with
          outBank := some bytes }
    | _ => w
  clear := clearOut
  wait := waitOutReceived link

/- The error codes of the streams are dropped by callers. -/
def endpointWriteStreamLE :
    (World τ η → World τ η) → Nat → Nat → Nat →
      World τ η → World τ η :=
  endpointStream (writeDirection link)

def endpointReadStreamLE :
    (World τ η → World τ η) → Nat → Nat → Nat →
      World τ η → World τ η :=
  endpointStream (readDirection link)

end BulkStreams

------------------------------------------------------------
-- Control Streams
------------------------------------------------------------

section ControlStreams

variable {τ η : Type} (link : Link η)

/-
  `*DataStream = Endpoint_Read_8()` for the bytes of one
  packet while `Length` lasts; the result is the number of
  bytes taken.
-/
def takePacket :
    List UInt8 → Nat → Nat → World τ η → Nat × World τ η
| [], _, _, w => (0, w)
| _ :: _, _, 0, w => (0, w)
| b :: bytes, data, length + 1, w =>
    let out :=
      takePacket bytes (data + 1) length
        (w.withFw (w.fw.storeByte data b))
    (out.1 + 1, out.2)

/- Template_Endpoint_Control_R.c: the loop. -/
def controlReadLoop :
    Nat → Nat → Nat → World τ η → World τ η
| _, _, 0, w => awaitControlReady link w
| 0, _, _ + 1, w => w.hang
| fuel + 1, data, length + 1, w =>
    match link.outTurn w.link with
    | (.never, host) => (w.withLink host).hang
    | (.stop, host) => w.withLink host
    | (.packet bytes, host) =>
        let out :=
          takePacket bytes data (length + 1)
            (w.withLink host)
        controlReadLoop fuel (data + out.1)
          (length + 1 - out.1) out.2

/-
  Entered with `Length` equal to `wLength`; the `ClearOUT` for
  a length of zero finds no packet.
-/
def endpointReadControlStreamLE
    (fuel data length : Nat)
    (w : World τ η) : World τ η :=
  controlReadLoop link fuel data length w

/- `Endpoint_Write_8(*DataStream)` for up to `n` bytes. -/
def fillPacket :
    Nat → Nat → World τ η → List UInt8 × World τ η
| 0, _, w => ([], w)
| n + 1, data, w =>
    let byte := w.fw.loadByte data
    let out := fillPacket n (data + 1) (w.withFw byte.2)
    (byte.1 :: out.1, out.2)

/- Template_Endpoint_Control_W.c: the loop. -/
def controlWriteLoop :
    Nat → Nat → Nat → Bool → World τ η → World τ η
| 0, _, _, _, w => w.hang
| fuel + 1, data, length, lastPacketFull, w =>
    if length = 0 ∧ lastPacketFull = false then
      awaitControlReady link w
    else
      match link.inTurn w.link with
      | (.never, host) => (w.withLink host).hang
      | (.stop, host) => w.withLink host
      | (.out, host) => w.withLink host
      | (.ready, host) =>
          let n := min length controlEndpointSize
          let out := fillPacket n data (w.withLink host)
          controlWriteLoop fuel (data + n) (length - n)
            (n = controlEndpointSize)
            (clearControlIn link out.1 out.2)

/-
  Entered with `Length` equal to `wLength`.  A length of zero
  hands over an empty packet.
-/
def endpointWriteControlStreamLE
    (fuel data length : Nat)
    (w : World τ η) : World τ η :=
  if length = 0 then
    controlWriteLoop link fuel data 0 false
      (clearControlIn link [] w)
  else controlWriteLoop link fuel data length false w

end ControlStreams

end Lucax
