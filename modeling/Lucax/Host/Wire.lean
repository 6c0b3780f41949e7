import Lucax.Common.Packets
import Lucax.Firmware.Transfer
import Lucax.Host.Programmer

/-
  Driver and firmware joined by a cable on which every
  transfer completes, in order.

  The firmware runs up to the point where it waits for the
  host when the host waits for the firmware.

  Key definitions include:
    * `Wire`, `wireLink`
    * `Device`, `settle`
    * `wireUsb`
    * `packetCount`
    * `World.Idle`

  Main declarations:
    * `sendChunks_wire`
    * `receiveChunks_wire`
    * `receiveChunks_idle`
-/

------------------------------------------------------------
-- The Cable
------------------------------------------------------------

namespace Lucax

/-
  What is under way: the request and data stage of a control
  transfer, the packets of its answer, and the packets of the
  two bulk endpoints.
-/
structure Wire where
  setup : Option Request
  dataOut : List UInt8
  dataIn : List (List UInt8)
  bulkOut : List (List UInt8)
  bulkIn : List (List UInt8)
deriving DecidableEq, Repr

def Wire.quiet : Wire where
  setup := none
  dataOut := []
  dataIn := []
  bulkOut := []
  bulkIn := []

/- The firmware's end. -/
def wireLink : Link Wire where
  setup wire := (wire.setup, { wire with setup := none })
  controlOut wire := (some wire.dataOut, wire)
  controlReady wire := (true, wire)
  controlWait wire := (true, wire)
  outTurn wire :=
    match wire.dataOut with
    | [] => (.never, wire)
    | bytes => (.packet bytes, { wire with dataOut := [] })
  inTurn wire := (.ready, wire)
  controlIn wire packet :=
    { wire with dataIn := wire.dataIn ++ [packet] }
  bulkOut wire :=
    match wire.bulkOut with
    | [] => (none, wire)
    | packet :: packets =>
        (some packet, { wire with bulkOut := packets })
  bulkInReady wire := (true, wire)
  bulkIn wire packet :=
    { wire with bulkIn := wire.bulkIn ++ [packet] }

abbrev Device (τ : Type) := World τ Wire

section Usb

variable {τ : Type} (line : Line τ)

/-
  One turn of the main loop.  A stream of one packet takes
  less than `wireFuel` turns.
-/
def wireFuel : Nat := 200

def settle (d : Device τ) : Device τ :=
  usbTask line wireLink wireFuel 2 d

/- The SETUP packet and data stage of a control transfer. -/
def submit
    (r : Request)
    (data : List UInt8)
    (d : Device τ) : Device τ :=
  d.withLink
    { d.link with
      setup := some r
      dataOut := data
      dataIn := [] }

/-
  The host's end.  A request that is not answered is a
  stall, and a bulk transfer with no packet a time-out.
-/
def wireUsb : Libusb (Device τ) where
  controlOut d r data :=
    (data.length, submit r data (settle line d))
  controlIn d r :=
    let d := settle line (submit r [] (settle line d))
    match d.link.dataIn with
    | [] => ((-9, []), d)
    | packets =>
        let bytes := packets.flatten.take r.wLength.toNat
        ((bytes.length, bytes), d)
  bulkOut d packet :=
    ((0, packet.length),
      d.withLink
        { d.link with bulkOut := d.link.bulkOut ++ [packet] })
  bulkIn d length :=
    let d := settle line d
    match d.link.bulkIn with
    | [] => ((-7, []), d)
    | packet :: packets =>
        let d := d.withLink { d.link with bulkIn := packets }
        if packet.length ≤ length then ((0, packet), d)
        else ((-8, packet.take length), d)

end Usb

/-
  No transfer is under way; packets the firmware did not take
  may be left on the OUT endpoint.
-/
structure World.Idle
    {τ : Type}
    (d : Device τ) : Prop where
  setup : d.link.setup = none
  bulkOut : ∀ packet ∈ d.link.bulkOut, packet ≠ []
  bulkIn : d.link.bulkIn = []
  outBank : d.outBank = none
  inBank : d.inBank = []
  hung : d.hung = false

/- The device after reset. -/
theorem World.idle_powerOn
    {τ : Type}
    (target : τ) :
    (World.powerOn target Wire.quiet).Idle where
  setup := rfl
  bulkOut := by simp [World.powerOn, Wire.quiet]
  bulkIn := rfl
  outBank := rfl
  inBank := rfl
  hung := rfl

------------------------------------------------------------
-- Turns of the Main Loop
------------------------------------------------------------

section Settle

variable {τ : Type} (line : Line τ)

/- A turn with no request under way changes nothing. -/
theorem usbTask_wire_none
    (fuel depth : Nat)
    {d : Device τ}
    (hNone : d.link.setup = none) :
    usbTask line wireLink fuel (depth + 1) d = d := by
  have hSame :
      wireLink.setup d.link = (none, d.link) := by
    simp only [wireLink, hNone]
    rw [← hNone]
  rw [usbTask, hSame]
  rfl

theorem settle_idle
    {d : Device τ}
    (hNone : d.link.setup = none) :
    settle line d = d :=
  usbTask_wire_none line wireFuel 1 hNone

/- The device as a handler finds it. -/
def started
    (r : Request)
    (data : List UInt8)
    (d : Device τ) : Device τ :=
  (d.withLink
    { d.link with
      setup := none
      dataOut := data
      dataIn := [] }).take r

/- A submitted request is handled by the next turn. -/
theorem settle_submit
    (r : Request)
    (data : List UInt8)
    (d : Device τ) :
    settle line (submit r data d) =
      eventUsbDeviceControlRequest line wireLink
        (usbTask line wireLink wireFuel 1) wireFuel
        (started r data d) :=
  usbTask_setup line wireLink wireFuel 1 rfl

theorem started_idle
    {d : Device τ}
    (hIdle : d.Idle)
    (r : Request)
    (data : List UInt8) :
    (started r data d).Idle where
  setup := rfl
  bulkOut := hIdle.bulkOut
  bulkIn := hIdle.bulkIn
  outBank := hIdle.outBank
  inBank := hIdle.inBank
  hung := hIdle.hung

end Settle

------------------------------------------------------------
-- Packets of the Firmware
------------------------------------------------------------

section Chunks

variable {τ : Type} (task : Device τ → Device τ)

/- How many packets a page of `n` bytes is cut into. -/
def packetCount (n : Nat) : Nat :=
  (n + (vendorIoEpsize - 1)) / vendorIoEpsize

/- A piece of the buffer as the first packet of the rest. -/
theorem split_buffer
    (ram : Nat → UInt8)
    (done count : Nat)
    (hSome : 0 < count) :
    Packets.split vendorIoEpsize
        ((Ptr.buffer done).bytes ram count) =
      (Ptr.buffer done).bytes ram (min count vendorIoEpsize) ::
        Packets.split vendorIoEpsize
          ((Ptr.buffer (done + min count vendorIoEpsize)).bytes
            ram (count - min count vendorIoEpsize)) := by
  have hParts :=
    Ptr.bytes_buffer_add ram done (min count vendorIoEpsize)
      (count - min count vendorIoEpsize)
  rw [Nat.add_sub_cancel' (Nat.min_le_left _ _)] at hParts
  rw [hParts]
  have hLength :=
    Ptr.bytes_length ram (.buffer done)
      (min count vendorIoEpsize)
  apply Packets.split_append
  · apply List.ne_nil_of_length_pos
    rw [hLength]
    simp only [vendorIoEpsize]
    omega
  · rw [hLength]
    by_cases hShort : count ≤ vendorIoEpsize
    · right
      rw [Nat.min_eq_left hShort, Nat.sub_self]
      exact ⟨hShort, rfl⟩
    · left
      omega

/- The transmit loop queues the bytes it is given. -/
theorem sendChunks_wire
    (n count done : Nat)
    (d : Device τ)
    (hTurns : count ≤ n)
    (hBank : d.inBank = [])
    (hHung : d.hung = false) :
    sendChunks wireLink task wireFuel n count done d =
      (d.withFw
          (d.fw.touch ((Ptr.buffer done).indices count))).withLink
        { d.link with
          bulkIn :=
            d.link.bulkIn ++
              Packets.split vendorIoEpsize
                ((Ptr.buffer done).bytes d.fw.ram count) } := by
  induction n generalizing count done d with
  | zero =>
      have hZero : count = 0 := by omega
      subst hZero
      rw [sendChunks]
      simp [Ptr.indices, Ptr.bytes, World.withFw,
        World.withLink]
  | succ n ih =>
      cases count with
      | zero =>
          rw [sendChunks]
          simp [Ptr.indices, Ptr.bytes, World.withFw,
            World.withLink]
      | succ count =>
          have hPacket :
              min (count + 1) vendorIoEpsize ≤ wireFuel := by
            simp only [vendorIoEpsize, wireFuel]
            omega
          have hWait :
              (waitInReady wireLink d).2 = d := rfl
          have hStream :
              endpointWriteStreamLE wireLink task wireFuel done
                  (min (count + 1) vendorIoEpsize) d =
                { d.withFw
                    (d.fw.touch
                      ((Ptr.buffer done).indices
                        (min (count + 1) vendorIoEpsize))) with
                  inBank :=
                    (Ptr.buffer done).bytes d.fw.ram
                      (min (count + 1) vendorIoEpsize) } := by
            have hWrite :=
              rwStream_write wireLink task wireFuel done
                (min (count + 1) vendorIoEpsize) d hPacket
                (by rw [hBank, List.length_nil]; omega)
            rw [hBank, List.nil_append] at hWrite
            exact hWrite
          rw [sendChunks]
          simp only [hWait, hStream]
          rw [split_buffer d.fw.ram done (count + 1)
            (Nat.succ_pos count)]
          have hIndices :=
            Ptr.indices_buffer_add done
              (min (count + 1) vendorIoEpsize)
              (count + 1 - min (count + 1) vendorIoEpsize)
          have hCount :
              min (count + 1) vendorIoEpsize +
                  (count + 1 - min (count + 1) vendorIoEpsize) =
                count + 1 := by
            omega
          rw [hCount] at hIndices
          have hLeft :
              count + 1 - min (count + 1) vendorIoEpsize ≤ n := by
            simp only [vendorIoEpsize]
            omega
          simp only [World.andThen, World.withFw, hHung,
            Bool.false_eq_true, if_false]
          rw [ih _ _ _ hLeft rfl rfl, hIndices]
          simp [clearIn, World.withLink, World.withFw, wireLink,
            hBank]

/- The first packet of a queue cut from `bytes` is a chunk. -/
theorem pageArriving_wire_succ
    (last : PdiResult)
    (n count : Nat)
    (bytes : List UInt8)
    (later : List (List UInt8))
    (wire : Wire)
    (hSome : 0 < count)
    (hThere : min count vendorIoEpsize ≤ bytes.length)
    (hQueue :
      wire.bulkOut =
        Packets.split vendorIoEpsize bytes ++ later) :
    pageArriving wireLink last wireFuel (n + 1) count wire =
      (pageArriving wireLink last wireFuel n
        (count - min count vendorIoEpsize)
        { wire with
          bulkOut :=
            Packets.split vendorIoEpsize
                (bytes.drop vendorIoEpsize) ++
              later }).cons
        (bytes.take (min count vendorIoEpsize),
          (bytes.take vendorIoEpsize).drop
            (min count vendorIoEpsize)) [] := by
  have hPositive : 0 < vendorIoEpsize := by decide
  have hBytes : bytes ≠ [] := by
    apply List.ne_nil_of_length_pos
    omega
  have hFirst :
      wireLink.bulkOut wire =
        (some (bytes.take vendorIoEpsize),
          { wire with
            bulkOut :=
              Packets.split vendorIoEpsize
                  (bytes.drop vendorIoEpsize) ++
                later }) := by
    simp only [wireLink, hQueue]
    rw [Packets.split_of_ne_nil hPositive hBytes]
    rfl
  exact pageArriving_chunk wireLink last wireFuel n hSome hThere
    (by decide) hFirst

/-
  A queue with all bytes of the page.  By induction on the
  turns of the loop.
-/
theorem pageArriving_wire
    (last : PdiResult)
    (n count : Nat)
    (bytes : List UInt8)
    (later : List (List UInt8))
    (wire : Wire)
    (hTurns : count ≤ n)
    (hThere : count ≤ bytes.length)
    (hQueue :
      wire.bulkOut =
        Packets.split vendorIoEpsize bytes ++ later) :
    ∃ chunks,
      pageArriving wireLink last wireFuel n count wire =
        .complete chunks []
          { wire with
            bulkOut :=
              (Packets.split vendorIoEpsize bytes).drop
                  ((count + (vendorIoEpsize - 1)) /
                    vendorIoEpsize) ++
                later } ∧
      ∀ (s : Fw τ) (done : Nat),
        s.storeChunks done chunks =
          s.storeBytes done (bytes.take count) := by
  have hSize : vendorIoEpsize = 64 := rfl
  induction n generalizing count bytes wire with
  | zero =>
      have hZero : count = 0 := by omega
      subst hZero
      refine ⟨[], ?_, ?_⟩
      · rw [pageArriving, Nat.zero_add,
          Nat.div_eq_of_lt (by decide), List.drop_zero, ← hQueue]
      · intro s done
        rfl
  | succ n ih =>
      rcases Nat.eq_zero_or_pos count with hZero | hSome
      · subst hZero
        refine ⟨[], ?_, ?_⟩
        · rw [pageArriving, Nat.zero_add,
            Nat.div_eq_of_lt (by decide), List.drop_zero,
            ← hQueue]
        · intro s done
          rfl
      · have hBytes : bytes ≠ [] := by
          apply List.ne_nil_of_length_pos
          omega
        have hTurn :
            (count + (vendorIoEpsize - 1)) / vendorIoEpsize =
              (count - min count vendorIoEpsize +
                  (vendorIoEpsize - 1)) / vendorIoEpsize +
                1 := by
          rw [hSize]
          omega
        rcases ih (count - min count vendorIoEpsize)
            (bytes.drop vendorIoEpsize)
            { wire with
              bulkOut :=
                Packets.split vendorIoEpsize
                    (bytes.drop vendorIoEpsize) ++
                  later }
            (by omega)
            (by
              rw [List.length_drop]
              omega)
            rfl with
          ⟨chunks, hPage, hStored⟩
        refine
          ⟨(bytes.take (min count vendorIoEpsize),
              (bytes.take vendorIoEpsize).drop
                (min count vendorIoEpsize)) :: chunks, ?_, ?_⟩
        · rw [pageArriving_wire_succ last n count bytes later wire
              hSome (by omega) hQueue,
            hPage, hTurn,
            Packets.drop_split_succ (by decide) hBytes]
          rfl
        · intro s done
          exact storeChunks_cons s done count bytes _ chunks
            hThere (fun s => hStored s _)

/- A queue that ends with a chunk before the page does. -/
theorem pageArriving_wire_short
    (last : PdiResult)
    (n count : Nat)
    (bytes : List UInt8)
    (wire : Wire)
    (hTurns : count ≤ n)
    (hShort : bytes.length < count)
    (hWhole : vendorIoEpsize ∣ bytes.length)
    (hQueue :
      wire.bulkOut = Packets.split vendorIoEpsize bytes) :
    ∃ chunks,
      pageArriving wireLink last wireFuel n count wire =
        .givenUp chunks [] { wire with bulkOut := [] } ∧
      ∀ (s : Fw τ) (done : Nat),
        s.storeChunks done chunks =
          s.storeBytes done bytes := by
  have hSize : vendorIoEpsize = 64 := rfl
  induction n generalizing count bytes wire with
  | zero => omega
  | succ n ih =>
      rcases hWhole with ⟨k, hk⟩
      rcases Nat.eq_zero_or_pos k with hNone | hMore
      · subst hNone
        have hNil : bytes = [] := List.length_eq_zero_iff.mp hk
        subst hNil
        rw [Packets.split_nil] at hQueue
        have hNothing : wireLink.bulkOut wire = (none, wire) := by
          simp only [wireLink, hQueue]
        refine ⟨[], ?_, ?_⟩
        · rw [← hQueue]
          cases count with
          | zero => exact absurd hShort (Nat.lt_irrefl 0)
          | succ count => rw [pageArriving, hNothing]
        · intro s done
          rfl
      · rw [hSize] at hk
        have hFull :
            min count vendorIoEpsize = vendorIoEpsize := by
          omega
        rcases ih (count - vendorIoEpsize)
            (bytes.drop vendorIoEpsize)
            { wire with
              bulkOut :=
                Packets.split vendorIoEpsize
                  (bytes.drop vendorIoEpsize) }
            (by omega)
            (by
              rw [List.length_drop]
              omega)
            (by
              rw [List.length_drop, hSize]
              exact ⟨k - 1, by omega⟩)
            rfl with
          ⟨chunks, hPage, hStored⟩
        have hFirst :=
          pageArriving_wire_succ last n count bytes [] wire
            (by omega) (by omega)
            (by rw [hQueue, List.append_nil])
        rw [hFull, List.append_nil] at hFirst
        refine
          ⟨(bytes.take vendorIoEpsize,
              (bytes.take vendorIoEpsize).drop
                vendorIoEpsize) :: chunks, ?_, ?_⟩
        · rw [hFirst, hPage]
          rfl
        · intro s done
          have hHere :
              (bytes.take vendorIoEpsize).length =
                vendorIoEpsize :=
            List.length_take_of_le (by omega)
          have hParts :=
            storeBytes_append s done
              (bytes.drop vendorIoEpsize)
              (bytes.take vendorIoEpsize)
          rw [List.take_append_drop, hHere] at hParts
          rw [Fw.storeChunks, hStored, hParts]

/- The receive loop takes in its count from a longer queue. -/
theorem receiveChunks_wire
    {last : PdiResult}
    {task : Device τ → Device τ}
    (hTask : Turns wireLink last task)
    (n count done : Nat)
    (bytes : List UInt8)
    (later : List (List UInt8))
    (d : Device τ)
    (hTurns : count ≤ n)
    (hThere : count ≤ bytes.length)
    (hQueue :
      d.link.bulkOut =
        Packets.split vendorIoEpsize bytes ++ later)
    (hLast : d.lastOp = last)
    (hBank : d.outBank = none)
    (hHung : d.hung = false) :
    receiveChunks wireLink task wireFuel n count done d =
      (some (done + count),
        (d.withFw
            (d.fw.storeBytes done (bytes.take count))).withLink
          { d.link with
            bulkOut :=
              (Packets.split vendorIoEpsize bytes).drop
                  ((count + (vendorIoEpsize - 1)) /
                    vendorIoEpsize) ++
                later }) := by
  rcases pageArriving_wire last n count bytes later d.link hTurns
      hThere hQueue with
    ⟨chunks, hPage, hStored⟩
  have hLoop :=
    receiveChunks_arriving hTask wireFuel n count done d hLast
      hBank hHung
  rw [hPage] at hLoop
  exact hLoop.trans (by rw [hStored, takes_nil])

/- Whole packets that are too few are taken in for nothing. -/
theorem receiveChunks_wire_short
    {last : PdiResult}
    {task : Device τ → Device τ}
    (hTask : Turns wireLink last task)
    (n count done : Nat)
    (bytes : List UInt8)
    (d : Device τ)
    (hTurns : count ≤ n)
    (hShort : bytes.length < count)
    (hWhole : vendorIoEpsize ∣ bytes.length)
    (hQueue :
      d.link.bulkOut = Packets.split vendorIoEpsize bytes)
    (hLast : d.lastOp = last)
    (hBank : d.outBank = none)
    (hHung : d.hung = false) :
    receiveChunks wireLink task wireFuel n count done d =
      (none,
        (d.withFw (d.fw.storeBytes done bytes)).withLink
          { d.link with bulkOut := [] }) := by
  rcases pageArriving_wire_short last n count bytes d.link hTurns
      hShort hWhole hQueue with
    ⟨chunks, hPage, hStored⟩
  have hLoop :=
    receiveChunks_arriving hTask wireFuel n count done d hLast
      hBank hHung
  rw [hPage] at hLoop
  exact hLoop.trans (by rw [hStored, takes_nil])

end Chunks

------------------------------------------------------------
-- Packets Left Over
------------------------------------------------------------

section Leftover

variable {τ : Type} {task : Device τ → Device τ}

/-
  An idle device, except for what the OUT bank holds.
-/
structure World.Receiving
    (d : Device τ) : Prop where
  setup : d.link.setup = none
  bulkOut : ∀ packet ∈ d.link.bulkOut, packet ≠ []
  bulkIn : d.link.bulkIn = []
  inBank : d.inBank = []
  hung : d.hung = false

theorem World.Idle.receiving
    {d : Device τ}
    (hIdle : d.Idle) :
    d.Receiving where
  setup := hIdle.setup
  bulkOut := hIdle.bulkOut
  bulkIn := hIdle.bulkIn
  inBank := hIdle.inBank
  hung := hIdle.hung

theorem World.Receiving.clearOut_idle
    {d : Device τ}
    (hReceiving : d.Receiving) :
    (clearOut d).Idle where
  setup := hReceiving.setup
  bulkOut := hReceiving.bulkOut
  bulkIn := hReceiving.bulkIn
  outBank := rfl
  inBank := hReceiving.inBank
  hung := hReceiving.hung

/-
  A bounded wait for a packet: without one the bank stays
  empty, with one there is a byte to take.
-/
theorem World.Idle.waitOutReceived
    {d : Device τ}
    (hIdle : d.Idle) :
    ((waitOutReceived wireLink d).1 = false ∧
        (waitOutReceived wireLink d).2.Idle) ∨
      ((waitOutReceived wireLink d).1 = true ∧
        (waitOutReceived wireLink d).2.Receiving ∧
        (readDirection wireLink).allowed
            (waitOutReceived wireLink d).2 =
          true) := by
  cases hQueue : d.link.bulkOut with
  | nil =>
      left
      have hEmpty :
          wireLink.bulkOut d.link = (none, d.link) := by
        simp [wireLink, hQueue]
      have hWait :
          Lucax.waitOutReceived wireLink d = (false, d) := by
        rw [Lucax.waitOutReceived, hIdle.outBank]
        simp only [hEmpty]
        rfl
      rw [hWait]
      exact ⟨rfl, hIdle⟩
  | cons packet packets =>
      right
      have hPackets := hIdle.bulkOut
      rw [hQueue] at hPackets
      have hWait :
          Lucax.waitOutReceived wireLink d =
            (true,
              { d.withLink
                  { d.link with bulkOut := packets } with
                outBank := some packet }) := by
        simp [Lucax.waitOutReceived, hIdle.outBank, wireLink,
          hQueue]
      rw [hWait]
      refine ⟨rfl, ?_, ?_⟩
      · constructor
        · exact hIdle.setup
        · intro other hMem
          exact hPackets other (List.mem_cons_of_mem _ hMem)
        · exact hIdle.bulkIn
        · exact hIdle.inBank
        · exact hIdle.hung
      · have hSome : packet ≠ [] :=
          hPackets packet List.mem_cons_self
        simpa [readDirection] using hSome

/-
  A stream into the buffer ends in time: a turn takes a byte
  or refills the bank with one.
-/
theorem rwStream_receiving
    (hTask :
      ∀ e : Device τ, e.link.setup = none → task e = e)
    (fuel data length : Nat)
    (d : Device τ)
    (hReceiving : d.Receiving)
    (hFuel :
      2 * length +
          (if (readDirection wireLink).allowed d then 0 else 1) ≤
        fuel) :
    (rwStream (readDirection wireLink) task fuel data length
      d).Receiving := by
  induction fuel generalizing data length d with
  | zero =>
      have hZero : length = 0 := by omega
      subst hZero
      rw [rwStream]
      exact hReceiving
  | succ fuel ih =>
      cases length with
      | zero =>
          rw [rwStream]
          exact hReceiving
      | succ length =>
          rw [rwStream]
          by_cases hAllowed :
              (readDirection wireLink).allowed d = true
          · simp only [hAllowed, if_true] at hFuel ⊢
            apply ih
            · simp only [readDirection]
              split
              · exact ⟨hReceiving.setup, hReceiving.bulkOut,
                  hReceiving.bulkIn, hReceiving.inBank,
                  hReceiving.hung⟩
              · exact hReceiving
            · split
              · omega
              · omega
          · simp only [hAllowed, if_false, Bool.false_eq_true]
              at hFuel ⊢
            have hCleared := hReceiving.clearOut_idle
            have hSame : task (clearOut d) = clearOut d :=
              hTask (clearOut d) hReceiving.setup
            simp only [readDirection, hSame, World.andThen,
              hCleared.hung, Bool.false_eq_true, if_false]
            have hWaited := hCleared.waitOutReceived
            rcases hWait :
                Lucax.waitOutReceived wireLink (clearOut d) with
              ⟨arrived, filled⟩
            rw [hWait] at hWaited
            rcases hWaited with
              ⟨hFalse, hIdle⟩ | ⟨hTrue, hFilled, hByte⟩
            · simp only at hFalse
              subst hFalse
              exact hIdle.receiving
            · simp only at hTrue hByte
              subst hTrue
              refine ih data (length + 1) filled hFilled ?_
              rw [if_pos hByte]
              omega

/- The receive loop leaves the device idle. -/
theorem receiveChunks_idle
    (hTask :
      ∀ e : Device τ, e.link.setup = none → task e = e)
    (n count done : Nat)
    (d : Device τ)
    (hTurns : count ≤ n)
    (hIdle : d.Idle) :
    (receiveChunks wireLink task wireFuel n count done
      d).2.Idle := by
  induction n generalizing count done d with
  | zero =>
      have hZero : count = 0 := by omega
      subst hZero
      rw [receiveChunks]
      exact hIdle
  | succ n ih =>
      cases count with
      | zero =>
          rw [receiveChunks]
          exact hIdle
      | succ count =>
          have hWaited := hIdle.waitOutReceived
          rw [receiveChunks]
          rcases hWait : Lucax.waitOutReceived wireLink d with
            ⟨arrived, filled⟩
          rw [hWait] at hWaited
          rcases hWaited with
            ⟨hFalse, hStill⟩ | ⟨hTrue, hFilled, hByte⟩
          · simp only at hFalse
            subst hFalse
            exact hStill
          · simp only at hTrue hByte
            subst hTrue
            have hStream :
                (endpointReadStreamLE wireLink task wireFuel
                  done (min (count + 1) vendorIoEpsize)
                  filled).Receiving := by
              have hReady :
                  (readDirection wireLink).wait filled =
                    (true, filled) := by
                cases hBank : filled.outBank with
                | none => simp [readDirection, hBank] at hByte
                | some bytes =>
                    simp [readDirection,
                      Lucax.waitOutReceived, hBank]
              rw [endpointReadStreamLE, endpointStream, hReady]
              apply rwStream_receiving hTask _ _ _ _ hFilled
              rw [if_pos hByte]
              simp only [vendorIoEpsize, wireFuel]
              omega
            simp only [hStream.hung, Bool.false_eq_true,
              if_false]
            apply ih
            · simp only [vendorIoEpsize]
              omega
            · exact hStream.clearOut_idle

end Leftover

end Lucax
