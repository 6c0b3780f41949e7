import Lucax.Host.Wire

/-
  Driver and firmware joined by a cable on which transfers
  may fail and packets may come too late.

  Key definitions include:
    * `Timed`, `Traffic`, `Traffic.InTime`
    * `timedLink`, `timedUsb`
    * `World.Free`

  Main declarations:
    * `pageArriving_timed_ne_acts`
    * `pageArriving_timed`
    * `writeLoop_timed`
-/

------------------------------------------------------------
-- The Cable
------------------------------------------------------------

namespace Lucax

variable {τ η : Type}

/- What is under way, with the state that decides its time. -/
structure Timed (η : Type) where
  wire : Wire
  timing : η

/-
  How the transfers go: whether a control transfer of the
  host goes through, the code of a bulk transfer of so many
  bytes and what it moves, and whether a packet under way is
  there at the end of a bounded wait of the firmware.
-/
structure Traffic (η : Type) where
  control : η → Bool × η
  bulk : η → Nat → (Int × Nat) × η
  inTime : η → Bool × η

/- The next `n` waits for a packet find it in time. -/
def Traffic.InTime
    (traffic : Traffic η) : Nat → η → Prop
| 0, _ => True
| n + 1, timing =>
    (traffic.inTime timing).1 = true ∧
      Traffic.InTime traffic n (traffic.inTime timing).2

instance Traffic.decidableInTime
    (traffic : Traffic η)
    (n : Nat)
    (timing : η) :
    Decidable (traffic.InTime n timing) :=
  match n with
  | 0 => inferInstanceAs (Decidable True)
  | n + 1 =>
      have := decidableInTime traffic n (traffic.inTime timing).2
      inferInstanceAs (Decidable (_ ∧ _))

/- The cable with other packets under way. -/
def Timed.over
    {α : Type}
    (cable : Timed η)
    (out : α × Wire) : α × Timed η :=
  (out.1, { cable with wire := out.2 })

/- The firmware's end. -/
def timedLink (traffic : Traffic η) : Link (Timed η) where
  setup cable := cable.over (wireLink.setup cable.wire)
  controlOut cable :=
    cable.over (wireLink.controlOut cable.wire)
  controlReady cable :=
    cable.over (wireLink.controlReady cable.wire)
  controlWait cable :=
    cable.over (wireLink.controlWait cable.wire)
  outTurn cable := cable.over (wireLink.outTurn cable.wire)
  inTurn cable := cable.over (wireLink.inTurn cable.wire)
  controlIn cable packet :=
    { cable with wire := wireLink.controlIn cable.wire packet }
  bulkOut cable :=
    let turn := traffic.inTime cable.timing
    let cable := { cable with timing := turn.2 }
    if turn.1 then cable.over (wireLink.bulkOut cable.wire)
    else (none, cable)
  bulkInReady cable :=
    cable.over (wireLink.bulkInReady cable.wire)
  bulkIn cable packet :=
    { cable with wire := wireLink.bulkIn cable.wire packet }

section Usb

variable (line : Line τ) (traffic : Traffic η)

/- One turn of the main loop. -/
def timedSettle
    (d : World τ (Timed η)) : World τ (Timed η) :=
  usbTask line (timedLink traffic) wireFuel 2 d

/- The SETUP packet and data stage of a control transfer. -/
def timedSubmit
    (r : Request)
    (data : List UInt8)
    (d : World τ (Timed η)) : World τ (Timed η) :=
  d.withLink
    { d.link with
      wire :=
        { d.link.wire with
          setup := some r
          dataOut := data
          dataIn := [] } }

/- What moves on the two bulk endpoints. -/
def Timed.sent
    (cable : Timed η)
    (timing : η)
    (packets : List (List UInt8)) : Timed η where
  wire :=
    { cable.wire with bulkOut := cable.wire.bulkOut ++ packets }
  timing := timing

/-
  The host's end.  A control transfer that does not go
  through reaches no one, and a bulk transfer moves no more
  than it is given.
-/
def timedUsb : Libusb (World τ (Timed η)) where
  controlOut d r data :=
    let d := timedSettle line traffic d
    let turn := traffic.control d.link.timing
    let d := d.withLink { d.link with timing := turn.2 }
    if turn.1 then (data.length, timedSubmit r data d)
    else (-7, d)
  controlIn d r :=
    let d := timedSettle line traffic d
    let turn := traffic.control d.link.timing
    let d := d.withLink { d.link with timing := turn.2 }
    if turn.1 then
      let d := timedSettle line traffic (timedSubmit r [] d)
      match d.link.wire.dataIn with
      | [] => ((-9, []), d)
      | packets =>
          let bytes := packets.flatten.take r.wLength.toNat
          ((bytes.length, bytes), d)
    else ((-7, []), d)
  bulkOut d packet :=
    let turn := traffic.bulk d.link.timing packet.length
    let moved := min turn.1.2 packet.length
    let packets :=
      if moved = 0 then [] else [packet.take moved]
    ((turn.1.1, moved),
      d.withLink (d.link.sent turn.2 packets))
  bulkIn d length :=
    let d := timedSettle line traffic d
    match d.link.wire.bulkIn with
    | [] => ((-7, []), d)
    | packet :: packets =>
        let d :=
          d.withLink
            { d.link with
              wire := { d.link.wire with bulkIn := packets } }
        if packet.length ≤ length then ((0, packet), d)
        else ((-8, packet.take length), d)

end Usb

/-
  No transfer is under way; packets the firmware did not take
  may be left on the OUT endpoint.
-/
structure World.Free
    (d : World τ (Timed η)) : Prop where
  setup : d.link.wire.setup = none
  outBank : d.outBank = none
  hung : d.hung = false

------------------------------------------------------------
-- Turns of the Main Loop
------------------------------------------------------------

section Settle

variable (line : Line τ) (traffic : Traffic η)

theorem timedLink_setup_none
    {cable : Timed η}
    (hNone : cable.wire.setup = none) :
    (timedLink traffic).setup cable = (none, cable) := by
  have hSame :
      wireLink.setup cable.wire = (none, cable.wire) := by
    simp only [wireLink, hNone]
    rw [← hNone]
  simp only [timedLink, Timed.over, hSame]

/- A turn with no request under way changes nothing. -/
theorem timedSettle_free
    {d : World τ (Timed η)}
    (hNone : d.link.wire.setup = none) :
    timedSettle line traffic d = d :=
  usbTask_none line (timedLink traffic) wireFuel 1 d d.link
    (timedLink_setup_none traffic hNone)

/- The cable once the request is taken. -/
def Timed.taken (cable : Timed η) : Timed η :=
  { cable with wire := { cable.wire with setup := none } }

/- The device as a handler finds it. -/
def timedStarted
    (r : Request)
    (d : World τ (Timed η)) : World τ (Timed η) :=
  (d.withLink d.link.taken).take r

/- A submitted request is handled by the next turn. -/
theorem timedSettle_submitted
    {r : Request}
    {d : World τ (Timed η)}
    (hSetup : d.link.wire.setup = some r) :
    timedSettle line traffic d =
      eventUsbDeviceControlRequest line (timedLink traffic)
        (usbTask line (timedLink traffic) wireFuel 1) wireFuel
        (timedStarted r d) := by
  have hTaken :
      (timedLink traffic).setup d.link =
        (some r, d.link.taken) := by
    simp only [timedLink, Timed.over, wireLink, hSetup]
    rfl
  exact usbTask_setup line (timedLink traffic) wireFuel 1 hTaken

end Settle

------------------------------------------------------------
-- Packets in Time
------------------------------------------------------------

section Packets

variable (traffic : Traffic η) (last : PdiResult)

/- No request comes up while packets are taken. -/
theorem timedLink_bulkOut_setup
    (cable : Timed η) :
    ((timedLink traffic).bulkOut cable).2.wire.setup =
      cable.wire.setup := by
  simp only [timedLink]
  split
  · simp only [Timed.over, wireLink]
    split
    · rfl
    · rfl
  · rfl

/- A chunk that ends leaves no request behind. -/
def ChunkEnd.Quiet : ChunkEnd (Timed η) → Prop
| .acts => False
| .endless => True
| .ended _ _ _ cable => cable.wire.setup = none

theorem ChunkEnd.Quiet.cons
    {e : ChunkEnd (Timed η)}
    (hQuiet : e.Quiet)
    (b : UInt8) :
    (e.cons b).Quiet := by
  cases e with
  | acts => exact hQuiet
  | endless => trivial
  | ended bytes rest taken cable => exact hQuiet

theorem ChunkEnd.Quiet.after
    {e : ChunkEnd (Timed η)}
    (hQuiet : e.Quiet)
    (first : List Request) :
    (e.after first).Quiet := by
  cases e with
  | acts => exact hQuiet
  | endless => trivial
  | ended bytes rest taken cable => exact hQuiet

theorem PageEnd.cons_ne_acts
    {e : PageEnd (Timed η)}
    (hQuiet : e ≠ .acts)
    (chunk : List UInt8 × List UInt8)
    (first : List Request) :
    e.cons chunk first ≠ .acts := by
  cases e with
  | acts => exact absurd rfl hQuiet
  | endless => simp [PageEnd.cons]
  | givenUp chunks taken cable => simp [PageEnd.cons]
  | complete chunks taken cable => simp [PageEnd.cons]

theorem arriving_timed_quiet
    (fuel length : Nat)
    (bank : List UInt8)
    {cable : Timed η}
    (hNone : cable.wire.setup = none) :
    (arriving (timedLink traffic) last fuel length bank
      cable).Quiet := by
  induction fuel generalizing length bank cable with
  | zero =>
      cases length with
      | zero => exact hNone
      | succ length => trivial
  | succ fuel ih =>
      cases length with
      | zero => exact hNone
      | succ length =>
          cases bank with
          | cons b bank =>
              rw [arriving]
              exact (ih length bank hNone).cons b
          | nil =>
              have hAfter :=
                (timedLink_bulkOut_setup traffic cable).trans hNone
              rw [arriving, usbTurn,
                timedLink_setup_none traffic hNone]
              simp only
              rcases hPacket :
                  (timedLink traffic).bulkOut cable with
                ⟨packet, filled⟩
              rw [hPacket] at hAfter
              cases packet with
              | none => exact hAfter
              | some packet =>
                  exact (ih (length + 1) packet hAfter).after []

/- No request is taken inside the receive loop. -/
theorem pageArriving_timed_ne_acts
    (fuel n count : Nat)
    (cable : Timed η)
    (hNone : cable.wire.setup = none) :
    pageArriving (timedLink traffic) last fuel n count cable ≠
      .acts := by
  induction n generalizing count cable with
  | zero =>
      cases count with
      | zero => simp [pageArriving]
      | succ count => simp [pageArriving]
  | succ n ih =>
      cases count with
      | zero => simp [pageArriving]
      | succ count =>
          have hAfter :=
            (timedLink_bulkOut_setup traffic cable).trans hNone
          rw [pageArriving]
          rcases hPacket :
              (timedLink traffic).bulkOut cable with
            ⟨packet, filled⟩
          rw [hPacket] at hAfter
          cases packet with
          | none => simp
          | some packet =>
              have hQuiet :=
                arriving_timed_quiet traffic last fuel
                  (min (count + 1) vendorIoEpsize) packet hAfter
              simp only
              revert hQuiet
              cases arriving (timedLink traffic) last fuel
                  (min (count + 1) vendorIoEpsize) packet
                  filled with
              | acts => exact fun hNot => absurd hNot id
              | endless => exact fun _ => by simp
              | ended bytes rest taken host =>
                  intro hStill
                  exact
                    PageEnd.cons_ne_acts (ih _ host hStill)
                      (bytes, rest) taken

theorem packetCount_of_pos
    {count : Nat}
    (hSome : 0 < count) :
    packetCount count =
      packetCount (count - min count vendorIoEpsize) + 1 := by
  have hSize : vendorIoEpsize = 64 := rfl
  simp only [packetCount, hSize]
  omega

/- A wait that finds the next packet, or does not. -/
theorem timedLink_bulkOut
    {cable : Timed η}
    {bytes : List UInt8}
    {later : List (List UInt8)}
    (hBytes : bytes ≠ [])
    (hQueue :
      cable.wire.bulkOut =
        Packets.split vendorIoEpsize bytes ++ later) :
    (timedLink traffic).bulkOut cable =
      if (traffic.inTime cable.timing).1 then
        (some (bytes.take vendorIoEpsize),
          { wire :=
              { cable.wire with
                bulkOut :=
                  Packets.split vendorIoEpsize
                      (bytes.drop vendorIoEpsize) ++
                    later }
            timing := (traffic.inTime cable.timing).2 })
      else
        (none,
          { cable with
            timing := (traffic.inTime cable.timing).2 }) := by
  have hPositive : 0 < vendorIoEpsize := by decide
  simp only [timedLink, wireLink, hQueue]
  rw [Packets.split_of_ne_nil hPositive hBytes]
  rfl

/-
  A page whose bytes are under way is complete exactly when
  the wait for each of its packets finds it in time.  By
  induction on the turns of the loop.
-/
theorem pageArriving_timed
    (n count : Nat)
    (bytes : List UInt8)
    (later : List (List UInt8))
    (cable : Timed η)
    (hTurns : count ≤ n)
    (hThere : count ≤ bytes.length)
    (hQueue :
      cable.wire.bulkOut =
        Packets.split vendorIoEpsize bytes ++ later) :
    (traffic.InTime (packetCount count) cable.timing ∧
        ∃ chunks freed,
          pageArriving (timedLink traffic) last wireFuel n count
              cable =
            .complete chunks [] freed ∧
          ∀ (s : Fw τ) (done : Nat),
            s.storeChunks done chunks =
              s.storeBytes done (bytes.take count)) ∨
      (¬ traffic.InTime (packetCount count) cable.timing ∧
        ∃ chunks freed,
          pageArriving (timedLink traffic) last wireFuel n count
              cable =
            .givenUp chunks [] freed) := by
  induction n generalizing count bytes cable with
  | zero =>
      have hZero : count = 0 := by omega
      subst hZero
      exact Or.inl ⟨trivial, [], cable, rfl, fun _ _ => rfl⟩
  | succ n ih =>
      rcases Nat.eq_zero_or_pos count with hZero | hSome
      · subst hZero
        exact Or.inl ⟨trivial, [], cable, rfl, fun _ _ => rfl⟩
      · have hBytes : bytes ≠ [] := by
          apply List.ne_nil_of_length_pos
          omega
        have hPacket :=
          timedLink_bulkOut traffic hBytes hQueue
        rw [packetCount_of_pos hSome, Traffic.InTime]
        by_cases hNow : (traffic.inTime cable.timing).1 = true
        · rw [if_pos hNow] at hPacket
          have hTurn :=
            pageArriving_chunk (timedLink traffic) last
              wireFuel n hSome (by omega) (by decide) hPacket
          have hLess :
              count - min count vendorIoEpsize ≤ n := by
            have hSize : vendorIoEpsize = 64 := rfl
            omega
          have hRest :=
            ih (count - min count vendorIoEpsize)
              (bytes.drop vendorIoEpsize)
              { wire :=
                  { cable.wire with
                    bulkOut :=
                      Packets.split vendorIoEpsize
                          (bytes.drop vendorIoEpsize) ++
                        later }
                timing := (traffic.inTime cable.timing).2 }
              hLess
              (by
                rw [List.length_drop]
                omega)
              rfl
          rw [hTurn]
          rcases hRest with
            ⟨hLater, chunks, freed, hPage, hStored⟩ |
            ⟨hLate, chunks, freed, hPage⟩
          · refine Or.inl ⟨⟨hNow, hLater⟩, _, freed,
              by rw [hPage]; rfl, ?_⟩
            intro s done
            exact storeChunks_cons s done count bytes _ chunks
              hThere (fun s => hStored s _)
          · refine Or.inr ⟨fun hBoth => hLate hBoth.2, _, freed,
              by rw [hPage]; rfl⟩
        · rw [if_neg hNow] at hPacket
          refine Or.inr ⟨fun hBoth => hNow hBoth.1, [],
            { cable with
              timing := (traffic.inTime cable.timing).2 }, ?_⟩
          cases count with
          | zero => exact absurd hSome (Nat.lt_irrefl 0)
          | succ count => rw [pageArriving, hPacket]

end Packets

------------------------------------------------------------
-- Packets of the Driver
------------------------------------------------------------

section Driver

variable (line : Line τ) (traffic : Traffic η)

/- A bulk transfer leaves packets behind, or none. -/
theorem timedUsb_bulkOut
    (d : World τ (Timed η))
    (packet : List UInt8) :
    ∃ result timing packets,
      (timedUsb line traffic).bulkOut d packet =
        (result, d.withLink (d.link.sent timing packets)) :=
  ⟨_, _, _, rfl⟩

/-
  The loop of `lucax_paged_write` touches the queue of the
  bulk endpoint and the time, nothing else.
-/
theorem writeLoop_timed
    (m : AvrMem)
    (base nBytes fuel total : Nat)
    (d : World τ (Timed η)) :
    ∃ timing packets,
      (writeLoop (timedUsb line traffic) m base nBytes fuel
          total d).2 =
        d.withLink (d.link.sent timing packets) := by
  have hSame :
      d = d.withLink (d.link.sent d.link.timing []) := by
    simp [Timed.sent, World.withLink]
  induction fuel generalizing total d with
  | zero =>
      refine ⟨d.link.timing, [], ?_⟩
      rw [writeLoop, ← hSame]
      split
      · rfl
      · rfl
  | succ fuel ih =>
      rw [writeLoop]
      split
      · rcases timedUsb_bulkOut line traffic d
            (m.bytes (base + total) (min (nBytes - total) 64))
          with ⟨result, timing, packets, hSent⟩
        simp only [hSent]
        split
        · exact ⟨timing, packets, rfl⟩
        · split
          · exact ⟨timing, packets, rfl⟩
          · rcases ih (total + result.2)
                (d.withLink (d.link.sent timing packets))
                (by simp [Timed.sent, World.withLink]) with
              ⟨later, more, hMore⟩
            refine ⟨later, packets ++ more, hMore.trans ?_⟩
            simp [Timed.sent, World.withLink, List.append_assoc]
      · exact ⟨d.link.timing, [], hSame⟩

/- A request in a control transfer that goes through. -/
theorem timedUsb_controlOut
    {d : World τ (Timed η)}
    (hNone : d.link.wire.setup = none)
    {r : Request}
    {data : List UInt8}
    (hSent :
      0 ≤ ((timedUsb line traffic).controlOut d r data).1) :
    ((timedUsb line traffic).controlOut d r data).2 =
      timedSubmit r data
        (d.withLink
          { d.link with
            timing := (traffic.control d.link.timing).2 }) := by
  simp only [timedUsb, timedSettle_free line traffic hNone]
    at hSent ⊢
  split
  · rfl
  · rename_i hFailed
    rw [if_neg hFailed] at hSent
    have hCode : (0 : Int) ≤ -7 := hSent
    omega

end Driver

end Lucax
