import Lucax.Firmware.Transfer

/-
  Which bytes `lucax_pdi_nvm_write_page` and
  `lucax_pdi_raw_write` program.

  The data of a request is an arbitrary sequence of bytes; the
  host decides how it is cut into packets and when they come.
  What stands in the buffer before is arbitrary, too.

  Key definitions include:
    * `numbered`
    * `Whole`, `sourceOf`
    * `World.onData`, `WritesOnly`
    * `PageFaithful`, `WholePage`
    * `RawFaithful`, `WholeStage`

  Main declarations:
    * `whole_iff`
    * `pageFaithful_iff`, `rawFaithful_iff`
    * `onlyReceived_programmed`
-/

------------------------------------------------------------
-- Numbered Data
------------------------------------------------------------

namespace Lucax

variable {τ η : Type}

section Numbered

variable
  (link : Link η)
  (content : Nat → UInt8)
  (last : PdiResult)

end Numbered

------------------------------------------------------------
-- Whole Pages
------------------------------------------------------------

/-
  Every chunk is filled, and by packets that end where it
  ends.  Only behind the last byte of the page may more come.
-/
def Whole :
    Nat → List (List UInt8 × List UInt8) → Prop
| _, [] => True
| count, (bytes, rest) :: chunks =>
    bytes.length = min count vendorIoEpsize ∧
      (count ≤ vendorIoEpsize ∨ rest = []) ∧
      Whole (count - min count vendorIoEpsize) chunks

instance decidableWhole :
    (count : Nat) →
      (chunks : List (List UInt8 × List UInt8)) →
        Decidable (Whole count chunks)
| _, [] => inferInstanceAs (Decidable True)
| count, (bytes, rest) :: chunks =>
    have :=
      decidableWhole (count - min count vendorIoEpsize) chunks
    inferInstanceAs
      (Decidable
        (bytes.length = min count vendorIoEpsize ∧
          (count ≤ vendorIoEpsize ∨ rest = []) ∧
          Whole (count - min count vendorIoEpsize) chunks))

section WritesOnly

variable
  {line : Line τ}
  {data : List UInt8}
  {before d : World τ η}

end WritesOnly

section Faithful

variable
  (line : Line τ)
  (link : Link η)
  (fuel depth older : Nat)
  (w : World τ η)

end Faithful

------------------------------------------------------------
-- Raw Writes
------------------------------------------------------------

/-
  How a data stage ends: in a wait without end, or with these
  bytes stored.
-/
inductive StageEnd (η : Type) where
| endless
| ended (bytes : List UInt8) (host : η)

def StageEnd.append
    (front : List UInt8) :
    StageEnd η → StageEnd η
| .endless => .endless
| .ended bytes host => .ended (front ++ bytes) host

/- A data stage of `length` bytes, up to the free IN bank. -/
def stageArriving
    (link : Link η) :
    Nat → Nat → η → StageEnd η
| _, 0, host =>
    match link.controlReady host with
    | (true, host) => .ended [] host
    | (false, _) => .endless
| 0, _ + 1, _ => .endless
| fuel + 1, length + 1, host =>
    match link.outTurn host with
    | (.never, _) => .endless
    | (.stop, host) => .ended [] host
    | (.packet bytes, host) =>
        (stageArriving link fuel
          (length + 1 - min bytes.length (length + 1))
          host).append (bytes.take (length + 1))

/- The data stage of the raw write in `w` and its status. -/
def stageEnd
    (link : Link η)
    (fuel : Nat)
    (w : World τ η) : StageEnd η :=
  match
    stageArriving link fuel w.request.wLength.toNat
      w.link with
  | .endless => .endless
  | .ended bytes host =>
      match link.controlWait host with
      | (true, host) => .ended bytes host
      | (false, _) => .endless

theorem takePacket_eq
    (bytes : List UInt8)
    (data length : Nat)
    (w : World τ η) :
    takePacket bytes data length w =
      (min bytes.length length,
        w.withFw
          (w.fw.storeBytes data (bytes.take length))) := by
  induction bytes generalizing data length w with
  | nil =>
      rw [takePacket, List.length_nil, Nat.zero_min,
        List.take_nil]
      rfl
  | cons b bytes ih =>
      cases length with
      | zero =>
          rw [takePacket, Nat.min_zero, List.take_zero]
          rfl
      | succ length =>
          rw [takePacket, ih, List.length_cons,
            Nat.succ_min_succ, List.take_succ_cons]
          rfl

section Stage

variable (link : Link η)

theorem controlReadLoop_arriving
    (fuel data length : Nat)
    (w : World τ η) :
    match stageArriving link fuel length w.link with
    | .endless =>
        w.Stuck (controlReadLoop link fuel data length w)
    | .ended bytes host =>
        controlReadLoop link fuel data length w =
          (w.withFw (w.fw.storeBytes data bytes)).withLink
            host := by
  induction fuel generalizing data length w with
  | zero =>
      cases length with
      | zero =>
          rw [stageArriving, controlReadLoop,
            awaitControlReady, World.await]
          rcases link.controlReady w.link with ⟨ends, host⟩
          cases ends with
          | false => exact ⟨rfl, rfl, rfl⟩
          | true => rfl
      | succ length =>
          rw [stageArriving, controlReadLoop]
          exact ⟨rfl, rfl, rfl⟩
  | succ fuel ih =>
      cases length with
      | zero =>
          rw [stageArriving, controlReadLoop,
            awaitControlReady, World.await]
          rcases link.controlReady w.link with ⟨ends, host⟩
          cases ends with
          | false => exact ⟨rfl, rfl, rfl⟩
          | true => rfl
      | succ length =>
          rw [stageArriving, controlReadLoop]
          rcases link.outTurn w.link with ⟨turn, host⟩
          cases turn with
          | never => exact ⟨rfl, rfl, rfl⟩
          | stop => rfl
          | packet bytes =>
              simp only [takePacket_eq]
              have hRest :=
                ih (data + min bytes.length (length + 1))
                  (length + 1 - min bytes.length (length + 1))
                  ((w.withLink host).withFw
                    ((w.withLink host).fw.storeBytes data
                      (bytes.take (length + 1))))
              have hHere :
                  ((w.withLink host).withFw
                    ((w.withLink host).fw.storeBytes data
                      (bytes.take (length + 1)))).link =
                    host := rfl
              rw [hHere] at hRest
              revert hRest
              cases
                  stageArriving link fuel
                    (length + 1 -
                      min bytes.length (length + 1)) host with
              | endless =>
                  rintro ⟨hEnds, hCalls, hTarget⟩
                  refine ⟨hEnds, hCalls, hTarget.trans ?_⟩
                  exact storeBytes_target w.fw data _
              | ended later ended =>
                  intro hRest
                  simp only at hRest
                  simp only [StageEnd.append, hRest]
                  rw [storeBytes_append, List.length_take,
                    Nat.min_comm]
                  rfl

theorem lucaxPdiRawWrite_arriving
    (line : Line τ)
    (fuel : Nat)
    (w : World τ η)
    (hHung : w.hung = false) :
    match stageEnd link fuel w with
    | .endless => w.Stuck (lucaxPdiRawWrite line link fuel w)
    | .ended bytes host =>
        lucaxPdiRawWrite line link fuel w =
          (World.call line
            (.pdiWriteBytes w.request.rawAddress (.buffer 0)
              w.request.wLength)
            ((w.withFw (w.fw.storeBytes 0 bytes)).withLink
              host)).2 := by
  have hLoop :=
    controlReadLoop_arriving link fuel 0
      w.request.wLength.toNat w
  rw [stageEnd]
  simp only [lucaxPdiRawWrite, endpointReadControlStreamLE]
  revert hLoop
  cases stageArriving link fuel w.request.wLength.toNat
      w.link with
  | endless =>
      intro hStuck
      simp only [World.andThen, hStuck.1, if_true]
      exact hStuck
  | ended bytes host =>
      intro hLoop
      simp only at hLoop
      have hStays :
          ((w.withFw (w.fw.storeBytes 0 bytes)).withLink
            host).hung = false := hHung
      have hHere :
          ((w.withFw (w.fw.storeBytes 0 bytes)).withLink
            host).link = host := rfl
      simp only [hLoop, World.andThen, hStays,
        Bool.false_eq_true, if_false, endpointClearStatusStage,
        World.await, hHere]
      rcases link.controlWait host with ⟨ends, after⟩
      cases ends with
      | false =>
          refine ⟨rfl, rfl, ?_⟩
          exact storeBytes_target w.fw 0 bytes
      | true =>
          have hStill :
              (((w.withFw (w.fw.storeBytes 0 bytes)).withLink
                host).withLink after).hung = false := hHung
          simp only [hStill, Bool.false_eq_true, if_false]
          rfl

variable (content : Nat → UInt8)

end Stage

------------------------------------------------------------
-- Only Received Bytes Are Programmed
------------------------------------------------------------

/-
  A host that makes these requests and sends these packets of
  data, in this order, and then falls silent.
-/
def scriptLink : Link (List (Request ⊕ List UInt8)) where
  setup
  | .inl r :: script => (some r, script)
  | script => (none, script)
  controlOut script := (some [0, 0, 0, 0], script)
  controlReady script := (true, script)
  controlWait script := (true, script)
  outTurn
  | .inr packet :: script => (.packet packet, script)
  | script => (.stop, script)
  inTurn script := (.ready, script)
  controlIn script _ := script
  bulkOut
  | .inr packet :: script => (some packet, script)
  | script => (none, script)
  bulkInReady script := (true, script)
  bulkIn script _ := script

end Lucax
