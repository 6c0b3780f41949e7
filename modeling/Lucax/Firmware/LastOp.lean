import Lucax.Firmware.Effects
import Lucax.Firmware.PageData

/-
  What `LUCAX_REPORT_ERROR` is answered with, over whole runs
  of the main loop.

  A request for a target operation is carried out, by a driver
  call on the target as it stood, or it is abandoned on the
  way.

  Key definitions include:
    * `World.Ready`, `Left`, `Carried`
    * `Outcome`, `Came`, `Recent`
    * `Recorded`, `AllTurns`, `Told`
    * `watched`, `Answers`

  Main declarations:
    * `usbTask_recorded`
    * `mainLoop_recorded`
    * `reported_describes`
-/

------------------------------------------------------------
-- Between Requests
------------------------------------------------------------

namespace Lucax

variable {τ η : Type}

/- The device between two requests. -/
structure World.Ready
    (w : World τ η) : Prop where
  outBank : w.outBank = none
  inBank : w.inBank = []
  hung : w.hung = false

theorem World.ready_powerOn
    (target : τ)
    (host : η) :
    (World.powerOn target host).Ready :=
  ⟨rfl, rfl, rfl⟩

/- The device went on without a driver call. -/
structure Left (w w' : World τ η) : Prop where
  ready : w'.Ready
  buffered : w.fw.Buffered w'.fw
  calls : w'.calls = w.calls
  lastOp : w'.lastOp = w.lastOp

/-
  From `w` to `w'` the request `r` made one driver call, on
  the target as it stood, and `result` is what it returned.
-/
structure Operated
    (line : Line τ)
    (r : Request)
    (w w' : World τ η)
    (result : PdiResult) : Prop where
  call :
    ∃ (c : Call) (s : Fw τ),
      r.Makes c ∧
        w.fw.Buffered s ∧
        result = (c.exec line s).1.1 ∧
        (c.exec line s).2.Buffered w'.fw ∧
        w'.calls = w.calls ++ [(c, result)]

/- The device went on, and `last_op` is what a call returned. -/
structure Carried
    (line : Line τ)
    (r : Request)
    (w w' : World τ η) : Prop where
  ready : w'.Ready
  operated : Operated line r w w' w'.lastOp

section Carried

variable
  {line : Line τ}
  {r : Request}
  {w w' w'' : World τ η}

theorem Left.refl
    (hReady : w.Ready) :
    Left w w :=
  ⟨hReady, .refl w.fw, rfl, rfl⟩

theorem Left.trans
    (hFirst : Left w w')
    (hSecond : Left w' w'') :
    Left w w'' :=
  ⟨hSecond.ready, hFirst.buffered.trans hSecond.buffered,
    hSecond.calls.trans hFirst.calls,
    hSecond.lastOp.trans hFirst.lastOp⟩

theorem Left.carried
    (hFirst : Left w w')
    (hSecond : Carried line r w' w'') :
    Carried line r w w'' := by
  rcases hSecond.operated.call with
    ⟨c, s, hMakes, hBefore, hResult, hAfter, hCalls⟩
  refine
    ⟨hSecond.ready, c, s, hMakes,
      hFirst.buffered.trans hBefore, hResult, hAfter, ?_⟩
  rw [hCalls, hFirst.calls]

theorem Carried.left
    (hFirst : Carried line r w w')
    (hSecond : Left w' w'') :
    Carried line r w w'' := by
  rcases hFirst.operated.call with
    ⟨c, s, hMakes, hBefore, hResult, hAfter, hCalls⟩
  refine
    ⟨hSecond.ready, c, s, hMakes, hBefore,
      hSecond.lastOp.trans hResult,
      hAfter.trans hSecond.buffered, ?_⟩
  rw [hSecond.calls, hSecond.lastOp, hCalls]

end Carried

------------------------------------------------------------
-- Handlers
------------------------------------------------------------

section Handlers

variable (line : Line τ) (link : Link η)
variable {w : World τ η}

theorem storeBytes_buffered
    (s : Fw τ)
    (i : Nat)
    (bytes : List UInt8) :
    s.Buffered (s.storeBytes i bytes) := by
  induction bytes generalizing s i with
  | nil => exact .refl s
  | cons b bytes ih =>
      exact (Fw.Buffered.storeByte s i b).trans (ih _ _)

theorem storeChunks_buffered
    (s : Fw τ)
    (done : Nat)
    (chunks : List (List UInt8 × List UInt8)) :
    s.Buffered (s.storeChunks done chunks) := by
  induction chunks generalizing s done with
  | nil => exact .refl s
  | cons chunk chunks ih =>
      exact
        (storeBytes_buffered s done chunk.1).trans (ih _ _)

theorem withLink_left
    (hReady : w.Ready)
    (host : η) :
    Left w (w.withLink host) :=
  ⟨⟨hReady.outBank, hReady.inBank, hReady.hung⟩,
    .refl w.fw, rfl, rfl⟩

theorem clearControlIn_left
    (hReady : w.Ready)
    (packet : List UInt8) :
    Left w (clearControlIn link packet w) :=
  withLink_left hReady _

theorem call_carried
    (hReady : w.Ready)
    {r : Request}
    {c : Call}
    (hMakes : r.Makes c) :
    Carried line r w (w.call line c).2 :=
  ⟨⟨hReady.outBank, hReady.inBank, hReady.hung⟩,
    c, w.fw, hMakes, .refl w.fw, rfl, .refl _, rfl⟩

/- A wait ends or it does not. -/
theorem await_left
    (wait : η → Bool × η)
    (hReady : w.Ready) :
    (w.await wait).hung = true ∨ Left w (w.await wait) := by
  unfold World.await
  split
  · exact Or.inr (withLink_left hReady _)
  · exact Or.inl rfl

theorem endpointClearStatusStage_left
    (hReady : w.Ready) :
    (endpointClearStatusStage link w).hung = true ∨
      Left w (endpointClearStatusStage link w) :=
  await_left link.controlWait hReady

theorem lucaxReportError_left
    (hReady : w.Ready) :
    (lucaxReportError link w).hung = true ∨
      Left w (lucaxReportError link w) := by
  have hSent :=
    clearControlIn_left link hReady [w.lastOp.toByte]
  rcases endpointClearStatusStage_left link hSent.ready with
    hHung | hLeft
  · exact Or.inl hHung
  · exact Or.inr (hSent.trans hLeft)

theorem lucaxGetDescriptor_left
    (hReady : w.Ready) :
    (lucaxGetDescriptor link w).hung = true ∨
      Left w (lucaxGetDescriptor link w) := by
  have hSent := clearControlIn_left link hReady [0x01]
  rcases endpointClearStatusStage_left link hSent.ready with
    hHung | hLeft
  · exact Or.inl hHung
  · exact Or.inr (hSent.trans hLeft)

/- `last_op` is the result of `pdi_init`. -/
theorem lucaxPdiInit_ready
    (hReady : w.Ready) :
    (lucaxPdiInit line link w).hung = true ∨
      (lucaxPdiInit line link w).Ready ∧
        (lucaxPdiInit line link w).lastOp =
            (pdiInit line w.request.wValue w.fw).1 ∧
        (pdiInit line w.request.wValue w.fw).2.Buffered
          (lucaxPdiInit line link w).fw := by
  have hBegun :
      World.Ready
        { w.withFw (pdiInit line w.request.wValue w.fw).2 with
          lastOp := (pdiInit line w.request.wValue w.fw).1 } :=
    ⟨hReady.outBank, hReady.inBank, hReady.hung⟩
  rcases lucaxReportError_left link hBegun with hHung | hLeft
  · exact Or.inl hHung
  · exact Or.inr ⟨hLeft.ready, hLeft.lastOp, hLeft.buffered⟩

theorem lucaxPdiChipErase_carried
    (hReady : w.Ready)
    (hKind : w.request.kind = some .pdiChipErase) :
    (lucaxPdiChipErase line link w).hung = true ∨
      Carried line w.request w
        (lucaxPdiChipErase line link w) := by
  have hMakes : w.request.Makes .nvmChipErase := by
    simp [Request.Makes, hKind]
  have hCalled := call_carried line hReady hMakes
  rcases lucaxReportError_left link hCalled.ready with
    hHung | hLeft
  · exact Or.inl hHung
  · exact Or.inr (hCalled.left hLeft)

/- A packet that fits the IN bank is written there. -/
theorem rwStream_write_left
    (task : World τ η → World τ η)
    (fuel data length : Nat)
    (hHung : w.hung = false)
    (hRoom : w.inBank.length + length ≤ vendorIoEpsize) :
    (rwStream (writeDirection link) task fuel data length
          w).hung = true ∨
      ∃ (touched : List Nat) (bank : List UInt8),
        rwStream (writeDirection link) task fuel data length w =
          { w.withFw (w.fw.touch touched) with
            inBank := bank } := by
  by_cases hFuel : length ≤ fuel
  · exact
      Or.inr ⟨_, _,
        rwStream_write link task fuel data length w hFuel hRoom⟩
  · left
    induction fuel generalizing data length w with
    | zero =>
        cases length with
        | zero => omega
        | succ length => rw [rwStream]; rfl
    | succ fuel ih =>
        cases length with
        | zero => omega
        | succ length =>
            have hAllowed :
                (writeDirection link).allowed w = true := by
              simp only [writeDirection, decide_eq_true_eq]
              omega
            rw [rwStream, if_pos hAllowed]
            apply ih
            · exact hHung
            · simp only [writeDirection, List.length_append,
                List.length_singleton]
              omega
            · omega

/- The transmit loop makes no driver call. -/
theorem sendChunks_left
    (task : World τ η → World τ η)
    (fuel n count done : Nat)
    (hReady : w.Ready) :
    (sendChunks link task fuel n count done w).hung = true ∨
      Left w (sendChunks link task fuel n count done w) := by
  induction n generalizing count done w with
  | zero =>
      cases count with
      | zero =>
          rw [sendChunks]
          exact Or.inr (Left.refl hReady)
      | succ count =>
          rw [sendChunks]
          exact Or.inl rfl
  | succ n ih =>
      cases count with
      | zero =>
          rw [sendChunks]
          exact Or.inr (Left.refl hReady)
      | succ count =>
          rw [sendChunks]
          have hWaited : Left w (waitInReady link w).2 :=
            withLink_left hReady _
          generalize (waitInReady link w).2 = waited at hWaited ⊢
          have hStream :
              (endpointWriteStreamLE link task fuel done
                    (min (count + 1) vendorIoEpsize)
                    waited).hung = true ∨
                Left w
                  (clearIn link
                    (endpointWriteStreamLE link task fuel done
                      (min (count + 1) vendorIoEpsize)
                      waited)) := by
            rw [endpointWriteStreamLE, endpointStream]
            have hAgain :
                Left waited ((writeDirection link).wait waited).2 :=
              withLink_left hWaited.ready _
            generalize (writeDirection link).wait waited =
              answer at hAgain ⊢
            rcases answer with ⟨free, again⟩
            have hHere := hWaited.trans hAgain
            simp only at hHere
            cases free with
            | false =>
                right
                exact ⟨⟨hHere.ready.outBank, rfl,
                  hHere.ready.hung⟩, hHere.buffered,
                  hHere.calls, hHere.lastOp⟩
            | true =>
                rcases rwStream_write_left link task fuel done
                    (min (count + 1) vendorIoEpsize)
                    hHere.ready.hung
                    (by
                      rw [hHere.ready.inBank, List.length_nil]
                      omega) with
                  hHung | ⟨touched, bank, hWritten⟩
                · exact Or.inl hHung
                · right
                  simp only [hWritten]
                  exact ⟨⟨hHere.ready.outBank, rfl,
                    hHere.ready.hung⟩,
                    hHere.buffered.trans ⟨_, _, rfl⟩,
                    hHere.calls, hHere.lastOp⟩
          rcases hStream with hHung | hSent
          · left
            simp only [World.andThen, hHung, if_true]
          · have hStays :
                (endpointWriteStreamLE link task fuel done
                    (min (count + 1) vendorIoEpsize)
                    waited).hung = false := hSent.ready.hung
            simp only [World.andThen, hStays,
              Bool.false_eq_true, if_false]
            rcases
                ih (count + 1 - min (count + 1) vendorIoEpsize)
                  (done + min (count + 1) vendorIoEpsize)
                  hSent.ready with
              hHung | hRest
            · exact Or.inl hHung
            · exact Or.inr (hSent.trans hRest)

theorem lucaxPdiNvmRead_carried
    (task : World τ η → World τ η)
    (fuel : Nat)
    (hReady : w.Ready)
    (hKind : w.request.kind = some .pdiNvmRead) :
    (lucaxPdiNvmRead line link task fuel w).hung = true ∨
      Carried line w.request w
        (lucaxPdiNvmRead line link task fuel w) := by
  unfold lucaxPdiNvmRead awaitControlOut
  rcases link.controlOut w.link with ⟨packet, addressed⟩
  cases packet with
  | none => exact Or.inl rfl
  | some packet =>
      have hAddressed := withLink_left hReady addressed
      simp only
      rcases
          endpointClearStatusStage_left link
            hAddressed.ready with
        hHung | hStatus
      · left
        simp only [World.andThen, hHung, if_true]
      · have hHere := hAddressed.trans hStatus
        simp only [World.andThen, hStatus.ready.hung,
          Bool.false_eq_true, if_false]
        generalize
          endpointClearStatusStage link
            (w.withLink addressed) = begun at hHere ⊢
        split
        · rename_i hOne
          right
          have hMakes :
              w.request.Makes
                (.nvmReadByte (endpointRead32LE packet)) := by
            simp [Request.Makes, hKind, hOne]
          have hCalled :=
            hHere.carried (call_carried line hHere.ready hMakes)
          exact ⟨⟨hCalled.ready.outBank, rfl,
            hCalled.ready.hung⟩, ⟨hCalled.operated.call⟩⟩
        · rename_i hOne
          have hMakes :
              w.request.Makes
                (.nvmReadBytes (endpointRead32LE packet) 0
                  (clamp w.request.wIndex)) := by
            simp [Request.Makes, hKind, hOne]
          have hCalled :=
            hHere.carried (call_carried line hHere.ready hMakes)
          rcases
              sendChunks_left link task fuel
                (clamp w.request.wIndex).toNat
                (clamp w.request.wIndex).toNat 0
                hCalled.ready with
            hHung | hSent
          · exact Or.inl hHung
          · exact Or.inr (hCalled.left hSent)

theorem lucaxPdiNvmWriteByte_carried
    (hReady : w.Ready)
    (hKind : w.request.kind = some .pdiNvmWriteByte) :
    (lucaxPdiNvmWriteByte line link w).hung = true ∨
      Carried line w.request w
        (lucaxPdiNvmWriteByte line link w) := by
  unfold lucaxPdiNvmWriteByte receiveByteAddress awaitControlOut
  rcases link.controlOut w.link with ⟨packet, addressed⟩
  cases packet with
  | none => exact Or.inl rfl
  | some packet =>
      have hAddressed := withLink_left hReady addressed
      simp only
      rcases
          endpointClearStatusStage_left link
            hAddressed.ready with
        hHung | hStatus
      · left
        simp only [hHung, if_true]
      · have hHere := hAddressed.trans hStatus
        right
        simp only [hStatus.ready.hung, Bool.false_eq_true,
          if_false]
        have hMakes :
            w.request.Makes
              (.nvmWriteByte (endpointRead32LE packet)
                w.request.wIndex.toUInt8
                (byteMemory w.request.wValue.toUInt8)) := by
          simp [Request.Makes, hKind]
        exact
          hHere.carried (call_carried line hHere.ready hMakes)

/- The packets of a control stream make no driver call. -/
theorem fillPacket_left
    (n data : Nat)
    (hReady : w.Ready) :
    Left w (fillPacket n data w).2 := by
  induction n generalizing data w with
  | zero => exact Left.refl hReady
  | succ n ih =>
      rw [fillPacket]
      have hLoaded :
          Left w (w.withFw (w.fw.loadByte data).2) :=
        ⟨⟨hReady.outBank, hReady.inBank, hReady.hung⟩,
          .loadByte w.fw data, rfl, rfl⟩
      exact hLoaded.trans (ih (data + 1) hLoaded.ready)

theorem controlWriteLoop_left
    (fuel data length : Nat)
    (lastPacketFull : Bool)
    (hReady : w.Ready) :
    (controlWriteLoop link fuel data length lastPacketFull
          w).hung = true ∨
      Left w
        (controlWriteLoop link fuel data length lastPacketFull
          w) := by
  induction fuel generalizing data length lastPacketFull w with
  | zero =>
      rw [controlWriteLoop]
      exact Or.inl rfl
  | succ fuel ih =>
      rw [controlWriteLoop]
      split
      · exact await_left link.controlReady hReady
      · split
        · exact Or.inl rfl
        · exact Or.inr (withLink_left hReady _)
        · exact Or.inr (withLink_left hReady _)
        · rename_i host hTurn
          have hTurned := withLink_left hReady host
          have hFilled :=
            hTurned.trans
              (fillPacket_left
                (min length controlEndpointSize) data
                hTurned.ready)
          have hSent :=
            hFilled.trans
              (clearControlIn_left link hFilled.ready
                (fillPacket (min length controlEndpointSize)
                  data (w.withLink host)).1)
          rcases
              ih (data + min length controlEndpointSize)
                (length - min length controlEndpointSize)
                (min length controlEndpointSize =
                  controlEndpointSize)
                hSent.ready with
            hHung | hRest
          · exact Or.inl hHung
          · exact Or.inr (hSent.trans hRest)

theorem lucaxPdiRawRead_carried
    (fuel : Nat)
    (hReady : w.Ready)
    (hKind : w.request.kind = some .pdiRawRead) :
    (lucaxPdiRawRead line link fuel w).hung = true ∨
      Carried line w.request w
        (lucaxPdiRawRead line link fuel w) := by
  have hMakes :
      w.request.Makes
        (.pdiReadBytes w.request.rawAddress 0
          w.request.wLength) := by
    simp [Request.Makes, hKind]
  have hCalled := call_carried line hReady hMakes
  have hStream :
      (endpointWriteControlStreamLE link fuel 0
            w.request.wLength.toNat
            (w.call line
              (.pdiReadBytes w.request.rawAddress 0
                w.request.wLength)).2).hung = true ∨
        Carried line w.request w
          (endpointWriteControlStreamLE link fuel 0
            w.request.wLength.toNat
            (w.call line
              (.pdiReadBytes w.request.rawAddress 0
                w.request.wLength)).2) := by
    unfold endpointWriteControlStreamLE
    split
    · have hSent :=
        hCalled.left
          (clearControlIn_left link hCalled.ready [])
      rcases
          controlWriteLoop_left link fuel 0 0 false
            hSent.ready with
        hHung | hLoop
      · exact Or.inl hHung
      · exact Or.inr (hSent.left hLoop)
    · rcases
          controlWriteLoop_left link fuel 0
            w.request.wLength.toNat false hCalled.ready with
        hHung | hLoop
      · exact Or.inl hHung
      · exact Or.inr (hCalled.left hLoop)
  rw [lucaxPdiRawRead]
  rcases hStream with hHung | hHere
  · left
    simp only [World.andThen, hHung, if_true]
  · simp only [World.andThen, hHere.ready.hung,
      Bool.false_eq_true, if_false]
    rcases endpointClearStatusStage_left link hHere.ready with
      hHung | hStatus
    · exact Or.inl hHung
    · exact Or.inr (hHere.left hStatus)

theorem lucaxPdiRawWrite_carried
    (fuel : Nat)
    (hReady : w.Ready)
    (hKind : w.request.kind = some .pdiRawWrite) :
    (lucaxPdiRawWrite line link fuel w).hung = true ∨
      Carried line w.request w
        (lucaxPdiRawWrite line link fuel w) := by
  have hMakes :
      w.request.Makes
        (.pdiWriteBytes w.request.rawAddress (.buffer 0)
          w.request.wLength) := by
    simp [Request.Makes, hKind]
  have hArriving :=
    lucaxPdiRawWrite_arriving link line fuel w hReady.hung
  revert hArriving
  cases stageEnd link fuel w with
  | endless => exact fun hStuck => Or.inl hStuck.1
  | ended bytes host =>
      intro hAfter
      simp only at hAfter
      right
      have hStored :
          Left w
            ((w.withFw (w.fw.storeBytes 0 bytes)).withLink
              host) :=
        ⟨⟨hReady.outBank, hReady.inBank, hReady.hung⟩,
          storeBytes_buffered w.fw 0 bytes, rfl, rfl⟩
      rw [hAfter]
      exact
        hStored.carried (call_carried line hStored.ready hMakes)

end Handlers

------------------------------------------------------------
-- Outcomes
------------------------------------------------------------

/- What became of a target operation. -/
inductive Outcome where
| released
| carriedOut (result : PdiResult)
| abandoned
deriving DecidableEq, Repr

/- A byte that tells of such an outcome. -/
def Outcome.Reports : Outcome → UInt8 → Prop
| .released, b => b = PdiResult.noError.toByte
| .carriedOut result, b => b = result.toByte
| .abandoned, b => b ≠ PdiResult.noError.toByte

/- The handlers that are to make a driver call. -/
def RequestKind.calls : RequestKind → Bool
| .getDescriptor => false
| .reportError => false
| .releaseInterface => false
| .pdiInit => false
| _ => true

/-
  What became of the operation that `r` asks for in the turn
  from `w` to `w'`; none if it asks for none.
-/
inductive Came
    (line : Line τ)
    (r : Request)
    (w w' : World τ η) :
    Option Outcome → Prop where
| idle
    (hKind :
      r.kind = none ∨ r.kind = some .getDescriptor ∨
        r.kind = some .reportError) :
    Came line r w w' none
| released
    (hKind : r.kind = some .releaseInterface)
    (hExit : w'.fw = pdiExit line w.fw) :
    Came line r w w' (some .released)
| initialised
    (hKind : r.kind = some .pdiInit)
    (hInit : (pdiInit line r.wValue w.fw).2.Buffered w'.fw) :
    Came line r w w'
      (some (.carriedOut (pdiInit line r.wValue w.fw).1))
| operated
    {kind : RequestKind} (hKind : r.kind = some kind)
    (hCalls : kind.calls = true)
    {result : PdiResult}
    (hOperated : Operated line r w w' result) :
    Came line r w w' (some (.carriedOut result))
| abandoned
    {kind : RequestKind} (hKind : r.kind = some kind)
    (hCalls : kind.calls = true)
    (hNone : w'.calls = w.calls)
    (hSame : w.fw.Buffered w'.fw) :
    Came line r w w' (some .abandoned)

/- The outcome by the kind of the request and the calls. -/
def outcome
    (line : Line τ)
    (r : Request)
    (w w' : World τ η) : Option Outcome :=
  match r.kind with
  | none => none
  | some .getDescriptor => none
  | some .reportError => none
  | some .releaseInterface => some .released
  | some .pdiInit =>
      some (.carriedOut (pdiInit line r.wValue w.fw).1)
  | some _ =>
      match (w'.calls.drop w.calls.length).getLast? with
      | some (_, result) => some (.carriedOut result)
      | none => some .abandoned

theorem Came.eq_outcome
    {line : Line τ}
    {r : Request}
    {w w' : World τ η}
    {came : Option Outcome}
    (hCame : Came line r w w' came) :
    came = outcome line r w w' := by
  cases hCame with
  | idle hKind =>
      rcases hKind with hKind | hKind | hKind
      · rw [outcome, hKind]
      · rw [outcome, hKind]
      · rw [outcome, hKind]
  | released hKind hExit => rw [outcome, hKind]
  | initialised hKind hInit => rw [outcome, hKind]
  | @operated kind hKind hCalls result hOperated =>
      rcases hOperated.call with
        ⟨c, s, _hMakes, _hBefore, _hResult, _hAfter, hLog⟩
      rw [outcome, hKind, hLog]
      cases kind with
      | getDescriptor => cases hCalls
      | reportError => cases hCalls
      | releaseInterface => cases hCalls
      | pdiInit => cases hCalls
      | _ => simp
  | @abandoned kind hKind hCalls hNone hSame =>
      rw [outcome, hKind, hNone]
      cases kind with
      | getDescriptor => cases hCalls
      | reportError => cases hCalls
      | releaseInterface => cases hCalls
      | pdiInit => cases hCalls
      | _ => simp

/- What came of the main loop's turn from `w` to `w'`. -/
def TurnCame
    (line : Line τ)
    (link : Link η)
    (w w' : World τ η)
    (came : Option Outcome) : Prop :=
  match (link.setup w.link).1 with
  | none => came = none
  | some r => Came line r w w' came

theorem TurnCame.unique
    {line : Line τ}
    {link : Link η}
    {w w' : World τ η}
    {came came' : Option Outcome}
    (hCame : TurnCame line link w w' came)
    (hCame' : TurnCame line link w w' came') :
    came = came' := by
  rw [TurnCame] at hCame hCame'
  cases hSetup : (link.setup w.link).1 with
  | none =>
      rw [hSetup] at hCame hCame'
      exact hCame.trans hCame'.symm
  | some r =>
      rw [hSetup] at hCame hCame'
      exact hCame.eq_outcome.trans hCame'.eq_outcome.symm

/-
  No raw transfer overruns the buffer, and the turn from `w`
  does not lose a page in silence: no request that acts or
  asks for `last_op` is taken inside a page write, and one
  that is given up finds an error in `last_op`.
-/
def Recorded
    (link : Link η)
    (fuel : Nat)
    (w : World τ η) : Prop :=
  match link.setup w.link with
  | (none, _) => True
  | (some r, host) =>
      r.InBounds ∧
        (r.kind = some .pdiNvmWritePage →
          match pageEnd link fuel ((w.withLink host).take r) with
          | .acts => False
          | .endless => True
          | .givenUp _ taken _ =>
              w.lastOp ≠ .noError ∧
                ∀ r ∈ taken, r.kind ≠ some .reportError
          | .complete _ taken _ =>
              ∀ r ∈ taken, r.kind ≠ some .reportError)

section Turns

variable (line : Line τ) (link : Link η) (fuel depth : Nat)

/-
  In `n` turns from `w` the most recent outcome goes from the
  one to the other.
-/
inductive Recent :
    Nat → World τ η → Outcome → Outcome → Prop where
| done
    (w : World τ η) (last : Outcome) :
    Recent 0 w last last
| idle
    {n : Nat} {w : World τ η} {last final : Outcome}
    (hCame :
      TurnCame line link w (usbTask line link fuel depth w)
        none)
    (hRest :
      Recent n (usbTask line link fuel depth w) last final) :
    Recent (n + 1) w last final
| next
    {n : Nat} {w : World τ η} {last came final : Outcome}
    (hCame :
      TurnCame line link w (usbTask line link fuel depth w)
        (some came))
    (hRest :
      Recent n (usbTask line link fuel depth w) came final) :
    Recent (n + 1) w last final

/- The first `n` turns all begin in states that meet `P`. -/
def AllTurns
    (P : World τ η → Prop) :
    Nat → World τ η → Prop
| 0, _ => True
| n + 1, w =>
    P w ∧ AllTurns P n (usbTask line link fuel depth w)

variable {line link fuel depth}

theorem Recent.unique
    {n : Nat}
    {w : World τ η}
    {last final final' : Outcome}
    (hRecent : Recent line link fuel depth n w last final)
    (hRecent' : Recent line link fuel depth n w last final') :
    final = final' := by
  induction hRecent with
  | done w last =>
      cases hRecent' with
      | done _ _ => rfl
  | idle hCame hRest ih =>
      cases hRecent' with
      | idle hCame' hRest' => exact ih hRest'
      | next hCame' hRest' => cases hCame.unique hCame'
  | next hCame hRest ih =>
      cases hRecent' with
      | idle hCame' hRest' => cases hCame.unique hCame'
      | next hCame' hRest' =>
          cases hCame.unique hCame'
          exact ih hRest'

variable (line link fuel depth)

theorem toByte_ne
    {result : PdiResult}
    (hError : result ≠ .noError) :
    result.toByte ≠ PdiResult.noError.toByte := by
  cases result with
  | noError => exact absurd rfl hError
  | pdiDisabled => decide
  | timeOut => decide
  | invalidAddress => decide

/- A page write is recorded under the condition. -/
theorem lucaxPdiNvmWritePage_recorded
    {w : World τ η}
    (hReady : w.Ready)
    (hKind : w.request.kind = some .pdiNvmWritePage)
    (hPage :
      match pageEnd link fuel w with
      | .acts => False
      | .endless => True
      | .givenUp _ taken _ =>
          w.lastOp ≠ .noError ∧
            ∀ r ∈ taken, r.kind ≠ some .reportError
      | .complete _ taken _ =>
          ∀ r ∈ taken, r.kind ≠ some .reportError) :
    (lucaxPdiNvmWritePage line link
          (usbTask line link fuel (depth + 1)) fuel
          w).hung = true ∨
      Left w
          (lucaxPdiNvmWritePage line link
            (usbTask line link fuel (depth + 1)) fuel w) ∧
        w.lastOp ≠ .noError ∨
      Carried line w.request w
        (lucaxPdiNvmWritePage line link
          (usbTask line link fuel (depth + 1)) fuel w) := by
  have hArriving :=
    lucaxPdiNvmWritePage_arriving line fuel w
      (usbTask_turns line link w.lastOp fuel depth)
      hReady.outBank hReady.hung
  have hStored :
      ∀ (chunks : List (List UInt8 × List UInt8)) (host : η)
          (taken : List Request),
        Left w
          (((w.withFw (w.fw.storeChunks 0 chunks)).withLink
            host).takes taken) := by
    intro chunks host taken
    exact
      ⟨⟨hReady.outBank, hReady.inBank, hReady.hung⟩,
        storeChunks_buffered w.fw 0 chunks, rfl, rfl⟩
  revert hPage hArriving
  cases pageEnd link fuel w with
  | acts => exact fun hNot => absurd hNot id
  | endless => exact fun _ hStuck => Or.inl hStuck.1
  | givenUp chunks taken host =>
      intro hError hAfter
      simp only at hAfter
      rw [hAfter]
      exact Or.inr (Or.inl ⟨hStored _ _ _, hError.1⟩)
  | complete chunks taken host =>
      intro _hPage hAfter
      rcases hAfter with ⟨packet, _hPacket, hCalled⟩
      rw [hCalled]
      have hMakes :
          w.request.Makes
            (.nvmPagedWrite (endpointRead32LE packet) (.buffer 0)
              (clamp w.request.wIndex)
              (pagedMemory w.request.wValue.toUInt8)) := by
        simp [Request.Makes, hKind]
      have hHere := hStored chunks host taken
      exact Or.inr (Or.inr
        (hHere.carried
          (call_carried line hHere.ready hMakes)))

/- From a state in which `last` was told to one after it. -/
def Tells
    (w w' : World τ η)
    (came : Option Outcome) : Prop :=
  match came with
  | none => w'.lastOp = w.lastOp
  | some outcome => outcome.Reports w'.lastOp.toByte

/-
  The handler of `r` does not return, or `last_op` tells what
  came of it.
-/
def Told
    (line : Line τ)
    (r : Request)
    (w w' : World τ η) : Prop :=
  w'.hung = true ∨
    w'.Ready ∧
      ∃ came, Came line r w w' came ∧ Tells w w' came

section Told

variable
  {line : Line τ}
  {r : Request}
  {w w' : World τ η}
  {host : η}

theorem Told.of_left
    (hKind :
      r.kind = none ∨ r.kind = some .getDescriptor ∨
        r.kind = some .reportError)
    (hHandled :
      w'.hung = true ∨
        Left ((w.withLink host).take r) w') :
    Told line r w w' := by
  rcases hHandled with hHung | hLeft
  · exact Or.inl hHung
  · exact
      Or.inr ⟨hLeft.ready, none, .idle hKind, hLeft.lastOp⟩

theorem Told.of_carried
    {kind : RequestKind}
    (hKind : r.kind = some kind)
    (hCalls : kind.calls = true)
    (hHandled :
      w'.hung = true ∨
        Carried line r ((w.withLink host).take r) w') :
    Told line r w w' := by
  rcases hHandled with hHung | hCarried
  · exact Or.inl hHung
  · have hOperated : Operated line r w w' w'.lastOp :=
      ⟨hCarried.operated.call⟩
    exact
      Or.inr
        ⟨hCarried.ready, _, .operated hKind hCalls hOperated,
          rfl⟩

/- A page that is given up where `last_op` holds an error. -/
theorem Told.of_givenUp
    (hKind : r.kind = some .pdiNvmWritePage)
    (hLeft : Left ((w.withLink host).take r) w')
    (hError : w.lastOp ≠ .noError) :
    Told line r w w' := by
  refine
    Or.inr
      ⟨hLeft.ready, _,
        .abandoned hKind rfl hLeft.calls hLeft.buffered, ?_⟩
  simp only [Tells, Outcome.Reports, hLeft.lastOp]
  exact toByte_ne hError

end Told

/- Each handler, by the kind of its request. -/
theorem event_told
    {w : World τ η}
    {r : Request}
    {host : η}
    (hTaken : ((w.withLink host).take r).Ready)
    (hPage :
      r.kind = some .pdiNvmWritePage →
        match pageEnd link fuel ((w.withLink host).take r) with
        | .acts => False
        | .endless => True
        | .givenUp _ taken _ =>
            w.lastOp ≠ .noError ∧
              ∀ r ∈ taken, r.kind ≠ some .reportError
        | .complete _ taken _ =>
            ∀ r ∈ taken, r.kind ≠ some .reportError) :
    Told line r w
      (eventUsbDeviceControlRequest line link
        (usbTask line link fuel (depth + 1)) fuel
        ((w.withLink host).take r)) := by
  have hRequest : ((w.withLink host).take r).request = r := rfl
  rw [eventUsbDeviceControlRequest, hRequest]
  cases hIs : r.kind with
  | none =>
      exact .of_left (Or.inl hIs) (Or.inr (.refl hTaken))
  | some kind =>
      cases kind with
      | getDescriptor =>
          exact
            .of_left (Or.inr (Or.inl hIs))
              (lucaxGetDescriptor_left link hTaken)
      | reportError =>
          exact
            .of_left (Or.inr (Or.inr hIs))
              (lucaxReportError_left link hTaken)
      | releaseInterface =>
          exact
            Or.inr
              ⟨⟨hTaken.outBank, hTaken.inBank, hTaken.hung⟩, _,
                .released hIs rfl, rfl⟩
      | pdiInit =>
          rcases lucaxPdiInit_ready line link hTaken with
            hHung | ⟨hAfter, hLastOp, hInit⟩
          · exact Or.inl hHung
          · exact
              Or.inr
                ⟨hAfter, _, .initialised hIs hInit,
                  congrArg PdiResult.toByte hLastOp⟩
      | pdiChipErase =>
          exact
            .of_carried hIs rfl
              (lucaxPdiChipErase_carried line link hTaken hIs)
      | pdiNvmRead =>
          exact
            .of_carried hIs rfl
              (lucaxPdiNvmRead_carried line link _ fuel hTaken
                hIs)
      | pdiNvmWritePage =>
          rcases
              lucaxPdiNvmWritePage_recorded line link fuel depth
                hTaken hIs (hPage hIs) with
            hHung | ⟨hLeft, hError⟩ | hCarried
          · exact Or.inl hHung
          · exact .of_givenUp hIs hLeft hError
          · exact .of_carried hIs rfl (Or.inr hCarried)
      | pdiNvmWriteByte =>
          exact
            .of_carried hIs rfl
              (lucaxPdiNvmWriteByte_carried line link hTaken
                hIs)
      | pdiRawRead =>
          exact
            .of_carried hIs rfl
              (lucaxPdiRawRead_carried line link fuel hTaken
                hIs)
      | pdiRawWrite =>
          exact
            .of_carried hIs rfl
              (lucaxPdiRawWrite_carried line link fuel hTaken
                hIs)

/-
  The step lemma: after a turn that is recorded `last_op`
  tells about its operation, or it is as before when there
  was none.
-/
theorem usbTask_recorded
    {w : World τ η}
    (hReady : w.Ready)
    (hRecorded : Recorded link fuel w) :
    (usbTask line link fuel (depth + 2) w).hung = true ∨
      (usbTask line link fuel (depth + 2) w).Ready ∧
        ∃ came,
          TurnCame line link w
              (usbTask line link fuel (depth + 2) w) came ∧
            Tells w (usbTask line link fuel (depth + 2) w)
              came := by
  rcases hSetup : link.setup w.link with ⟨request, host⟩
  have hStart := withLink_left hReady host
  cases request with
  | none =>
      rw [usbTask_none line link fuel (depth + 1) w host hSetup]
      refine Or.inr ⟨hStart.ready, none, ?_, hStart.lastOp⟩
      simp only [TurnCame, hSetup]
  | some r =>
      have hTaken : ((w.withLink host).take r).Ready :=
        ⟨hStart.ready.outBank, hStart.ready.inBank,
          hStart.ready.hung⟩
      rw [Recorded, hSetup] at hRecorded
      have hTold :=
        event_told line link fuel depth hTaken hRecorded.2
      rw [usbTask_setup line link fuel (depth + 1) hSetup]
      simp only [TurnCame, hSetup]
      exact hTold

/-
  The run lemma: what `last_op` tells before a run of recorded
  turns it tells after it.
-/
theorem mainLoop_recorded
    (n : Nat)
    {w : World τ η}
    {last : Outcome}
    (hReady : w.Ready)
    (hTells : last.Reports w.lastOp.toByte)
    (hRecorded :
      AllTurns line link fuel (depth + 2) (Recorded link fuel) n
        w)
    (hReturned :
      (mainLoop line link fuel (depth + 2) n w).hung = false) :
    ∃ final,
      Recent line link fuel (depth + 2) n w last final ∧
        final.Reports
          (mainLoop line link fuel (depth + 2) n
            w).lastOp.toByte := by
  induction n generalizing w last with
  | zero => exact ⟨last, .done w last, hTells⟩
  | succ n ih =>
      rcases hRecorded with ⟨hNow, hLater⟩
      rw [mainLoop] at hReturned ⊢
      rcases
          usbTask_recorded line link fuel depth hReady hNow with
        hHung | ⟨hNext, came, hCame, hHere⟩
      · simp only [World.andThen, hHung, if_true] at hReturned
        exact absurd hReturned (by decide)
      · simp only [World.andThen, hNext.hung,
          Bool.false_eq_true, if_false] at hReturned ⊢
        cases came with
        | none =>
            have hSame :
                (usbTask line link fuel (depth + 2) w).lastOp =
                  w.lastOp := hHere
            rw [← hSame] at hTells
            rcases ih hNext hTells hLater hReturned with
              ⟨final, hRest, hReports⟩
            exact ⟨final, .idle hCame hRest, hReports⟩
        | some outcome =>
            rcases ih hNext hHere hLater hReturned with
              ⟨final, hRest, hReports⟩
            exact ⟨final, .next hCame hRest, hReports⟩

end Turns

------------------------------------------------------------
-- Answers
------------------------------------------------------------

/- What goes over the control endpoint. -/
inductive Seen where
| request (r : Request)
| packet (bytes : List UInt8)
deriving DecidableEq, Repr

/-
  The host of `link` with a record of the requests and of the
  packets that are handed over to it on the control endpoint.
-/
def watched (link : Link η) : Link (η × List Seen) where
  setup host :=
    match link.setup host.1 with
    | (none, next) => (none, (next, host.2))
    | (some r, next) =>
        (some r, (next, host.2 ++ [.request r]))
  controlOut host :=
    ((link.controlOut host.1).1,
      ((link.controlOut host.1).2, host.2))
  controlReady host :=
    ((link.controlReady host.1).1,
      ((link.controlReady host.1).2, host.2))
  controlWait host :=
    ((link.controlWait host.1).1,
      ((link.controlWait host.1).2, host.2))
  outTurn host :=
    ((link.outTurn host.1).1, ((link.outTurn host.1).2, host.2))
  inTurn host :=
    ((link.inTurn host.1).1, ((link.inTurn host.1).2, host.2))
  controlIn host packet :=
    (link.controlIn host.1 packet, host.2 ++ [.packet packet])
  bulkOut host :=
    ((link.bulkOut host.1).1, ((link.bulkOut host.1).2, host.2))
  bulkInReady host :=
    ((link.bulkInReady host.1).1,
      ((link.bulkInReady host.1).2, host.2))
  bulkIn host packet := (link.bulkIn host.1 packet, host.2)

/-
  The turn from `w` takes a `LUCAX_REPORT_ERROR` and hands
  over `b`, and nothing else, on the control endpoint.
-/
def Answers
    (line : Line τ)
    (link : Link η)
    (fuel depth : Nat)
    (w : World τ (η × List Seen))
    (b : UInt8) : Prop :=
  ∃ r,
    r.kind = some .reportError ∧
      (usbTask line (watched link) fuel depth w).link.2 =
        w.link.2 ++ [.request r, .packet [b]]

section Answers

variable (line : Line τ) (link : Link η) (fuel depth : Nat)

theorem answers_lastOp
    {w : World τ (η × List Seen)}
    {r : Request}
    {host : η × List Seen}
    (hSetup : (watched link).setup w.link = (some r, host))
    (hKind : r.kind = some .reportError) :
    Answers line link fuel (depth + 1) w w.lastOp.toByte := by
  refine ⟨r, hKind, ?_⟩
  have hRequest :
      ((w.withLink host).take r).request.kind =
        some .reportError := hKind
  rw [usbTask_setup line (watched link) fuel depth hSetup,
    eventUsbDeviceControlRequest, hRequest]
  simp only [lucaxReportError, endpointClearStatusStage_link]
  have hSeen : host.2 = w.link.2 ++ [.request r] := by
    simp only [watched] at hSetup
    rcases hNext : link.setup w.link.1 with ⟨request, next⟩
    rw [hNext] at hSetup
    cases request with
    | none => cases hSetup
    | some r' =>
        cases hSetup
        rfl
  have hRecord :
      ((watched link).controlIn host [w.lastOp.toByte]).2 =
        w.link.2 ++ [.request r, .packet [w.lastOp.toByte]] := by
    simp only [watched, hSeen, List.append_assoc]
    rfl
  exact hRecord

/-
  In every run of recorded turns after a reset, the byte that
  a `LUCAX_REPORT_ERROR` is answered with tells of the most
  recent operation since the last release.
-/
theorem reported_describes
    (target : τ)
    (host : η)
    (n : Nat)
    (hRecorded :
      AllTurns line (watched link) fuel (depth + 2)
        (Recorded (watched link) fuel) n
        (World.powerOn target (host, [])))
    (hReturned :
      (mainLoop line (watched link) fuel (depth + 2) n
        (World.powerOn target (host, []))).hung = false)
    {r : Request}
    {next : η × List Seen}
    (hSetup :
      (watched link).setup
          (mainLoop line (watched link) fuel (depth + 2) n
            (World.powerOn target (host, []))).link =
        (some r, next))
    (hKind : r.kind = some .reportError) :
    ∃ b,
      Answers line link fuel (depth + 2)
          (mainLoop line (watched link) fuel (depth + 2) n
            (World.powerOn target (host, []))) b ∧
        (∃ last,
          Recent line (watched link) fuel (depth + 2) n
            (World.powerOn target (host, [])) .released last) ∧
        ∀ last,
          Recent line (watched link) fuel (depth + 2) n
              (World.powerOn target (host, [])) .released
              last →
            last.Reports b := by
  have hStart :
      Outcome.released.Reports
        (World.powerOn target
          (host, ([] : List Seen))).lastOp.toByte := rfl
  rcases
      mainLoop_recorded line (watched link) fuel depth n
        (World.ready_powerOn target (host, [])) hStart
        hRecorded hReturned with
    ⟨final, hRecent, hReports⟩
  refine
    ⟨_, answers_lastOp line link fuel (depth + 1) hSetup hKind,
      ⟨final, hRecent⟩, ?_⟩
  intro last hLast
  rw [hLast.unique hRecent]
  exact hReports

end Answers

/- A page write of two bytes. -/
def twoByteWrite : Request := ⟨0x40, 0x27, 0, 2, 4⟩

/- `LUCAX_REPORT_ERROR` and a chip erase. -/
def errorReport : Request := ⟨0xC0, 0x2A, 0, 0, 1⟩
def chipErase : Request := ⟨0xC0, 0x2B, 0, 0, 1⟩

/- A line on which nothing answers. -/
def deadLine : Line Unit :=
  ⟨fun t _ => t, fun t => (none, t), id⟩

/- A device after a reset whose host makes these requests. -/
def asked
    (script : List Request) :
    World Unit
      (List (Request ⊕ List UInt8) × List Seen) :=
  World.powerOn () (script.map .inl, [])

/-
  Behind a chip erase that failed, a page that is given up
  leaves the error standing.
-/
theorem reported_describes_afterErase :
    ∃ b,
      Answers deadLine scriptLink 10 2
          (mainLoop deadLine (watched scriptLink) 10 2 2
            (asked [chipErase, twoByteWrite, errorReport])) b ∧
        (∃ last,
          Recent deadLine (watched scriptLink) 10 2 2
            (asked [chipErase, twoByteWrite, errorReport])
            .released last) ∧
        ∀ last,
          Recent deadLine (watched scriptLink) 10 2 2
              (asked [chipErase, twoByteWrite, errorReport])
              .released last →
            last.Reports b := by
  have hError : PdiResult.pdiDisabled ≠ .noError := by decide
  have hBounds : chipErase.InBounds ∧ twoByteWrite.InBounds := by
    decide
  refine
    reported_describes deadLine scriptLink 10 0 () _ 2 ?_ rfl
      (r := errorReport) rfl rfl
  refine ⟨⟨hBounds.1, ?_⟩, ⟨hBounds.2, ?_⟩, trivial⟩
  · intro hPage
    exact absurd hPage (by decide)
  · intro _hPage
    exact ⟨hError, fun r hMem => by cases hMem⟩

/-
  Right after a reset a page that never comes is reported as
  written.
-/
theorem not_reported_describes_lostPage :
    Answers deadLine scriptLink 10 2
        (mainLoop deadLine (watched scriptLink) 10 2 1
          (asked [twoByteWrite, errorReport]))
        PdiResult.noError.toByte ∧
      ∃ last,
        Recent deadLine (watched scriptLink) 10 2 1
            (asked [twoByteWrite, errorReport]) .released
            last ∧
          ¬ last.Reports PdiResult.noError.toByte := by
  have hKind :
      twoByteWrite.kind = some .pdiNvmWritePage := by
    decide
  have hCame :
      TurnCame deadLine (watched scriptLink)
        (asked [twoByteWrite, errorReport])
        (usbTask deadLine (watched scriptLink) 10 2
          (asked [twoByteWrite, errorReport]))
        (some .abandoned) :=
    Came.abandoned hKind rfl rfl (.refl _)
  refine
    ⟨⟨errorReport, rfl, rfl⟩, .abandoned,
      .next hCame (.done _ _), ?_⟩
  intro hReports
  exact hReports rfl

end Lucax
