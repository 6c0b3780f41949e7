import Mathlib.Logic.Relation
import Lucax.Firmware.Handlers

/-
  What requests can do to the firmware's memory and to the
  target, said once.

  Key definitions include:
    * `Request.Touches`, `Request.Makes`
    * `FwStep`
    * `Evolves`

  Main declarations:
    * `usbTask_evolves`
    * `mainLoop_evolves`
-/

------------------------------------------------------------
-- Effects of One Request
------------------------------------------------------------

namespace Lucax

open Relation

variable {τ η : Type}

/- The places of `buffer` the USB side of a handler uses. -/
def Request.Touches
    (r : Request)
    (i : Nat) : Prop :=
  match r.kind with
  | some .pdiNvmRead => i < (clamp r.wIndex).toNat
  | some .pdiNvmWritePage => i < (clamp r.wIndex).toNat
  | some .pdiRawRead => i < r.wLength.toNat
  | some .pdiRawWrite => i < r.wLength.toNat
  | _ => False

/- The driver calls a handler makes. -/
def Request.Makes
    (r : Request)
    (c : Call) : Prop :=
  match r.kind with
  | some .pdiChipErase => c = .nvmChipErase
  | some .pdiNvmRead =>
      if r.wIndex = 1 then
        ∃ address, c = .nvmReadByte address
      else
        ∃ address,
          c = .nvmReadBytes address 0 (clamp r.wIndex)
  | some .pdiNvmWritePage =>
      ∃ address,
        c = .nvmPagedWrite address (.buffer 0)
          (clamp r.wIndex) (pagedMemory r.wValue.toUInt8)
  | some .pdiNvmWriteByte =>
      ∃ address,
        c = .nvmWriteByte address r.wIndex.toUInt8
          (byteMemory r.wValue.toUInt8)
  | some .pdiRawRead =>
      c = .pdiReadBytes r.rawAddress 0 r.wLength
  | some .pdiRawWrite =>
      c = .pdiWriteBytes r.rawAddress (.buffer 0) r.wLength
  | _ => False

/- From `s` to `s'` only the buffer was accessed. -/
def Fw.Buffered (s s' : Fw τ) : Prop :=
  ∃ ram touched, s' = { s with ram := ram, touched := touched }

namespace Fw.Buffered

theorem refl (s : Fw τ) : s.Buffered s := ⟨_, _, rfl⟩

theorem trans
    {s s' s'' : Fw τ}
    (hFirst : s.Buffered s')
    (hSecond : s'.Buffered s'') :
    s.Buffered s'' := by
  rcases hFirst with ⟨ram, touched, hThere⟩
  rcases hSecond with ⟨ram', touched', hAfter⟩
  subst hThere
  exact ⟨ram', touched', hAfter⟩

theorem loadByte
    (s : Fw τ)
    (i : Nat) :
    s.Buffered (s.loadByte i).2 :=
  ⟨_, _, rfl⟩

theorem storeByte
    (s : Fw τ)
    (i : Nat)
    (b : UInt8) :
    s.Buffered (s.storeByte i b) :=
  ⟨_, _, rfl⟩

end Fw.Buffered

/-
  One effect on memory and target, made for one of the
  requests in `R`.
-/
inductive FwStep
    (line : Line τ)
    (R : Request → Prop) :
    Fw τ → Fw τ → Prop where
| load
    {r : Request} (hRequest : R r)
    {i : Nat} (hTouches : r.Touches i) (s : Fw τ) :
    FwStep line R s (s.loadByte i).2
| store
    {r : Request} (hRequest : R r)
    {i : Nat} (hTouches : r.Touches i) (b : UInt8)
    (s : Fw τ) :
    FwStep line R s (s.storeByte i b)
| call
    {r : Request} (hRequest : R r)
    {c : Call} (hMakes : r.Makes c) (s : Fw τ) :
    FwStep line R s (c.exec line s).2
| init
    {r : Request} (hRequest : R r)
    (hKind : r.kind = some .pdiInit) (s : Fw τ) :
    FwStep line R s (pdiInit line r.wValue s).2
| exit
    {r : Request} (hRequest : R r)
    (hKind : r.kind = some .releaseInterface) (s : Fw τ) :
    FwStep line R s (pdiExit line s)

theorem FwStep.mono
    {line : Line τ}
    {R R' : Request → Prop}
    (hSub : ∀ r, R r → R' r)
    {s s' : Fw τ}
    (hStep : FwStep line R s s') :
    FwStep line R' s s' := by
  cases hStep with
  | load hRequest hTouches =>
      exact .load (hSub _ hRequest) hTouches s
  | store hRequest hTouches b =>
      exact .store (hSub _ hRequest) hTouches b s
  | call hRequest hMakes =>
      exact .call (hSub _ hRequest) hMakes s
  | init hRequest hKind =>
      exact .init (hSub _ hRequest) hKind s
  | exit hRequest hKind =>
      exact .exit (hSub _ hRequest) hKind s

------------------------------------------------------------
-- Evolution of the Device
------------------------------------------------------------

/-
  The device moved from `w` to `w'`: requests were taken and
  memory and target changed by effects of requests taken.
-/
structure Evolves
    (line : Line τ)
    (w w' : World τ η) : Prop where
  grows : ∀ r ∈ w.handled, r ∈ w'.handled
  steps :
    ReflTransGen (FwStep line (fun r => r ∈ w'.handled))
      w.fw w'.fw

namespace Evolves

variable {line : Line τ}

theorem refl (w : World τ η) :
    Evolves line w w :=
  ⟨fun _ hMem => hMem, .refl⟩

/- A change that leaves memory, target and history alone. -/
theorem of_eq
    {w w' : World τ η}
    (hFw : w'.fw = w.fw)
    (hHandled : w'.handled = w.handled) :
    Evolves line w w' := by
  constructor
  · intro r hMem
    rw [hHandled]
    exact hMem
  · rw [hFw]

theorem trans
    {w w' w'' : World τ η}
    (hFirst : Evolves line w w')
    (hSecond : Evolves line w' w'') :
    Evolves line w w'' := by
  constructor
  · intro r hMem
    exact hSecond.grows r (hFirst.grows r hMem)
  · refine ReflTransGen.trans ?_ hSecond.steps
    exact ReflTransGen.mono
      (fun s s' (hStep : FwStep line _ s s') =>
        hStep.mono hSecond.grows)
      _ _ hFirst.steps

/- One effect of a request that was taken before. -/
theorem of_step
    {w w' : World τ η}
    (hHandled : w'.handled = w.handled)
    (hStep :
      FwStep line (fun r => r ∈ w.handled) w.fw w'.fw) :
    Evolves line w w' := by
  constructor
  · intro r hMem
    rw [hHandled]
    exact hMem
  · rw [hHandled]
    exact .single hStep

theorem andThen
    {w w' : World τ η}
    {next : World τ η → World τ η}
    (hFirst : Evolves line w w')
    (hNext : Evolves line w' (next w')) :
    Evolves line w (w'.andThen next) := by
  unfold World.andThen
  by_cases hHung : w'.hung = true
  · simp only [hHung, if_true]
    exact hFirst
  · simp only [hHung, if_false, Bool.false_eq_true]
    exact hFirst.trans hNext

/- What every effect keeps, the device keeps. -/
theorem invariant
    {P : Fw τ → Prop}
    {w w' : World τ η}
    (hEvolves : Evolves line w w')
    (hStep :
      ∀ s s', FwStep line (fun r => r ∈ w'.handled) s s' →
        P s → P s')
    (hStart : P w.fw) :
    P w'.fw := by
  have hSteps := hEvolves.steps
  generalize w'.fw = s' at hSteps ⊢
  induction hSteps with
  | refl => exact hStart
  | tail _hReach hLast ih => exact hStep _ _ hLast ih

end Evolves

------------------------------------------------------------
-- Endpoints and Streams
------------------------------------------------------------

section Streams

variable (line : Line τ) (link : Link η)

theorem hang_evolves
    (w : World τ η) :
    Evolves line w w.hang :=
  Evolves.of_eq rfl rfl

theorem withLink_evolves
    (w : World τ η)
    (host : η) :
    Evolves line w (w.withLink host) :=
  Evolves.of_eq rfl rfl

theorem clearControlIn_evolves
    (packet : List UInt8)
    (w : World τ η) :
    Evolves line w (clearControlIn link packet w) :=
  Evolves.of_eq rfl rfl

theorem clearIn_evolves
    (w : World τ η) :
    Evolves line w (clearIn link w) :=
  Evolves.of_eq rfl rfl

theorem clearOut_evolves
    (w : World τ η) :
    Evolves line w (clearOut w) :=
  Evolves.of_eq rfl rfl

theorem awaitControlOut_evolves
    (w : World τ η) :
    Evolves line w (awaitControlOut link w).2 := by
  unfold awaitControlOut
  split
  · exact Evolves.of_eq rfl rfl
  · exact Evolves.of_eq rfl rfl

omit link in
theorem await_evolves
    (wait : η → Bool × η)
    (w : World τ η) :
    Evolves line w (w.await wait) := by
  unfold World.await
  split
  · exact Evolves.of_eq rfl rfl
  · exact Evolves.of_eq rfl rfl

theorem endpointClearStatusStage_evolves
    (w : World τ η) :
    Evolves line w (endpointClearStatusStage link w) :=
  await_evolves line link.controlWait w

theorem waitOutReceived_evolves
    (w : World τ η) :
    Evolves line w (waitOutReceived link w).2 := by
  unfold waitOutReceived
  split
  · exact Evolves.refl w
  · split
    · exact Evolves.of_eq rfl rfl
    · exact Evolves.of_eq rfl rfl

/- What a stream direction may do for the request `r`. -/
structure Direction.Serves
    (line : Line τ)
    (direction : Direction τ η)
    (r : Request) : Prop where
  transfer :
    ∀ data w, r ∈ w.handled → r.Touches data →
      Evolves line w (direction.transfer data w)
  clear : ∀ w, Evolves line w (direction.clear w)
  wait : ∀ w, Evolves line w (direction.wait w).2

theorem writeDirection_serves
    (r : Request) :
    (writeDirection link : Direction τ η).Serves line r := by
  refine ⟨?_, ?_, ?_⟩
  · intro data w hTaken hTouches
    exact Evolves.of_step rfl (.load hTaken hTouches w.fw)
  · intro w
    exact Evolves.of_eq rfl rfl
  · intro w
    exact Evolves.of_eq rfl rfl

theorem readDirection_serves
    (r : Request) :
    (readDirection link : Direction τ η).Serves line r := by
  refine ⟨?_, ?_, ?_⟩
  · intro data w hTaken hTouches
    simp only [readDirection]
    split
    · exact Evolves.of_step rfl
        (.store hTaken hTouches _ w.fw)
    · exact Evolves.refl w
  · intro w
    exact Evolves.of_eq rfl rfl
  · intro w
    exact waitOutReceived_evolves line link w

variable {direction : Direction τ η} {r : Request}
variable {task : World τ η → World τ η}

/- The stream loop stays within the bytes it is given. -/
theorem rwStream_evolves
    (hServes : direction.Serves line r)
    (hTask : ∀ w, Evolves line w (task w))
    (fuel data length : Nat)
    (w : World τ η)
    (hTaken : r ∈ w.handled)
    (hRange : ∀ i < length, r.Touches (data + i)) :
    Evolves line w
      (rwStream direction task fuel data length w) := by
  induction fuel generalizing data length w with
  | zero =>
      cases length with
      | zero =>
          rw [rwStream]
          exact Evolves.refl w
      | succ length =>
          rw [rwStream]
          exact hang_evolves line w
  | succ fuel ih =>
      cases length with
      | zero =>
          rw [rwStream]
          exact Evolves.refl w
      | succ length =>
          rw [rwStream]
          by_cases hAllowed : direction.allowed w = true
          · simp only [hAllowed, if_true]
            have hMoved :=
              hServes.transfer data w hTaken
                (hRange 0 (by omega))
            refine hMoved.trans
              (ih _ _ _ (hMoved.grows r hTaken) ?_)
            intro i hi
            have hNext := hRange (i + 1) (by omega)
            rw [Nat.add_assoc, Nat.add_comm 1]
            exact hNext
          · simp only [hAllowed, if_false, Bool.false_eq_true]
            have hRefilled :=
              (hServes.clear w).trans
                (hTask (direction.clear w))
            refine hRefilled.andThen ?_
            have hWaited :=
              hServes.wait (task (direction.clear w))
            split
            · rename_i after hWait
              rw [hWait] at hWaited
              exact hWaited
            · rename_i after hWait
              rw [hWait] at hWaited
              refine hWaited.trans (ih _ _ _ ?_ hRange)
              exact (hRefilled.trans hWaited).grows r hTaken

theorem endpointStream_evolves
    (hServes : direction.Serves line r)
    (hTask : ∀ w, Evolves line w (task w))
    (fuel data length : Nat)
    (w : World τ η)
    (hTaken : r ∈ w.handled)
    (hRange : ∀ i < length, r.Touches (data + i)) :
    Evolves line w
      (endpointStream direction task fuel data length w) := by
  unfold endpointStream
  have hWaited := hServes.wait w
  split
  · rename_i after hWait
    rw [hWait] at hWaited
    exact hWaited
  · rename_i after hWait
    rw [hWait] at hWaited
    exact hWaited.trans
      (rwStream_evolves line hServes hTask fuel data length after
        (hWaited.grows r hTaken) hRange)

/- A packet is put where the stream is, within its length. -/
theorem takePacket_evolves
    (bytes : List UInt8)
    (data length : Nat)
    (w : World τ η)
    (hTaken : r ∈ w.handled)
    (hRange : ∀ i < length, r.Touches (data + i)) :
    (takePacket bytes data length w).1 ≤ length ∧
      Evolves line w (takePacket bytes data length w).2 := by
  induction bytes generalizing data length w with
  | nil =>
      exact ⟨Nat.zero_le _, Evolves.refl w⟩
  | cons b bytes ih =>
      cases length with
      | zero =>
          exact ⟨Nat.le_refl 0, Evolves.refl w⟩
      | succ length =>
          have hStored :
              Evolves line w
                (w.withFw (w.fw.storeByte data b)) :=
            Evolves.of_step rfl
              (.store hTaken (hRange 0 (by omega)) b w.fw)
          rcases ih (data + 1) length
              (w.withFw (w.fw.storeByte data b)) hTaken
              (by
                intro i hi
                rw [Nat.add_assoc, Nat.add_comm 1]
                exact hRange (i + 1) (by omega)) with
            ⟨hLength, hRest⟩
          refine ⟨?_, hStored.trans hRest⟩
          rw [takePacket]
          omega

theorem controlReadLoop_evolves
    (fuel data length : Nat)
    (w : World τ η)
    (hTaken : r ∈ w.handled)
    (hRange : ∀ i < length, r.Touches (data + i)) :
    Evolves line w
      (controlReadLoop link fuel data length w) := by
  induction fuel generalizing data length w with
  | zero =>
      cases length with
      | zero =>
          rw [controlReadLoop]
          exact await_evolves line link.controlReady w
      | succ length =>
          rw [controlReadLoop]
          exact hang_evolves line w
  | succ fuel ih =>
      cases length with
      | zero =>
          rw [controlReadLoop]
          exact await_evolves line link.controlReady w
      | succ length =>
          rw [controlReadLoop]
          split
          · exact Evolves.of_eq rfl rfl
          · exact Evolves.of_eq rfl rfl
          · rename_i bytes host hTurn
            rcases takePacket_evolves line bytes
                data (length + 1) (w.withLink host) hTaken
                hRange with
              ⟨hLength, hTook⟩
            have hMoved :=
              (withLink_evolves line w host).trans hTook
            refine hMoved.trans
              (ih _ _ _ (hMoved.grows r hTaken) ?_)
            intro i hi
            rw [Nat.add_assoc]
            exact hRange _ (by omega)

theorem fillPacket_evolves
    (n data : Nat)
    (w : World τ η)
    (hTaken : r ∈ w.handled)
    (hRange : ∀ i < n, r.Touches (data + i)) :
    Evolves line w (fillPacket n data w).2 := by
  induction n generalizing data w with
  | zero =>
      exact Evolves.refl w
  | succ n ih =>
      have hLoaded :
          Evolves line w
            (w.withFw (w.fw.loadByte data).2) :=
        Evolves.of_step rfl
          (.load hTaken (hRange 0 (by omega)) w.fw)
      refine hLoaded.trans (ih (data + 1) _ hTaken ?_)
      intro i hi
      rw [Nat.add_assoc, Nat.add_comm 1]
      exact hRange (i + 1) (by omega)

theorem controlWriteLoop_evolves
    (fuel data length : Nat)
    (lastPacketFull : Bool)
    (w : World τ η)
    (hTaken : r ∈ w.handled)
    (hRange : ∀ i < length, r.Touches (data + i)) :
    Evolves line w
      (controlWriteLoop link fuel data length lastPacketFull
        w) := by
  induction fuel generalizing data length lastPacketFull w with
  | zero =>
      rw [controlWriteLoop]
      exact hang_evolves line w
  | succ fuel ih =>
      rw [controlWriteLoop]
      split
      · exact await_evolves line link.controlReady w
      · split
        · exact Evolves.of_eq rfl rfl
        · exact Evolves.of_eq rfl rfl
        · exact Evolves.of_eq rfl rfl
        · rename_i host hTurn
          have hFilled :=
            (withLink_evolves line w host).trans
              (fillPacket_evolves line
                (min length controlEndpointSize) data
                (w.withLink host) hTaken
                (fun i hi => hRange i (by omega)))
          have hSent :=
            hFilled.trans (clearControlIn_evolves line link
              (fillPacket (min length controlEndpointSize) data
                (w.withLink host)).1 _)
          refine hSent.trans
            (ih _ _ _ _ (hSent.grows r hTaken) ?_)
          intro i hi
          rw [Nat.add_assoc]
          exact hRange _ (by omega)

end Streams

------------------------------------------------------------
-- Handlers
------------------------------------------------------------

section Handlers

variable (line : Line τ) (link : Link η)
variable {r : Request} {task : World τ η → World τ η}

/- A driver call of a request that was taken. -/
theorem call_evolves
    {w : World τ η}
    {c : Call}
    (hTaken : r ∈ w.handled)
    (hMakes : r.Makes c) :
    Evolves line w (w.call line c).2 :=
  Evolves.of_step rfl (.call hTaken hMakes w.fw)

theorem lucaxReportError_evolves
    (w : World τ η) :
    Evolves line w (lucaxReportError link w) :=
  (clearControlIn_evolves line link _ w).trans
    (endpointClearStatusStage_evolves line link _)

theorem lucaxPdiInit_evolves
    {w : World τ η}
    (hTaken : w.request ∈ w.handled)
    (hKind : w.request.kind = some .pdiInit) :
    Evolves line w (lucaxPdiInit line link w) := by
  have hInit :
      Evolves line w
        { w.withFw (pdiInit line w.request.wValue w.fw).2 with
          lastOp :=
            (pdiInit line w.request.wValue w.fw).1 } :=
    Evolves.of_step rfl (.init hTaken hKind w.fw)
  exact hInit.trans (lucaxReportError_evolves line link _)

theorem lucaxReleaseInterface_evolves
    {w : World τ η}
    (hTaken : w.request ∈ w.handled)
    (hKind : w.request.kind = some .releaseInterface) :
    Evolves line w (lucaxReleaseInterface line link w) :=
  Evolves.of_step rfl (.exit hTaken hKind w.fw)

theorem lucaxPdiChipErase_evolves
    {w : World τ η}
    (hTaken : w.request ∈ w.handled)
    (hKind : w.request.kind = some .pdiChipErase) :
    Evolves line w (lucaxPdiChipErase line link w) := by
  have hMakes : w.request.Makes .nvmChipErase := by
    simp [Request.Makes, hKind]
  exact (call_evolves line hTaken hMakes).trans
    (lucaxReportError_evolves line link _)

/- The transmit loop stays within the bytes it is given. -/
theorem sendChunks_evolves
    (hTask : ∀ w, Evolves line w (task w))
    (fuel n count done : Nat)
    (w : World τ η)
    (hTaken : r ∈ w.handled)
    (hRange : ∀ i < count, r.Touches (done + i)) :
    Evolves line w
      (sendChunks link task fuel n count done w) := by
  induction n generalizing count done w with
  | zero =>
      cases count with
      | zero =>
          rw [sendChunks]
          exact Evolves.refl w
      | succ count =>
          rw [sendChunks]
          exact hang_evolves line w
  | succ n ih =>
      cases count with
      | zero =>
          rw [sendChunks]
          exact Evolves.refl w
      | succ count =>
          rw [sendChunks]
          have hWaited :
              Evolves line w (waitInReady link w).2 :=
            Evolves.of_eq rfl rfl
          have hWritten :=
            hWaited.trans
              (endpointStream_evolves line
                (writeDirection_serves line link r)
                hTask fuel done
                (min (count + 1) vendorIoEpsize) _
                (hWaited.grows r hTaken)
                (fun i hi => hRange i (by omega)))
          refine hWritten.andThen ?_
          have hSent :=
            clearIn_evolves line link
              (endpointStream (writeDirection link) task fuel
                done (min (count + 1) vendorIoEpsize)
                (waitInReady link w).2)
          refine hSent.trans (ih _ _ _ ?_ ?_)
          · exact hSent.grows r (hWritten.grows r hTaken)
          · intro i hi
            rw [Nat.add_assoc]
            exact hRange _ (by omega)

theorem lucaxPdiNvmRead_evolves
    (hTask : ∀ w, Evolves line w (task w))
    (fuel : Nat)
    {w : World τ η}
    (hTaken : w.request ∈ w.handled)
    (hKind : w.request.kind = some .pdiNvmRead) :
    Evolves line w
      (lucaxPdiNvmRead line link task fuel w) := by
  have hAwaited :=
    awaitControlOut_evolves line link w
  unfold lucaxPdiNvmRead
  split
  · rename_i after hAwait
    rw [hAwait] at hAwaited
    exact hAwaited
  · rename_i packet after hAwait
    rw [hAwait] at hAwaited
    have hStatus :=
      hAwaited.trans
        (endpointClearStatusStage_evolves line link after)
    refine hStatus.andThen ?_
    have hStill := hStatus.grows _ hTaken
    by_cases hOne : w.request.wIndex = 1
    · simp only [hOne, if_true]
      have hMakes :
          w.request.Makes
            (.nvmReadByte (endpointRead32LE packet)) := by
        simp [Request.Makes, hKind, hOne]
      exact (call_evolves line hStill hMakes).trans
        (Evolves.of_eq rfl rfl)
    · simp only [hOne, if_false]
      have hMakes :
          w.request.Makes
            (.nvmReadBytes (endpointRead32LE packet) 0
              (clamp w.request.wIndex)) := by
        simp [Request.Makes, hKind, hOne]
      have hCalled :=
        call_evolves line hStill hMakes
      refine hCalled.trans
        (sendChunks_evolves line link hTask _ _ _ _ _
          (hCalled.grows _ hStill) ?_)
      intro i hi
      simpa [Request.Touches, hKind] using hi

/-
  The receive loop stays within the bytes it is given and
  ends with all of them received.
-/
theorem receiveChunks_evolves
    (hTask : ∀ w, Evolves line w (task w))
    (fuel n count done : Nat)
    (w : World τ η)
    (hTaken : r ∈ w.handled)
    (hRange : ∀ i < count, r.Touches (done + i)) :
    Evolves line w
        (receiveChunks link task fuel n count done w).2 ∧
      ∀ total ∈
          (receiveChunks link task fuel n count done w).1,
        total = done + count := by
  induction n generalizing count done w with
  | zero =>
      cases count with
      | zero =>
          rw [receiveChunks]
          exact ⟨Evolves.refl w, by simp⟩
      | succ count =>
          rw [receiveChunks]
          exact ⟨hang_evolves line w, by simp⟩
  | succ n ih =>
      cases count with
      | zero =>
          rw [receiveChunks]
          exact ⟨Evolves.refl w, by simp⟩
      | succ count =>
          rw [receiveChunks]
          have hWaited :=
            waitOutReceived_evolves line link w
          split
          · rename_i after hWait
            rw [hWait] at hWaited
            exact ⟨hWaited, by simp⟩
          · rename_i after hWait
            rw [hWait] at hWaited
            have hRead :
                Evolves line w
                  (endpointReadStreamLE link task fuel done
                    (min (count + 1) vendorIoEpsize) after) :=
              hWaited.trans
                (endpointStream_evolves line
                  (readDirection_serves line link r)
                  hTask fuel done
                  (min (count + 1) vendorIoEpsize) after
                  (hWaited.grows r hTaken)
                  (fun i hi => hRange i (by omega)))
            have hMoved := hRead.trans (clearOut_evolves line _)
            simp only
            split
            · exact ⟨hRead, by simp⟩
            · rcases ih
                  (count + 1 -
                    min (count + 1) vendorIoEpsize)
                  (done + min (count + 1) vendorIoEpsize)
                  _ (hMoved.grows r hTaken)
                  (by
                    intro i hi
                    rw [Nat.add_assoc]
                    exact hRange _ (by omega)) with
                ⟨hRest, hTotal⟩
              refine ⟨hMoved.trans hRest, ?_⟩
              intro total hMem
              rw [hTotal total hMem]
              omega

theorem receivePage_evolves
    (hTask : ∀ w, Evolves line w (task w))
    (fuel : Nat)
    {w : World τ η}
    (hTaken : w.request ∈ w.handled)
    (hKind : w.request.kind = some .pdiNvmWritePage) :
    Evolves line w (receivePage link task fuel w).2 ∧
      ∀ page ∈ (receivePage link task fuel w).1,
        page.2 = (clamp w.request.wIndex).toNat := by
  have hAwaited :=
    awaitControlOut_evolves line link w
  unfold receivePage
  split
  · rename_i after hAwait
    rw [hAwait] at hAwaited
    exact ⟨hAwaited, by simp⟩
  · rename_i packet after hAwait
    rw [hAwait] at hAwaited
    have hStatus :=
      hAwaited.trans
        (endpointClearStatusStage_evolves line link after)
    have hStill := hStatus.grows _ hTaken
    simp only
    split
    · exact ⟨hStatus, by simp⟩
    · have hReceived :=
        receiveChunks_evolves line link hTask fuel
          (clamp w.request.wIndex).toNat
          (clamp w.request.wIndex).toNat 0
          (endpointClearStatusStage link after) hStill
          (by
            intro i hi
            simpa [Request.Touches, hKind] using hi)
      rcases hReceived with ⟨hChunks, hTotal⟩
      split
      · rename_i _hHung after' hEnd
        rw [hEnd] at hChunks
        exact ⟨hStatus.trans hChunks, by simp⟩
      · rename_i _hHung done after' hEnd
        rw [hEnd] at hChunks hTotal
        refine ⟨hStatus.trans hChunks, ?_⟩
        intro page hPage
        have hDone := hTotal done rfl
        have hIs := Option.some.inj hPage
        rw [← hIs, hDone, Nat.zero_add]

theorem lucaxPdiNvmWritePage_evolves
    (hTask : ∀ w, Evolves line w (task w))
    (fuel : Nat)
    {w : World τ η}
    (hTaken : w.request ∈ w.handled)
    (hKind : w.request.kind = some .pdiNvmWritePage) :
    Evolves line w
      (lucaxPdiNvmWritePage line link task fuel w) := by
  rcases receivePage_evolves line link hTask fuel
      hTaken hKind with ⟨hReceived, hTotal⟩
  unfold lucaxPdiNvmWritePage
  simp only
  split
  · rename_i after hEnd
    rw [hEnd] at hReceived
    exact hReceived
  · rename_i address done after hEnd
    rw [hEnd] at hReceived hTotal
    have hDone := hTotal (address, done) rfl
    simp only at hDone
    have hMakes :
        w.request.Makes
          (.nvmPagedWrite address (.buffer 0)
            (UInt16.ofNat done)
            (pagedMemory w.request.wValue.toUInt8)) := by
      simp [Request.Makes, hKind, hDone]
    exact hReceived.trans
      (call_evolves line (hReceived.grows _ hTaken) hMakes)

theorem lucaxPdiNvmWriteByte_evolves
    {w : World τ η}
    (hTaken : w.request ∈ w.handled)
    (hKind : w.request.kind = some .pdiNvmWriteByte) :
    Evolves line w (lucaxPdiNvmWriteByte line link w) := by
  have hReceived :
      Evolves line w (receiveByteAddress link w).2 := by
    have hAwaited :=
      awaitControlOut_evolves line link w
    unfold receiveByteAddress
    split
    · rename_i after hAwait
      rw [hAwait] at hAwaited
      exact hAwaited
    · rename_i packet after hAwait
      rw [hAwait] at hAwaited
      have hStatus :=
        hAwaited.trans
          (endpointClearStatusStage_evolves line link after)
      simp only
      split
      · exact hStatus
      · exact hStatus
  unfold lucaxPdiNvmWriteByte
  simp only
  split
  · rename_i after hEnd
    rw [hEnd] at hReceived
    exact hReceived
  · rename_i address after hEnd
    rw [hEnd] at hReceived
    have hMakes :
        w.request.Makes
          (.nvmWriteByte address w.request.wIndex.toUInt8
            (byteMemory w.request.wValue.toUInt8)) := by
      simp [Request.Makes, hKind]
    exact hReceived.trans
      (call_evolves line (hReceived.grows _ hTaken) hMakes)

theorem lucaxPdiRawRead_evolves
    (fuel : Nat)
    {w : World τ η}
    (hTaken : w.request ∈ w.handled)
    (hKind : w.request.kind = some .pdiRawRead) :
    Evolves line w (lucaxPdiRawRead line link fuel w) := by
  have hMakes :
      w.request.Makes
        (.pdiReadBytes w.request.rawAddress 0
          w.request.wLength) := by
    simp [Request.Makes, hKind]
  have hCalled := call_evolves line hTaken hMakes
  have hStill := hCalled.grows _ hTaken
  have hRange :
      ∀ i < w.request.wLength.toNat,
        w.request.Touches (0 + i) := by
    intro i hi
    simpa [Request.Touches, hKind] using hi
  unfold lucaxPdiRawRead
  simp only
  refine Evolves.andThen ?_
    (endpointClearStatusStage_evolves line link _)
  refine hCalled.trans ?_
  unfold endpointWriteControlStreamLE
  split
  · refine (clearControlIn_evolves line link [] _).trans
      (controlWriteLoop_evolves line link (r := w.request) _ _ _ _
        _ hStill ?_)
    intro i hi
    omega
  · exact controlWriteLoop_evolves line link (r := w.request) _ _ _
      _ _ hStill hRange

theorem lucaxPdiRawWrite_evolves
    (fuel : Nat)
    {w : World τ η}
    (hTaken : w.request ∈ w.handled)
    (hKind : w.request.kind = some .pdiRawWrite) :
    Evolves line w (lucaxPdiRawWrite line link fuel w) := by
  have hMakes :
      w.request.Makes
        (.pdiWriteBytes w.request.rawAddress (.buffer 0)
          w.request.wLength) := by
    simp [Request.Makes, hKind]
  have hRead :
      Evolves line w
        (endpointReadControlStreamLE link fuel 0
          w.request.wLength.toNat w) := by
    refine controlReadLoop_evolves line link _ _ _ _ hTaken ?_
    intro i hi
    simpa [Request.Touches, hKind] using hi
  have hStatus :=
    hRead.andThen
      (endpointClearStatusStage_evolves line link _)
  unfold lucaxPdiRawWrite
  exact hStatus.andThen
    (call_evolves line (hStatus.grows _ hTaken) hMakes)

------------------------------------------------------------
-- The Main Loop
------------------------------------------------------------

/- Every handler has only effects of its request. -/
theorem eventUsbDeviceControlRequest_evolves
    (hTask : ∀ w, Evolves line w (task w))
    (fuel : Nat)
    {w : World τ η}
    (hTaken : w.request ∈ w.handled) :
    Evolves line w
      (eventUsbDeviceControlRequest line link task fuel w) := by
  unfold eventUsbDeviceControlRequest
  cases hKind : w.request.kind with
  | none => exact Evolves.refl w
  | some kind =>
      cases kind with
      | getDescriptor =>
          exact (clearControlIn_evolves line link _ w).trans
            (endpointClearStatusStage_evolves line link _)
      | reportError =>
          exact lucaxReportError_evolves line link w
      | releaseInterface =>
          exact lucaxReleaseInterface_evolves line link hTaken hKind
      | pdiInit =>
          exact lucaxPdiInit_evolves line link hTaken hKind
      | pdiChipErase =>
          exact lucaxPdiChipErase_evolves line link hTaken hKind
      | pdiNvmRead =>
          exact lucaxPdiNvmRead_evolves line link hTask fuel hTaken
            hKind
      | pdiNvmWritePage =>
          exact lucaxPdiNvmWritePage_evolves line link hTask fuel
            hTaken hKind
      | pdiNvmWriteByte =>
          exact lucaxPdiNvmWriteByte_evolves line link hTaken hKind
      | pdiRawRead =>
          exact lucaxPdiRawRead_evolves line link fuel hTaken hKind
      | pdiRawWrite =>
          exact lucaxPdiRawWrite_evolves line link fuel hTaken hKind

/- Taking a request changes neither memory nor target. -/
theorem take_evolves
    (w : World τ η)
    (r : Request) :
    Evolves line w (w.take r) := by
  constructor
  · intro r' hMem
    exact List.mem_append_left _ hMem
  · exact .refl

theorem usbTask_evolves
    (fuel depth : Nat)
    (w : World τ η) :
    Evolves line w (usbTask line link fuel depth w) := by
  induction depth generalizing w with
  | zero =>
      rw [usbTask]
      exact hang_evolves line w
  | succ depth ih =>
      rw [usbTask]
      split
      · exact Evolves.of_eq rfl rfl
      · rename_i r host hSetup
        have hTook :=
          (withLink_evolves line w host).trans
            (take_evolves line (w.withLink host) r)
        have hMem :
            r ∈ ((w.withLink host).take r).handled := by
          simp [World.take]
        exact hTook.trans
          (eventUsbDeviceControlRequest_evolves line link ih fuel
            hMem)

theorem mainLoop_evolves
    (fuel depth n : Nat)
    (w : World τ η) :
    Evolves line w (mainLoop line link fuel depth n w) := by
  induction n generalizing w with
  | zero =>
      rw [mainLoop]
      exact Evolves.refl w
  | succ n ih =>
      rw [mainLoop]
      exact (usbTask_evolves line link fuel depth w).andThen
        (ih _)

end Handlers

end Lucax
