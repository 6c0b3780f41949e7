import Lucax.Firmware.LastOp

/-
  The firmware reaches the other side of the cable through
  its `Link` only: what every look keeps a run keeps.

  Key definitions include:
    * `Link.Keeps`
    * `World.Rests`

  Main declarations:
    * `mainLoop_holds`
    * `mainLoop_rests`
    * `lucaxPdiNvmRead_task`
    * `receiveChunks_chunk`
-/

------------------------------------------------------------
-- Looks
------------------------------------------------------------

namespace Lucax

variable {τ η : Type}

/- No look at the cable ends what holds of it. -/
structure Link.Keeps
    (link : Link η)
    (P : η → Prop) : Prop where
  setup : ∀ host, P host → P (link.setup host).2
  controlOut : ∀ host, P host → P (link.controlOut host).2
  controlReady : ∀ host, P host → P (link.controlReady host).2
  controlWait : ∀ host, P host → P (link.controlWait host).2
  outTurn : ∀ host, P host → P (link.outTurn host).2
  inTurn : ∀ host, P host → P (link.inTurn host).2
  controlIn :
    ∀ host packet, P host → P (link.controlIn host packet)
  bulkOut : ∀ host, P host → P (link.bulkOut host).2
  bulkInReady : ∀ host, P host → P (link.bulkInReady host).2
  bulkIn :
    ∀ host packet, P host → P (link.bulkIn host packet)

section Streams

variable
  {link : Link η}
  {P : η → Prop}
  (hKeeps : link.Keeps P)
  {w : World τ η}

include hKeeps

omit hKeeps in
@[simp] theorem awaitControlOut_link
    (w : World τ η) :
    (awaitControlOut link w).2.link =
      (link.controlOut w.link).2 := by
  unfold awaitControlOut
  split
  · rename_i host hLook
    rw [hLook]
    rfl
  · rename_i packet host hLook
    rw [hLook]
    rfl

theorem awaitControlOut_holds
    (hHere : P w.link) :
    P (awaitControlOut link w).2.link := by
  rw [awaitControlOut_link]
  exact hKeeps.controlOut _ hHere

theorem endpointClearStatusStage_holds
    (hHere : P w.link) :
    P (endpointClearStatusStage link w).link := by
  rw [endpointClearStatusStage_link]
  exact hKeeps.controlWait _ hHere

theorem awaitControlReady_holds
    (hHere : P w.link) :
    P (awaitControlReady link w).link := by
  rw [awaitControlReady, World.await_link]
  exact hKeeps.controlReady _ hHere

theorem waitOutReceived_holds
    (hHere : P w.link) :
    P (waitOutReceived link w).2.link := by
  have hAfter := hKeeps.bulkOut _ hHere
  unfold waitOutReceived
  split
  · exact hHere
  · split
    · rename_i host hLook
      rw [hLook] at hAfter
      exact hAfter
    · rename_i packet host hLook
      rw [hLook] at hAfter
      exact hAfter

omit hKeeps in
theorem call_link
    (line : Line τ)
    (c : Call) :
    (w.call line c).2.link = w.link := rfl

theorem reportError_holds
    (hHere : P w.link) :
    P (lucaxReportError link w).link :=
  endpointClearStatusStage_holds hKeeps
    (hKeeps.controlIn _ _ hHere)

omit hKeeps in
theorem andThen_holds
    {next : World τ η → World τ η}
    (hHere : P w.link)
    (hNext : P w.link → P (next w).link) :
    P (w.andThen next).link := by
  rw [World.andThen]
  split
  · exact hHere
  · exact hNext hHere

/- What a stream direction does keeps it. -/
structure Direction.Keeps
    (direction : Direction τ η)
    (P : η → Prop) : Prop where
  transfer :
    ∀ data w, P w.link → P (direction.transfer data w).link
  clear : ∀ w, P w.link → P (direction.clear w).link
  wait : ∀ w, P w.link → P (direction.wait w).2.link

theorem writeDirection_holds :
    (writeDirection link : Direction τ η).Keeps P :=
  ⟨fun _ _ hHere => hHere,
    fun _ hHere => hKeeps.bulkIn _ _ hHere,
    fun _ hHere => hKeeps.bulkInReady _ hHere⟩

theorem readDirection_holds :
    (readDirection link : Direction τ η).Keeps P := by
  refine
    ⟨?_, fun _ hHere => hHere,
      fun _ hHere => waitOutReceived_holds hKeeps hHere⟩
  intro data w hHere
  simp only [readDirection]
  split
  · exact hHere
  · exact hHere

omit hKeeps in
/- By induction on the turns of the stream. -/
theorem rwStream_holds
    {direction : Direction τ η}
    (hDirection : direction.Keeps P)
    {task : World τ η → World τ η}
    (hTask : ∀ w, P w.link → P (task w).link)
    (fuel data length : Nat)
    (hHere : P w.link) :
    P (rwStream direction task fuel data length w).link := by
  induction fuel generalizing data length w with
  | zero =>
      cases length with
      | zero => exact hHere
      | succ length => exact hHere
  | succ fuel ih =>
      cases length with
      | zero => exact hHere
      | succ length =>
          rw [rwStream]
          split
          · exact ih _ _ (hDirection.transfer _ _ hHere)
          · refine
              andThen_holds
                (hTask _ (hDirection.clear _ hHere)) ?_
            intro hBack
            have hWaited := hDirection.wait _ hBack
            split
            · rename_i after hWait
              rw [hWait] at hWaited
              exact hWaited
            · rename_i after hWait
              rw [hWait] at hWaited
              exact ih _ _ hWaited

omit hKeeps in
theorem endpointStream_holds
    {direction : Direction τ η}
    (hDirection : direction.Keeps P)
    {task : World τ η → World τ η}
    (hTask : ∀ w, P w.link → P (task w).link)
    (fuel data length : Nat)
    (hHere : P w.link) :
    P (endpointStream direction task fuel data length
      w).link := by
  have hWaited := hDirection.wait _ hHere
  unfold endpointStream
  split
  · rename_i after hWait
    rw [hWait] at hWaited
    exact hWaited
  · rename_i after hWait
    rw [hWait] at hWaited
    exact rwStream_holds hDirection hTask _ _ _ hWaited

omit hKeeps in
@[simp] theorem takePacket_link
    (bytes : List UInt8)
    (data length : Nat)
    (w : World τ η) :
    (takePacket bytes data length w).2.link = w.link := by
  induction bytes generalizing data length w with
  | nil => rfl
  | cons b bytes ih =>
      cases length with
      | zero => rfl
      | succ length => exact ih _ _ _

theorem controlReadLoop_holds
    (fuel data length : Nat)
    (hHere : P w.link) :
    P (controlReadLoop link fuel data length w).link := by
  induction fuel generalizing data length w with
  | zero =>
      cases length with
      | zero => exact awaitControlReady_holds hKeeps hHere
      | succ length => exact hHere
  | succ fuel ih =>
      cases length with
      | zero => exact awaitControlReady_holds hKeeps hHere
      | succ length =>
          have hAfter := hKeeps.outTurn _ hHere
          rw [controlReadLoop]
          split
          · rename_i host hTurn
            rw [hTurn] at hAfter
            exact hAfter
          · rename_i host hTurn
            rw [hTurn] at hAfter
            exact hAfter
          · rename_i bytes host hTurn
            rw [hTurn] at hAfter
            refine ih _ _ ?_
            rw [takePacket_link]
            exact hAfter

omit hKeeps in
@[simp] theorem fillPacket_link
    (n data : Nat)
    (w : World τ η) :
    (fillPacket n data w).2.link = w.link := by
  induction n generalizing data w with
  | zero => rfl
  | succ n ih => exact ih _ _

theorem controlWriteLoop_holds
    (fuel data length : Nat)
    (full : Bool)
    (hHere : P w.link) :
    P (controlWriteLoop link fuel data length full w).link := by
  induction fuel generalizing data length full w with
  | zero => exact hHere
  | succ fuel ih =>
      have hAfter := hKeeps.inTurn _ hHere
      rw [controlWriteLoop]
      split
      · exact awaitControlReady_holds hKeeps hHere
      · split
        · rename_i host hTurn
          rw [hTurn] at hAfter
          exact hAfter
        · rename_i host hTurn
          rw [hTurn] at hAfter
          exact hAfter
        · rename_i host hTurn
          rw [hTurn] at hAfter
          exact hAfter
        · rename_i host hTurn
          rw [hTurn] at hAfter
          refine ih _ _ _ (hKeeps.controlIn _ _ ?_)
          rw [fillPacket_link]
          exact hAfter

end Streams

------------------------------------------------------------
-- Handlers
------------------------------------------------------------

section Handlers

variable
  (line : Line τ)
  {link : Link η}
  {P : η → Prop}
  (hKeeps : link.Keeps P)
  {task : World τ η → World τ η}
  (hTask : ∀ w, P w.link → P (task w).link)
  (fuel : Nat)
  {w : World τ η}

include hKeeps hTask

theorem sendChunks_holds
    (n count done : Nat)
    (hHere : P w.link) :
    P (sendChunks link task fuel n count done w).link := by
  induction n generalizing count done w with
  | zero =>
      cases count with
      | zero => exact hHere
      | succ count => exact hHere
  | succ n ih =>
      cases count with
      | zero => exact hHere
      | succ count =>
          rw [sendChunks]
          refine
            andThen_holds
              (endpointStream_holds
                (writeDirection_holds hKeeps) hTask _ _ _
                (hKeeps.bulkInReady _ hHere)) ?_
          intro hWritten
          exact ih _ _ (hKeeps.bulkIn _ _ hWritten)

theorem lucaxPdiNvmRead_holds
    (hHere : P w.link) :
    P (lucaxPdiNvmRead line link task fuel w).link := by
  have hAwaited := awaitControlOut_holds hKeeps hHere
  unfold lucaxPdiNvmRead
  split
  · rename_i after hAwait
    rw [hAwait] at hAwaited
    exact hAwaited
  · rename_i packet after hAwait
    rw [hAwait] at hAwaited
    refine
      andThen_holds
        (endpointClearStatusStage_holds hKeeps hAwaited) ?_
    intro hStatus
    dsimp only
    split
    · exact hKeeps.bulkIn _ _ hStatus
    · exact sendChunks_holds hKeeps hTask fuel _ _ _ hStatus

theorem receiveChunks_holds
    (n count done : Nat)
    (hHere : P w.link) :
    P (receiveChunks link task fuel n count done w).2.link := by
  induction n generalizing count done w with
  | zero =>
      cases count with
      | zero => exact hHere
      | succ count => exact hHere
  | succ n ih =>
      cases count with
      | zero => exact hHere
      | succ count =>
          have hWaited := waitOutReceived_holds hKeeps hHere
          rw [receiveChunks]
          split
          · rename_i after hWait
            rw [hWait] at hWaited
            exact hWaited
          · rename_i after hWait
            rw [hWait] at hWaited
            have hRead :=
              endpointStream_holds
                (readDirection_holds hKeeps) hTask fuel done
                (min (count + 1) vendorIoEpsize) hWaited
            dsimp only
            split
            · exact hRead
            · exact ih _ _ hRead

theorem receivePage_holds
    (hHere : P w.link) :
    P (receivePage link task fuel w).2.link := by
  have hAwaited := awaitControlOut_holds hKeeps hHere
  unfold receivePage
  split
  · rename_i after hAwait
    rw [hAwait] at hAwaited
    exact hAwaited
  · rename_i packet after hAwait
    rw [hAwait] at hAwaited
    have hStatus :=
      endpointClearStatusStage_holds hKeeps hAwaited
    dsimp only
    split
    · exact hStatus
    · have hChunks :=
        receiveChunks_holds hKeeps hTask fuel
          (clamp w.request.wIndex).toNat
          (clamp w.request.wIndex).toNat 0 hStatus
      split
      · rename_i after' hEnd
        rw [hEnd] at hChunks
        exact hChunks
      · rename_i done after' hEnd
        rw [hEnd] at hChunks
        exact hChunks

theorem lucaxPdiNvmWritePage_holds
    (hHere : P w.link) :
    P (lucaxPdiNvmWritePage line link task fuel w).link := by
  have hReceived :=
    receivePage_holds hKeeps hTask fuel hHere
  unfold lucaxPdiNvmWritePage
  dsimp only
  split
  · rename_i after hEnd
    rw [hEnd] at hReceived
    exact hReceived
  · rename_i address done after hEnd
    rw [hEnd] at hReceived
    rw [call_link]
    exact hReceived

omit hTask in
theorem lucaxPdiNvmWriteByte_holds
    (hHere : P w.link) :
    P (lucaxPdiNvmWriteByte line link w).link := by
  have hReceived : P (receiveByteAddress link w).2.link := by
    have hAwaited := awaitControlOut_holds hKeeps hHere
    unfold receiveByteAddress
    split
    · rename_i after hAwait
      rw [hAwait] at hAwaited
      exact hAwaited
    · rename_i packet after hAwait
      rw [hAwait] at hAwaited
      have hStatus :=
        endpointClearStatusStage_holds hKeeps hAwaited
      dsimp only
      split
      · exact hStatus
      · exact hStatus
  unfold lucaxPdiNvmWriteByte
  dsimp only
  split
  · rename_i after hEnd
    rw [hEnd] at hReceived
    exact hReceived
  · rename_i address after hEnd
    rw [hEnd] at hReceived
    exact hReceived

omit hTask in
theorem lucaxPdiRawRead_holds
    (hHere : P w.link) :
    P (lucaxPdiRawRead line link fuel w).link := by
  unfold lucaxPdiRawRead
  dsimp only
  refine
    andThen_holds ?_
      (endpointClearStatusStage_holds hKeeps)
  unfold endpointWriteControlStreamLE
  split
  · exact
      controlWriteLoop_holds hKeeps _ _ _ _
        (hKeeps.controlIn _ _ hHere)
  · exact controlWriteLoop_holds hKeeps _ _ _ _ hHere

omit hTask in
theorem lucaxPdiRawWrite_holds
    (hHere : P w.link) :
    P (lucaxPdiRawWrite line link fuel w).link := by
  unfold lucaxPdiRawWrite
  dsimp only
  refine andThen_holds ?_ id
  exact
    andThen_holds
      (controlReadLoop_holds hKeeps _ _ _ hHere)
      (endpointClearStatusStage_holds hKeeps)

/- No handler ends it. -/
theorem eventUsbDeviceControlRequest_holds
    (hHere : P w.link) :
    P (eventUsbDeviceControlRequest line link task fuel
      w).link := by
  unfold eventUsbDeviceControlRequest
  cases w.request.kind with
  | none => exact hHere
  | some kind =>
      cases kind with
      | getDescriptor =>
          exact
            endpointClearStatusStage_holds hKeeps
              (hKeeps.controlIn _ _ hHere)
      | reportError => exact reportError_holds hKeeps hHere
      | releaseInterface => exact hKeeps.controlIn _ _ hHere
      | pdiInit =>
          refine reportError_holds hKeeps ?_
          exact hHere
      | pdiChipErase =>
          refine reportError_holds hKeeps ?_
          exact hHere
      | pdiNvmRead =>
          exact
            lucaxPdiNvmRead_holds line hKeeps hTask fuel hHere
      | pdiNvmWritePage =>
          exact
            lucaxPdiNvmWritePage_holds line hKeeps hTask fuel
              hHere
      | pdiNvmWriteByte =>
          exact lucaxPdiNvmWriteByte_holds line hKeeps hHere
      | pdiRawRead =>
          exact lucaxPdiRawRead_holds line hKeeps fuel hHere
      | pdiRawWrite =>
          exact lucaxPdiRawWrite_holds line hKeeps fuel hHere

omit hTask

/- By induction on how deep the task is entered. -/
theorem usbTask_holds
    (depth : Nat)
    (hHere : P w.link) :
    P (usbTask line link fuel depth w).link := by
  induction depth generalizing w with
  | zero => exact hHere
  | succ depth ih =>
      have hAfter := hKeeps.setup _ hHere
      rw [usbTask]
      split
      · rename_i host hSetup
        rw [hSetup] at hAfter
        exact hAfter
      · rename_i r host hSetup
        rw [hSetup] at hAfter
        exact
          eventUsbDeviceControlRequest_holds line hKeeps
            (fun w hThere => ih hThere) fuel hAfter

/- The run lemma. -/
theorem mainLoop_holds
    (depth n : Nat)
    (hHere : P w.link) :
    P (mainLoop line link fuel depth n w).link := by
  induction n generalizing w with
  | zero => exact hHere
  | succ n ih =>
      rw [mainLoop]
      exact
        andThen_holds
          (usbTask_holds line hKeeps fuel depth hHere) ih

end Handlers

------------------------------------------------------------
-- Between Turns
------------------------------------------------------------

/- The firmware is between two requests, or stuck. -/
def World.Rests (w : World τ η) : Prop :=
  w.hung = true ∨ w.Ready

section Rests

variable
  (line : Line τ)
  (link : Link η)
  {task : World τ η → World τ η}
  (hTask : ∀ w, w.Ready → (task w).Rests)
  (fuel : Nat)
  {w : World τ η}

omit hTask in
theorem clearOut_ready
    (hReady : w.Ready) :
    (clearOut w).Ready :=
  ⟨rfl, hReady.inBank, hReady.hung⟩

omit hTask in
theorem call_rests
    (hRests : w.Rests)
    (c : Call) :
    (w.call line c).2.Rests :=
  hRests.imp_right fun hReady =>
    ⟨hReady.outBank, hReady.inBank, hReady.hung⟩

theorem waitOutReceived_late
    {after : World τ η}
    (hReady : w.Ready)
    (hWait : waitOutReceived link w = (false, after)) :
    after.Ready := by
  simp only [waitOutReceived, hReady.outBank] at hWait
  split at hWait
  · rw [← (Prod.mk.inj hWait).2]
    exact ⟨hReady.outBank, hReady.inBank, hReady.hung⟩
  · exact absurd (Prod.mk.inj hWait).1 (by decide)

theorem waitOutReceived_inTime
    {after : World τ η}
    (hReady : w.Ready)
    (hWait : waitOutReceived link w = (true, after)) :
    (clearOut after).Ready := by
  simp only [waitOutReceived, hReady.outBank] at hWait
  split at hWait
  · exact absurd (Prod.mk.inj hWait).1 (by decide)
  · rw [← (Prod.mk.inj hWait).2]
    exact ⟨rfl, hReady.inBank, hReady.hung⟩

omit hTask in
/- A packet that is there is found again. -/
theorem waitOutReceived_again
    {after : World τ η}
    (hWait : waitOutReceived link w = (true, after)) :
    waitOutReceived link after = (true, after) := by
  simp only [waitOutReceived] at hWait
  split at hWait
  · rename_i bytes hBank
    rw [← (Prod.mk.inj hWait).2]
    simp only [waitOutReceived, hBank]
  · split at hWait
    · exact absurd (Prod.mk.inj hWait).1 (by decide)
    · rw [← (Prod.mk.inj hWait).2]
      rfl

include hTask

/- A stream of received bytes; by induction on its turns. -/
theorem rwStream_rests
    (data length : Nat)
    (hReady : (clearOut w).Ready) :
    (clearOut
      (rwStream (readDirection link) task fuel data length
        w)).Rests := by
  induction fuel generalizing data length w with
  | zero =>
      cases length with
      | zero => exact Or.inr hReady
      | succ length => exact Or.inl rfl
  | succ fuel ih =>
      cases length with
      | zero => exact Or.inr hReady
      | succ length =>
          rw [rwStream]
          split
          · refine ih _ _ ?_
            simp only [readDirection]
            split
            · exact ⟨rfl, hReady.inBank, hReady.hung⟩
            · exact hReady
          · have hTurned : (task (clearOut w)).Rests :=
              hTask _ hReady
            rw [World.andThen]
            split
            · rename_i hHung
              exact Or.inl hHung
            · rename_i hGoes
              have hBack := hTurned.resolve_left hGoes
              split
              · rename_i after hWait
                exact
                  Or.inr
                    (clearOut_ready
                      (waitOutReceived_late link hBack hWait))
              · rename_i after hWait
                exact
                  ih _ _
                    (waitOutReceived_inTime link hBack hWait)

theorem receiveChunks_rests
    (n count done : Nat)
    (hReady : w.Ready) :
    (receiveChunks link task fuel n count done w).2.Rests := by
  induction n generalizing count done w with
  | zero =>
      cases count with
      | zero => exact Or.inr hReady
      | succ count => exact Or.inl rfl
  | succ n ih =>
      cases count with
      | zero => exact Or.inr hReady
      | succ count =>
          rw [receiveChunks]
          split
          · rename_i after hWait
            exact
              Or.inr (waitOutReceived_late link hReady hWait)
          · rename_i after hWait
            have hFull :=
              waitOutReceived_inTime link hReady hWait
            have hRead :
                (clearOut
                  (endpointReadStreamLE link task fuel done
                    (min (count + 1) vendorIoEpsize)
                    after)).Rests := by
              rw [endpointReadStreamLE, endpointStream,
                show (readDirection link).wait after =
                  waitOutReceived link after from rfl,
                waitOutReceived_again link hWait]
              exact rwStream_rests link hTask fuel _ _ hFull
            dsimp only
            split
            · rename_i hHung
              exact Or.inl hHung
            · rename_i hGoes
              exact ih _ _ (hRead.resolve_left hGoes)

theorem receivePage_rests
    (hReady : w.Ready) :
    (receivePage link task fuel w).2.Rests := by
  unfold receivePage awaitControlOut
  rcases link.controlOut w.link with ⟨packet, addressed⟩
  cases packet with
  | none => exact Or.inl rfl
  | some packet =>
      have hAddressed := withLink_left hReady addressed
      simp only
      split
      · rename_i hHung
        exact Or.inl hHung
      · rename_i hGoes
        have hStatus :=
          (endpointClearStatusStage_left link
            hAddressed.ready).resolve_left hGoes
        have hChunks :=
          receiveChunks_rests link hTask fuel
            (clamp w.request.wIndex).toNat
            (clamp w.request.wIndex).toNat 0 hStatus.ready
        split
        · rename_i after hEnd
          rw [hEnd] at hChunks
          exact hChunks
        · rename_i done after hEnd
          rw [hEnd] at hChunks
          exact hChunks

theorem lucaxPdiNvmWritePage_rests
    (hReady : w.Ready) :
    (lucaxPdiNvmWritePage line link task fuel w).Rests := by
  have hReceived := receivePage_rests link hTask fuel hReady
  unfold lucaxPdiNvmWritePage
  dsimp only
  split
  · rename_i after hEnd
    rw [hEnd] at hReceived
    exact hReceived
  · rename_i address done after hEnd
    rw [hEnd] at hReceived
    exact call_rests line hReceived _

theorem eventUsbDeviceControlRequest_rests
    (hReady : w.Ready) :
    (eventUsbDeviceControlRequest line link task fuel
      w).Rests := by
  have hCarried :
      ∀ w' : World τ η,
        (w'.hung = true ∨ Carried line w.request w w') →
          w'.Rests :=
    fun w' hEnds => hEnds.imp_right Carried.ready
  have hLeft :
      ∀ w' : World τ η,
        (w'.hung = true ∨ Left w w') → w'.Rests :=
    fun w' hEnds => hEnds.imp_right Left.ready
  unfold eventUsbDeviceControlRequest
  cases hKind : w.request.kind with
  | none => exact Or.inr hReady
  | some kind =>
      cases kind with
      | getDescriptor =>
          exact hLeft _ (lucaxGetDescriptor_left link hReady)
      | reportError =>
          exact hLeft _ (lucaxReportError_left link hReady)
      | releaseInterface =>
          exact
            Or.inr
              ⟨hReady.outBank, hReady.inBank, hReady.hung⟩
      | pdiInit =>
          rcases lucaxPdiInit_ready line link hReady with
            hHung | ⟨hAfter, _hResult⟩
          · exact Or.inl hHung
          · exact Or.inr hAfter
      | pdiChipErase =>
          exact
            hCarried _
              (lucaxPdiChipErase_carried line link hReady hKind)
      | pdiNvmRead =>
          exact
            hCarried _
              (lucaxPdiNvmRead_carried line link task fuel
                hReady hKind)
      | pdiNvmWritePage =>
          exact
            lucaxPdiNvmWritePage_rests line link hTask fuel
              hReady
      | pdiNvmWriteByte =>
          exact
            hCarried _
              (lucaxPdiNvmWriteByte_carried line link hReady
                hKind)
      | pdiRawRead =>
          exact
            hCarried _
              (lucaxPdiRawRead_carried line link fuel hReady
                hKind)
      | pdiRawWrite =>
          exact
            hCarried _
              (lucaxPdiRawWrite_carried line link fuel hReady
                hKind)

omit hTask

/- By induction on how deep the task is entered. -/
theorem usbTask_rests
    (depth : Nat)
    (hReady : w.Ready) :
    (usbTask line link fuel depth w).Rests := by
  induction depth generalizing w with
  | zero => exact Or.inl rfl
  | succ depth ih =>
      rw [usbTask]
      split
      · rename_i host hSetup
        exact Or.inr (withLink_left hReady host).ready
      · rename_i r host hSetup
        have hStart := (withLink_left hReady host).ready
        exact
          eventUsbDeviceControlRequest_rests line link
            (fun w hThere => ih hThere) fuel
            ⟨hStart.outBank, hStart.inBank, hStart.hung⟩

theorem mainLoop_rests
    (depth n : Nat)
    (hReady : w.Ready) :
    (mainLoop line link fuel depth n w).Rests := by
  induction n generalizing w with
  | zero => exact Or.inr hReady
  | succ n ih =>
      rw [mainLoop, World.andThen]
      split
      · rename_i hHung
        exact Or.inl hHung
      · rename_i hGoes
        exact
          ih
            ((usbTask_rests line link fuel depth
              hReady).resolve_left hGoes)

end Rests

------------------------------------------------------------
-- Reads Are Not Interrupted
------------------------------------------------------------

section Task

variable
  (line : Line τ)
  (link : Link η)
  (task task' : World τ η → World τ η)
  (fuel : Nat)
  {w : World τ η}

/- A packet that fits in the bank is written in one go. -/
theorem rwStream_task
    (data length : Nat)
    (hRoom : w.inBank.length + length ≤ vendorIoEpsize) :
    rwStream (writeDirection link) task fuel data length w =
      rwStream (writeDirection link) task' fuel data length
        w := by
  induction fuel generalizing data length w with
  | zero =>
      cases length with
      | zero => rfl
      | succ length => rfl
  | succ fuel ih =>
      cases length with
      | zero => rfl
      | succ length =>
          have hAllowed :
              (writeDirection link).allowed w = true := by
            simp only [writeDirection, decide_eq_true_eq]
            omega
          rw [rwStream, rwStream, if_pos hAllowed,
            if_pos hAllowed]
          refine ih _ _ ?_
          simp only [writeDirection, List.length_append,
            List.length_singleton]
          omega

theorem sendChunks_task
    (n count done : Nat)
    (hInBank : w.inBank = []) :
    sendChunks link task fuel n count done w =
      sendChunks link task' fuel n count done w := by
  induction n generalizing count done w with
  | zero =>
      cases count with
      | zero => rfl
      | succ count => rfl
  | succ n ih =>
      cases count with
      | zero => rfl
      | succ count =>
          have hStream :
              ∀ after : World τ η,
                after.inBank = [] →
                  endpointWriteStreamLE link task fuel done
                      (min (count + 1) vendorIoEpsize) after =
                    endpointWriteStreamLE link task' fuel done
                      (min (count + 1) vendorIoEpsize)
                      after := by
            intro after hEmpty
            unfold endpointWriteStreamLE endpointStream
            split
            · rfl
            · rename_i waited hWait
              have hWaited : waited.inBank = [] := by
                rw [← (Prod.mk.inj hWait).2]
                exact hEmpty
              refine rwStream_task link task task' _ _ _ ?_
              rw [hWaited, List.length_nil, Nat.zero_add]
              exact Nat.min_le_right _ _
          rw [sendChunks, sendChunks,
            hStream (waitInReady link w).2 hInBank,
            World.andThen, World.andThen]
          split
          · rfl
          · exact ih _ _ rfl

/-
  A read request is carried out to its end before another is
  taken.
-/
theorem lucaxPdiNvmRead_task
    (hInBank : w.inBank = []) :
    lucaxPdiNvmRead line link task fuel w =
      lucaxPdiNvmRead line link task' fuel w := by
  have hAwaited :
      (awaitControlOut link w).2.inBank = [] := by
    unfold awaitControlOut
    split
    · exact hInBank
    · exact hInBank
  have hStatus :
      ∀ after : World τ η,
        after.inBank = [] →
          (endpointClearStatusStage link after).inBank =
            [] := by
    intro after hEmpty
    rw [endpointClearStatusStage, World.await_inBank]
    exact hEmpty
  unfold lucaxPdiNvmRead
  split
  · rfl
  · rename_i packet after hAwait
    rw [hAwait] at hAwaited
    simp only [World.andThen]
    split
    · rfl
    · split
      · rfl
      · exact
          sendChunks_task link task task' fuel _ _ _
            (hStatus after hAwaited)

end Task

------------------------------------------------------------
-- Chunks in One Packet
------------------------------------------------------------

section Chunks

variable
  (link : Link η)
  (task : World τ η → World τ η)

/-
  A stream that finds its bytes in the bank stores them and
  does not enter the main loop.
-/
theorem rwStream_bank
    (fuel data length : Nat)
    {w : World τ η}
    {bytes : List UInt8}
    (hBank : w.outBank = some bytes)
    (hThere : length ≤ bytes.length) :
    let after :=
      rwStream (readDirection link) task fuel data length w
    after.hung = true ∨
      after =
        { w.withFw
            (w.fw.storeBytes data (bytes.take length)) with
          outBank := some (bytes.drop length) } := by
  induction length generalizing fuel data w bytes with
  | zero =>
      right
      rw [rwStream, List.take_zero, List.drop_zero, ← hBank]
      rfl
  | succ length ih =>
      cases fuel with
      | zero => exact Or.inl rfl
      | succ fuel =>
          cases bytes with
          | nil => exact absurd hThere (Nat.not_succ_le_zero _)
          | cons b bank =>
              simp only
              rw [rwStream_stores fuel data length hBank]
              exact
                ih fuel (data + 1) rfl
                  (Nat.le_of_succ_le_succ hThere)

/-
  A chunk that comes in one packet: what follows when the
  loop goes through.
-/
theorem receiveChunks_chunk
    (fuel n count done : Nat)
    {w after : World τ η}
    {packet : List UInt8}
    {host : η}
    {total : Nat}
    (hBank : w.outBank = none)
    (hPacket : link.bulkOut w.link = (some packet, host))
    (hThere : min (count + 1) vendorIoEpsize ≤ packet.length)
    (hEnds :
      receiveChunks link task fuel (n + 1) (count + 1) done w =
        (some total, after)) :
    receiveChunks link task fuel n
        (count + 1 - min (count + 1) vendorIoEpsize)
        (done + min (count + 1) vendorIoEpsize)
        (clearOut
          ((w.withFw
            (w.fw.storeBytes done
              (packet.take
                (min (count + 1) vendorIoEpsize)))).withLink
            host)) =
      (some total, after) := by
  rw [receiveChunks, waitOutReceived_some hBank hPacket]
    at hEnds
  have hStream :=
    rwStream_bank link task fuel done
      (min (count + 1) vendorIoEpsize)
      (w := { w.withLink host with outBank := some packet })
      rfl hThere
  have hRead :
      endpointReadStreamLE link task fuel done
          (min (count + 1) vendorIoEpsize)
          { w.withLink host with outBank := some packet } =
        rwStream (readDirection link) task fuel done
          (min (count + 1) vendorIoEpsize)
          { w.withLink host with outBank := some packet } :=
    rfl
  simp only [hRead] at hEnds
  rcases hStream with hHung | hAfter
  · rw [if_pos hHung] at hEnds
    exact absurd (Prod.mk.inj hEnds).1 (by simp)
  · rw [hAfter] at hEnds
    split at hEnds
    · exact absurd (Prod.mk.inj hEnds).1 (by simp)
    · exact hEnds

/- Bytes stored behind the front of the page. -/
theorem storeBytes_bytes
    (fw : Fw τ)
    (done : Nat)
    (bytes : List UInt8) :
    (Ptr.buffer 0).bytes (fw.storeBytes done bytes).ram
        (done + bytes.length) =
      (Ptr.buffer 0).bytes fw.ram done ++ bytes := by
  rw [Ptr.bytes_buffer, Ptr.bytes_buffer, storeBytes_ram,
    Pages.read_add, Nat.zero_add, Pages.read_put]
  congr 1
  rw [Pages.read, Pages.read]
  apply List.map_congr_left
  intro j hMem
  rw [List.mem_range'_1] at hMem
  exact Pages.put_outside _ (Or.inl (by omega))

end Chunks

end Lucax
