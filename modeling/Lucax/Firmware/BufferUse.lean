import Lucax.Driver.Session
import Lucax.Firmware.Effects

/-
  Where the firmware accesses its transfer buffer.

  Key definitions include:
    * `Call.extent`
    * `Request.InBounds`
    * `eager`

  Main declarations:
    * `Call.exec_touched`
    * `touched_lt_maxBuffer`
    * `rawRead_touches`
-/

------------------------------------------------------------
-- Accesses of the Driver
------------------------------------------------------------

namespace Lucax

open Relation

variable {τ η : Type}

/- A driver call uses `buffer` below this index. -/
def Call.extent : Call → Nat
| .pdiReadBytes _ data count => data + count.toNat
| .nvmReadBytes _ data count => data + count.toNat
| .pdiWriteBytes _ (.buffer offset) count =>
    offset + count.toNat
| .nvmPagedWrite _ (.buffer offset) count _ =>
    offset + count.toNat
| _ => 0

/- Every access after `s` that is not one before lies in `P`. -/
def TouchesOnly
    (P : Nat → Prop)
    (s s' : Fw τ) : Prop :=
  ∀ i ∈ s'.touched, i ∈ s.touched ∨ P i

namespace TouchesOnly

variable {P : Nat → Prop}

theorem of_eq
    {s s' : Fw τ}
    (hSame : s'.touched = s.touched) :
    TouchesOnly P s s' := by
  intro i hMem
  rw [hSame] at hMem
  exact Or.inl hMem

theorem trans
    {s s' s'' : Fw τ}
    (hFirst : TouchesOnly P s s')
    (hSecond : TouchesOnly P s' s'') :
    TouchesOnly P s s'' := by
  intro i hMem
  rcases hSecond i hMem with hBefore | hIn
  · exact hFirst i hBefore
  · exact Or.inr hIn

end TouchesOnly

section Driver

variable (line : Line τ) (s : Fw τ)

@[simp] theorem pdiReadByte_touched
    (address : UInt32)
    (data : UInt8) :
    (pdiReadByte line address data s).2.touched =
      s.touched := by
  cases hOn : s.pdiOn with
  | false => rw [pdiReadByte_disabled line hOn]
  | true =>
      have hRead := readByte_touched line
        (feed line (ldsFrames address) s)
      rw [pdiReadByte_enabled line hOn]
      split
      · rename_i after hAnswer
        simpa [hAnswer] using hRead
      · rename_i b after hAnswer
        simpa [hAnswer] using hRead

@[simp] theorem pdiWriteByte_touched
    (address : UInt32)
    (data : UInt8) :
    (pdiWriteByte line address data s).2.touched =
      s.touched := by
  cases hOn : s.pdiOn with
  | false => rw [pdiWriteByte_disabled line hOn]
  | true => simp [pdiWriteByte_enabled line hOn]

@[simp] theorem nvmCmd_touched
    (c : UInt8) :
    (nvmCmd line c s).touched = s.touched :=
  pdiWriteByte_touched line s nvmCmdReg c

@[simp] theorem trigCmdex_touched :
    (trigCmdex line s).touched = s.touched :=
  pdiWriteByte_touched line s nvmCtrlaReg 0x01

@[simp] theorem nvmPointer_touched
    (address : UInt32) :
    (nvmPointer line address s).touched = s.touched := by
  rw [nvmPointer_eq_feed, feed_touched]

@[simp] theorem waitLoop_touched
    (n : Nat) :
    (waitLoop line n s).2.touched = s.touched := by
  induction n generalizing s with
  | zero => rfl
  | succ n ih =>
      have hRead :=
        pdiReadByte_touched line s nvmStatusReg 0
      rw [waitLoop]
      split
      · rename_i status after hPoll
        have hSame : after.touched = s.touched := by
          simpa [hPoll] using hRead
        split
        · exact hSame
        · rw [ih, hSame]
      · rename_i ret status after hFailed hPoll
        simpa [hPoll] using hRead

@[simp] theorem waitNvm_touched :
    (waitNvm line s).2.touched = s.touched := by
  have hLoop := waitLoop_touched line s 0xff
  unfold waitNvm
  split
  · rename_i ret after hEnd
    simpa [hEnd] using hLoop
  · rename_i wait after hEnd
    split
    all_goals simpa [hEnd] using hLoop

/- The receive loop stores from `data` on, `n` bytes. -/
theorem readLoop_touched
    (n : Nat)
    (address : UInt32)
    (data : Nat) :
    TouchesOnly (· < data + n) s
      (readLoop line n address data s).2 := by
  induction n generalizing address data s with
  | zero => exact TouchesOnly.of_eq rfl
  | succ n ih =>
      have hRead := readByte_touched line s
      rw [readLoop]
      split
      · rename_i after hAnswer
        apply TouchesOnly.of_eq
        simpa [hAnswer] using hRead
      · rename_i b after hAnswer
        intro i hMem
        rcases ih _ _ _ i hMem with hBefore | hIn
        · have hAfter : after.touched = s.touched := by
            simpa [hAnswer] using hRead
          simp only [storeByte_touched, logRead_touched,
            hAfter, List.mem_append, List.mem_singleton]
            at hBefore
          rcases hBefore with hOld | hHere
          · exact Or.inl hOld
          · right
            omega
        · right
          omega

theorem pdiReadBytes_touched
    (start : UInt32)
    (data : Nat)
    (count : UInt16) :
    TouchesOnly (· < data + count.toNat) s
      (pdiReadBytes line start data count s).2 := by
  cases hOn : s.pdiOn with
  | false =>
      rw [pdiReadBytes_disabled line hOn]
      exact TouchesOnly.of_eq rfl
  | true =>
      rw [pdiReadBytes_enabled line hOn]
      refine TouchesOnly.trans (TouchesOnly.of_eq ?_)
        (readLoop_touched line _ _ _ _)
      simp

/- A transfer out of the buffer reads where it points. -/
theorem mem_indices_buffer
    (offset n i : Nat) :
    i ∈ (Ptr.buffer offset).indices n →
      i < offset + n := by
  induction n generalizing offset with
  | zero =>
      intro hMem
      cases hMem
  | succ n ih =>
      intro hMem
      rcases List.mem_cons.mp hMem with hHere | hLater
      · omega
      · have hBound := ih (offset + 1) hLater
        omega

theorem pdiWriteBytes_touched
    (start : UInt32)
    (data : Ptr)
    (count : UInt16) :
    TouchesOnly
      (fun i =>
        i < (Call.pdiWriteBytes start data count).extent) s
      (pdiWriteBytes line start data count s).2 := by
  cases hOn : s.pdiOn with
  | false =>
      rw [pdiWriteBytes_disabled line hOn]
      exact TouchesOnly.of_eq rfl
  | true =>
      rw [pdiWriteBytes_enabled line hOn]
      intro i hMem
      simp only [pdiWriteRaw_touched, feed_touched,
        List.mem_append] at hMem
      rcases hMem with hBefore | hHere
      · exact Or.inl hBefore
      · right
        cases data with
        | array bytes =>
            rw [Ptr.indices_array] at hHere
            cases hHere
        | buffer offset =>
            exact mem_indices_buffer offset count.toNat i
              hHere

/- A driver call stays below its extent. -/
theorem Call.exec_touched
    (c : Call) :
    TouchesOnly (· < c.extent) s (c.exec line s).2 := by
  cases c with
  | pdiReadByte address =>
      apply TouchesOnly.of_eq
      simp [Call.exec]
  | pdiWriteByte address data =>
      apply TouchesOnly.of_eq
      simp [Call.exec]
  | pdiReadBytes start data count =>
      exact pdiReadBytes_touched line s start data count
  | pdiWriteBytes start data count =>
      exact pdiWriteBytes_touched line s start data count
  | nvmChipErase =>
      apply TouchesOnly.of_eq
      simp [Call.exec, Lucax.nvmChipErase]
  | nvmReadByte address =>
      apply TouchesOnly.of_eq
      simp [Call.exec, Lucax.nvmReadByte]
  | nvmReadBytes address data count =>
      refine TouchesOnly.trans (TouchesOnly.of_eq ?_)
        (pdiReadBytes_touched line
          (nvmCmd line cmdReadNvm s) address data count)
      simp
  | nvmWriteByte address data mem =>
      apply TouchesOnly.of_eq
      cases mem <;> simp [Call.exec, Lucax.nvmWriteByte]
  | nvmPagedWrite address data count mem =>
      have hLoaded :=
        pdiWriteBytes_touched line
          (nvmCmd line mem.loadBufferCmd
            (waitNvm line
              (trigCmdex line
                (nvmCmd line mem.eraseBufferCmd
                  (nvmPointer line address s)))).2)
          address data count
      intro i hMem
      have hMem' :
          i ∈ (Lucax.pdiWriteBytes line address data count
            (nvmCmd line mem.loadBufferCmd
              (waitNvm line
                (trigCmdex line
                  (nvmCmd line mem.eraseBufferCmd
                    (nvmPointer line address s)))).2)).2.touched := by
        simpa [Call.exec, Lucax.nvmPagedWrite,
          dummyStore_eq_feed] using hMem
      rcases hLoaded i hMem' with hBefore | hIn
      · left
        simpa using hBefore
      · right
        cases data with
        | array bytes => exact hIn
        | buffer offset => exact hIn

theorem pdiExit_touched :
    (pdiExit line s).touched = s.touched := by
  simp [pdiExit, sendBreak, usartTxMode, usartRxMode,
    usartDisconnect]

end Driver

------------------------------------------------------------
-- Requests Within the Buffer
------------------------------------------------------------

theorem Request.Touches.lt
    {r : Request}
    {i : Nat}
    (hBounds : r.InBounds)
    (hTouches : r.Touches i) :
    i < 1024 := by
  have hClamp := clamp_le r.wIndex
  unfold Request.Touches at hTouches
  split at hTouches
  · omega
  · omega
  · rename_i hKind
    have hLe : r.wLength ≤ maxBuffer := hBounds (Or.inl hKind)
    have hNat : r.wLength.toNat ≤ 1024 :=
      UInt16.le_iff_toNat_le.mp hLe
    omega
  · rename_i hKind
    have hLe : r.wLength ≤ maxBuffer := hBounds (Or.inr hKind)
    have hNat : r.wLength.toNat ≤ 1024 :=
      UInt16.le_iff_toNat_le.mp hLe
    omega
  · exact absurd hTouches id

/- A driver call made for a request that fits stays inside. -/
theorem Request.Makes.extent_le
    {r : Request}
    {c : Call}
    (hBounds : r.InBounds)
    (hMakes : r.Makes c) :
    c.extent ≤ 1024 := by
  have hClamp := clamp_le r.wIndex
  unfold Request.Makes at hMakes
  split at hMakes
  · subst hMakes
    simp [Call.extent]
  · split at hMakes
    · rcases hMakes with ⟨address, rfl⟩
      simp [Call.extent]
    · rcases hMakes with ⟨address, rfl⟩
      simpa [Call.extent] using hClamp
  · rcases hMakes with ⟨address, rfl⟩
    simpa [Call.extent] using hClamp
  · rcases hMakes with ⟨address, rfl⟩
    simp [Call.extent]
  · rename_i hKind
    subst hMakes
    have hNat : r.wLength.toNat ≤ 1024 :=
      UInt16.le_iff_toNat_le.mp (hBounds (Or.inl hKind))
    simpa [Call.extent] using hNat
  · rename_i hKind
    subst hMakes
    have hNat : r.wLength.toNat ≤ 1024 :=
      UInt16.le_iff_toNat_le.mp (hBounds (Or.inr hKind))
    simpa [Call.extent] using hNat
  · exact absurd hMakes id

/- One effect of a request that fits stays inside. -/
theorem FwStep.touched_lt
    {line : Line τ}
    {R : Request → Prop}
    (hBounds : ∀ r, R r → r.InBounds)
    {s s' : Fw τ}
    (hStep : FwStep line R s s')
    (hInside : ∀ i ∈ s.touched, i < 1024) :
    ∀ i ∈ s'.touched, i < 1024 := by
  intro i hMem
  cases hStep with
  | load hRequest hTouches =>
      rcases List.mem_append.mp hMem with hBefore | hHere
      · exact hInside i hBefore
      · rw [List.mem_singleton.mp hHere]
        exact hTouches.lt (hBounds _ hRequest)
  | store hRequest hTouches b =>
      rcases List.mem_append.mp hMem with hBefore | hHere
      · exact hInside i hBefore
      · rw [List.mem_singleton.mp hHere]
        exact hTouches.lt (hBounds _ hRequest)
  | call hRequest hMakes =>
      have hExtent := hMakes.extent_le (hBounds _ hRequest)
      rcases Call.exec_touched line s _ i hMem with
        hBefore | hIn
      · exact hInside i hBefore
      · exact Nat.lt_of_lt_of_le hIn hExtent
  | init hRequest hKind =>
      rw [pdiInit_touched] at hMem
      exact hInside i hMem
  | exit hRequest hKind =>
      rw [pdiExit_touched] at hMem
      exact hInside i hMem

/-
  Whatever the host sends and the target answers, a run in
  which every raw transfer asks for at most 1024 bytes stays
  inside the buffer.
-/
theorem touched_lt_maxBuffer
    (line : Line τ)
    (link : Link η)
    (target : τ)
    (host : η)
    (fuel depth n : Nat)
    (hBounds :
      ∀ r ∈ (mainLoop line link fuel depth n
          (World.powerOn target host)).handled,
        r.InBounds) :
    ∀ i ∈ (mainLoop line link fuel depth n
        (World.powerOn target host)).fw.touched,
      i < 1024 := by
  apply
    (mainLoop_evolves line link fuel depth n
      (World.powerOn target host)).invariant
      (P := fun s => ∀ i ∈ s.touched, i < 1024)
  · intro s s' hStep hInside
    exact hStep.touched_lt hBounds hInside
  · intro i hMem
    cases hMem

------------------------------------------------------------
-- An Eager Host
------------------------------------------------------------

/-
  A host that sends its requests in turn and whatever is
  waited for at once: the address bytes, full packets and
  free banks.
-/
def eager : Link (List Request) where
  setup := fun rs => (rs.head?, rs.tail)
  controlOut := fun rs => (some [0x00, 0x00, 0x80, 0x00], rs)
  controlReady := fun rs => (true, rs)
  controlWait := fun rs => (true, rs)
  outTurn := fun rs => (.packet (List.replicate 64 0xAA), rs)
  inTurn := fun rs => (.ready, rs)
  controlIn := fun rs _ => rs
  bulkOut := fun rs => (some (List.replicate 64 0xAA), rs)
  bulkInReady := fun rs => (true, rs)
  bulkIn := fun rs _ => rs

/- A page write and a read, the target silent. -/
theorem touched_lt_maxBuffer_eager :
    (mainLoop scripted eager 100 1 2
        (World.powerOn []
          [⟨0x40, 39, 0, 3, 4⟩,
            ⟨0x40, 36, 0, 2, 4⟩])).fw.touched.all
      (fun i => i < 1024) = true := by
  rw [List.all_eq_true]
  intro i hMem
  have hInside :=
    touched_lt_maxBuffer scripted eager []
      [⟨0x40, 39, 0, 3, 4⟩, ⟨0x40, 36, 0, 2, 4⟩] 100 1 2
      (by decide) i hMem
  exact decide_eq_true hInside

/- What has been accessed stays recorded. -/
theorem fillPacket_touches
    (n data : Nat)
    (w : World τ η) :
    (∀ i ∈ w.fw.touched,
        i ∈ (fillPacket n data w).2.fw.touched) ∧
      ∀ i < n,
        data + i ∈ (fillPacket n data w).2.fw.touched := by
  induction n generalizing data w with
  | zero =>
      refine ⟨fun i hMem => hMem, ?_⟩
      intro i hi
      omega
  | succ n ih =>
      rcases ih (data + 1) (w.withFw (w.fw.loadByte data).2)
        with ⟨hKeeps, hReads⟩
      refine ⟨?_, ?_⟩
      · intro i hMem
        exact hKeeps i (List.mem_append_left _ hMem)
      · intro i hi
        cases i with
        | zero =>
            exact hKeeps data (by
              simp [World.withFw, Fw.loadByte])
        | succ i =>
            have hNext := hReads i (by omega)
            rw [Nat.add_assoc, Nat.add_comm 1] at hNext
            exact hNext

theorem controlWriteLoop_keeps
    (link : Link η)
    (fuel data length : Nat)
    (lastPacketFull : Bool)
    (w : World τ η) :
    ∀ i ∈ w.fw.touched,
      i ∈ (controlWriteLoop link fuel data length
        lastPacketFull w).fw.touched := by
  induction fuel generalizing data length lastPacketFull w with
  | zero =>
      intro i hMem
      exact hMem
  | succ fuel ih =>
      intro i hMem
      rw [controlWriteLoop]
      split
      · rw [awaitControlReady, World.await_fw]
        exact hMem
      · split
        · exact hMem
        · exact hMem
        · exact hMem
        · rename_i host hTurn
          have hKeeps :=
            (fillPacket_touches
              (min length controlEndpointSize) data
              (w.withLink host)).1
          exact ih _ _ _ _ i (hKeeps i hMem)

/- A control IN stream to an eager host reads every byte. -/
theorem controlWriteLoop_touches
    (fuel data length : Nat)
    (lastPacketFull : Bool)
    (w : World τ (List Request))
    (hFuel : length < fuel)
    (i : Nat)
    (hi : i < length) :
    data + i ∈
      (controlWriteLoop eager fuel data length lastPacketFull
        w).fw.touched := by
  induction fuel generalizing data length lastPacketFull w i
    with
  | zero => omega
  | succ fuel ih =>
      have hGoOn :
          ¬ (length = 0 ∧ lastPacketFull = false) := by
        omega
      rw [controlWriteLoop, if_neg hGoOn]
      simp only [eager]
      by_cases hHere : i < min length controlEndpointSize
      · apply controlWriteLoop_keeps
        exact (fillPacket_touches
          (min length controlEndpointSize) data
          (w.withLink w.link)).2 i hHere
      · have hSize : controlEndpointSize = 64 := rfl
        have hShift :
            data + i =
              data + min length controlEndpointSize +
                (i - min length controlEndpointSize) := by
          omega
        rw [hShift]
        apply ih
        · omega
        · omega

/-
  Every raw read of more than 1024 bytes that an eager host
  asks for leaves the buffer, with or without a session.
-/
theorem rawRead_touches
    (line : Line τ)
    (w : World τ (List Request))
    (fuel : Nat)
    (hFuel : w.request.wLength.toNat < fuel)
    (hLong : maxBuffer < w.request.wLength) :
    1024 ∈ (lucaxPdiRawRead line eager fuel w).fw.touched := by
  have hNat : 1024 < w.request.wLength.toNat :=
    UInt16.lt_iff_toNat_lt.mp hLong
  have hStream :=
    controlWriteLoop_touches fuel 0 w.request.wLength.toNat
      false
      (w.call line
        (.pdiReadBytes w.request.rawAddress 0
          w.request.wLength)).2
      hFuel 1024 hNat
  have hNonzero : w.request.wLength.toNat ≠ 0 := by omega
  unfold lucaxPdiRawRead endpointWriteControlStreamLE
  simp only [hNonzero, if_false, World.andThen]
  split
  · simpa only [Nat.zero_add] using hStream
  · rw [endpointClearStatusStage_fw]
    simpa only [Nat.zero_add] using hStream

/- Such a raw read taken from an eager host. -/
theorem usbTask_rawRead_touches
    (line : Line τ)
    {r : Request}
    {rs : List Request}
    {w : World τ (List Request)}
    (fuel depth : Nat)
    (hPending : w.link = r :: rs)
    (hKind : r.kind = some .pdiRawRead)
    (hFuel : r.wLength.toNat < fuel)
    (hLong : maxBuffer < r.wLength) :
    1024 ∈
      (usbTask line eager fuel (depth + 1) w).fw.touched := by
  have hSetup : eager.setup w.link = (some r, rs) := by
    rw [hPending]
    rfl
  have hKind' :
      ((w.withLink rs).take r).request.kind =
        some .pdiRawRead :=
    hKind
  rw [usbTask_setup line eager fuel depth hSetup,
    eventUsbDeviceControlRequest, hKind']
  exact rawRead_touches line _ fuel hFuel hLong

/- The first request after power-on is such a raw read. -/
theorem rawRead_leaves_buffer :
    ¬ ∀ i ∈ (mainLoop scripted eager 2000 1 1
        (World.powerOn []
          [⟨0xC0, 40, 0, 0, 1025⟩])).fw.touched,
      i < 1024 := by
  intro hInside
  rw [mainLoop_one] at hInside
  have hTouches :=
    usbTask_rawRead_touches scripted
      (r := ⟨0xC0, 40, 0, 0, 1025⟩)
      (w := World.powerOn [] [⟨0xC0, 40, 0, 0, 1025⟩])
      2000 0 rfl (by decide) (by decide) (by decide)
  rw [Nat.zero_add] at hTouches
  exact absurd (hInside 1024 hTouches) (Nat.lt_irrefl 1024)

end Lucax
