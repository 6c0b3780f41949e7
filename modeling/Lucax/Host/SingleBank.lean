import Lucax.Host.Requests

/-
  A page transfer over an OUT endpoint with a single bank.

  Driver and firmware each count the packets of a page.  The
  bank holds one packet the firmware has not taken, so one
  packet too many still goes out.

  Key definitions include:
    * `bankUsb`
    * `takenCount`
    * `LoopsAgree`

  Main declarations:
    * `writeLoop_bank`
    * `loopsAgree_iff`
-/

------------------------------------------------------------
-- The Bank
------------------------------------------------------------

namespace Lucax

variable {τ : Type} (line : Line τ)

/-
  The host's end of the cable where an OUT packet goes out
  only if the bank is free for it once the firmware has gone
  as far as it can; else the transfer times out.
-/
def bankUsb : Libusb (Device τ) where
  controlOut := (wireUsb line).controlOut
  controlIn := (wireUsb line).controlIn
  bulkIn := (wireUsb line).bulkIn
  bulkOut d packet :=
    let queued :=
      d.withLink
        { d.link with bulkOut := d.link.bulkOut ++ [packet] }
    if (settle line queued).link.bulkOut.length ≤ 1 then
      ((0, packet.length), queued)
    else ((-7, 0), d)

/- How many of them the firmware takes for a request. -/
def takenCount (nBytes : UInt32) : Nat :=
  packetCount (clamp nBytes.toUInt16).toNat

/- The two counts are one as long as the buffer holds all. -/
theorem packetCount_le_taken_iff
    (nBytes : UInt32) :
    packetCount nBytes.toNat ≤ takenCount nBytes ↔
      nBytes.toNat ≤ 1024 := by
  constructor
  · intro hAll
    have hBound := clamp_le nBytes.toUInt16
    simp only [takenCount, packetCount, vendorIoEpsize] at hAll
    omega
  · intro hFits
    rcases clamp_of_le hFits with ⟨hClamp, hExact⟩
    have hTaken :
        takenCount nBytes = packetCount nBytes.toNat := by
      rw [takenCount, hClamp, hExact]
    exact Nat.le_of_eq hTaken.symm

/- One packet more than it takes is at most 1088 bytes. -/
theorem packetCount_le_succ_iff
    (nBytes : UInt32) :
    packetCount nBytes.toNat ≤ takenCount nBytes + 1 ↔
      nBytes.toNat ≤ 1088 := by
  constructor
  · intro hAll
    have hBound := clamp_le nBytes.toUInt16
    simp only [takenCount, packetCount, vendorIoEpsize] at hAll
    omega
  · intro hFits
    by_cases hWhole : nBytes.toNat ≤ 1024
    · have hLe := (packetCount_le_taken_iff nBytes).mpr hWhole
      omega
    · have hExact : nBytes.toUInt16.toNat = nBytes.toNat := by
        rw [UInt32.toNat_toUInt16]
        exact Nat.mod_eq_of_lt (by omega)
      have hMore : nBytes.toUInt16 > maxBuffer := by
        apply UInt16.lt_iff_toNat_lt.mpr
        have hMax : maxBuffer.toNat = 1024 := rfl
        omega
      have hClamp : clamp nBytes.toUInt16 = maxBuffer :=
        if_pos hMore
      have hMax : maxBuffer.toNat = 1024 := rfl
      rw [takenCount, hClamp, hMax]
      simp only [packetCount, vendorIoEpsize]
      omega

------------------------------------------------------------
-- The Driver's Loop
------------------------------------------------------------

section Loop

variable
  (m : AvrMem) (addr nBytes : UInt32) (mem : UInt16)
  (d : Device τ)

/- The device when `sent` bytes of a page have gone out. -/
def pageSent (sent : Nat) : Device τ :=
  submit (pageRequest mem nBytes)
    (addressBytes (m.address addr))
    (d.withLink
      { d.link with
        bulkOut :=
          Packets.split vendorIoEpsize
            (m.bytes addr.toNat sent) })

/- The page as far as it has gone out, on an idle device. -/
theorem pageSent_idle
    {d : Device τ}
    (hIdle : d.Idle)
    (sent : Nat) :
    World.Idle
      (d.withLink
        { d.link with
          bulkOut :=
            Packets.split vendorIoEpsize
              (m.bytes addr.toNat sent) }) where
  setup := hIdle.setup
  bulkOut _ hMem := Packets.ne_nil_of_mem_split hMem
  bulkIn := hIdle.bulkIn
  outBank := hIdle.outBank
  inBank := hIdle.inBank
  hung := hIdle.hung

/- Whole packets, or all the firmware asks for, are taken. -/
theorem settle_pageSent
    {d : Device τ}
    (hIdle : d.Idle)
    (sent : Nat)
    (hPart :
      (clamp nBytes.toUInt16).toNat ≤ sent ∨
        vendorIoEpsize ∣ sent) :
    (settle line
        (pageSent m addr nBytes mem d sent)).link.bulkOut =
      (Packets.split vendorIoEpsize
        (m.bytes addr.toNat sent)).drop
          (takenCount nBytes) := by
  have hKind :
      (pageRequest mem nBytes).kind =
        some .pdiNvmWritePage :=
    (outRequest_kind _ _ _ _).trans (by decide)
  have hCount :
      clamp (pageRequest mem nBytes).wIndex =
        clamp nBytes.toUInt16 := rfl
  have hSent := pageSent_idle m addr hIdle sent
  have hLength := m.bytes_length addr.toNat sent
  by_cases hThere : (clamp nBytes.toUInt16).toNat ≤ sent
  · have hSettled :=
      settle_writePage_queue line hSent hKind
        (addressBytes (m.address addr))
        (m.bytes addr.toNat sent) []
        (by
          rw [hCount, hLength]
          exact hThere)
        (by
          rw [List.append_nil]
          rfl)
    rw [pageSent, hSettled, World.call_link, List.append_nil]
    rfl
  · have hWhole : vendorIoEpsize ∣ sent :=
      hPart.resolve_left hThere
    rcases settle_writePage_short line hSent hKind
        (addressBytes (m.address addr))
        (m.bytes addr.toNat sent)
        (by
          rw [hCount, hLength]
          exact Nat.not_le.mp hThere)
        (by
          rw [hLength]
          exact hWhole)
        rfl with
      ⟨hNothing, _hCalls⟩
    rw [pageSent, hNothing, List.drop_eq_nil_of_le]
    rw [Packets.length_split (by decide), hLength]
    simp only [takenCount, packetCount, vendorIoEpsize] at *
    omega

/- The next packet of a page joins the queue. -/
theorem pageSent_packet
    (total lenght : Nat)
    (hWhole : vendorIoEpsize ∣ total)
    (hSome : 0 < lenght)
    (hFits : lenght ≤ vendorIoEpsize) :
    (pageSent m addr nBytes mem d total).withLink
        { (pageSent m addr nBytes mem d total).link with
          bulkOut :=
            (pageSent m addr nBytes mem d
                total).link.bulkOut ++
              [m.bytes (addr.toNat + total) lenght] } =
      pageSent m addr nBytes mem d (total + lenght) := by
  have hPacket :
      Packets.split vendorIoEpsize
          (m.bytes (addr.toNat + total) lenght) =
        [m.bytes (addr.toNat + total) lenght] := by
    apply Packets.split_of_length_le
    · apply List.ne_nil_of_length_pos
      rw [AvrMem.bytes_length]
      exact hSome
    · rw [AvrMem.bytes_length]
      exact hFits
  have hSplit :
      Packets.split vendorIoEpsize
          (m.bytes addr.toNat (total + lenght)) =
        Packets.split vendorIoEpsize
            (m.bytes addr.toNat total) ++
          [m.bytes (addr.toNat + total) lenght] := by
    rw [m.bytes_add, Packets.split_concat (by decide), hPacket]
    rw [AvrMem.bytes_length]
    exact hWhole
  rw [pageSent, pageSent, hSplit]
  rfl

/- A packet goes out if at most one waits behind those taken. -/
theorem bankUsb_bulkOut
    {d : Device τ}
    (hIdle : d.Idle)
    (total lenght : Nat)
    (hWhole : vendorIoEpsize ∣ total)
    (hSome : 0 < lenght)
    (hFits : lenght ≤ vendorIoEpsize)
    (hPart :
      (clamp nBytes.toUInt16).toNat ≤ total + lenght ∨
        vendorIoEpsize ∣ total + lenght) :
    (bankUsb line).bulkOut (pageSent m addr nBytes mem d total)
        (m.bytes (addr.toNat + total) lenght) =
      if packetCount (total + lenght) ≤
          takenCount nBytes + 1 then
        ((0, lenght),
          pageSent m addr nBytes mem d (total + lenght))
      else ((-7, 0), pageSent m addr nBytes mem d total) := by
  have hLeft :
      (settle line
          (pageSent m addr nBytes mem d
            (total + lenght))).link.bulkOut.length =
        packetCount (total + lenght) - takenCount nBytes := by
    rw [settle_pageSent line m addr nBytes mem hIdle _ hPart,
      List.length_drop, Packets.length_split (by decide),
      AvrMem.bytes_length]
    rfl
  simp only [bankUsb]
  rw [pageSent_packet m addr nBytes mem d total lenght hWhole
    hSome hFits, hLeft, AvrMem.bytes_length]
  by_cases hRoom :
      packetCount (total + lenght) ≤ takenCount nBytes + 1
  · rw [if_pos hRoom, if_pos (by omega)]
  · rw [if_neg hRoom, if_neg (by omega)]

/-
  The driver's loop ends well if the firmware takes all its
  packets or all but one, and else behind the packet that is
  left in the bank.  By induction on the turns; between them
  whole packets have gone out.
-/
theorem writeLoop_bank
    {d : Device τ}
    (hIdle : d.Idle)
    (fuel total : Nat)
    (hTurns : nBytes.toNat ≤ total + fuel)
    (hTotal : total ≤ nBytes.toNat)
    (hWhole : vendorIoEpsize ∣ total ∨ total = nBytes.toNat)
    (hSent : packetCount total ≤ takenCount nBytes + 1) :
    writeLoop (bankUsb line) m addr.toNat nBytes.toNat fuel
        total (pageSent m addr nBytes mem d total) =
      if packetCount nBytes.toNat ≤ takenCount nBytes + 1 then
        (0, pageSent m addr nBytes mem d nBytes.toNat)
      else
        (-1,
          pageSent m addr nBytes mem d
            (vendorIoEpsize * (takenCount nBytes + 1))) := by
  have hDone :
      total = nBytes.toNat →
        packetCount nBytes.toNat ≤ takenCount nBytes + 1 := by
    intro hAll
    rw [← hAll]
    exact hSent
  induction fuel generalizing total with
  | zero =>
      have hAll : total = nBytes.toNat := by omega
      have hNot : ¬ total < nBytes.toNat := by omega
      rw [writeLoop, if_neg hNot, if_pos (hDone hAll), hAll]
  | succ fuel ih =>
      rw [writeLoop]
      by_cases hMore : total < nBytes.toNat
      · have hPackets : vendorIoEpsize ∣ total :=
          hWhole.resolve_right (Nat.ne_of_lt hMore)
        have hLow : nBytes.toUInt16.toNat ≤ nBytes.toNat := by
          rw [UInt32.toNat_toUInt16]
          exact Nat.mod_le _ _
        have hClamp := clamp_toUInt16_le nBytes
        have hNext :
            vendorIoEpsize ∣
                total + min (nBytes.toNat - total) 64 ∨
              total + min (nBytes.toNat - total) 64 =
                nBytes.toNat := by
          by_cases hLast : nBytes.toNat - total ≤ 64
          · right
            omega
          · left
            rw [Nat.min_eq_right (by omega)]
            exact Nat.dvd_add hPackets (Nat.dvd_refl 64)
        have hPart :
            (clamp nBytes.toUInt16).toNat ≤
                total + min (nBytes.toNat - total) 64 ∨
              vendorIoEpsize ∣
                total + min (nBytes.toNat - total) 64 := by
          rcases hNext with hDvd | hAll
          · right
            exact hDvd
          · left
            omega
        have hOut :=
          bankUsb_bulkOut line m addr nBytes mem hIdle total
            (min (nBytes.toNat - total) 64) hPackets (by omega)
            (Nat.min_le_right _ _) hPart
        simp only [hMore, if_true, hOut]
        by_cases hRoom :
            packetCount
                (total + min (nBytes.toNat - total) 64) ≤
              takenCount nBytes + 1
        · have hMoved :
              ¬ min (nBytes.toNat - total) 64 = 0 := by
            omega
          simp only [hRoom, if_true, Int.lt_irrefl, if_false,
            hMoved]
          exact ih _ (by omega) (by omega) hNext hRoom
            (by
              intro hAll
              rw [← hAll]
              exact hRoom)
        · have hFailed : ((-7 : Int) < 0) := by decide
          have hNever :
              ¬ packetCount nBytes.toNat ≤
                takenCount nBytes + 1 := by
            simp only [packetCount, vendorIoEpsize] at *
            omega
          have hHere :
              vendorIoEpsize * (takenCount nBytes + 1) =
                total := by
            simp only [packetCount, vendorIoEpsize] at *
            omega
          simp only [hRoom, if_false, hFailed, if_true, hNever,
            hHere]
      · have hAll : total = nBytes.toNat := by omega
        rw [if_neg hMore, if_pos (hDone hAll), hAll]

/- The call, from a free endpoint. -/
theorem pagedWrite_bank
    {d : Device τ}
    (hIdle : d.Idle)
    (hQuiet : d.link.bulkOut = [])
    (hMem : m.pagedType = some mem) :
    lucaxPagedWrite (bankUsb line) m addr nBytes d =
      if nBytes.toNat ≤ 1088 then
        (0, pageSent m addr nBytes mem d nBytes.toNat)
      else
        (-1,
          pageSent m addr nBytes mem d
            (vendorIoEpsize * (takenCount nBytes + 1))) := by
  have hSent :
      (bankUsb line).controlOut d (pageRequest mem nBytes)
          (addressBytes (m.address addr)) =
        (4, pageSent m addr nBytes mem d 0) := by
    have hNothing :
        Packets.split vendorIoEpsize (m.bytes addr.toNat 0) =
          [] := Packets.split_nil
    simp only [bankUsb, wireUsb,
      settle_idle line hIdle.setup]
    rw [pageSent, hNothing, ← hQuiet]
    rfl
  have hLoop :=
    writeLoop_bank line m addr nBytes mem hIdle nBytes.toNat 0
      (by omega) (Nat.zero_le _) (Or.inl (Nat.dvd_zero _))
      (Nat.zero_le _)
  simp only [packetCount_le_succ_iff] at hLoop
  simp only [lucaxPagedWrite, hMem]
  rw [← pageRequest, hSent]
  simp only [show ¬ (4 : Int) < 0 by decide, if_false]
  exact hLoop

end Loop

------------------------------------------------------------
-- Both Sides
------------------------------------------------------------

section Agree

variable
  (m : AvrMem) (addr nBytes : UInt32) {d : Device τ}

/- The device when both sides have finished. -/
def pageFinished (d : Device τ) : Device τ :=
  settle line (lucaxPagedWrite (bankUsb line) m addr nBytes d).2

/-
  The firmware made one call, a page write of the bytes
  `m->buf[addr .. addr + n_bytes)`.
-/
def PagePassed (d : Device τ) : Prop :=
  ∃ (count : UInt16) (loaded : Device τ),
    loaded.calls = d.calls ∧
      pageFinished line m addr nBytes d =
        (loaded.call line
          (.nvmPagedWrite (m.address addr) (.buffer 0) count
            m.pagedMemory)).2 ∧
      (Ptr.buffer 0).bytes loaded.fw.ram count.toNat =
        m.bytes addr.toNat nBytes.toNat

/-
  What a return of 0 says was passed on was, and no packet is
  left for a later page.
-/
structure LoopsAgree (d : Device τ) : Prop where
  passed :
    (lucaxPagedWrite (bankUsb line) m addr nBytes d).1 = 0 →
      PagePassed line m addr nBytes d
  drained :
    (pageFinished line m addr nBytes d).link.bulkOut = []

/- What is left is what the firmware did not ask for. -/
theorem pageSent_drained_iff
    (hIdle : d.Idle)
    (mem : UInt16)
    (sent : Nat)
    (hPart : (clamp nBytes.toUInt16).toNat ≤ sent) :
    (settle line
        (pageSent m addr nBytes mem d
          sent)).link.bulkOut = [] ↔
      packetCount sent ≤ takenCount nBytes := by
  rw [settle_pageSent line m addr nBytes mem hIdle sent
    (Or.inl hPart), List.drop_eq_nil_iff,
    Packets.length_split (by decide), AvrMem.bytes_length]
  rfl

/- The page write the firmware makes. -/
theorem settle_pageSent_call
    (hIdle : d.Idle)
    {mem : UInt16}
    (hMem : m.pagedType = some mem)
    (sent : Nat)
    (hPart : (clamp nBytes.toUInt16).toNat ≤ sent) :
    ∃ loaded : Device τ,
      settle line (pageSent m addr nBytes mem d sent) =
          (loaded.call line
            (.nvmPagedWrite (m.address addr) (.buffer 0)
              (clamp nBytes.toUInt16) m.pagedMemory)).2 ∧
        loaded.calls = d.calls ∧
        loaded.fw.ram =
          Pages.put 0
            ((m.bytes addr.toNat sent).take
              (clamp nBytes.toUInt16).toNat)
            d.fw.ram := by
  have hKind :
      (pageRequest mem nBytes).kind =
        some .pdiNvmWritePage :=
    (outRequest_kind _ _ _ _).trans (by decide)
  have hMemory :
      pagedMemory (pageRequest mem nBytes).wValue.toUInt8 =
        m.pagedMemory := pagedMemory_of_pagedType hMem
  have hSettled :=
    settle_writePage_queue line
      (pageSent_idle m addr hIdle sent) hKind
      (addressBytes (m.address addr))
      (m.bytes addr.toNat sent) []
      (by
        rw [AvrMem.bytes_length]
        exact hPart)
      (by
        rw [List.append_nil]
        rfl)
  rw [endpointRead32LE_addressBytes, hMemory] at hSettled
  refine ⟨_, hSettled, rfl, ?_⟩
  exact storeBytes_ram _ _ _

/- The page is passed on whole exactly if it fits the buffer. -/
theorem pageSent_passed_iff
    (hIdle : d.Idle)
    {mem : UInt16}
    (hMem : m.pagedType = some mem)
    (hOut :
      pageFinished line m addr nBytes d =
        settle line
          (pageSent m addr nBytes mem d nBytes.toNat)) :
    PagePassed line m addr nBytes d ↔
      nBytes.toNat ≤ 1024 := by
  have hLow := clamp_toUInt16_le nBytes
  rcases settle_pageSent_call line m addr nBytes hIdle hMem
      nBytes.toNat hLow with
    ⟨loaded, hSettled, hCalls, hRam⟩
  constructor
  · rintro ⟨count, other, hOther, hEnd, hBytes⟩
    have hLogs :
        (loaded.call line
            (.nvmPagedWrite (m.address addr) (.buffer 0)
              (clamp nBytes.toUInt16) m.pagedMemory)).2.calls =
          (other.call line
            (.nvmPagedWrite (m.address addr) (.buffer 0) count
              m.pagedMemory)).2.calls := by
      rw [← hEnd, hOut, hSettled]
    rw [loaded.call_calls, other.call_calls, hCalls, hOther]
      at hLogs
    have hSame := List.append_cancel_left hLogs
    have hCount : clamp nBytes.toUInt16 = count := by
      have hCall :=
        congrArg Prod.fst (List.cons.inj hSame).1
      exact (Call.nvmPagedWrite.inj hCall).2.2.1
    have hLength := congrArg List.length hBytes
    rw [Ptr.bytes_length, AvrMem.bytes_length, ← hCount]
      at hLength
    rw [← hLength]
    exact clamp_le _
  · intro hFits
    rcases clamp_of_le hFits with ⟨hClamp, hExact⟩
    refine ⟨clamp nBytes.toUInt16, loaded, hCalls,
      hOut.trans hSettled, ?_⟩
    have hBack :=
      Pages.read_put 0 (m.bytes addr.toNat nBytes.toNat)
        d.fw.ram
    rw [AvrMem.bytes_length] at hBack
    rw [hRam, Ptr.bytes_buffer, hClamp, hExact,
      List.take_of_length_le
        (Nat.le_of_eq (m.bytes_length _ _))]
    exact hBack

/-
  The loops agree exactly on pages the buffer of the firmware
  holds.  A longer page leaves a packet in the bank, and with
  up to 1088 bytes the driver does not notice.
-/
theorem loopsAgree_iff
    (hIdle : d.Idle)
    (hQuiet : d.link.bulkOut = [])
    (hAccepted : m.pagedType ≠ none) :
    (LoopsAgree line m addr nBytes d ↔
        nBytes.toNat ≤ 1024) ∧
      (((lucaxPagedWrite (bankUsb line) m addr nBytes d).1 =
            0 →
          LoopsAgree line m addr nBytes d) ↔
        ¬ (1024 < nBytes.toNat ∧ nBytes.toNat ≤ 1088)) := by
  cases hMem : m.pagedType with
  | none => exact absurd hMem hAccepted
  | some mem =>
      have hWrite :=
        pagedWrite_bank line m addr nBytes mem hIdle hQuiet
          hMem
      have hClamp := clamp_toUInt16_le nBytes
      by_cases hGone : nBytes.toNat ≤ 1088
      · rw [if_pos hGone] at hWrite
        have hOut :
            pageFinished line m addr nBytes d =
              settle line
                (pageSent m addr nBytes mem d
                  nBytes.toNat) := by
          rw [pageFinished, hWrite]
        have hZero :
            (lucaxPagedWrite (bankUsb line) m addr nBytes
              d).1 = 0 := by
          rw [hWrite]
        have hPassed :=
          pageSent_passed_iff line m addr nBytes hIdle hMem
            hOut
        have hAgree :
            LoopsAgree line m addr nBytes d ↔
              nBytes.toNat ≤ 1024 := by
          constructor
          · intro hBoth
            exact hPassed.mp (hBoth.passed hZero)
          · intro hFits
            refine ⟨fun _ => hPassed.mpr hFits, ?_⟩
            rw [hOut, pageSent_drained_iff line m addr nBytes
              hIdle mem _ hClamp, packetCount_le_taken_iff]
            exact hFits
        refine ⟨hAgree, ?_⟩
        constructor
        · rintro hWhen ⟨hLong, _hShort⟩
          have hFits := hAgree.mp (hWhen hZero)
          omega
        · intro hNot _hZero
          apply hAgree.mpr
          omega
      · rw [if_neg hGone] at hWrite
        have hOut :
            pageFinished line m addr nBytes d =
              settle line
                (pageSent m addr nBytes mem d
                  (vendorIoEpsize *
                    (takenCount nBytes + 1))) := by
          rw [pageFinished, hWrite]
        have hCode :
            ¬ (lucaxPagedWrite (bankUsb line) m addr nBytes
              d).1 = 0 := by
          rw [hWrite]
          exact show ¬ (-1 : Int) = 0 by decide
        have hThere :
            (clamp nBytes.toUInt16).toNat ≤
              vendorIoEpsize * (takenCount nBytes + 1) := by
          simp only [takenCount, packetCount, vendorIoEpsize]
          omega
        have hLeft :
            ¬ packetCount
                (vendorIoEpsize * (takenCount nBytes + 1)) ≤
              takenCount nBytes := by
          simp only [packetCount, vendorIoEpsize]
          omega
        constructor
        · constructor
          · intro hBoth
            have hDrained := hBoth.drained
            rw [hOut, pageSent_drained_iff line m addr nBytes
              hIdle mem _ hThere] at hDrained
            exact absurd hDrained hLeft
          · intro hFits
            omega
        · constructor
          · intro _hWhen hRange
            omega
          · intro _hNot hZero
            exact absurd hZero hCode

end Agree

/- A session over a target that answers one status read. -/
def bankDevice : Device (List (Option UInt8)) :=
  ((HostCall.init true 250 0 0).onWire scripted
    (World.powerOn [some 0x02] Wire.quiet)).2

theorem bankDevice_idle : bankDevice.Idle :=
  HostCall.onWire_idle scripted (World.idle_powerOn _) _

/- A flash whose pages take 17 packets. -/
def longPages : AvrMem where
  desc := flashDesc
  offset := 0x00800000
  buf := fun i => UInt8.ofNat i

theorem loopsAgree_iff_longPages :
    (LoopsAgree scripted longPages 0 1088 bankDevice ↔
        (1088 : UInt32).toNat ≤ 1024) ∧
      (((lucaxPagedWrite (bankUsb scripted) longPages 0 1088
            bankDevice).1 = 0 →
          LoopsAgree scripted longPages 0 1088 bankDevice) ↔
        ¬ (1024 < (1088 : UInt32).toNat ∧
          (1088 : UInt32).toNat ≤ 1088)) :=
  loopsAgree_iff scripted longPages 0 1088 bankDevice_idle
    (by decide) (by decide)

/-
  The driver returns 0 for such a page; the firmware passed
  on 1024 bytes of it and the last packet is left.
-/
theorem not_loopsAgree_longPages :
    let d := bankDevice
    (lucaxPagedWrite (bankUsb scripted) longPages 0 1088 d).1 =
        0 ∧
      ¬ PagePassed scripted longPages 0 1088 d ∧
      (pageFinished scripted longPages 0 1088
        d).link.bulkOut ≠ [] := by
  intro d
  have hMem : longPages.pagedType = some 0 := by decide
  have hWrite :=
    pagedWrite_bank scripted longPages 0 1088 0
      bankDevice_idle (by decide) hMem
  rw [if_pos (by decide)] at hWrite
  have hOut :
      pageFinished scripted longPages 0 1088 d =
        settle scripted
          (pageSent longPages 0 1088 0 d 1088) := by
    rw [pageFinished, hWrite]
    rfl
  refine ⟨congrArg Prod.fst hWrite, ?_, ?_⟩
  · rw [pageSent_passed_iff scripted longPages 0 1088
      bankDevice_idle hMem hOut]
    decide
  · rw [hOut]
    intro hDrained
    rw [pageSent_drained_iff scripted longPages 0 1088
      bankDevice_idle 0 1088 (by decide)] at hDrained
    exact absurd hDrained (by decide)

end Lucax
