import Lucax.Host.Exchange
import Lucax.Target.Direct

/-
  The paged read and the byte read give the same bytes.

  Both return what the target holds, so either stands in for
  the other.  Flash and fuses only answer while the command
  register selects a read; data space always does.

  Key definitions include:
    * `Storage`, `Storage.readable`
    * `World.Session`
    * `byteRead`

  Main declarations:
    * `readAnswer_holds`
    * `byteRead_holds`
    * `pagedLoad_agrees_byteRead`
-/

------------------------------------------------------------
-- Storage
------------------------------------------------------------

namespace Lucax

open Simulation

variable {β : Type}

/- What two targets hold at every place but one register. -/
def SameBytes (held held' : UInt32 → UInt8) : Prop :=
  ∀ address, address ≠ nvmCmdReg →
    held' address = held address

/-
  A bus whose loads answer with what `held` says and change
  nothing there, and on which a store to the command register
  changes that register only.
-/
structure Storage
    (bus : Bus β)
    (held : β → UInt32 → UInt8) : Prop where
  load :
    ∀ b address,
      pdiMemoryBase ≤ address ∨
          held b nvmCmdReg = cmdReadNvm →
        (bus.load b address).1 = some (held b address)
  kept :
    ∀ b address,
      held (bus.load b address).2 = held b
  command :
    ∀ b c, held (bus.store b nvmCmdReg c) nvmCmdReg = c
  others :
    ∀ b c,
      SameBytes (held b) (held (bus.store b nvmCmdReg c))

/- The bytes held at `n` consecutive addresses. -/
def heldBytes
    (held : UInt32 → UInt8) :
    Nat → UInt32 → List UInt8
| 0, _ => []
| n + 1, address =>
    held address :: heldBytes held n (address + 1)

@[simp] theorem heldBytes_length
    (held : UInt32 → UInt8)
    (n : Nat)
    (address : UInt32) :
    (heldBytes held n address).length = n := by
  induction n generalizing address with
  | zero => rfl
  | succ n ih =>
      rw [heldBytes, List.length_cons, ih]

theorem heldBytes_getElem?
    (held : UInt32 → UInt8)
    {n i : Nat}
    (hi : i < n)
    (address : UInt32) :
    (heldBytes held n address)[i]? =
      some (held (address + UInt32.ofNat i)) := by
  induction n generalizing address i with
  | zero => omega
  | succ n ih =>
      rw [heldBytes]
      cases i with
      | zero =>
          rw [List.getElem?_cons_zero]
          simp
      | succ i =>
          have hNext : i < n := by omega
          rw [List.getElem?_cons_succ, ih hNext,
            address_ofNat_succ]

namespace SameBytes

variable {held held' held'' : UInt32 → UInt8}

theorem refl : SameBytes held held :=
  fun _ _ => rfl

theorem trans
    (hFirst : SameBytes held held')
    (hSecond : SameBytes held' held'') :
    SameBytes held held'' := by
  intro address hOther
  rw [hSecond address hOther, hFirst address hOther]

theorem of_eq
    (hSame : held' = held) :
    SameBytes held held' := by
  subst hSame
  exact refl

end SameBytes

------------------------------------------------------------
-- Direct Reads
------------------------------------------------------------

section Direct

variable {bus : Bus β} {held : β → UInt32 → UInt8}

/- The read command is selected and nothing else changed. -/
theorem Storage.readCommand
    (hStorage : Storage bus held)
    (k : Direct β) :
    let selected := Direct.command bus cmdReadNvm k
    held selected.bus nvmCmdReg = cmdReadNvm ∧
      SameBytes (held k.bus) (held selected.bus) :=
  ⟨hStorage.command k.bus cmdReadNvm,
    hStorage.others k.bus cmdReadNvm⟩

/- One load. -/
theorem Storage.readByte
    (hStorage : Storage bus held)
    (k : Direct β)
    (address : UInt32)
    (hAnswers :
      pdiMemoryBase ≤ address ∨
        held k.bus nvmCmdReg = cmdReadNvm) :
    let out := Direct.readByte bus address k
    out.1 = (.noError, held k.bus address) ∧
      held out.2.bus = held k.bus := by
  have hByte := hStorage.load k.bus address hAnswers
  simp only [Direct.readByte, Direct.load, hByte]
  exact ⟨trivial, hStorage.kept k.bus address⟩

/-
  A run of loads puts what is held into memory.  By induction
  on its length; a load leaves what is held as it was.
-/
theorem Storage.loads
    (hStorage : Storage bus held)
    (n : Nat)
    (address : UInt32)
    (data : Nat)
    (k : Direct β)
    (hAnswers :
      ∀ i < n,
        pdiMemoryBase ≤ address + UInt32.ofNat i ∨
          held k.bus nvmCmdReg = cmdReadNvm) :
    let out := Direct.loads bus n address data k
    out.1 = .noError ∧
      out.2.ram =
        Pages.put data (heldBytes (held k.bus) n address)
          k.ram ∧
      held out.2.bus = held k.bus := by
  induction n generalizing address data k with
  | zero =>
      refine ⟨rfl, ?_, rfl⟩
      rw [heldBytes, Pages.put_nil]
      rfl
  | succ n ih =>
      have hFirst := hAnswers 0 (Nat.succ_pos n)
      have hHere : address + UInt32.ofNat 0 = address := by
        simp
      rw [hHere] at hFirst
      have hByte := hStorage.load k.bus address hFirst
      have hKept := hStorage.kept k.bus address
      rcases ih (address + 1) (data + 1)
          (Direct.put data (held k.bus address)
            (Direct.load bus address k).2)
          (by
            intro i hi
            have hNext := hAnswers (i + 1) (by omega)
            rw [address_ofNat_succ] at hNext
            have hSelected :
                held
                    (Direct.put data (held k.bus address)
                      (Direct.load bus address k).2).bus
                    nvmCmdReg =
                  held k.bus nvmCmdReg :=
              congrFun hKept nvmCmdReg
            rw [hSelected]
            exact hNext) with
        ⟨hResult, hRam, hBus⟩
      have hLoads :
          Direct.loads bus (n + 1) address data k =
            Direct.loads bus n (address + 1) (data + 1)
              (Direct.put data (held k.bus address)
                (Direct.load bus address k).2) := by
        simp only [Direct.loads, Direct.load, hByte]
      simp only [hLoads]
      refine ⟨hResult, ?_, hBus.trans hKept⟩
      have hTail :
          heldBytes
              (held
                (Direct.put data (held k.bus address)
                  (Direct.load bus address k).2).bus)
              n (address + 1) =
            heldBytes (held k.bus) n (address + 1) :=
        congrArg (fun f => heldBytes f n (address + 1)) hKept
      rw [hRam, hTail, heldBytes, Pages.put_cons]
      rfl

end Direct

------------------------------------------------------------
-- Reads of a Session
------------------------------------------------------------

/- An open session between two calls. -/
structure World.Session (d : Device (Decoder β)) : Prop where
  idle : d.Idle
  open_ : d.fw.pdiOn = true
  boundary : d.fw.target.AtBoundary

/- What the target behind a device holds. -/
def World.holds
    (held : β → UInt32 → UInt8)
    (d : Device (Decoder β)) : UInt32 → UInt8 :=
  held d.fw.target.bus

/-
  `lucax_read_byte` with what the firmware still does for it.
-/
def byteRead
    (bus : Bus β)
    (m : AvrMem)
    (addr : UInt32)
    (value : UInt8)
    (d : Device (Decoder β)) :
    (Int × UInt8) × Device (Decoder β) :=
  let out :=
    lucaxReadByte (wireUsb (Decoder.line bus)) m addr value d
  (out.1, settle (Decoder.line bus) out.2)

section Session

variable
  {bus : Bus β} {held : β → UInt32 → UInt8}
  {d : Device (Decoder β)}

theorem World.Session.started
    (hSession : d.Session)
    (r : Request)
    (data : List UInt8) :
    (started r data d).Session :=
  ⟨started_idle hSession.idle r data, hSession.open_,
    hSession.boundary⟩

theorem World.Session.touch
    (hSession : d.Session)
    (indices : List Nat) :
    (d.withFw (d.fw.touch indices)).Session :=
  ⟨hSession.idle.withFw _, hSession.open_, hSession.boundary⟩

theorem World.Session.clearControlIn
    (hSession : d.Session)
    (packet : List UInt8) :
    (clearControlIn wireLink packet d).Session :=
  ⟨hSession.idle.clearControlIn packet, hSession.open_,
    hSession.boundary⟩

/- A driver call in a session is the accesses it stands for. -/
theorem World.Session.call
    (bus : Bus β)
    (hSession : d.Session)
    {c : Call}
    (hCount : c.CountPos) :
    let out := d.call (Decoder.line bus) c
    let direct := Direct.call bus c d.fw.direct
    out.1 = direct.1.2 ∧
      out.2.fw.ram = direct.2.ram ∧
      out.2.fw.target.bus = direct.2.bus ∧
      out.2.Session := by
  rcases Reflects.call bus hCount d.fw d.fw.direct
      (reflects_direct hSession.open_ hSession.boundary) with
    ⟨hResult, hAfter⟩
  exact ⟨congrArg Prod.snd hResult, hAfter.ram, hAfter.bus,
    hSession.idle.call _ c, hAfter.open_, hAfter.boundary⟩

/- `nvm_read_byte` returns what the target holds. -/
theorem nvmReadByte_holds
    (hStorage : Storage bus held)
    (hSession : d.Session)
    (address : UInt32) :
    let out :=
      d.call (Decoder.line bus) (.nvmReadByte address)
    (address ≠ nvmCmdReg →
        out.1 = d.holds held address) ∧
      out.2.Session ∧
      SameBytes (d.holds held) (out.2.holds held) := by
  rcases hSession.call bus
      (c := .nvmReadByte address) trivial with
    ⟨hValue, _hRam, hBus, hAfter⟩
  rcases hStorage.readCommand d.fw.direct with
    ⟨hSelected, hSame⟩
  rcases hStorage.readByte
      (Direct.command bus cmdReadNvm d.fw.direct)
      address (Or.inr hSelected) with
    ⟨hByte, hKept⟩
  simp only [Direct.call, hByte] at hValue hBus
  refine ⟨?_, hAfter, ?_⟩
  · intro hOther
    exact hValue.trans (hSame address hOther)
  · rw [World.holds, World.holds, hBus, hKept]
    exact hSame

/- `nvm_read_bytes` leaves it in the buffer. -/
theorem nvmReadBytes_holds
    (hStorage : Storage bus held)
    (hSession : d.Session)
    (address : UInt32)
    {count : UInt16}
    (hSome : count ≠ 0) :
    let out :=
      (d.call (Decoder.line bus)
        (.nvmReadBytes address 0 count)).2
    (∀ i < count.toNat,
        address + UInt32.ofNat i ≠ nvmCmdReg →
          ((Ptr.buffer 0).bytes out.fw.ram count.toNat)[i]? =
            some (d.holds held (address + UInt32.ofNat i))) ∧
      out.Session ∧
      SameBytes (d.holds held) (out.holds held) := by
  rcases hSession.call bus
      (c := .nvmReadBytes address 0 count) hSome with
    ⟨_hValue, hRam, hBus, hAfter⟩
  rcases hStorage.readCommand d.fw.direct with
    ⟨hSelected, hSame⟩
  rcases hStorage.loads count.toNat address 0
      (Direct.command bus cmdReadNvm d.fw.direct)
      (fun _ _ => Or.inr hSelected) with
    ⟨_hResult, hMemory, hKept⟩
  simp only [Direct.call, hMemory] at hRam hBus
  refine ⟨?_, hAfter, ?_⟩
  · intro i hi hOther
    have hBack :=
      Pages.read_put 0
        (heldBytes
          (held (Direct.command bus cmdReadNvm
            d.fw.direct).bus)
          count.toNat address)
        (Direct.command bus cmdReadNvm d.fw.direct).ram
    rw [heldBytes_length] at hBack
    rw [hRam, Ptr.bytes_buffer, hBack, heldBytes_getElem? _ hi, hSame _ hOther]
    rfl
  · rw [World.holds, World.holds, hBus, hKept]
    exact hSame

/- `pdi_read_bytes` of one byte of data space. -/
theorem pdiReadBytes_holds
    (hStorage : Storage bus held)
    (hSession : d.Session)
    {address : UInt32}
    (hData : pdiMemoryBase ≤ address) :
    let out :=
      (d.call (Decoder.line bus)
        (.pdiReadBytes address 0 1)).2
    out.fw.ram 0 = d.holds held address ∧
      out.Session ∧
      SameBytes (d.holds held) (out.holds held) := by
  rcases hSession.call bus
      (c := .pdiReadBytes address 0 1)
      (show (1 : UInt16) ≠ 0 by decide) with
    ⟨_hValue, hRam, hBus, hAfter⟩
  have hOnly : ∀ i < 1, address + UInt32.ofNat i = address := by
    intro i hi
    have hZero : i = 0 := by omega
    subst hZero
    simp
  rcases hStorage.loads 1 address 0 d.fw.direct
      (by
        intro i hi
        rw [hOnly i hi]
        exact Or.inl hData) with
    ⟨_hResult, hMemory, hKept⟩
  have hOne : (1 : UInt16).toNat = 1 := rfl
  simp only [Direct.call, hOne, hMemory] at hRam hBus
  refine ⟨?_, hAfter, ?_⟩
  · rw [hRam]
    rfl
  · rw [World.holds, World.holds, hBus]
    exact SameBytes.of_eq hKept

/- What a read request is answered with. -/
theorem readAnswer_holds
    (hStorage : Storage bus held)
    (hSession : d.Session)
    (address : UInt32)
    {count : UInt16}
    (hSome : count ≠ 0)
    (hClamp : clamp count = count) :
    let answer :=
      readAnswer (Decoder.line bus) address count d
    (∀ i < count.toNat,
        address + UInt32.ofNat i ≠ nvmCmdReg →
          answer.1[i]? =
            some (d.holds held (address + UInt32.ofNat i))) ∧
      answer.2.Session ∧
      SameBytes (d.holds held) (answer.2.holds held) := by
  unfold readAnswer
  by_cases hOne : count = 1
  · subst hOne
    have hHere : address + UInt32.ofNat 0 = address := by
      simp
    simp only [if_true]
    rcases nvmReadByte_holds hStorage hSession address with
      ⟨hValue, hAfter, hSame⟩
    refine ⟨?_, hAfter, hSame⟩
    intro i hi hOther
    have hZero : i = 0 := Nat.lt_one_iff.mp hi
    subst hZero
    rw [hHere] at hOther ⊢
    rw [hValue hOther]
    rfl
  · rcases nvmReadBytes_holds hStorage hSession address hSome
      with ⟨hBytes, hAfter, hSame⟩
    simp only [hOne, if_false, hClamp]
    exact ⟨hBytes, hAfter.touch _, hSame⟩

------------------------------------------------------------
-- Both Ways to Read
------------------------------------------------------------

/- A raw address is in data space. -/
theorem isRawAddress_le
    {address : UInt32}
    (hRaw : isRawAddress address = true) :
    pdiMemoryBase ≤ address := by
  simp only [isRawAddress, Bool.decide_and,
    Bool.and_eq_true, decide_eq_true_eq] at hRaw
  exact hRaw.1

/- A byte read returns what the target holds. -/
theorem byteRead_holds
    (hStorage : Storage bus held)
    (hSession : d.Session)
    (m : AvrMem)
    (addr : UInt32)
    (value : UInt8)
    (hOther : m.address addr ≠ nvmCmdReg) :
    let out := byteRead bus m addr value d
    out.1 = (0, d.holds held (m.address addr)) ∧
      out.2.Session ∧
      SameBytes (d.holds held) (out.2.holds held) := by
  cases hRaw : isRawAddress (m.address addr) with
  | true =>
      rcases readByte_wire_raw (Decoder.line bus) hSession.idle
          m addr value hRaw with
        ⟨hOut, hSettled⟩
      rcases pdiReadBytes_holds hStorage
          (hSession.started (rawRequest (m.address addr)) [])
          (isRawAddress_le hRaw) with
        ⟨hByte, hAfter, hSame⟩
      simp only [byteRead, hOut, hSettled]
      refine ⟨?_, ?_, hSame⟩
      · rw [hByte]
        rfl
      · exact (hAfter.touch _).clearControlIn _
  | false =>
      rcases readByte_wire (Decoder.line bus) hSession.idle
          m addr value hRaw with
        ⟨hOut, hSettled⟩
      rcases nvmReadByte_holds hStorage
          (hSession.started byteRequest
            (addressBytes (m.address addr)))
          (m.address addr) with
        ⟨hByte, hAfter, hSame⟩
      simp only [byteRead, hOut, hSettled]
      refine ⟨?_, hAfter, hSame⟩
      rw [hByte hOther]
      rfl

/- A paged read stores what the target holds. -/
theorem pagedLoad_holds
    (hStorage : Storage bus held)
    (hSession : d.Session)
    (m : AvrMem)
    (baseaddr nBytes : UInt32)
    (hSome : 0 < nBytes.toNat)
    (hFits : nBytes.toNat ≤ 1024) :
    let line := Decoder.line bus
    let out :=
      lucaxPagedLoad (wireUsb line) m baseaddr nBytes d
    out.1.1 = 0 ∧
      (∀ i < nBytes.toNat,
        m.address baseaddr + UInt32.ofNat i ≠ nvmCmdReg →
          out.1.2.buf (baseaddr.toNat + i) =
            d.holds held
              (m.address baseaddr + UInt32.ofNat i)) ∧
      (settle line out.2).Session ∧
      SameBytes (d.holds held)
        ((settle line out.2).holds held) := by
  intro line out
  rcases pagedLoad_wire line hSession.idle m baseaddr nBytes
    with ⟨hOut, hSettled⟩
  rcases clamp_of_le hFits with ⟨hClamp, hCount⟩
  have hNonzero : nBytes.toUInt16 ≠ 0 := by
    intro hZero
    rw [hZero] at hCount
    have hNone : (0 : UInt16).toNat = 0 := rfl
    omega
  rcases readAnswer_holds hStorage
      (hSession.started (loadRequest nBytes)
        (addressBytes (m.address baseaddr)))
      (m.address baseaddr) hNonzero hClamp with
    ⟨hBytes, hAfter, hSame⟩
  have hLength :=
    readAnswer_length line (m.address baseaddr)
      nBytes.toUInt16
      (started (loadRequest nBytes)
        (addressBytes (m.address baseaddr)) d)
  rw [hClamp, hCount] at hLength
  rw [hCount] at hBytes
  simp only [out, hSettled]
  rw [hOut]
  refine ⟨if_pos hLength, ?_, hAfter, hSame⟩
  intro i hi hOther
  rw [m.store_buf]
  exact Pages.put_inside _ _ (hBytes i hi hOther)

end Session

/- The address of a byte of a page. -/
theorem AvrMem.address_add
    (m : AvrMem)
    (baseaddr k : UInt32) :
    m.address (baseaddr + k) = m.address baseaddr + k := by
  rw [AvrMem.address, AvrMem.address, UInt32.add_assoc]

/-
  In a session with a target that answers every read, a paged
  read succeeds, and byte reads of the page in any order, on
  any device that holds the same bytes, give what it stored.
  Neither changes what the target holds outside the command
  register.  Addresses past the last one go on from 0 on both
  ways.
-/
theorem pagedLoad_agrees_byteRead
    {bus : Bus β}
    {held : β → UInt32 → UInt8}
    (hStorage : Storage bus held)
    {d : Device (Decoder β)}
    (hSession : d.Session)
    (m : AvrMem)
    (baseaddr nBytes : UInt32)
    (hSome : 0 < nBytes.toNat)
    (hFits : nBytes.toNat ≤ 1024)
    (hOther :
      ∀ i < nBytes.toNat,
        m.address (baseaddr + UInt32.ofNat i) ≠ nvmCmdReg) :
    let line := Decoder.line bus
    let loaded :=
      lucaxPagedLoad (wireUsb line) m baseaddr nBytes d
    let after := settle line loaded.2
    loaded.1.1 = 0 ∧
      after.Session ∧
      SameBytes (d.holds held) (after.holds held) ∧
      ∀ start : Device (Decoder β),
        start.Session →
        SameBytes (d.holds held) (start.holds held) →
        ∀ (value : Nat → UInt8) (places : List Nat),
          (∀ i ∈ places, i < nBytes.toNat) →
          let run :=
            runAll
              (fun i =>
                byteRead bus m (baseaddr + UInt32.ofNat i)
                  (value i))
              places start
          run.1 =
              places.map
                (fun i =>
                  (0, loaded.1.2.buf (baseaddr.toNat + i))) ∧
            run.2.Session ∧
            SameBytes (d.holds held) (run.2.holds held) := by
  intro line loaded after
  rcases pagedLoad_holds hStorage hSession m baseaddr nBytes
      hSome hFits with
    ⟨hCode, hStored, hAfter, hSame⟩
  refine ⟨hCode, hAfter, hSame, ?_⟩
  intro start hStart hHolds value places hPlaces
  induction places generalizing start with
  | nil => exact ⟨rfl, hStart, hHolds⟩
  | cons i places ih =>
      have hi := hPlaces i List.mem_cons_self
      have hHere := hOther i hi
      rcases byteRead_holds hStorage hStart m
          (baseaddr + UInt32.ofNat i) (value i) hHere with
        ⟨hByte, hRead, hKept⟩
      rw [m.address_add] at hHere
      have hValue :
          start.holds held
              (m.address (baseaddr + UInt32.ofNat i)) =
            loaded.1.2.buf (baseaddr.toNat + i) := by
        rw [m.address_add, hHolds _ hHere]
        exact (hStored i hi hHere).symm
      rcases ih _ hRead (hHolds.trans hKept)
          (fun j hj => hPlaces j (List.mem_cons_of_mem _ hj))
        with ⟨hValues, hEnd, hLeft⟩
      simp only [runAll_cons, hByte, hValue, hValues]
      exact ⟨rfl, hEnd, hLeft⟩

/-
  A target that holds a byte at each address and answers with
  0xFF below data space while no read is selected.
-/
def mappedBus : Bus (UInt32 → UInt8) where
  load held address :=
    (if pdiMemoryBase ≤ address ∨
          held nvmCmdReg = cmdReadNvm then
        some (held address)
      else some 0xFF,
      held)
  store held address data :=
    fun other => if other = address then data else held other
  loadControl held _ := (some 0x02, held)
  storeControl held _ _ := held
  key held _ := held

theorem mappedBus_storage :
    Storage mappedBus (fun held => held) where
  load := by
    intro held address hAnswers
    exact if_pos hAnswers
  kept := by
    intro held address
    rfl
  command := by
    intro held c
    simp [mappedBus]
  others := by
    intro held c address hOther
    exact if_neg hOther

/- Each place holds the low byte of its address. -/
def mappedDevice : Device (Decoder (UInt32 → UInt8)) :=
  ((HostCall.init true 250 0 0).onWire
    (Decoder.line mappedBus)
    (World.powerOn (Decoder.initial UInt32.toUInt8)
      Wire.quiet)).2

theorem mappedDevice_session : mappedDevice.Session where
  idle :=
    HostCall.onWire_idle (Decoder.line mappedBus)
      (World.idle_powerOn _) _
  open_ := by decide
  boundary := by decide

/- Two bytes on each side of the switch address. -/
def edgeMem : AvrMem where
  desc := flashDesc
  offset := 0x00FFFFFE
  buf := fun _ => 0

theorem pagedLoad_agrees_byteRead_edge :
    let line := Decoder.line mappedBus
    let loaded :=
      lucaxPagedLoad (wireUsb line) edgeMem 0 4 mappedDevice
    loaded.1.1 = 0 ∧
      (runAll
        (fun i =>
          byteRead mappedBus edgeMem (0 + UInt32.ofNat i) 0xAA)
        [3, 1, 0, 2] (settle line loaded.2)).1 =
        [3, 1, 0, 2].map
          (fun i => (0, loaded.1.2.buf (0 + i))) := by
  have hOther :
      ∀ i < (4 : UInt32).toNat,
        edgeMem.address (0 + UInt32.ofNat i) ≠ nvmCmdReg := by
    decide
  rcases pagedLoad_agrees_byteRead mappedBus_storage
      mappedDevice_session edgeMem 0 4 (by decide) (by decide)
      hOther with
    ⟨hCode, hAfter, hSame, hReads⟩
  refine ⟨hCode, ?_⟩
  exact
    (hReads _ hAfter hSame (fun _ => 0xAA) [3, 1, 0, 2]
      (by decide)).1

end Lucax
