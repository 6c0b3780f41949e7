import Lucax.Driver.Session
import Lucax.Host.Requests
import Lucax.Target.Chip

/-
  Page transfers of the driver, through the firmware and the
  PDI, as operations on the memory of the part.

  Key definitions include:
    * `World.Online`
    * `Transfer`, `Transfer.onWire`, `Transfer.onMemory`
    * `Transfer.Within`

  Main declarations:
    * `init_online`
    * `readAnswer_chip`, `nvmPagedWrite_chip`
    * `transfers_refine_memory`
-/

------------------------------------------------------------
-- Opening the Session
------------------------------------------------------------

namespace Lucax

open Simulation

/- The preamble of `pdi_init` enables the NVM interface. -/
theorem frames_init_chip
    (p : Part)
    {t : Decoder Chip}
    (hBoundary : t.AtBoundary) :
    ∃ log,
      (Decoder.line p.bus).frames t initFrames =
        { t with bus := t.bus.enable true, log := log } := by
  rcases t with ⟨phase, pointer, repetitions, chip, log⟩
  rcases hBoundary with ⟨hPhase, hReps⟩
  simp only at hPhase hReps
  subst hPhase hReps
  exact ⟨_, rfl⟩

/- The first poll finds it enabled. -/
theorem pollNvmen_chip
    (p : Part)
    (n : Nat)
    {s : Fw (Decoder Chip)}
    (hBoundary : s.target.AtBoundary)
    (hEnabled : s.target.bus.enabled = true) :
    ∃ after,
      pollNvmen (Decoder.line p.bus) (n + 1) s =
          (.noError, after) ∧
        after.target.AtBoundary ∧
        after.target.bus = s.target.bus := by
  have hFrame :
      (Decoder.line p.bus).frame s.target 0x80 =
        { s.target with phase := .loadingControl 0 } := by
    simp only [Decoder.line, Decoder.frame, hBoundary.1]
    rfl
  rcases readByte_eq (Decoder.line p.bus)
      (sendByte (Decoder.line p.bus)
        (pdiLoadControlReg ||| pdiStatusReg) s) with
    ⟨after, hRead, hTarget, _hOn, _hRam⟩
  have hOpcode :
      pdiLoadControlReg ||| pdiStatusReg = 0x80 := rfl
  rw [sendByte_target, hOpcode, hFrame] at hRead hTarget
  have hAnswer :
      ((Decoder.line p.bus).reply
          { s.target with phase := .loadingControl 0 }).1 =
        some ((1 : UInt8) <<< nvmen) := by
    simp only [Decoder.line, Decoder.reply, Part.bus,
      hEnabled, if_true]
  have hSet :
      (1 : UInt8) <<< nvmen &&& (1 <<< nvmen) ≠ 0 := by
    decide
  refine ⟨after, ?_, ?_, ?_⟩
  · rw [pollNvmen, hOpcode, hRead, hAnswer]
    exact if_pos hSet
  · rw [hTarget]
    exact ⟨rfl, hBoundary.2⟩
  · rw [hTarget]
    rfl

/-
  Opening a session on a part at rest succeeds and leaves its
  memories as they were.
-/
theorem pdiInit_chip
    (p : Part)
    (freqKhz : UInt16)
    {s : Fw (Decoder Chip)}
    (hBoundary : s.target.AtBoundary) :
    let out := pdiInit (Decoder.line p.bus) freqKhz s
    out.2.pdiOn = true ∧
      out.2.target.AtBoundary ∧
      out.2.target.bus = s.target.bus.enable true := by
  rcases pdiInit_eq (Decoder.line p.bus) freqKhz s with
    ⟨polling, _hOn, hTarget, _hTouched, hInit⟩
  rcases frames_init_chip p hBoundary with ⟨log, hFrames⟩
  rw [hFrames] at hTarget
  have hPolling : polling.target.AtBoundary := by
    rw [hTarget]
    exact hBoundary
  have hEnabled : polling.target.bus.enabled = true := by
    rw [hTarget]
    rfl
  rcases pollNvmen_chip p 199 hPolling hEnabled with
    ⟨after, hPoll, hAfter, hBus⟩
  simp only [hInit, hPoll]
  refine ⟨trivial, hAfter, ?_⟩
  rw [hBus, hTarget]

/- Nothing is under way, neither on the cable nor inside. -/
structure World.AtRest (d : Device (Decoder Chip)) : Prop where
  idle : d.Idle
  quiet : d.link.bulkOut = []
  boundary : d.fw.target.AtBoundary
  busy : d.fw.target.bus.busy = 0

/- An open session between two calls. -/
structure World.Online (d : Device (Decoder Chip)) : Prop where
  idle : d.Idle
  quiet : d.link.bulkOut = []
  open_ : d.fw.pdiOn = true
  boundary : d.fw.target.AtBoundary
  ready : d.fw.target.bus.Ready

/- The memories of the part behind a device. -/
def World.content (d : Device (Decoder Chip)) : Nat → UInt8 :=
  d.fw.target.bus.content

theorem World.atRest_powerOn
    {chip : Chip}
    (hBusy : chip.busy = 0) :
    (World.powerOn (Decoder.initial chip)
      Wire.quiet).AtRest where
  idle := World.idle_powerOn _
  quiet := rfl
  boundary := ⟨rfl, rfl⟩
  busy := hBusy

/- A successful `lucax_init` on a device at rest. -/
theorem init_online
    (p : Part)
    {d : Device (Decoder Chip)}
    (hRest : d.AtRest)
    (hasPdi : Bool)
    (ioFrequency : Int)
    (info status : UInt8)
    (hZero :
      ((HostCall.init hasPdi ioFrequency info status).onWire
        (Decoder.line p.bus) d).1 = 0) :
    let after :=
      ((HostCall.init hasPdi ioFrequency info status).onWire
        (Decoder.line p.bus) d).2
    after.Online ∧ after.content = d.content := by
  have hIdle :=
    HostCall.init_idle (Decoder.line p.bus) hRest.idle hasPdi
      ioFrequency info status
  rcases init_wire (Decoder.line p.bus) hRest.idle hasPdi
      ioFrequency info status hZero with
    ⟨freqKhz, hFw, hOut⟩
  rcases pdiInit_chip p freqKhz hRest.boundary with
    ⟨hOpen, hBoundary, hBus⟩
  simp only [HostCall.onWire, HostCall.exec,
    settle_idle _ hIdle.setup, World.content]
  rw [← hFw] at hOpen hBoundary hBus
  refine ⟨⟨hIdle, hOut.trans hRest.quiet, hOpen, hBoundary,
    ?_⟩, ?_⟩
  · rw [hBus]
    exact ⟨rfl, hRest.busy⟩
  · rw [hBus]
    rfl

------------------------------------------------------------
-- Calls of the Driver in a Session
------------------------------------------------------------

section Calls

variable (p : Part) {d : Device (Decoder Chip)}

/-
  A driver call in a session is the accesses it stands for,
  and leaves the session open if they leave the part ready.
-/
theorem World.Online.call
    (hOnline : d.Online)
    {c : Call}
    (hCount : c.CountPos) :
    let out := d.call (Decoder.line p.bus) c
    let direct := Direct.call p.bus c d.fw.direct
    out.1 = direct.1.2 ∧
      out.2.lastOp = direct.1.1 ∧
      out.2.fw.ram = direct.2.ram ∧
      out.2.fw.target.bus = direct.2.bus ∧
      (direct.2.bus.Ready → out.2.Online) := by
  rcases Reflects.call p.bus hCount d.fw d.fw.direct
      (reflects_direct hOnline.open_ hOnline.boundary) with
    ⟨hResult, hAfter⟩
  refine ⟨?_, ?_, hAfter.ram, hAfter.bus, ?_⟩
  · exact congrArg Prod.snd hResult
  · exact congrArg Prod.fst hResult
  · intro hReady
    rw [← hAfter.bus] at hReady
    exact ⟨hOnline.idle.call _ c, hOnline.quiet, hAfter.open_,
      hAfter.boundary, hReady⟩

/- The record of accesses to the buffer is no part of it. -/
theorem World.Online.touch
    (hOnline : d.Online)
    (indices : List Nat) :
    (d.withFw (d.fw.touch indices)).Online where
  idle := hOnline.idle.withFw _
  quiet := hOnline.quiet
  open_ := hOnline.open_
  boundary := hOnline.boundary
  ready := hOnline.ready

/- The part as a read command finds it. -/
theorem readCommand_chip
    (hOnline : d.Online) :
    let k := Direct.command p.bus cmdReadNvm d.fw.direct
    k.bus.Ready ∧
      k.bus.cmd = cmdReadNvm ∧
      k.bus.content = d.content := by
  have hCommand :=
    Direct.command_chip p d.fw.direct hOnline.ready cmdReadNvm
  simp only [hCommand, Chip.select_cmd, Chip.select_content]
  exact ⟨⟨hOnline.ready.enabled, hOnline.ready.busy⟩, trivial,
    rfl⟩

/- A single byte is answered with what the memory holds. -/
theorem nvmReadByte_chip
    (hOnline : d.Online)
    {mem : PagedMemory}
    {base : Nat}
    (hIn : (p.region mem).Contains base) :
    let out :=
      d.call (Decoder.line p.bus)
        (.nvmReadByte (UInt32.ofNat base))
    out.1 = d.content base ∧
      out.2.Online ∧
      out.2.content = d.content := by
  rcases hOnline.call p (c := .nvmReadByte (UInt32.ofNat base))
      trivial with
    ⟨hValue, _hResult, _hRam, hBus, hAfter⟩
  rcases readCommand_chip p hOnline with
    ⟨hReady, hCmd, hContent⟩
  rcases Direct.readByte_chip p
      (Direct.command p.bus cmdReadNvm d.fw.direct) hReady hCmd
      hIn with
    ⟨hRead, count, hPolled⟩
  simp only [Direct.call, hRead, hPolled] at hValue hBus hAfter
  refine ⟨?_, ?_, ?_⟩
  · rw [hValue, hContent]
  · exact hAfter ⟨hReady.enabled, rfl⟩
  · rw [World.content, hBus, Chip.polled_content, hContent]

/- Several bytes arrive in the buffer. -/
theorem nvmReadBytes_chip
    (hOnline : d.Online)
    {mem : PagedMemory}
    {base : Nat}
    {count : UInt16}
    (hSome : count ≠ 0)
    (hIn :
      ∀ j < count.toNat, (p.region mem).Contains (base + j)) :
    let out :=
      (d.call (Decoder.line p.bus)
        (.nvmReadBytes (UInt32.ofNat base) 0 count)).2
    (Ptr.buffer 0).bytes out.fw.ram count.toNat =
        Pages.read base count.toNat d.content ∧
      out.Online ∧
      out.content = d.content := by
  rcases hOnline.call p
      (c := .nvmReadBytes (UInt32.ofNat base) 0 count) hSome with
    ⟨_hValue, _hResult, hRam, hBus, hAfter⟩
  rcases readCommand_chip p hOnline with
    ⟨hReady, hCmd, hContent⟩
  rcases Direct.loads_chip p
      (Direct.command p.bus cmdReadNvm d.fw.direct) hReady hCmd
      count.toNat base 0 hIn with
    ⟨_hLoaded, hMemory, loads, hPolled⟩
  simp only [Direct.call, hMemory, hPolled] at hRam hBus hAfter
  refine ⟨?_, ?_, ?_⟩
  · have hBack :=
      Pages.read_put 0
        (Pages.read base count.toNat d.content)
        d.fw.ram
    rw [Pages.read_length] at hBack
    rw [hRam, Ptr.bytes_buffer, hContent]
    exact hBack
  · exact hAfter ⟨hReady.enabled, rfl⟩
  · rw [World.content, hBus, Chip.polled_content, hContent]

/- What a read request is answered with. -/
theorem readAnswer_chip
    (hOnline : d.Online)
    {mem : PagedMemory}
    {base : Nat}
    {count : UInt16}
    (hSome : count ≠ 0)
    (hClamp : clamp count = count)
    (hIn :
      ∀ j < count.toNat, (p.region mem).Contains (base + j)) :
    let answer :=
      readAnswer (Decoder.line p.bus) (UInt32.ofNat base) count
        d
    answer.1 = Pages.read base count.toNat d.content ∧
      answer.2.Online ∧
      answer.2.content = d.content := by
  unfold readAnswer
  by_cases hOne : count = 1
  · subst hOne
    have hHere := hIn 0 (by decide)
    rcases nvmReadByte_chip p hOnline hHere with
      ⟨hValue, hAfter, hContent⟩
    refine ⟨?_, hAfter, hContent⟩
    simp only [if_true]
    rw [Nat.add_zero] at hValue
    rw [hValue]
    rfl
  · rcases nvmReadBytes_chip p hOnline hSome hIn with
      ⟨hBytes, hAfter, hContent⟩
    simp only [hOne, if_false, hClamp]
    exact ⟨hBytes, hAfter.touch _, hContent⟩

/- A page write replaces the page by what is in the buffer. -/
theorem nvmPagedWrite_chip
    (hOnline : d.Online)
    (mem : PagedMemory)
    {base : Nat}
    {count : UInt16}
    {bytes : List UInt8}
    (hSome : count ≠ 0)
    (hBytes :
      (Ptr.buffer 0).bytes d.fw.ram count.toNat = bytes)
    (hAligned : (p.region mem).page ∣ base)
    (hFits : bytes.length ≤ (p.region mem).page)
    (hIn :
      ∀ j < (p.region mem).page,
        (p.region mem).Contains (base + j)) :
    let out :=
      (d.call (Decoder.line p.bus)
        (.nvmPagedWrite (UInt32.ofNat base) (.buffer 0) count
          mem)).2
    out.Online ∧
      out.content =
        Pages.writePage (p.region mem).page base 0xFF bytes
          d.content := by
  rcases hOnline.call p
      (c := .nvmPagedWrite (UInt32.ofNat base) (.buffer 0) count
        mem)
      hSome with
    ⟨_hValue, _hResult, _hRam, hBus, hAfter⟩
  have hDirect : d.fw.direct.ram = d.fw.ram := rfl
  rcases Direct.pagedWrite_chip p d.fw.direct hOnline.ready mem
      bytes hAligned hFits hIn with
    ⟨_hWritten, hReady, hContent⟩
  simp only [Direct.call, hDirect, hBytes] at hBus hAfter
  refine ⟨hAfter hReady, ?_⟩
  rw [World.content, hBus, hContent]
  rfl

end Calls

------------------------------------------------------------
-- Transfers
------------------------------------------------------------

/- The name of a memory in the part description. -/
def PagedMemory.desc : PagedMemory → List Char
| .flash => flashDesc
| .eeprom => eepromDesc

/- The number of a memory in a request. -/
def PagedMemory.number : PagedMemory → UInt16
| .flash => 0
| .eeprom => 1

/- The description of a memory of the part. -/
structure AvrMem.Describes
    (m : AvrMem)
    (p : Part)
    (mem : PagedMemory) : Prop where
  desc : m.desc = mem.desc
  offset : m.offset.toNat = (p.region mem).offset

/- A page transfer of the driver and the memory it is for. -/
inductive Transfer where
| write (mem : PagedMemory) (m : AvrMem) (addr nBytes : UInt32)
| load
    (mem : PagedMemory) (m : AvrMem) (baseaddr nBytes : UInt32)

/-
  A write stays within one page and a load within the memory,
  and neither is longer than the buffer of the firmware.
-/
def Transfer.Within
    (p : Part) :
    Transfer → Prop
| .write mem m addr nBytes =>
    m.Describes p mem ∧
      (p.region mem).page ≤ 1024 ∧
      (p.region mem).page ∣ addr.toNat ∧
      addr.toNat < (p.region mem).size ∧
      0 < nBytes.toNat ∧
      nBytes.toNat ≤ (p.region mem).page
| .load mem m baseaddr nBytes =>
    m.Describes p mem ∧
      0 < nBytes.toNat ∧
      nBytes.toNat ≤ 1024 ∧
      baseaddr.toNat + nBytes.toNat ≤ (p.region mem).size

/- The code returned and what is at `m->buf` then. -/
def Transfer.exec
    {ℓ : Type}
    (usb : Libusb ℓ) :
    Transfer → ℓ → (Int × (Nat → UInt8)) × ℓ
| .write _ m addr nBytes, l =>
    let out := lucaxPagedWrite usb m addr nBytes l
    ((out.1, m.buf), out.2)
| .load _ m baseaddr nBytes, l =>
    let out := lucaxPagedLoad usb m baseaddr nBytes l
    ((out.1.1, out.1.2.buf), out.2)

/- A transfer, and what the firmware still does for it. -/
def Transfer.onWire
    {τ : Type}
    (line : Line τ)
    (t : Transfer)
    (d : Device τ) : (Int × (Nat → UInt8)) × Device τ :=
  let out := t.exec (wireUsb line) d
  (out.1, settle line out.2)

/-
  What a transfer is for: a write replaces one page, blank
  behind the bytes given, and a load copies to `m->buf`.
-/
def Transfer.onMemory
    (p : Part) :
    Transfer → (Nat → UInt8) →
      (Int × (Nat → UInt8)) × (Nat → UInt8)
| .write mem m addr nBytes, content =>
    ((0, m.buf),
      Pages.writePage (p.region mem).page
        ((p.region mem).offset + addr.toNat) 0xFF
        (m.bytes addr.toNat nBytes.toNat) content)
| .load mem m baseaddr nBytes, content =>
    ((0,
        Pages.put baseaddr.toNat
          (Pages.read
            ((p.region mem).offset + baseaddr.toNat)
            nBytes.toNat content)
          m.buf),
      content)

section Transfers

variable {p : Part} {mem : PagedMemory} {m : AvrMem}

theorem AvrMem.Describes.pagedType
    (hDescribes : m.Describes p mem) :
    m.pagedType = some mem.number := by
  rw [AvrMem.pagedType, hDescribes.desc]
  cases mem with
  | flash => rfl
  | eeprom => rfl

theorem pagedMemory_number
    (mem : PagedMemory) :
    pagedMemory mem.number.toUInt8 = mem := by
  cases mem with
  | flash => rfl
  | eeprom => rfl

/- The address sent for a place of the memory. -/
theorem AvrMem.Describes.address
    (hDescribes : m.Describes p mem)
    (addr : UInt32) :
    m.address addr =
      UInt32.ofNat ((p.region mem).offset + addr.toNat) := by
  apply UInt32.toNat_inj.mp
  rw [AvrMem.address, UInt32.toNat_add, hDescribes.offset,
    UInt32.toNat_ofNat']

/- A page that begins inside the memory ends inside. -/
theorem Region.contains_page
    (r : Region)
    {place : Nat}
    (hAligned : r.page ∣ place)
    (hInside : place < r.size) :
    ∀ j < r.page, r.Contains (r.offset + place + j) := by
  intro j hj
  have hWhole : place + r.page ≤ r.size := by
    rcases hAligned with ⟨k, hPlace⟩
    rcases r.page_dvd_size with ⟨n, hSize⟩
    rw [hPlace, hSize] at hInside ⊢
    have hLess : k < n := Nat.lt_of_mul_lt_mul_left hInside
    rw [← Nat.mul_succ]
    exact Nat.mul_le_mul_left _ hLess
  constructor
  · omega
  · omega

variable {d : Device (Decoder Chip)}

/- A load in a session copies from the memory. -/
theorem load_onWire
    (hOnline : d.Online)
    {baseaddr nBytes : UInt32}
    (hWithin :
      (Transfer.load mem m baseaddr nBytes).Within p) :
    let t := Transfer.load mem m baseaddr nBytes
    let out := t.onWire (Decoder.line p.bus) d
    out.1 = (t.onMemory p d.content).1 ∧
      out.2.Online ∧
      out.2.content = (t.onMemory p d.content).2 := by
  rcases hWithin with ⟨hDescribes, hSome, hFits, hInside⟩
  rcases clamp_of_le hFits with ⟨hClamp, hCount⟩
  rcases pagedLoad_wire (Decoder.line p.bus) hOnline.idle m
      baseaddr nBytes with
    ⟨hOut, hAfter⟩
  have hStarted :
      (started (loadRequest nBytes)
        (addressBytes (m.address baseaddr)) d).Online :=
    ⟨started_idle hOnline.idle _ _, hOnline.quiet,
      hOnline.open_, hOnline.boundary, hOnline.ready⟩
  have hNonzero : nBytes.toUInt16 ≠ 0 := by
    intro hZero
    rw [hZero] at hCount
    rw [← hCount] at hSome
    exact absurd hSome (by decide)
  have hIn :
      ∀ j < nBytes.toUInt16.toNat,
        (p.region mem).Contains
          ((p.region mem).offset + baseaddr.toNat + j) := by
    intro j hj
    rw [hCount] at hj
    constructor
    · omega
    · omega
  rcases readAnswer_chip p hStarted hNonzero hClamp hIn with
    ⟨hBytes, hOnline', hContent⟩
  rw [← hDescribes.address, hCount] at hBytes
  rw [← hDescribes.address] at hOnline' hContent
  have hLength :=
    congrArg List.length hBytes
  rw [Pages.read_length] at hLength
  simp only [Transfer.onWire, Transfer.exec, hOut, hAfter]
  rw [if_pos hLength, m.store_buf, hBytes]
  exact ⟨rfl, hOnline', hContent⟩

/- A write in a session replaces one page. -/
theorem write_onWire
    (hOnline : d.Online)
    {addr nBytes : UInt32}
    (hWithin : (Transfer.write mem m addr nBytes).Within p) :
    let t := Transfer.write mem m addr nBytes
    let out := t.onWire (Decoder.line p.bus) d
    out.1 = (t.onMemory p d.content).1 ∧
      out.2.Online ∧
      out.2.content = (t.onMemory p d.content).2 := by
  rcases hWithin with
    ⟨hDescribes, hPage, hAligned, hInside, hSome, hFits⟩
  have hMost : nBytes.toNat ≤ 1024 := Nat.le_trans hFits hPage
  have hCount : (UInt16.ofNat nBytes.toNat).toNat =
      nBytes.toNat := by
    rw [← clamp_ofNat hMost, (clamp_of_le hMost).1,
      (clamp_of_le hMost).2]
  have hNonzero : UInt16.ofNat nBytes.toNat ≠ 0 := by
    intro hZero
    rw [hZero] at hCount
    rw [← hCount] at hSome
    exact absurd hSome (by decide)
  have hPlaces :=
    (p.region mem).contains_page hAligned hInside
  have hWhole :
      (p.region mem).page ∣
        (p.region mem).offset + addr.toNat :=
    Nat.dvd_add (p.region mem).page_dvd_offset hAligned
  have hType := hDescribes.pagedType
  have hAccepted : m.pagedType ≠ none := by
    rw [hType]
    exact Option.some_ne_none mem.number
  rcases
      pagedWrite_settled (Decoder.line p.bus)
        ⟨hOnline.idle, hOnline.quiet⟩ m addr nBytes hAccepted
        hMost with
    ⟨_r, loaded, hOut, _hKind, _hHandled, _hCalls, hFw,
      hQuiet⟩
  rw [hDescribes.address, ← pagedMemory_of_pagedType hType,
    pagedMemory_number] at hOut
  have hTarget : loaded.fw.target = d.fw.target := by
    rw [hFw, storeBytes_target]
  have hLoaded : loaded.Online := by
    constructor
    · exact hQuiet.idle
    · exact hQuiet.bulkOut
    · rw [hFw, storeBytes_pdiOn]
      exact hOnline.open_
    · rw [hTarget]
      exact hOnline.boundary
    · rw [hTarget]
      exact hOnline.ready
  have hBytes :
      (Ptr.buffer 0).bytes loaded.fw.ram
          (UInt16.ofNat nBytes.toNat).toNat =
        m.bytes addr.toNat nBytes.toNat := by
    have hBack :=
      Pages.read_put 0 (m.bytes addr.toNat nBytes.toNat)
        d.fw.ram
    rw [AvrMem.bytes_length] at hBack
    rw [hFw, storeBytes_ram, Ptr.bytes_buffer, hCount]
    exact hBack
  have hShort :
      (m.bytes addr.toNat nBytes.toNat).length ≤
        (p.region mem).page := by
    rw [AvrMem.bytes_length]
    exact hFits
  rcases nvmPagedWrite_chip p hLoaded mem hNonzero hBytes
      hWhole hShort hPlaces with
    ⟨hAfter, hContent⟩
  -- `onWire` adds only what is at `m->buf`, which stays
  have hSame :
      (Transfer.write mem m addr nBytes).onWire
          (Decoder.line p.bus) d =
        ((((HostCall.pagedWrite m addr nBytes).onWire
            (Decoder.line p.bus) d).1, m.buf),
          ((HostCall.pagedWrite m addr nBytes).onWire
            (Decoder.line p.bus) d).2) := rfl
  simp only [hSame, hOut]
  refine ⟨rfl, hAfter, ?_⟩
  rw [hContent, World.content, hTarget]
  rfl

/-
  Page writes and loads of an open session act on the memory
  of the part, one after another, each as if alone.
-/
theorem transfer_simulates
    {t : Transfer}
    (hWithin : t.Within p) :
    Simulates
      (fun (d : Device (Decoder Chip)) content =>
        d.Online ∧ d.content = content)
      (t.onWire (Decoder.line p.bus)) (t.onMemory p) := by
  rintro d content ⟨hOnline, hContent⟩
  subst hContent
  cases t with
  | write mem m addr nBytes =>
      exact write_onWire hOnline hWithin
  | load mem m baseaddr nBytes =>
      exact load_onWire hOnline hWithin

end Transfers

/-
  After a successful `lucax_init` on a device at rest, any
  page writes and loads return what they return on the
  memories of the part, and leave there what these hold.
-/
theorem transfers_refine_memory
    (p : Part)
    {d : Device (Decoder Chip)}
    (hRest : d.AtRest)
    (hasPdi : Bool)
    (ioFrequency : Int)
    (info status : UInt8)
    (hZero :
      ((HostCall.init hasPdi ioFrequency info status).onWire
        (Decoder.line p.bus) d).1 = 0)
    (transfers : List Transfer)
    (hWithin : ∀ t ∈ transfers, t.Within p) :
    let opened :=
      ((HostCall.init hasPdi ioFrequency info status).onWire
        (Decoder.line p.bus) d).2
    let run :=
      runAll (Transfer.onWire (Decoder.line p.bus)) transfers
        opened
    let memory :=
      runAll (Transfer.onMemory p) transfers d.content
    run.1 = memory.1 ∧ run.2.content = memory.2 := by
  rcases init_online p hRest hasPdi ioFrequency info status
      hZero with
    ⟨hOnline, hContent⟩
  have hRun :=
    Simulates.runAll transfers
      (fun t hMem => transfer_simulates (hWithin t hMem))
  rcases hRun _ _ ⟨hOnline, hContent⟩ with
    ⟨hResults, _hOnline, hAfter⟩
  exact ⟨hResults, hAfter⟩

/- A part whose operations are busy for three polls. -/
def smallPart : Part where
  flash :=
    { offset := 0x00800000
      size := 4096
      page := 512
      page_pos := by decide
      page_dvd_offset := by decide
      page_dvd_size := by decide
      addressable := by decide
      off_io := by
        intro address hIn hIo
        unfold InIo at hIo
        omega }
  eeprom :=
    { offset := 0x008C0000
      size := 128
      page := 32
      page_pos := by decide
      page_dvd_offset := by decide
      page_dvd_size := by decide
      addressable := by decide
      off_io := by
        intro address hIn hIo
        unfold InIo at hIo
        omega }
  apart := by
    intro address hFlash hEeprom
    simp only [Region.Contains] at hFlash hEeprom
    omega
  durations := fun _ => 3
  settles := by
    intro i
    decide
  noise := fun _ => 0

/- The part out of reset, with nothing in its memories. -/
def smallChip : Chip where
  enabled := false
  content := fun _ => 0
  buffer := fun _ _ => 0
  cmd := 0
  busy := 0
  starts := 0
  loads := 0

/- The memories of the part as avrdude describes them. -/
def smallMem (mem : PagedMemory) : AvrMem where
  desc := mem.desc
  offset := UInt32.ofNat (smallPart.region mem).offset
  buf := fun i => UInt8.ofNat i

/- A short flash page, an EEPROM page, and reads of both. -/
def smallTransfers : List Transfer :=
  [.write .flash (smallMem .flash) 512 70,
    .write .eeprom (smallMem .eeprom) 32 32,
    .load .flash (smallMem .flash) 512 1,
    .load .eeprom (smallMem .eeprom) 0 128]

theorem smallTransfers_refine_memory :
    let line := Decoder.line smallPart.bus
    let d :=
      World.powerOn (Decoder.initial smallChip) Wire.quiet
    let opened := ((HostCall.init true 250 0 0).onWire line d).2
    let run :=
      runAll (Transfer.onWire line) smallTransfers opened
    let memory :=
      runAll (Transfer.onMemory smallPart) smallTransfers
        d.content
    run.1 = memory.1 ∧ run.2.content = memory.2 := by
  apply transfers_refine_memory smallPart
    (World.atRest_powerOn rfl) true 250 0 0
  · decide +kernel
  · intro t hMem
    simp only [smallTransfers, List.mem_cons,
      List.not_mem_nil, or_false] at hMem
    rcases hMem with rfl | rfl | rfl | rfl
    all_goals
      refine ⟨⟨rfl, rfl⟩, ?_⟩
      decide

end Lucax
