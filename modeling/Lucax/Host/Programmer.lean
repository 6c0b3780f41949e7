import Lucax.Firmware.Handlers

/-
  The programmer driver of avrdude (lucax.c), over an
  arbitrary libusb.

  Key definitions include:
    * `Libusb`, `AvrMem`
    * `lucaxInit`, `lucaxClose`, `lucaxChipErase`
    * `lucaxReadByte`, `lucaxPagedLoad`
    * `lucaxPagedWrite`, `lucaxWriteByte`
-/

------------------------------------------------------------
-- libusb
------------------------------------------------------------

namespace Lucax

/-
  The transfers the driver makes.  The number is the return
  code, negative on an error; a bulk transfer also reports
  what it moved, on an error as well.
-/
structure Libusb (ℓ : Type) where
  controlOut : ℓ → Request → List UInt8 → Int × ℓ
  controlIn : ℓ → Request → (Int × List UInt8) × ℓ
  bulkOut : ℓ → List UInt8 → (Int × Nat) × ℓ
  bulkIn : ℓ → Nat → (Int × List UInt8) × ℓ

/- lucax.h: `bmRequestType` of the requests. -/
def usbHostToDevice : UInt8 := 0
def usbDeviceToHost : UInt8 := (1 : UInt8) <<< 7

/- A request that sends `wLength` bytes or none. -/
def outRequest
    (bRequest : UInt8)
    (wValue wIndex wLength : UInt16) : Request :=
  ⟨usbHostToDevice, bRequest, wValue, wIndex, wLength⟩

/- A request for one byte. -/
def inRequest
    (bRequest : UInt8)
    (wValue wIndex : UInt16) : Request :=
  ⟨usbDeviceToHost, bRequest, wValue, wIndex, 1⟩

/- `adr[0] = address&0xFF; ..` -/
def addressBytes (address : UInt32) : List UInt8 :=
  [address.toUInt8, (address >>> 8).toUInt8,
    (address >>> 16).toUInt8, (address >>> 24).toUInt8]

------------------------------------------------------------
-- Memories
------------------------------------------------------------

/-
  avrdude: `AVRMEM`.  `desc` is what stands before the NUL
  and `buf i` the byte at `m->buf + i`.
-/
structure AvrMem where
  desc : List Char
  offset : UInt32
  buf : Nat → UInt8

/- Bytes stored from `m->buf + i` on. -/
def AvrMem.store
    (m : AvrMem) :
    Nat → List UInt8 → AvrMem
| _, [] => m
| i, b :: bytes =>
    AvrMem.store
      { m with buf := fun j => if j = i then b else m.buf j }
      (i + 1) bytes

/- The `n` bytes at `m->buf + i`. -/
def AvrMem.bytes
    (m : AvrMem)
    (i n : Nat) : List UInt8 :=
  (List.range' i n).map m.buf

/- lucax.c: the names the driver compares with. -/
def flashDesc : List Char := ['f', 'l', 'a', 's', 'h']
def eepromDesc : List Char := ['e', 'e', 'p', 'r', 'o', 'm']
def lockDesc : List Char := ['l', 'o', 'c', 'k']
def fuseDesc : List Char := ['f', 'u', 's', 'e']

/- `mem` of `lucax_paged_write`: FLASH is 0, EEPROM is 1. -/
def AvrMem.pagedType (m : AvrMem) : Option UInt16 :=
  if m.desc = flashDesc then some 0
  else if m.desc = eepromDesc then some 1
  else none

/-
  `mem_type` of `lucax_write_byte`: FUSE is 0, LOCK is 1.
  The four characters copied for the comparison with "fuse"
  are not terminated; `behind` is the byte after them.
-/
def AvrMem.byteType
    (m : AvrMem)
    (behind : UInt8) : Option UInt16 :=
  if m.desc = lockDesc then some 1
  else if m.desc.take 4 = fuseDesc ∧ behind = 0 then some 0
  else none

/- `m->offset + addr`; only the low 32 bits are kept. -/
def AvrMem.address
    (m : AvrMem)
    (addr : UInt32) : UInt32 :=
  m.offset + addr

------------------------------------------------------------
-- Sessions
------------------------------------------------------------

/- The clock in kHz, 250 for one that is out of bounds. -/
def usedFrequency (ioFrequency : Int) : Int :=
  if ioFrequency < 15 ∨ ioFrequency > 1000 then 250
  else ioFrequency

section Programmer

variable {ℓ : Type} (usb : Libusb ℓ)

/-
  `info` and `status` are what `lucax_info` and the local
  `status` hold before the transfers that fill them.
-/
def lucaxInit
    (hasPdi : Bool)
    (ioFrequency : Int)
    (info status : UInt8)
    (l : ℓ) : Int × ℓ :=
  let got :=
    usb.controlIn l (inRequest lucaxGetDescriptorReq 0 0)
  if got.1.1 < 0 then (-1, got.2) else
  let info := got.1.2.headD info
  if hasPdi = false ∨ info &&& 0x01 = 0 then (-1, got.2) else
  let out :=
    usb.controlIn got.2
      (inRequest lucaxPdiInitReq
        (UInt16.ofNat (usedFrequency ioFrequency).toNat) 0)
  if out.1.1 < 0 then (-1, out.2) else
  let status := out.1.2.headD status
  if status ≠ 0 then (-1, out.2) else (0, out.2)

def lucaxClose (l : ℓ) : ℓ :=
  (usb.controlOut l
    (outRequest lucaxReleaseInterfaceReq 0 0 0) []).2

/- `ret` is not initialised and the code is dropped. -/
def lucaxChipErase
    (ret : UInt8)
    (l : ℓ) : Int × ℓ :=
  let out :=
    usb.controlIn l (inRequest lucaxPdiChipEraseReq 0 0)
  if out.1.2.headD ret ≠ 0 then (-1, out.2) else (0, out.2)

------------------------------------------------------------
-- Reads
------------------------------------------------------------

/-
  `address >= 0x01000000` on an `int`, which takes addresses
  from 0x80000000 on as negative.
-/
def isRawAddress (address : UInt32) : Bool :=
  0x01000000 ≤ address ∧ address < 0x80000000

/- `*value` enters as `value` and leaves beside the code. -/
def lucaxReadByte
    (m : AvrMem)
    (addr : UInt32)
    (value : UInt8)
    (l : ℓ) : (Int × UInt8) × ℓ :=
  let address := m.address addr
  if isRawAddress address then
    let out :=
      usb.controlIn l
        (inRequest lucaxPdiRawReadReq address.toUInt16
          (address >>> 16).toUInt16)
    let value := out.1.2.headD value
    if out.1.1 < 0 then ((-1, value), out.2)
    else ((0, value), out.2)
  else
    let sent :=
      usb.controlOut l
        (outRequest lucaxPdiNvmReadReq 0 1 4)
        (addressBytes address)
    if sent.1 < 0 then ((-1, value), sent.2) else
    let out := usb.bulkIn sent.2 1
    let value := out.1.2.headD value
    if out.1.1 < 0 then ((-1, value), out.2)
    else if out.1.2.length ≠ 1 then ((-1, value), out.2)
    else ((0, value), out.2)

/-
  The loop of `lucax_paged_load`.  A turn that does not end
  it moves a byte, so `n_bytes` turns are enough.
-/
def loadLoop
    (base nBytes : Nat) :
    Nat → Nat → AvrMem → ℓ → (Int × AvrMem) × ℓ
| 0, total, m, l =>
    if total < nBytes then ((-1, m), l) else ((0, m), l)
| fuel + 1, total, m, l =>
    if total < nBytes then
      let out := usb.bulkIn l 64
      let m := m.store (base + total) out.1.2
      if out.1.1 < 0 then ((-1, m), out.2)
      else if out.1.2.length = 0 then ((0, m), out.2)
      else
        loadLoop base nBytes fuel
          (total + out.1.2.length) m out.2
    else ((0, m), l)

/- `page_size` is not used. -/
def lucaxPagedLoad
    (m : AvrMem)
    (baseaddr nBytes : UInt32)
    (l : ℓ) : (Int × AvrMem) × ℓ :=
  let sent :=
    usb.controlOut l
      (outRequest lucaxPdiNvmReadReq 0 nBytes.toUInt16 4)
      (addressBytes (m.address baseaddr))
  if sent.1 < 0 then ((-1, m), sent.2)
  else
    loadLoop usb baseaddr.toNat nBytes.toNat nBytes.toNat 0 m
      sent.2

------------------------------------------------------------
-- Writes
------------------------------------------------------------

/- The loop of `lucax_paged_write`. -/
def writeLoop
    (m : AvrMem)
    (base nBytes : Nat) :
    Nat → Nat → ℓ → Int × ℓ
| 0, total, l => if total < nBytes then (-1, l) else (0, l)
| fuel + 1, total, l =>
    if total < nBytes then
      let lenght := min (nBytes - total) 64
      let out := usb.bulkOut l (m.bytes (base + total) lenght)
      if out.1.1 < 0 then (-1, out.2)
      else if out.1.2 = 0 then (0, out.2)
      else
        writeLoop m base nBytes fuel (total + out.1.2) out.2
    else (0, l)

/- `page_size` is not used. -/
def lucaxPagedWrite
    (m : AvrMem)
    (addr nBytes : UInt32)
    (l : ℓ) : Int × ℓ :=
  match m.pagedType with
  | none => (-1, l)
  | some mem =>
      let sent :=
        usb.controlOut l
          (outRequest lucaxPdiNvmWritePageReq mem
            nBytes.toUInt16 4)
          (addressBytes (m.address addr))
      if sent.1 < 0 then (-1, sent.2)
      else
        writeLoop usb m addr.toNat nBytes.toNat nBytes.toNat 0
          sent.2

def lucaxWriteByte
    (m : AvrMem)
    (behind : UInt8)
    (addr : UInt32)
    (value : UInt8)
    (l : ℓ) : Int × ℓ :=
  match m.byteType behind with
  | none => (-1, l)
  | some memType =>
      let sent :=
        usb.controlOut l
          (outRequest lucaxPdiNvmWriteByteReq memType
            value.toUInt16 4)
          (addressBytes (m.address addr))
      if sent.1 < 0 then (-1, sent.2) else (0, sent.2)

end Programmer

end Lucax
