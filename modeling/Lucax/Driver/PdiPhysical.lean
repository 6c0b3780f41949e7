import Lucax.Common.ByteOrder
import Lucax.Driver.Usart

/-
  The PDI driver (pdi_physical.c, pdi_const.h).

  Key definitions include:
    * `charLength`, `baudDivisor`
    * `pdiInit`, `pdiExit`
    * `pdiReadByte`, `pdiWriteByte`
    * `pdiReadBytes`, `pdiWriteBytes`, `pdiWriteRaw`

  Delays (`_delay_us` and the `c += 10` loops) change nothing
  in the modelled state.  Whether the loops end depends on
  `char_us` alone (`DelayEnds`).
-/

------------------------------------------------------------
-- Constants
------------------------------------------------------------

namespace Lucax

/- pdi_const.h: instructions. -/
def pdiLoadDirect : UInt8 := 0x00
def pdiStoreDirect : UInt8 := 0x40
def pdiLoadIndirect : UInt8 := 0x20
def pdiStoreIndirect : UInt8 := 0x60
def pdiLoadControlReg : UInt8 := 0x80
def pdiStoreControlReg : UInt8 := 0xC0
def pdiRepeat : UInt8 := 0xA0
def pdiKey : UInt8 := 0xE0

/- pdi_const.h: control and status registers. -/
def pdiStatusReg : UInt8 := 0x00
def nvmen : UInt8 := 1
def pdiResetReg : UInt8 := 0x01
def pdiCtrlReg : UInt8 := 0x02
def pdiResetSignature : UInt8 := 0x59

/- pdi_const.h: data sizes and pointer modes. -/
def sizeLong : UInt8 := 0x03
def sizeWord : UInt8 := 0x01
def sizeByte : UInt8 := 0x00
def ptr : UInt8 := 0x02
def ptrDataInc : UInt8 := 0x01

/- Pins of port D: CLK is PD5, TX is PD3, RX is PD2. -/
def clkPin : UInt8 := (1 : UInt8) <<< 5
def txPin : UInt8 := (1 : UInt8) <<< 3
def rxPin : UInt8 := (1 : UInt8) <<< 2

/- makefile: `F_CPU = 16000000`. -/
def fCpu : Nat := 16000000

variable {τ : Type}

------------------------------------------------------------
-- Pins, Breaks and Idle Characters
------------------------------------------------------------

/- RX input, TX input, CLK output. -/
def pinDefaultState (s : Fw τ) : Fw τ :=
  { s with
    pdiPort := s.pdiPort &&& ~~~(txPin ||| rxPin ||| clkPin)
    pdiDdr :=
      (s.pdiDdr &&& ~~~(rxPin ||| txPin)) ||| clkPin }

/- TX is held low for one character by hand. -/
def sendBreak
    (line : Line τ)
    (s : Fw τ) : Fw τ :=
  let s := { s with pdiDdr := s.pdiDdr ||| txPin }
  let s := usartRxMode s
  let s := { s with target := line.lineBreak s.target }
  let s := { s with pdiDdr := s.pdiDdr &&& ~~~txPin }
  usartTxMode s

def sendIdle (s : Fw τ) : Fw τ :=
  usartTxMode (usartWaitTx s)

def sendIdles : Nat → Fw τ → Fw τ
| 0, s => s
| n + 1, s => sendIdles n (sendIdle s)

------------------------------------------------------------
-- Session
------------------------------------------------------------

/-
  The poll of the NVM enable bit: `retry` counts down from
  200 and a read that times out ends it.
-/
def pollNvmen
    (line : Line τ) :
    Nat → Fw τ → PdiResult × Fw τ
| 0, s => (.timeOut, s)
| retry + 1, s =>
    let s :=
      sendByte line (pdiLoadControlReg ||| pdiStatusReg) s
    match readByte line s with
    | (none, s) => (.timeOut, s)
    | (some status, s) =>
        if status &&& (1 <<< nvmen) ≠ 0 then
          (.noError, s)
        else pollNvmen line retry (sendIdles 2 s)

/-
  `char_us = 12000/freq_khz`.  A division by zero leaves all
  ones, as the division routines of the AVR do.
-/
def charLength (freqKhz : UInt16) : UInt16 :=
  if freqKhz = 0 then 0xFFFF else 12000 / freqKhz

/- `long brr = (F_CPU/2000)/freq_khz` -/
def baudDivisor
    (freqKhz : UInt16) : Nat :=
  if freqKhz = 0 then 0xFFFFFFFF
  else (fCpu / 2000) / freqKhz.toNat

def pdiInit
    (line : Line τ)
    (freqKhz : UInt16)
    (s : Fw τ) : PdiResult × Fw τ :=
  let s := { s with charUs := charLength freqKhz }
  let s := { s with
    pdiPort := s.pdiPort &&& ~~~(txPin ||| rxPin ||| clkPin)
    pdiDdr :=
      (s.pdiDdr &&& ~~~rxPin) ||| (clkPin ||| txPin) }
  let s := usartSetup (UInt16.ofNat (baudDivisor freqKhz)) s
  let s := { s with pdiPort := s.pdiPort ||| txPin }
  let s := usartTxMode s
  let s := pinDefaultState s
  let s := sendIdles 2 s
  -- set idle bits between dir. change to 16
  let s := sendByte line (pdiStoreControlReg ||| pdiCtrlReg) s
  let s := sendByte line 0x03 s
  let s := sendIdle s
  -- reset device
  let s :=
    sendByte line (pdiStoreControlReg ||| pdiResetReg) s
  let s := sendByte line pdiResetSignature s
  let s := sendIdle s
  -- 64 bit programming key, little endian
  let s := sendByte line pdiKey s
  let s := sendByte line 0xFF s
  let s := sendByte line 0x88 s
  let s := sendByte line 0xD8 s
  let s := sendByte line 0xCD s
  let s := sendByte line 0x45 s
  let s := sendByte line 0xAB s
  let s := sendByte line 0x89 s
  let s := sendByte line 0x12 s
  let s := sendIdles 2 s
  match pollNvmen line 200 s with
  | (.noError, s) => (.noError, { s with pdiOn := true })
  | (r, s) => (r, s)

def pdiExit
    (line : Line τ)
    (s : Fw τ) : Fw τ :=
  -- always synchronize the protocol
  let s := sendBreak line s
  let s := sendBreak line s
  let s := sendIdle s
  let s := sendIdle s
  -- end reset
  let s :=
    sendByte line (pdiStoreControlReg ||| pdiResetReg) s
  let s := sendByte line 0 s
  let s := sendIdle s
  let s := sendIdle s
  let s := sendIdle s
  let s := sendIdle s
  let s := usartDisconnect s
  { s with
    pdiPort := s.pdiPort &&& ~~~(clkPin ||| txPin ||| rxPin)
    pdiDdr := s.pdiDdr &&& ~~~(clkPin ||| txPin ||| rxPin)
    pdiOn := false }

------------------------------------------------------------
-- Reads and Writes
------------------------------------------------------------

/- Send `n` address bytes, low byte first. -/
def sendAddress
    (line : Line τ) :
    Nat → UInt32 → Fw τ → Fw τ
| 0, _, s => s
| n + 1, address, s =>
    sendAddress line n (address >>> 8)
      (sendByte line address.toUInt8 s)

/- `*data` enters as `data` and leaves beside the result. -/
def pdiReadByte
    (line : Line τ)
    (address : UInt32)
    (data : UInt8)
    (s : Fw τ) : (PdiResult × UInt8) × Fw τ :=
  if s.pdiOn = false then ((.pdiDisabled, data), s) else
  let s :=
    sendByte line
      (pdiLoadDirect ||| (sizeLong <<< 2) ||| sizeByte) s
  let s := sendAddress line 4 address s
  match readByte line s with
  | (none, s) =>
      ((.timeOut, data), s.logRead address none)
  | (some b, s) =>
      ((.noError, b), s.logRead address (some b))

def pdiWriteByte
    (line : Line τ)
    (address : UInt32)
    (data : UInt8)
    (s : Fw τ) : PdiResult × Fw τ :=
  if s.pdiOn = false then (.pdiDisabled, s) else
  let s :=
    sendByte line
      (pdiStoreDirect ||| (sizeLong <<< 2) ||| sizeByte) s
  let s := sendAddress line 4 address s
  (.noError, sendByte line data s)

/-
  The receive loop of `pdi_read_bytes`: byte `c` goes to
  `buffer[data + c]`.  The address is ghost information for
  the read log.
-/
def readLoop
    (line : Line τ) :
    Nat → UInt32 → Nat → Fw τ → PdiResult × Fw τ
| 0, _, _, s => (.noError, s)
| n + 1, address, data, s =>
    match readByte line s with
    | (none, s) => (.timeOut, s.logRead address none)
    | (some b, s) =>
        readLoop line n (address + 1) (data + 1)
          ((s.logRead address (some b)).storeByte data b)

/-
  Pointer set-up, repeat counter and first instruction, as
  both multi-byte transfers send them.
-/
def sendStreamHeader
    (line : Line τ)
    (start : UInt32)
    (count : UInt16)
    (instruction : UInt8)
    (s : Fw τ) : Fw τ :=
  let countTmp := count - 1
  -- set pointer
  let s :=
    sendByte line
      (pdiStoreIndirect ||| (ptr <<< 2) ||| sizeLong) s
  let s := sendAddress line 4 start s
  -- set repeat counter
  let s := sendByte line (pdiRepeat ||| sizeWord) s
  let s := sendByte line countTmp.toUInt8 s
  let s := sendByte line (countTmp >>> 8).toUInt8 s
  sendByte line instruction s

def pdiReadBytes
    (line : Line τ)
    (start : UInt32)
    (data : Nat)
    (count : UInt16)
    (s : Fw τ) : PdiResult × Fw τ :=
  if s.pdiOn = false then (.pdiDisabled, s) else
  let s :=
    sendStreamHeader line start count
      (pdiLoadIndirect ||| (ptrDataInc <<< 2) ||| sizeByte) s
  readLoop line count.toNat start data s

def pdiWriteRaw
    (line : Line τ) :
    Ptr → Nat → Fw τ → Fw τ
| _, 0, s => s
| data, count + 1, s =>
    let byte := s.deref data
    pdiWriteRaw line data.next count
      (sendByte line byte.1 byte.2)

def pdiWriteBytes
    (line : Line τ)
    (start : UInt32)
    (data : Ptr)
    (count : UInt16)
    (s : Fw τ) : PdiResult × Fw τ :=
  if s.pdiOn = false then (.pdiDisabled, s) else
  let s :=
    sendStreamHeader line start count
      (pdiStoreIndirect ||| (ptrDataInc <<< 2) ||| sizeByte) s
  (.noError, pdiWriteRaw line data count.toNat s)

------------------------------------------------------------
-- What Is Sent
------------------------------------------------------------

/- An address goes out as its little-endian bytes. -/
theorem sendAddress_eq_feed
    (line : Line τ)
    (n : Nat)
    (address : UInt32)
    (s : Fw τ) :
    sendAddress line n address s =
      feed line (ByteOrder.leBytes n address.toNat) s := by
  induction n generalizing address s with
  | zero => rfl
  | succ n ih =>
      have hLow :
          address.toUInt8 = UInt8.ofNat address.toNat := by
        simp
      have hHigh :
          (address >>> 8).toNat = address.toNat / 256 := by
        simp [Nat.shiftRight_eq_div_pow]
      rw [sendAddress, ih, hHigh, hLow]
      rfl

/- The frames of `LDS` with a four-byte address. -/
def ldsFrames (address : UInt32) : List UInt8 :=
  0x0C :: ByteOrder.leBytes 4 address.toNat

/- The frames of `STS` with a four-byte address. -/
def stsFrames
    (address : UInt32)
    (data : UInt8) : List UInt8 :=
  0x4C :: (ByteOrder.leBytes 4 address.toNat ++ [data])

/- The frames that load the pointer register. -/
def pointerFrames (address : UInt32) : List UInt8 :=
  0x6B :: ByteOrder.leBytes 4 address.toNat

/- The frames of a 16-bit `REPEAT`. -/
def repeatFrames (n : UInt16) : List UInt8 :=
  0xA1 :: ByteOrder.leBytes 2 n.toNat

/- The frames that open a multi-byte transfer. -/
def streamFrames
    (start : UInt32)
    (count : UInt16)
    (instruction : UInt8) : List UInt8 :=
  pointerFrames start ++ repeatFrames (count - 1) ++
    [instruction]

theorem sendStreamHeader_eq_feed
    (line : Line τ)
    (start : UInt32)
    (count : UInt16)
    (instruction : UInt8)
    (s : Fw τ) :
    sendStreamHeader line start count instruction s =
      feed line (streamFrames start count instruction) s := by
  have hLow :
      (count - 1).toUInt8 =
        UInt8.ofNat (count - 1).toNat := by
    simp
  have hHigh :
      ((count - 1) >>> 8).toUInt8 =
        UInt8.ofNat ((count - 1).toNat / 256) := by
    have hNat :
        ((count - 1) >>> 8).toNat =
          (count - 1).toNat / 256 := by
      rw [UInt16.toNat_shiftRight,
        Nat.shiftRight_eq_div_pow]
      rfl
    rw [← hNat, UInt8.ofNat_uInt16ToNat]
  simp only [sendStreamHeader, streamFrames,
    sendAddress_eq_feed, hLow, hHigh, feed_append]
  rfl

/- Reads through a local array do not touch the buffer. -/
@[simp] theorem Ptr.indices_array
    (bytes : List UInt8)
    (n : Nat) :
    (Ptr.array bytes).indices n = [] := by
  cases n <;> rfl

/- A raw write sends exactly the bytes it points to. -/
theorem pdiWriteRaw_eq
    (line : Line τ)
    (data : Ptr)
    (count : Nat)
    (s : Fw τ) :
    pdiWriteRaw line data count s =
      (feed line (data.bytes s.ram count) s).touch
        (data.indices count) := by
  induction count generalizing data s with
  | zero =>
      cases data <;> simp [pdiWriteRaw, Ptr.bytes, Ptr.indices]
  | succ count ih =>
      rw [pdiWriteRaw, ih]
      cases data with
      | buffer offset =>
          have hSend :
              sendByte line (s.ram offset)
                  (s.touch [offset]) =
                (sendByte line (s.ram offset) s).touch
                  [offset] :=
            feed_touch line [s.ram offset] s [offset]
          simp [Fw.deref, Fw.loadByte, Ptr.bytes, Ptr.next,
            Ptr.indices, feed_cons, hSend, feed_touch]
      | array bytes =>
          simp [Fw.deref, Ptr.bytes, Ptr.next, Ptr.indices,
            feed_cons]

section PdiWriteRaw

variable (line : Line τ) (data : Ptr) (count : Nat)
variable (s : Fw τ)

@[simp] theorem pdiWriteRaw_pdiOn :
    (pdiWriteRaw line data count s).pdiOn = s.pdiOn := by
  simp [pdiWriteRaw_eq]

@[simp] theorem pdiWriteRaw_ram :
    (pdiWriteRaw line data count s).ram = s.ram := by
  simp [pdiWriteRaw_eq]

@[simp] theorem pdiWriteRaw_reads :
    (pdiWriteRaw line data count s).reads = s.reads := by
  simp [pdiWriteRaw_eq]

@[simp] theorem pdiWriteRaw_sent :
    (pdiWriteRaw line data count s).sent =
      s.sent ++ data.bytes s.ram count := by
  simp [pdiWriteRaw_eq]

@[simp] theorem pdiWriteRaw_target :
    (pdiWriteRaw line data count s).target =
      line.frames s.target (data.bytes s.ram count) := by
  simp [pdiWriteRaw_eq]

@[simp] theorem pdiWriteRaw_touched :
    (pdiWriteRaw line data count s).touched =
      s.touched ++ data.indices count := by
  simp [pdiWriteRaw_eq]

end PdiWriteRaw

/- A local array is read in full. -/
theorem Ptr.bytes_array
    (ram : Nat → UInt8)
    (bytes : List UInt8) :
    (Ptr.array bytes).bytes ram bytes.length = bytes := by
  induction bytes with
  | nil => rfl
  | cons b bytes ih =>
      simpa [Ptr.bytes] using ih

theorem pdiWriteRaw_array
    (line : Line τ)
    (bytes : List UInt8)
    (s : Fw τ) :
    pdiWriteRaw line (.array bytes) bytes.length s =
      feed line bytes s := by
  rw [pdiWriteRaw_eq, Ptr.bytes_array, Ptr.indices_array,
    touch_nil]

------------------------------------------------------------
-- Reads and Writes by Session State
------------------------------------------------------------

section Disabled

variable (line : Line τ) {s : Fw τ}

theorem pdiReadByte_disabled
    (hOff : s.pdiOn = false)
    (address : UInt32)
    (data : UInt8) :
    pdiReadByte line address data s =
      ((.pdiDisabled, data), s) := by
  simp [pdiReadByte, hOff]

theorem pdiWriteByte_disabled
    (hOff : s.pdiOn = false)
    (address : UInt32)
    (data : UInt8) :
    pdiWriteByte line address data s = (.pdiDisabled, s) := by
  simp [pdiWriteByte, hOff]

theorem pdiReadBytes_disabled
    (hOff : s.pdiOn = false)
    (start : UInt32)
    (data : Nat)
    (count : UInt16) :
    pdiReadBytes line start data count s =
      (.pdiDisabled, s) := by
  simp [pdiReadBytes, hOff]

theorem pdiWriteBytes_disabled
    (hOff : s.pdiOn = false)
    (start : UInt32)
    (data : Ptr)
    (count : UInt16) :
    pdiWriteBytes line start data count s =
      (.pdiDisabled, s) := by
  simp [pdiWriteBytes, hOff]

end Disabled

section Enabled

variable (line : Line τ) {s : Fw τ}

/- An enabled read sends `LDS` and takes one answer. -/
theorem pdiReadByte_enabled
    (hOn : s.pdiOn = true)
    (address : UInt32)
    (data : UInt8) :
    pdiReadByte line address data s =
      match readByte line
          (feed line (ldsFrames address) s) with
      | (none, s) =>
          ((.timeOut, data), s.logRead address none)
      | (some b, s) =>
          ((.noError, b), s.logRead address (some b)) := by
  simp only [pdiReadByte, hOn, Bool.true_eq_false,
    if_false, sendAddress_eq_feed]
  rfl

theorem pdiWriteByte_enabled
    (hOn : s.pdiOn = true)
    (address : UInt32)
    (data : UInt8) :
    pdiWriteByte line address data s =
      (.noError, feed line (stsFrames address data) s) := by
  simp only [pdiWriteByte, hOn, Bool.true_eq_false,
    if_false, sendAddress_eq_feed, stsFrames, feed_cons,
    feed_append, feed_nil]
  rfl

theorem pdiReadBytes_enabled
    (hOn : s.pdiOn = true)
    (start : UInt32)
    (data : Nat)
    (count : UInt16) :
    pdiReadBytes line start data count s =
      readLoop line count.toNat start data
        (feed line (streamFrames start count 0x24) s) := by
  simp only [pdiReadBytes, hOn, Bool.true_eq_false,
    if_false, sendStreamHeader_eq_feed]
  rfl

theorem pdiWriteBytes_enabled
    (hOn : s.pdiOn = true)
    (start : UInt32)
    (data : Ptr)
    (count : UInt16) :
    pdiWriteBytes line start data count s =
      (.noError, pdiWriteRaw line data count.toNat
        (feed line (streamFrames start count 0x64) s)) := by
  simp only [pdiWriteBytes, hOn, Bool.true_eq_false,
    if_false, sendStreamHeader_eq_feed]
  rfl

end Enabled

------------------------------------------------------------
-- The Session Flag
------------------------------------------------------------

section PdiOn

variable (line : Line τ) (s : Fw τ)

@[simp] theorem readLoop_pdiOn
    (n : Nat)
    (address : UInt32)
    (data : Nat) :
    (readLoop line n address data s).2.pdiOn = s.pdiOn := by
  induction n generalizing address data s with
  | zero => rfl
  | succ n ih =>
      have hRead := readByte_pdiOn line s
      rw [readLoop]
      split
      · rename_i s' hAnswer
        simpa [hAnswer] using hRead
      · rename_i b s' hAnswer
        rw [ih]
        simpa [hAnswer] using hRead

@[simp] theorem pdiReadByte_pdiOn
    (address : UInt32)
    (data : UInt8) :
    (pdiReadByte line address data s).2.pdiOn =
      s.pdiOn := by
  cases hOn : s.pdiOn with
  | false => simp [pdiReadByte_disabled line hOn, hOn]
  | true =>
      have hRead := readByte_pdiOn line
        (feed line (ldsFrames address) s)
      rw [pdiReadByte_enabled line hOn]
      split
      all_goals
        rename_i hAnswer
        simpa [hAnswer, hOn] using hRead

@[simp] theorem pdiWriteByte_pdiOn
    (address : UInt32)
    (data : UInt8) :
    (pdiWriteByte line address data s).2.pdiOn =
      s.pdiOn := by
  cases hOn : s.pdiOn with
  | false => simp [pdiWriteByte_disabled line hOn, hOn]
  | true => simp [pdiWriteByte_enabled line hOn, hOn]

@[simp] theorem pdiReadBytes_pdiOn
    (start : UInt32)
    (data : Nat)
    (count : UInt16) :
    (pdiReadBytes line start data count s).2.pdiOn =
      s.pdiOn := by
  cases hOn : s.pdiOn with
  | false => simp [pdiReadBytes_disabled line hOn, hOn]
  | true => simp [pdiReadBytes_enabled line hOn, hOn]

@[simp] theorem pdiWriteBytes_pdiOn
    (start : UInt32)
    (data : Ptr)
    (count : UInt16) :
    (pdiWriteBytes line start data count s).2.pdiOn =
      s.pdiOn := by
  cases hOn : s.pdiOn with
  | false => simp [pdiWriteBytes_disabled line hOn, hOn]
  | true => simp [pdiWriteBytes_enabled line hOn, hOn]

end PdiOn

------------------------------------------------------------
-- The Buffer
------------------------------------------------------------

section Ram

variable (line : Line τ) (s : Fw τ)

/- Only a read of several bytes stores into the buffer. -/
@[simp] theorem pdiReadByte_ram
    (address : UInt32)
    (data : UInt8) :
    (pdiReadByte line address data s).2.ram = s.ram := by
  cases hOn : s.pdiOn with
  | false => simp [pdiReadByte_disabled line hOn]
  | true =>
      have hRead := readByte_ram line
        (feed line (ldsFrames address) s)
      rw [pdiReadByte_enabled line hOn]
      split
      all_goals
        rename_i hAnswer
        simpa [hAnswer] using hRead

@[simp] theorem pdiWriteByte_ram
    (address : UInt32)
    (data : UInt8) :
    (pdiWriteByte line address data s).2.ram = s.ram := by
  cases hOn : s.pdiOn with
  | false => simp [pdiWriteByte_disabled line hOn]
  | true => simp [pdiWriteByte_enabled line hOn]

end Ram

end Lucax
