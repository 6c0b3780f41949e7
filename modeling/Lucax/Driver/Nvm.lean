import Lucax.Driver.PdiPhysical

/-
  The NVM controller driver (nvm.c, nvm.h).

  Key definitions include:
    * `nvmPointer`, `nvmCmd`, `trigCmdex`, `waitNvm`
    * `nvmChipErase`
    * `nvmReadByte`, `nvmReadBytes`
    * `nvmWriteByte`, `nvmPagedWrite`
-/

------------------------------------------------------------
-- Constants
------------------------------------------------------------

namespace Lucax

/- nvm.h: data space and the registers of the controller. -/
def pdiMemoryBase : UInt32 := 0x01000000
def nvmBase : UInt32 := 0x01C0
def nvmCmdReg : UInt32 := pdiMemoryBase + nvmBase + 0x000A
def nvmCtrlaReg : UInt32 := pdiMemoryBase + nvmBase + 0x000B
def nvmStatusReg : UInt32 := pdiMemoryBase + nvmBase + 0x000F

/- nvm.h: commands. -/
def cmdChipErase : UInt8 := 0x40
def cmdReadNvm : UInt8 := 0x43
def cmdLoadFlashPageBuffer : UInt8 := 0x23
def cmdEraseFlashPageBuffer : UInt8 := 0x26
def cmdEraseWriteFlashPage : UInt8 := 0x2F
def cmdLoadEepromPageBuffer : UInt8 := 0x33
def cmdEraseEepromPageBuffer : UInt8 := 0x36
def cmdEraseWriteEepromPage : UInt8 := 0x35
def cmdWriteFuse : UInt8 := 0x4C
def cmdWriteLock : UInt8 := 0x08

/- nvm.h: `PagedMemory` -/
inductive PagedMemory where
| flash
| eeprom
deriving DecidableEq, Repr

/- nvm.h: `ByteMemory` -/
inductive ByteMemory where
| fuse
| lock
deriving DecidableEq, Repr

/- The three commands a page write issues. -/
def PagedMemory.eraseBufferCmd : PagedMemory → UInt8
| .flash => cmdEraseFlashPageBuffer
| .eeprom => cmdEraseEepromPageBuffer

def PagedMemory.loadBufferCmd : PagedMemory → UInt8
| .flash => cmdLoadFlashPageBuffer
| .eeprom => cmdLoadEepromPageBuffer

def PagedMemory.eraseWriteCmd : PagedMemory → UInt8
| .flash => cmdEraseWriteFlashPage
| .eeprom => cmdEraseWriteEepromPage

/- The command a byte write issues. -/
def ByteMemory.writeCmd : ByteMemory → UInt8
| .lock => cmdWriteLock
| .fuse => cmdWriteFuse

variable {τ : Type}

------------------------------------------------------------
-- Controller Access
------------------------------------------------------------

def nvmPointer
    (line : Line τ)
    (c : UInt32)
    (s : Fw τ) : Fw τ :=
  pdiWriteRaw line
    (.array
      [pdiStoreIndirect ||| (ptr <<< 2) ||| sizeLong,
        c.toUInt8, (c >>> 8).toUInt8,
        (c >>> 16).toUInt8, (c >>> 24).toUInt8])
    5 s

/- The result of the register write is dropped. -/
def nvmCmd
    (line : Line τ)
    (c : UInt8)
    (s : Fw τ) : Fw τ :=
  (pdiWriteByte line nvmCmdReg c s).2

def trigCmdex
    (line : Line τ)
    (s : Fw τ) : Fw τ :=
  (pdiWriteByte line nvmCtrlaReg 0x01 s).2

/-
  The loop `while(wait--)` entered with the counter at `n`.
  `.ok wait` is the counter the loop is left with: the test
  that finds 0 still decrements it, to 255.
-/
def waitLoop
    (line : Line τ) :
    Nat → Fw τ → Except PdiResult UInt8 × Fw τ
| 0, s => (.ok (0 - 1), s)
| n + 1, s =>
    match pdiReadByte line nvmStatusReg 0 s with
    | ((.noError, status), s) =>
        if status &&& ((1 : UInt8) <<< 7) = 0 then
          (.ok (UInt8.ofNat n), s)
        else waitLoop line n s
    | ((ret, _), s) => (.error ret, s)

def waitNvm
    (line : Line τ)
    (s : Fw τ) : PdiResult × Fw τ :=
  match waitLoop line 0xff s with
  | (.error ret, s) => (ret, s)
  | (.ok wait, s) =>
      if wait = 0 then (.timeOut, s) else (.noError, s)

------------------------------------------------------------
-- Operations
------------------------------------------------------------

def nvmChipErase
    (line : Line τ)
    (s : Fw τ) : PdiResult × Fw τ :=
  let s := nvmCmd line cmdChipErase s
  let s := trigCmdex line s
  waitNvm line s

def nvmReadByte
    (line : Line τ)
    (address : UInt32)
    (data : UInt8)
    (s : Fw τ) : (PdiResult × UInt8) × Fw τ :=
  let s := nvmCmd line cmdReadNvm s
  pdiReadByte line address data s

def nvmReadBytes
    (line : Line τ)
    (address : UInt32)
    (data : Nat)
    (count : UInt16)
    (s : Fw τ) : PdiResult × Fw τ :=
  let s := nvmCmd line cmdReadNvm s
  pdiReadBytes line address data count s

def nvmWriteByte
    (line : Line τ)
    (address : UInt32)
    (data : UInt8)
    (mem : ByteMemory)
    (s : Fw τ) : PdiResult × Fw τ :=
  let s := nvmCmd line mem.writeCmd s
  let s := (pdiWriteByte line address data s).2
  let s := if mem = .lock then trigCmdex line s else s
  waitNvm line s

def nvmPagedWrite
    (line : Line τ)
    (address : UInt32)
    (data : Ptr)
    (count : UInt16)
    (mem : PagedMemory)
    (s : Fw τ) : PdiResult × Fw τ :=
  -- erase page buffer; the result of the wait is dropped
  let s := nvmPointer line address s
  let s := nvmCmd line mem.eraseBufferCmd s
  let s := trigCmdex line s
  let s := (waitNvm line s).2
  -- load page buffer
  let s := nvmCmd line mem.loadBufferCmd s
  let s := (pdiWriteBytes line address data count s).2
  -- erase and write; a dummy store triggers the command
  let s := nvmCmd line mem.eraseWriteCmd s
  let s := nvmPointer line address s
  let s :=
    pdiWriteRaw line
      (.array [pdiStoreIndirect ||| (ptrDataInc <<< 2), 0x00])
      2 s
  waitNvm line s

------------------------------------------------------------
-- Driver Calls
------------------------------------------------------------

/- A call of one of the result-returning driver functions. -/
inductive Call where
| pdiReadByte (address : UInt32)
| pdiWriteByte (address : UInt32) (data : UInt8)
| pdiReadBytes (start : UInt32) (data : Nat) (count : UInt16)
| pdiWriteBytes (start : UInt32) (data : Ptr) (count : UInt16)
| nvmChipErase
| nvmReadByte (address : UInt32)
| nvmReadBytes (address : UInt32) (data : Nat) (count : UInt16)
| nvmWriteByte
    (address : UInt32) (data : UInt8) (mem : ByteMemory)
| nvmPagedWrite
    (address : UInt32) (data : Ptr) (count : UInt16)
    (mem : PagedMemory)
deriving DecidableEq, Repr

/-
  The result of a call, with the byte a single-byte read
  leaves in `*data` (0 before the call).
-/
def Call.exec
    (line : Line τ) :
    Call → Fw τ → (PdiResult × UInt8) × Fw τ
| .pdiReadByte address, s =>
    Lucax.pdiReadByte line address 0 s
| .pdiWriteByte address data, s =>
    let out := Lucax.pdiWriteByte line address data s
    ((out.1, 0), out.2)
| .pdiReadBytes start data count, s =>
    let out := Lucax.pdiReadBytes line start data count s
    ((out.1, 0), out.2)
| .pdiWriteBytes start data count, s =>
    let out := Lucax.pdiWriteBytes line start data count s
    ((out.1, 0), out.2)
| .nvmChipErase, s =>
    let out := Lucax.nvmChipErase line s
    ((out.1, 0), out.2)
| .nvmReadByte address, s =>
    Lucax.nvmReadByte line address 0 s
| .nvmReadBytes address data count, s =>
    let out := Lucax.nvmReadBytes line address data count s
    ((out.1, 0), out.2)
| .nvmWriteByte address data mem, s =>
    let out := Lucax.nvmWriteByte line address data mem s
    ((out.1, 0), out.2)
| .nvmPagedWrite address data count mem, s =>
    let out := Lucax.nvmPagedWrite line address data count mem s
    ((out.1, 0), out.2)

------------------------------------------------------------
-- Operations by Session State
------------------------------------------------------------

/- The bytes `c`, `c>>8`, `c>>16` and `c>>24`. -/
theorem leBytes_four
    (c : UInt32) :
    [c.toUInt8, (c >>> 8).toUInt8, (c >>> 16).toUInt8,
        (c >>> 24).toUInt8] =
      ByteOrder.leBytes 4 c.toNat := by
  simp only [ByteOrder.leBytes, Nat.div_div_eq_div_mul]
  rw [← UInt8.ofNat_uInt32ToNat, ← UInt8.ofNat_uInt32ToNat,
    ← UInt8.ofNat_uInt32ToNat, ← UInt8.ofNat_uInt32ToNat]
  simp only [UInt32.toNat_shiftRight,
    Nat.shiftRight_eq_div_pow]
  rfl

/- The pointer is loaded by one raw write. -/
theorem nvmPointer_eq_feed
    (line : Line τ)
    (c : UInt32)
    (s : Fw τ) :
    nvmPointer line c s = feed line (pointerFrames c) s := by
  unfold nvmPointer
  rw [leBytes_four]
  exact pdiWriteRaw_array line (pointerFrames c) s

/- The dummy store is one raw write. -/
theorem dummyStore_eq_feed
    (line : Line τ)
    (s : Fw τ) :
    pdiWriteRaw line
        (.array
          [pdiStoreIndirect ||| (ptrDataInc <<< 2), 0x00])
        2 s =
      feed line [0x64, 0x00] s :=
  pdiWriteRaw_array line [0x64, 0x00] s

section Disabled

variable (line : Line τ) {s : Fw τ}

theorem nvmCmd_disabled
    (hOff : s.pdiOn = false)
    (c : UInt8) :
    nvmCmd line c s = s := by
  simp [nvmCmd, pdiWriteByte_disabled line hOff]

theorem trigCmdex_disabled
    (hOff : s.pdiOn = false) :
    trigCmdex line s = s := by
  simp [trigCmdex, pdiWriteByte_disabled line hOff]

theorem waitNvm_disabled
    (hOff : s.pdiOn = false) :
    waitNvm line s = (.pdiDisabled, s) := by
  simp [waitNvm, waitLoop, pdiReadByte_disabled line hOff]

/-
  A page write with PDI disabled skips every guarded step
  and sends its three raw writes.
-/
theorem nvmPagedWrite_disabled
    (hOff : s.pdiOn = false)
    (address : UInt32)
    (data : Ptr)
    (count : UInt16)
    (mem : PagedMemory) :
    nvmPagedWrite line address data count mem s =
      (.pdiDisabled,
        feed line
          (pointerFrames address ++ pointerFrames address ++
            [0x64, 0x00]) s) := by
  have hFirst :
      (feed line (pointerFrames address) s).pdiOn = false :=
    by simpa using hOff
  have hLast :
      (feed line [0x64, 0x00]
        (feed line (pointerFrames address)
          (feed line (pointerFrames address) s))).pdiOn =
        false := by
    simpa using hOff
  simp only [nvmPagedWrite, nvmPointer_eq_feed,
    nvmCmd_disabled line hFirst,
    trigCmdex_disabled line hFirst,
    waitNvm_disabled line hFirst,
    pdiWriteBytes_disabled line hFirst, dummyStore_eq_feed,
    waitNvm_disabled line hLast, feed_append]

end Disabled

section PdiOn

variable (line : Line τ) (s : Fw τ)

@[simp] theorem nvmCmd_pdiOn
    (c : UInt8) :
    (nvmCmd line c s).pdiOn = s.pdiOn :=
  pdiWriteByte_pdiOn line s nvmCmdReg c

@[simp] theorem trigCmdex_pdiOn :
    (trigCmdex line s).pdiOn = s.pdiOn :=
  pdiWriteByte_pdiOn line s nvmCtrlaReg 0x01

@[simp] theorem waitLoop_pdiOn
    (n : Nat) :
    (waitLoop line n s).2.pdiOn = s.pdiOn := by
  induction n generalizing s with
  | zero => rfl
  | succ n ih =>
      have hRead :=
        pdiReadByte_pdiOn line s nvmStatusReg 0
      rw [waitLoop]
      split
      · rename_i status s' hPoll
        have hSame : s'.pdiOn = s.pdiOn := by
          simpa [hPoll] using hRead
        split
        · exact hSame
        · rw [ih, hSame]
      · rename_i ret status s' hFailed hPoll
        simpa [hPoll] using hRead

@[simp] theorem waitNvm_pdiOn :
    (waitNvm line s).2.pdiOn = s.pdiOn := by
  have hLoop := waitLoop_pdiOn line s 0xff
  unfold waitNvm
  split
  · rename_i ret s' hEnd
    simpa [hEnd] using hLoop
  · rename_i wait s' hEnd
    split
    all_goals simpa [hEnd] using hLoop

/- No driver call moves the session flag. -/
theorem Call.exec_pdiOn
    (call : Call) :
    (call.exec line s).2.pdiOn = s.pdiOn := by
  cases call with
  | pdiReadByte address => simp [Call.exec]
  | pdiWriteByte address data => simp [Call.exec]
  | pdiReadBytes start data count => simp [Call.exec]
  | pdiWriteBytes start data count => simp [Call.exec]
  | nvmChipErase => simp [Call.exec, Lucax.nvmChipErase]
  | nvmReadByte address =>
      simp [Call.exec, Lucax.nvmReadByte]
  | nvmReadBytes address data count =>
      simp [Call.exec, Lucax.nvmReadBytes]
  | nvmWriteByte address data mem =>
      cases mem <;> simp [Call.exec, Lucax.nvmWriteByte]
  | nvmPagedWrite address data count mem =>
      simp [Call.exec, Lucax.nvmPagedWrite,
        nvmPointer_eq_feed]

end PdiOn

------------------------------------------------------------
-- The Buffer
------------------------------------------------------------

section Ram

variable (line : Line τ) (s : Fw τ)

@[simp] theorem waitLoop_ram
    (n : Nat) :
    (waitLoop line n s).2.ram = s.ram := by
  induction n generalizing s with
  | zero => rfl
  | succ n ih =>
      have hRead :=
        pdiReadByte_ram line s nvmStatusReg 0
      rw [waitLoop]
      split
      · rename_i status s' hPoll
        have hSame : s'.ram = s.ram := by
          simpa [hPoll] using hRead
        split
        · exact hSame
        · rw [ih, hSame]
      · rename_i ret status s' hFailed hPoll
        simpa [hPoll] using hRead

@[simp] theorem waitNvm_ram :
    (waitNvm line s).2.ram = s.ram := by
  have hLoop := waitLoop_ram line s 0xff
  unfold waitNvm
  split
  · rename_i ret s' hEnd
    simpa [hEnd] using hLoop
  · rename_i wait s' hEnd
    split
    all_goals simpa [hEnd] using hLoop

end Ram

end Lucax
