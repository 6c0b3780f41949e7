import Lucax.Common.Simulation
import Lucax.Target.Decoder

/-
  The driver calls as operations directly on the bus, and the
  proof that the driver over a decoding target does exactly
  these.

  Key definitions include:
    * `Direct`, `Direct.load`, `Direct.store`
    * `Direct.call`
    * `Reflects`
    * `Call.CountPos`

  Main declarations:
    * `Reflects.call`
    * `Reflects.runAll`
-/

------------------------------------------------------------
-- Direct Access
------------------------------------------------------------

namespace Lucax

open Simulation

/-
  A programmer wired straight to the bus: the bus state, the
  accesses made and the memory behind `buffer`.
-/
structure Direct (β : Type) where
  bus : β
  log : List Access
  ram : Nat → UInt8

/- The address after the first of a run of accesses. -/
theorem address_succ
    (start : UInt32)
    (i : Nat) :
    start + (UInt32.ofNat i + 1) =
      start + 1 + UInt32.ofNat i := by
  rw [UInt32.add_comm (UInt32.ofNat i), UInt32.add_assoc]

theorem address_ofNat_succ
    (start : UInt32)
    (i : Nat) :
    start + UInt32.ofNat (i + 1) =
      start + 1 + UInt32.ofNat i := by
  rw [UInt32.ofNat_add]
  exact address_succ start i

/- Bit 7 of a status with `NVMBUSY` clear. -/
theorem status_clear
    (v : UInt8) :
    (v &&& (0x7F : UInt8)) &&& ((1 : UInt8) <<< 7) = 0 := by
  have hMask : (0x7F : UInt8) &&& ((1 : UInt8) <<< 7) = 0 := by
    decide
  rw [UInt8.and_assoc, hMask, UInt8.and_zero]

/- Bit 7 of a status with `NVMBUSY` set. -/
theorem status_set
    (v : UInt8) :
    (v ||| (0x80 : UInt8)) &&& ((1 : UInt8) <<< 7) ≠ 0 := by
  have hMask : ((1 : UInt8) <<< 7) = 0x80 := by decide
  have hAbsorb : (v ||| 0x80) &&& 0x80 = (0x80 : UInt8) := by
    apply UInt8.toBitVec_inj.mp
    ext i hi
    cases hBit : (0x80 : UInt8).toBitVec[i] <;> simp_all
  rw [hMask, hAbsorb]
  decide

namespace Direct

variable {β : Type}

/- One load. -/
def load
    (bus : Bus β)
    (address : UInt32)
    (k : Direct β) : Option UInt8 × Direct β :=
  let out := bus.load k.bus address
  (out.1,
    { k with
      bus := out.2
      log := k.log ++ [.load address out.1] })

/- One store. -/
def store
    (bus : Bus β)
    (address : UInt32)
    (data : UInt8)
    (k : Direct β) : Direct β :=
  { k with
    bus := bus.store k.bus address data
    log := k.log ++ [.store address data] }

/- Put a received byte into memory. -/
def put
    (i : Nat)
    (b : UInt8)
    (k : Direct β) : Direct β :=
  { k with ram := fun j => if j = i then b else k.ram j }

/- Stores at consecutive addresses. -/
def stores
    (bus : Bus β) :
    UInt32 → List UInt8 → Direct β → Direct β
| _, [], k => k
| address, b :: bytes, k =>
    stores bus (address + 1) bytes (store bus address b k)

/- Loads from consecutive addresses into memory. -/
def loads
    (bus : Bus β) :
    Nat → UInt32 → Nat → Direct β → PdiResult × Direct β
| 0, _, _, k => (.noError, k)
| n + 1, address, data, k =>
    match load bus address k with
    | (none, k) => (.timeOut, k)
    | (some b, k) =>
        loads bus n (address + 1) (data + 1) (put data b k)

/- One load with the result of `pdi_read_byte`. -/
def readByte
    (bus : Bus β)
    (address : UInt32)
    (k : Direct β) : (PdiResult × UInt8) × Direct β :=
  match load bus address k with
  | (none, k) => ((.timeOut, 0), k)
  | (some b, k) => ((.noError, b), k)

/- Status polls, at most `n`, until BUSY is seen clear. -/
def polls
    (bus : Bus β) :
    Nat → Direct β → Except PdiResult UInt8 × Direct β
| 0, k => (.ok 255, k)
| n + 1, k =>
    match load bus nvmStatusReg k with
    | (none, k) => (.error .timeOut, k)
    | (some status, k) =>
        if status &&& ((1 : UInt8) <<< 7) = 0 then
          (.ok (UInt8.ofNat n), k)
        else polls bus n k

/- The polls of `wait_nvm`. -/
def wait
    (bus : Bus β)
    (k : Direct β) : PdiResult × Direct β :=
  match polls bus 255 k with
  | (.error ret, k) => (ret, k)
  | (.ok left, k) =>
      if left = 0 then (.timeOut, k) else (.noError, k)

/- Write the command register. -/
def command
    (bus : Bus β)
    (c : UInt8)
    (k : Direct β) : Direct β :=
  store bus nvmCmdReg c k

/- Trigger the command. -/
def trigger
    (bus : Bus β)
    (k : Direct β) : Direct β :=
  store bus nvmCtrlaReg 0x01 k

/- A page write up to and with its first wait. -/
def erasePageBuffer
    (bus : Bus β)
    (mem : PagedMemory)
    (k : Direct β) : PdiResult × Direct β :=
  wait bus (trigger bus (command bus mem.eraseBufferCmd k))

/- The accesses of a page write after its first wait. -/
def loadAndWritePage
    (bus : Bus β)
    (address : UInt32)
    (bytes : List UInt8)
    (mem : PagedMemory)
    (k : Direct β) : PdiResult × Direct β :=
  let k := command bus mem.loadBufferCmd k
  let k := stores bus address bytes k
  let k := command bus mem.eraseWriteCmd k
  wait bus (store bus address 0x00 k)

/- The bus accesses a driver call stands for. -/
def call
    (bus : Bus β) :
    Call → Direct β → (PdiResult × UInt8) × Direct β
| .pdiReadByte address, k => readByte bus address k
| .pdiWriteByte address data, k =>
    ((.noError, 0), store bus address data k)
| .pdiReadBytes start data count, k =>
    let out := loads bus count.toNat start data k
    ((out.1, 0), out.2)
| .pdiWriteBytes start data count, k =>
    ((.noError, 0),
      stores bus start (data.bytes k.ram count.toNat) k)
| .nvmChipErase, k =>
    let out := wait bus (trigger bus (command bus cmdChipErase k))
    ((out.1, 0), out.2)
| .nvmReadByte address, k =>
    readByte bus address (command bus cmdReadNvm k)
| .nvmReadBytes address data count, k =>
    let out :=
      loads bus count.toNat address data
        (command bus cmdReadNvm k)
    ((out.1, 0), out.2)
| .nvmWriteByte address data mem, k =>
    let k := command bus mem.writeCmd k
    let k := store bus address data k
    let k := if mem = .lock then trigger bus k else k
    let out := wait bus k
    ((out.1, 0), out.2)
| .nvmPagedWrite address data count mem, k =>
    let out :=
      loadAndWritePage bus address
        (data.bytes k.ram count.toNat) mem
        (erasePageBuffer bus mem k).2
    ((out.1, 0), out.2)

section Ram

variable (bus : Bus β) (k : Direct β)

@[simp] theorem load_ram
    (address : UInt32) :
    (load bus address k).2.ram = k.ram := rfl

@[simp] theorem store_ram
    (address : UInt32)
    (data : UInt8) :
    (store bus address data k).ram = k.ram := rfl

@[simp] theorem command_ram
    (c : UInt8) :
    (command bus c k).ram = k.ram := rfl

@[simp] theorem trigger_ram :
    (trigger bus k).ram = k.ram := rfl

@[simp] theorem stores_ram
    (address : UInt32)
    (bytes : List UInt8) :
    (stores bus address bytes k).ram = k.ram := by
  induction bytes generalizing address k with
  | nil => rfl
  | cons b bytes ih => rw [stores, ih, store_ram]

@[simp] theorem polls_ram
    (n : Nat) :
    (polls bus n k).2.ram = k.ram := by
  induction n generalizing k with
  | zero => rfl
  | succ n ih =>
      have hLoad := load_ram bus k nvmStatusReg
      rw [polls]
      split
      · rename_i after hPoll
        simpa [hPoll] using hLoad
      · rename_i status after hPoll
        have hSame : after.ram = k.ram := by
          simpa [hPoll] using hLoad
        split
        · exact hSame
        · rw [ih, hSame]

@[simp] theorem wait_ram :
    (wait bus k).2.ram = k.ram := by
  have hPolls := polls_ram bus k 255
  unfold wait
  split
  · rename_i ret after hEnd
    simpa [hEnd] using hPolls
  · rename_i left after hEnd
    split
    all_goals simpa [hEnd] using hPolls

@[simp] theorem erasePageBuffer_ram
    (mem : PagedMemory) :
    (erasePageBuffer bus mem k).2.ram = k.ram := by
  simp [erasePageBuffer]

end Ram

end Direct

------------------------------------------------------------
-- Reflection
------------------------------------------------------------

variable {β : Type}

/-
  An open session whose decoder is at an instruction boundary
  agrees with a directly wired programmer.
-/
structure Reflects
    (s : Fw (Decoder β))
    (k : Direct β) : Prop where
  open_ : s.pdiOn = true
  boundary : s.target.AtBoundary
  bus : s.target.bus = k.bus
  log : s.target.log = k.log
  ram : s.ram = k.ram

/- The programmer an open session at a boundary reflects. -/
def Fw.direct (s : Fw (Decoder β)) : Direct β where
  bus := s.target.bus
  log := s.target.log
  ram := s.ram

theorem reflects_direct
    {s : Fw (Decoder β)}
    (hOpen : s.pdiOn = true)
    (hBoundary : s.target.AtBoundary) :
    Reflects s s.direct :=
  ⟨hOpen, hBoundary, rfl, rfl, rfl⟩

namespace Reflects

variable {s : Fw (Decoder β)} {k : Direct β}

/- A moved pointer register is invisible on the bus. -/
theorem pointer
    (bus : Bus β)
    (hReflects : Reflects s k)
    (address : UInt32) :
    Reflects (nvmPointer (Decoder.line bus) address s) k := by
  rcases hReflects with
    ⟨hOpen, ⟨hPhase, hReps⟩, hBus, hLog, hRam⟩
  rw [nvmPointer_eq_feed]
  constructor
  · simpa using hOpen
  · simp [Decoder.frames_pointer bus hPhase,
      Decoder.AtBoundary, hPhase, hReps]
  · simp [Decoder.frames_pointer bus hPhase, hBus]
  · simp [Decoder.frames_pointer bus hPhase, hLog]
  · simpa using hRam

/- `pdi_write_byte` is one store. -/
theorem writeByte
    (bus : Bus β)
    (hReflects : Reflects s k)
    (address : UInt32)
    (data : UInt8) :
    (pdiWriteByte (Decoder.line bus) address data s).1 =
        .noError ∧
      Reflects
        (pdiWriteByte (Decoder.line bus) address data s).2
        (Direct.store bus address data k) := by
  rcases hReflects with
    ⟨hOpen, ⟨hPhase, hReps⟩, hBus, hLog, hRam⟩
  rw [pdiWriteByte_enabled _ hOpen]
  refine ⟨rfl, ?_⟩
  constructor
  · simpa using hOpen
  · simp [Decoder.frames_sts bus hPhase, Decoder.store,
      Decoder.AtBoundary, hPhase, hReps]
  · simp [Decoder.frames_sts bus hPhase, Decoder.store,
      Direct.store, hBus]
  · simp [Decoder.frames_sts bus hPhase, Decoder.store,
      Direct.store, hLog]
  · simpa [Direct.store] using hRam

theorem command
    (bus : Bus β)
    (hReflects : Reflects s k)
    (c : UInt8) :
    Reflects (nvmCmd (Decoder.line bus) c s)
      (Direct.command bus c k) :=
  (hReflects.writeByte bus nvmCmdReg c).2

theorem trigger
    (bus : Bus β)
    (hReflects : Reflects s k) :
    Reflects (trigCmdex (Decoder.line bus) s)
      (Direct.trigger bus k) :=
  (hReflects.writeByte bus nvmCtrlaReg 0x01).2

/- The read log is not part of what is reflected. -/
theorem logRead
    (hReflects : Reflects s k)
    (address : UInt32)
    (reply : Option UInt8) :
    Reflects (s.logRead address reply) k :=
  ⟨hReflects.open_, hReflects.boundary, hReflects.bus,
    hReflects.log, hReflects.ram⟩

/- A received byte is put at the same place. -/
theorem storeByte
    (hReflects : Reflects s k)
    (i : Nat)
    (b : UInt8) :
    Reflects (s.storeByte i b) (Direct.put i b k) := by
  rcases hReflects with
    ⟨hOpen, hBoundary, hBus, hLog, hRam⟩
  refine ⟨hOpen, hBoundary, hBus, hLog, ?_⟩
  simp [Fw.storeByte, Direct.put, hRam]

/- `pdi_read_byte` is one load. -/
theorem readByte
    (bus : Bus β)
    (hReflects : Reflects s k)
    (address : UInt32) :
    (pdiReadByte (Decoder.line bus) address 0 s).1 =
        (Direct.readByte bus address k).1 ∧
      Reflects
        (pdiReadByte (Decoder.line bus) address 0 s).2
        (Direct.readByte bus address k).2 := by
  rcases hReflects with
    ⟨hOpen, ⟨hPhase, hReps⟩, hBus, hLog, hRam⟩
  rcases readByte_eq (Decoder.line bus)
      (feed (Decoder.line bus) (ldsFrames address) s) with
    ⟨after, hRead, hTarget, hOn, hSame⟩
  simp only [feed_target, Decoder.frames_lds bus hPhase,
    Decoder.line_reply, Decoder.reply, hBus]
    at hRead hTarget
  have hAfter :
      Reflects after (Direct.load bus address k).2 := by
    constructor
    · simpa [hOn] using hOpen
    · simp [hTarget, Decoder.AtBoundary, hReps]
    · simp [hTarget, Direct.load]
    · simp [hTarget, Direct.load, hLog]
    · simpa [hSame] using hRam
  rw [pdiReadByte_enabled _ hOpen, hRead]
  unfold Direct.readByte
  cases hLoad : (bus.load k.bus address).1 with
  | none =>
      simp only [Direct.load, hLoad] at hAfter ⊢
      exact ⟨trivial, hAfter.logRead address none⟩
  | some v =>
      simp only [Direct.load, hLoad] at hAfter ⊢
      exact ⟨trivial, hAfter.logRead address (some v)⟩

/- The poll loop of `wait_nvm` polls the bus. -/
theorem waitLoop
    (bus : Bus β)
    (hReflects : Reflects s k)
    (n : Nat) :
    (Lucax.waitLoop (Decoder.line bus) n s).1 =
        (Direct.polls bus n k).1 ∧
      Reflects (Lucax.waitLoop (Decoder.line bus) n s).2
        (Direct.polls bus n k).2 := by
  induction n generalizing s k with
  | zero =>
      exact ⟨rfl, hReflects⟩
  | succ n ih =>
      have hRead := hReflects.readByte bus nvmStatusReg
      simp only [Lucax.waitLoop, Direct.polls]
      simp only [Direct.readByte] at hRead
      generalize
        pdiReadByte (Decoder.line bus) nvmStatusReg 0 s =
          read at hRead ⊢
      generalize Direct.load bus nvmStatusReg k = out
        at hRead ⊢
      rcases read with ⟨⟨ret, status⟩, after⟩
      rcases out with ⟨answer, k'⟩
      cases answer with
      | none =>
          rcases hRead with ⟨hResult, hAfter⟩
          cases hResult
          exact ⟨rfl, hAfter⟩
      | some v =>
          rcases hRead with ⟨hResult, hAfter⟩
          cases hResult
          by_cases hClear :
              status &&& ((1 : UInt8) <<< 7) = 0
          · simp only [hClear, if_true]
            exact ⟨trivial, hAfter⟩
          · simp only [hClear, if_false]
            exact ih hAfter

/- `wait_nvm` over the decoder waits on the bus. -/
theorem wait
    (bus : Bus β)
    (hReflects : Reflects s k) :
    (waitNvm (Decoder.line bus) s).1 =
        (Direct.wait bus k).1 ∧
      Reflects (waitNvm (Decoder.line bus) s).2
        (Direct.wait bus k).2 := by
  have hLoop := hReflects.waitLoop bus 255
  unfold waitNvm Direct.wait
  generalize Lucax.waitLoop (Decoder.line bus) 255 s = loop
    at hLoop ⊢
  generalize Direct.polls bus 255 k = polled at hLoop ⊢
  rcases loop with ⟨left, after⟩
  rcases polled with ⟨left', k'⟩
  rcases hLoop with ⟨hLeft, hAfter⟩
  simp only at hLeft
  subst hLeft
  cases left with
  | error ret =>
      exact ⟨rfl, hAfter⟩
  | ok left =>
      by_cases hZero : left = 0
      · simp only [hZero, if_true]
        exact ⟨trivial, hAfter⟩
      · simp only [hZero, if_false]
        exact ⟨trivial, hAfter⟩

end Reflects

------------------------------------------------------------
-- Streamed Loads
------------------------------------------------------------

/-
  A decoder that owes `left + 1` bytes from `address` on, in
  an open session that otherwise agrees with `k`.
-/
structure Owes
    (left : Nat)
    (address : UInt32)
    (s : Fw (Decoder β))
    (k : Direct β) : Prop where
  open_ : s.pdiOn = true
  phase : s.target.phase = .loading left
  pointer : s.target.pointer = address
  repetitions : s.target.repetitions = 0
  bus : s.target.bus = k.bus
  log : s.target.log = k.log
  ram : s.ram = k.ram

namespace Owes

variable {left : Nat} {address : UInt32}
variable {s : Fw (Decoder β)} {k : Direct β}

/- The last byte owed is one load. -/
theorem readLast
    (bus : Bus β)
    (hOwes : Owes 0 address s k) :
    ∃ after,
      Lucax.readByte (Decoder.line bus) s =
          ((Direct.load bus address k).1, after) ∧
        Reflects after (Direct.load bus address k).2 := by
  rcases hOwes with
    ⟨hOpen, hPhase, hPointer, hReps, hBus, hLog, hRam⟩
  rcases readByte_eq (Decoder.line bus) s with
    ⟨after, hRead, hTarget, hOn, hSame⟩
  simp only [Decoder.line_reply, Decoder.reply, hPhase,
    hPointer, hBus] at hRead hTarget
  refine ⟨after, hRead, ?_⟩
  constructor
  · simpa [hOn] using hOpen
  · simp [hTarget, Decoder.AtBoundary, hReps]
  · simp [hTarget, Direct.load]
  · simp [hTarget, Direct.load, hLog]
  · simpa [hSame] using hRam

/-
  An earlier byte owed is one load; unanswered, it ends the
  instruction.
-/
theorem readNext
    (bus : Bus β)
    (hOwes : Owes (left + 1) address s k) :
    ∃ after,
      Lucax.readByte (Decoder.line bus) s =
          ((Direct.load bus address k).1, after) ∧
        ((Direct.load bus address k).1 = none →
          Reflects after (Direct.load bus address k).2) ∧
        ((Direct.load bus address k).1 ≠ none →
          Owes left (address + 1) after
            (Direct.load bus address k).2) := by
  rcases hOwes with
    ⟨hOpen, hPhase, hPointer, hReps, hBus, hLog, hRam⟩
  rcases readByte_eq (Decoder.line bus) s with
    ⟨after, hRead, hTarget, hOn, hSame⟩
  simp only [Decoder.line_reply, Decoder.reply, hPhase,
    hPointer, hBus] at hRead hTarget
  refine ⟨after, hRead, ?_, ?_⟩
  · intro hNone
    simp only [Direct.load] at hNone
    constructor
    · simpa [hOn] using hOpen
    · simp [hTarget, Decoder.AtBoundary, hReps, hNone]
    · simp [hTarget, Direct.load]
    · simp [hTarget, Direct.load, hLog]
    · simpa [hSame] using hRam
  · intro hSome
    rcases Option.ne_none_iff_exists'.mp hSome with ⟨v, hV⟩
    simp only [Direct.load] at hV
    constructor
    · simpa [hOn] using hOpen
    · simp [hTarget, hV]
    · simp [hTarget]
    · simpa [hTarget] using hReps
    · simp [hTarget, Direct.load]
    · simp [hTarget, Direct.load, hLog]
    · simpa [hSame] using hRam

/- Log and memory updates do not touch the line. -/
theorem received
    (hOwes : Owes left address s k)
    (readAt : UInt32)
    (data : Nat)
    (b : UInt8) :
    Owes left address
      ((s.logRead readAt (some b)).storeByte data b)
      (Direct.put data b k) := by
  rcases hOwes with
    ⟨hOpen, hPhase, hPointer, hReps, hBus, hLog, hRam⟩
  refine
    ⟨hOpen, hPhase, hPointer, hReps, hBus, hLog, ?_⟩
  simp [Fw.storeByte, Direct.put, hRam]

/- The receive loop takes exactly the bytes owed. -/
theorem readLoop
    (bus : Bus β)
    (hOwes : Owes left address s k)
    (data : Nat) :
    (Lucax.readLoop (Decoder.line bus) (left + 1)
          address data s).1 =
        (Direct.loads bus (left + 1) address data k).1 ∧
      Reflects
        (Lucax.readLoop (Decoder.line bus) (left + 1)
          address data s).2
        (Direct.loads bus (left + 1) address data k).2 := by
  induction left generalizing address data s k with
  | zero =>
      rcases hOwes.readLast bus with
        ⟨after, hRead, hAfter⟩
      rw [Lucax.readLoop, hRead, Direct.loads]
      rcases hLoad : Direct.load bus address k with
        ⟨answer, k'⟩
      rw [hLoad] at hAfter
      cases answer with
      | none =>
          exact ⟨rfl, hAfter.logRead address none⟩
      | some v =>
          exact ⟨rfl,
            (hAfter.logRead address (some v)).storeByte
              data v⟩
  | succ left ih =>
      rcases hOwes.readNext bus with
        ⟨after, hRead, hNone, hSome⟩
      rw [Lucax.readLoop, hRead, Direct.loads]
      rcases hLoad : Direct.load bus address k with
        ⟨answer, k'⟩
      rw [hLoad] at hNone hSome
      cases answer with
      | none =>
          exact ⟨rfl, (hNone rfl).logRead address none⟩
      | some v =>
          exact ih
            ((hSome (by simp)).received address data v)
            (data + 1)

end Owes

------------------------------------------------------------
-- Streamed Stores
------------------------------------------------------------

/- Consecutive stores leave the decoder where it was. -/
theorem Decoder.storeAll_phase
    (bus : Bus β)
    (bytes : List UInt8)
    (d : Decoder β) :
    (Decoder.storeAll bus bytes d).phase = d.phase ∧
      (Decoder.storeAll bus bytes d).repetitions =
        d.repetitions := by
  induction bytes generalizing d with
  | nil =>
      exact ⟨rfl, rfl⟩
  | cons b bytes ih =>
      simpa [Decoder.storeAll, Decoder.store] using
        ih { Decoder.store bus d.pointer b d with
          pointer := d.pointer + 1 }

/- Consecutive stores through the pointer are bus stores. -/
theorem Decoder.storeAll_direct
    (bus : Bus β)
    (bytes : List UInt8)
    {d : Decoder β}
    {k : Direct β}
    (hBus : d.bus = k.bus)
    (hLog : d.log = k.log) :
    (Decoder.storeAll bus bytes d).bus =
        (Direct.stores bus d.pointer bytes k).bus ∧
      (Decoder.storeAll bus bytes d).log =
        (Direct.stores bus d.pointer bytes k).log := by
  induction bytes generalizing d k with
  | nil =>
      exact ⟨hBus, hLog⟩
  | cons b bytes ih =>
      have hNext :=
        ih (d := { Decoder.store bus d.pointer b d with
              pointer := d.pointer + 1 })
          (k := Direct.store bus d.pointer b k)
          (by simp [Decoder.store, Direct.store, hBus])
          (by simp [Decoder.store, Direct.store, hLog])
      simpa [Decoder.storeAll, Direct.stores] using hNext

/-
  A nonzero count is one more than the repeat operand sent
  for it.
-/
theorem repeatOperand_succ
    {count : UInt16}
    (hPos : count ≠ 0) :
    count.toNat = (count - 1).toNat + 1 := by
  have hNat : count.toNat ≠ 0 := by
    intro hZero
    exact hPos (UInt16.toNat_inj.mp hZero)
  have hOne : (1 : UInt16) ≤ count := by
    rw [UInt16.le_iff_toNat_le]
    simp
    omega
  rw [UInt16.toNat_sub_of_le _ _ hOne]
  simp
  omega

namespace Reflects

variable {s : Fw (Decoder β)} {k : Direct β}

/- `pdi_write_bytes` is a run of stores. -/
theorem writeBytes
    (bus : Bus β)
    (hReflects : Reflects s k)
    (start : UInt32)
    (data : Ptr)
    {count : UInt16}
    (hPos : count ≠ 0) :
    (pdiWriteBytes (Decoder.line bus) start data count s).1 =
        .noError ∧
      Reflects
        (pdiWriteBytes (Decoder.line bus) start data count
          s).2
        (Direct.stores bus start
          (data.bytes k.ram count.toNat) k) := by
  rcases hReflects with
    ⟨hOpen, ⟨hPhase, hReps⟩, hBus, hLog, hRam⟩
  rw [pdiWriteBytes_enabled _ hOpen]
  refine ⟨rfl, ?_⟩
  have hHeader :
      Decoder.decodeOpcode 0x64
          { s.target with
            pointer := start
            repetitions := (count - 1).toNat } =
        { s.target with
          phase := .storing (count - 1).toNat
          pointer := start
          repetitions := 0 } := rfl
  have hLength :
      (data.bytes k.ram count.toNat).length =
        (count - 1).toNat + 1 := by
    rw [Ptr.bytes_length, repeatOperand_succ hPos]
  have hTarget :
      (pdiWriteRaw (Decoder.line bus) data count.toNat
          (feed (Decoder.line bus)
            (streamFrames start count 0x64) s)).target =
        Decoder.storeAll bus (data.bytes k.ram count.toNat)
          { s.target with
            phase := .opcode
            pointer := start
            repetitions := 0 } := by
    rw [pdiWriteRaw_target, feed_target, feed_ram, hRam,
      Decoder.frames_stream bus hPhase, hHeader,
      Decoder.frames_stores bus _ rfl hLength]
  have hStays := Decoder.storeAll_phase bus
    (data.bytes k.ram count.toNat)
    { s.target with
      phase := .opcode, pointer := start, repetitions := 0 }
  have hStores := Decoder.storeAll_direct bus
    (data.bytes k.ram count.toNat)
    (d := { s.target with
      phase := .opcode, pointer := start, repetitions := 0 })
    (k := k) hBus hLog
  constructor
  · simpa using hOpen
  · rw [hTarget]
    exact hStays
  · rw [hTarget]
    exact hStores.1
  · rw [hTarget]
    exact hStores.2
  · simpa using hRam

/- `pdi_read_bytes` is a run of loads. -/
theorem readBytes
    (bus : Bus β)
    (hReflects : Reflects s k)
    (start : UInt32)
    (data : Nat)
    {count : UInt16}
    (hPos : count ≠ 0) :
    (pdiReadBytes (Decoder.line bus) start data count s).1 =
        (Direct.loads bus count.toNat start data k).1 ∧
      Reflects
        (pdiReadBytes (Decoder.line bus) start data count s).2
        (Direct.loads bus count.toNat start data k).2 := by
  rcases hReflects with
    ⟨hOpen, ⟨hPhase, hReps⟩, hBus, hLog, hRam⟩
  have hHeader :
      Decoder.decodeOpcode 0x24
          { s.target with
            pointer := start
            repetitions := (count - 1).toNat } =
        { s.target with
          phase := .loading (count - 1).toNat
          pointer := start
          repetitions := 0 } := rfl
  have hTarget :
      (feed (Decoder.line bus) (streamFrames start count 0x24)
          s).target =
        { s.target with
          phase := .loading (count - 1).toNat
          pointer := start
          repetitions := 0 } := by
    rw [feed_target, Decoder.frames_stream bus hPhase, hHeader]
  have hOwes :
      Owes (count - 1).toNat start
        (feed (Decoder.line bus)
          (streamFrames start count 0x24) s) k := by
    constructor
    · simpa using hOpen
    · rw [hTarget]
    · rw [hTarget]
    · rw [hTarget]
    · rw [hTarget]
      exact hBus
    · rw [hTarget]
      exact hLog
    · simpa using hRam
  rw [pdiReadBytes_enabled _ hOpen, repeatOperand_succ hPos]
  exact hOwes.readLoop bus data

/- The dummy store goes to the pointer just loaded. -/
theorem dummyStore
    (bus : Bus β)
    (hReflects : Reflects s k)
    (address : UInt32) :
    Reflects
      (feed (Decoder.line bus) [0x64, 0x00]
        (nvmPointer (Decoder.line bus) address s))
      (Direct.store bus address 0x00 k) := by
  rcases hReflects with
    ⟨hOpen, ⟨hPhase, hReps⟩, hBus, hLog, hRam⟩
  have hTarget :
      (feed (Decoder.line bus) [0x64, 0x00]
          (nvmPointer (Decoder.line bus) address s)).target =
        { Decoder.store bus address 0x00 s.target with
          pointer := address + 1 } := by
    rw [feed_target, nvmPointer_eq_feed, feed_target,
      Decoder.frames_pointer bus hPhase,
      Decoder.frames_dummyStore bus
        (d := { s.target with pointer := address })
        ⟨hPhase, hReps⟩]
    rfl
  constructor
  · simpa [nvmPointer_eq_feed] using hOpen
  · rw [hTarget]
    exact ⟨hPhase, hReps⟩
  · rw [hTarget]
    simp [Decoder.store, Direct.store, hBus]
  · rw [hTarget]
    simp [Decoder.store, Direct.store, hLog]
  · simpa [nvmPointer_eq_feed, Direct.store] using hRam

end Reflects

------------------------------------------------------------
-- Driver Calls
------------------------------------------------------------

/- Multi-byte transfers move at least one byte. -/
def Call.CountPos : Call → Prop
| .pdiReadBytes _ _ count => count ≠ 0
| .pdiWriteBytes _ _ count => count ≠ 0
| .nvmReadBytes _ _ count => count ≠ 0
| .nvmPagedWrite _ _ count _ => count ≠ 0
| _ => True

instance : DecidablePred Call.CountPos := fun call => by
  cases call <;> unfold Call.CountPos <;> infer_instance

namespace Reflects

variable {s : Fw (Decoder β)} {k : Direct β}

/- A page write up to and with its first wait. -/
theorem erasePageBuffer
    (bus : Bus β)
    (hReflects : Reflects s k)
    (address : UInt32)
    (mem : PagedMemory) :
    Reflects
      (waitNvm (Decoder.line bus)
        (trigCmdex (Decoder.line bus)
          (nvmCmd (Decoder.line bus) mem.eraseBufferCmd
            (nvmPointer (Decoder.line bus) address s)))).2
      (Direct.erasePageBuffer bus mem k).2 := by
  have hCmd :=
    (hReflects.pointer bus address).command bus
      mem.eraseBufferCmd
  exact ((hCmd.trigger bus).wait bus).2

/- A page write. -/
theorem pagedWrite
    (bus : Bus β)
    (hReflects : Reflects s k)
    (address : UInt32)
    (data : Ptr)
    {count : UInt16}
    (mem : PagedMemory)
    (hPos : count ≠ 0) :
    let out :=
      nvmPagedWrite (Decoder.line bus) address data count mem
        s
    let out' :=
      Direct.loadAndWritePage bus address
        (data.bytes k.ram count.toNat) mem
        (Direct.erasePageBuffer bus mem k).2
    out.1 = out'.1 ∧ Reflects out.2 out'.2 := by
  have hErased := hReflects.erasePageBuffer bus address mem
  have hLoaded :=
    ((hErased.command bus mem.loadBufferCmd).writeBytes bus
      address data hPos).2
  simp only [Direct.command_ram, Direct.erasePageBuffer_ram]
    at hLoaded
  have hTriggered :=
    (hLoaded.command bus mem.eraseWriteCmd).dummyStore bus
      address
  have hWaited := hTriggered.wait bus
  simp only [nvmPagedWrite, dummyStore_eq_feed]
  exact hWaited

/- Each driver call does its bus accesses and no others. -/
theorem call
    (bus : Bus β)
    {c : Call}
    (hCount : c.CountPos) :
    Simulates Reflects
      (c.exec (Decoder.line bus)) (Direct.call bus c) := by
  intro s k hReflects
  cases c with
  | pdiReadByte address =>
      exact hReflects.readByte bus address
  | pdiWriteByte address data =>
      rcases hReflects.writeByte bus address data with
        ⟨hResult, hAfter⟩
      exact ⟨by simp [Call.exec, Direct.call, hResult], hAfter⟩
  | pdiReadBytes start data count =>
      rcases hReflects.readBytes bus start data hCount with
        ⟨hResult, hAfter⟩
      exact ⟨by simp [Call.exec, Direct.call, hResult], hAfter⟩
  | pdiWriteBytes start data count =>
      rcases hReflects.writeBytes bus start data hCount with
        ⟨hResult, hAfter⟩
      exact ⟨by simp [Call.exec, Direct.call, hResult], hAfter⟩
  | nvmChipErase =>
      rcases ((hReflects.command bus cmdChipErase).trigger
        bus).wait bus with ⟨hResult, hAfter⟩
      refine ⟨?_, hAfter⟩
      simp [Call.exec, Direct.call, Lucax.nvmChipErase,
        hResult]
  | nvmReadByte address =>
      exact (hReflects.command bus cmdReadNvm).readByte bus
        address
  | nvmReadBytes address data count =>
      rcases (hReflects.command bus cmdReadNvm).readBytes bus
        address data hCount with ⟨hResult, hAfter⟩
      refine ⟨?_, hAfter⟩
      simp [Call.exec, Direct.call, Lucax.nvmReadBytes,
        hResult]
  | nvmWriteByte address data mem =>
      have hStored :=
        ((hReflects.command bus mem.writeCmd).writeByte bus
          address data).2
      cases mem with
      | fuse =>
          rcases hStored.wait bus with ⟨hResult, hAfter⟩
          refine ⟨?_, hAfter⟩
          simp [Call.exec, Direct.call, Lucax.nvmWriteByte,
            hResult]
      | lock =>
          rcases (hStored.trigger bus).wait bus with
            ⟨hResult, hAfter⟩
          refine ⟨?_, hAfter⟩
          simp [Call.exec, Direct.call, Lucax.nvmWriteByte,
            hResult]
  | nvmPagedWrite address data count mem =>
      rcases hReflects.pagedWrite bus address data mem hCount
        with ⟨hResult, hAfter⟩
      simp only [Call.exec, Direct.call]
      exact ⟨by rw [hResult], hAfter⟩

/- A run of driver calls does the bus accesses of a run. -/
theorem runAll
    (bus : Bus β)
    {calls : List Call}
    (hCounts : ∀ c ∈ calls, c.CountPos) :
    Simulates Reflects
      (Simulation.runAll (Call.exec (Decoder.line bus)) calls)
      (Simulation.runAll (Direct.call bus) calls) :=
  Simulates.runAll calls
    (fun c hMem => Reflects.call bus (hCounts c hMem))

end Reflects

end Lucax
