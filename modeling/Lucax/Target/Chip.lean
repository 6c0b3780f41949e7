import Lucax.Common.Pages
import Lucax.Target.Direct

/-
  A part with a flash and an EEPROM that are written a page
  at a time through the NVM controller.

  Key definitions include:
    * `Region`, `Part`
    * `Chip`, `Part.bus`
    * `Chip.Ready`

  Main declarations:
    * `Direct.pagedWrite_chip`
    * `Direct.loads_chip`, `Direct.readByte_chip`
-/

------------------------------------------------------------
-- The Part
------------------------------------------------------------

namespace Lucax

/- Addresses of the registers in data space. -/
def InIo (address : Nat) : Prop :=
  0x01000000 ≤ address ∧ address < 0x01001000

instance (address : Nat) : Decidable (InIo address) := by
  unfold InIo
  infer_instance

/- A paged memory in the address space of the PDI. -/
structure Region where
  offset : Nat
  size : Nat
  page : Nat
  page_pos : 0 < page
  page_dvd_offset : page ∣ offset
  page_dvd_size : page ∣ size
  addressable : offset + size ≤ 2 ^ 32
  off_io :
    ∀ address,
      offset ≤ address ∧ address < offset + size →
        ¬ InIo address

def Region.Contains
    (r : Region)
    (address : Nat) : Prop :=
  r.offset ≤ address ∧ address < r.offset + r.size

instance
    (r : Region)
    (address : Nat) :
    Decidable (r.Contains address) := by
  unfold Region.Contains
  infer_instance

/-
  A part and its behaviour in time: operation `i` keeps
  `NVMBUSY` set for `durations i` status polls, and `noise i`
  is what load `i` shows where it carries no data.
-/
structure Part where
  flash : Region
  eeprom : Region
  apart :
    ∀ address,
      flash.Contains address → ¬ eeprom.Contains address
  durations : Nat → Nat
  settles : ∀ i, durations i < 254
  noise : Nat → UInt8

namespace Part

def region (p : Part) : PagedMemory → Region
| .flash => p.flash
| .eeprom => p.eeprom

def memoryAt
    (p : Part)
    (address : Nat) : Option PagedMemory :=
  if p.flash.Contains address then some .flash
  else if p.eeprom.Contains address then some .eeprom
  else none

theorem memoryAt_of_contains
    (p : Part)
    {mem : PagedMemory}
    {address : Nat}
    (hIn : (p.region mem).Contains address) :
    p.memoryAt address = some mem := by
  cases mem with
  | flash => exact if_pos hIn
  | eeprom =>
      have hNotFlash : ¬ p.flash.Contains address := by
        intro hFlash
        exact p.apart address hFlash hIn
      rw [memoryAt, if_neg hNotFlash]
      exact if_pos hIn

end Part

------------------------------------------------------------
-- The Chip
------------------------------------------------------------

/-
  The state of the part: whether the NVM interface is
  enabled, what its memories and page buffers hold, the
  command register, the polls for which `NVMBUSY` stays set,
  and how many operations and loads there were.
-/
structure Chip where
  enabled : Bool
  content : Nat → UInt8
  buffer : PagedMemory → Nat → UInt8
  cmd : UInt8
  busy : Nat
  starts : Nat
  loads : Nat

/- The NVM enable key, in the order it is sent. -/
def nvmKey : List UInt8 :=
  [0xFF, 0x88, 0xD8, 0xCD, 0x45, 0xAB, 0x89, 0x12]

namespace Chip

def enable
    (on : Bool)
    (c : Chip) : Chip :=
  { c with enabled := on }

def select
    (cmd : UInt8)
    (c : Chip) : Chip :=
  { c with cmd := cmd }

def withBuffer
    (mem : PagedMemory)
    (buffer : Nat → UInt8)
    (c : Chip) : Chip :=
  { c with
    buffer := fun other =>
      if other = mem then buffer else c.buffer other }

def withContent
    (content : Nat → UInt8)
    (c : Chip) : Chip :=
  { c with content := content }

/- A poll or another load has been taken. -/
def polled
    (busy loads : Nat)
    (c : Chip) : Chip :=
  { c with busy := busy, loads := loads }

/- Begin an operation. -/
def start
    (p : Part)
    (c : Chip) : Chip :=
  { c with
    busy := p.durations c.starts
    starts := c.starts + 1 }

/- `CMDEX` -/
def execute
    (p : Part)
    (c : Chip) : Chip :=
  if c.cmd = cmdEraseFlashPageBuffer then
    (c.withBuffer .flash fun _ => 0xFF).start p
  else if c.cmd = cmdEraseEepromPageBuffer then
    (c.withBuffer .eeprom fun _ => 0xFF).start p
  else if c.cmd = cmdChipErase then
    (c.withContent fun j =>
      if (p.memoryAt j).isSome then 0xFF
      else c.content j).start p
  else if c.cmd = cmdWriteLock then c.start p
  else c

/- A store to one of the two memories. -/
def storeMemory
    (p : Part)
    (mem : PagedMemory)
    (address : Nat)
    (data : UInt8)
    (c : Chip) : Chip :=
  let page := (p.region mem).page
  if c.cmd = mem.loadBufferCmd then
    c.withBuffer mem
      (Pages.set (address % page) data (c.buffer mem))
  else if c.cmd = mem.eraseWriteCmd then
    let base := address - address % page
    (c.withContent fun j =>
      if base ≤ j ∧ j < base + page then
        c.buffer mem (j - base)
      else c.content j).start p
  else c

/- Nothing is taken while the controller is busy. -/
def store
    (p : Part)
    (c : Chip)
    (address : UInt32)
    (data : UInt8) : Chip :=
  if c.enabled = false ∨ c.busy ≠ 0 then c
  else if address = nvmCmdReg then c.select data
  else if address = nvmCtrlaReg then
    if data &&& 1 ≠ 0 then c.execute p else c
  else
    match p.memoryAt address.toNat with
    | some mem => c.storeMemory p mem address.toNat data
    | none => c

/-
  The status register shows `NVMBUSY` in bit 7; the memories
  are readable under `READ_NVM` while it is clear.
-/
def load
    (p : Part)
    (c : Chip)
    (address : UInt32) : Option UInt8 × Chip :=
  let noise := p.noise c.loads
  if address = nvmStatusReg then
    (some
        (if c.busy = 0 then noise &&& 0x7F else noise ||| 0x80),
      c.polled (c.busy - 1) (c.loads + 1))
  else if
      c.enabled = true ∧ c.busy = 0 ∧ c.cmd = cmdReadNvm then
    (some (c.content address.toNat),
      c.polled 0 (c.loads + 1))
  else (some noise, c.polled c.busy (c.loads + 1))

/- The controller takes accesses. -/
structure Ready (c : Chip) : Prop where
  enabled : c.enabled = true
  busy : c.busy = 0

end Chip

/- The part behind the PDI decoder. -/
def Part.bus (p : Part) : Bus Chip where
  load := Chip.load p
  store := Chip.store p
  loadControl c _ :=
    (some (if c.enabled then (1 : UInt8) <<< nvmen else 0), c)
  storeControl c _ _ := c
  key c bytes := c.enable (bytes = nvmKey)

------------------------------------------------------------
-- Fields
------------------------------------------------------------

namespace Chip

section Fields

variable (p : Part) (c : Chip) (mem : PagedMemory) (cmd : UInt8)
variable (buffer content : Nat → UInt8) (b l : Nat)

@[simp] theorem select_cmd :
    (c.select cmd).cmd = cmd := rfl

@[simp] theorem select_buffer :
    (c.select cmd).buffer = c.buffer := rfl

@[simp] theorem select_content :
    (c.select cmd).content = c.content := rfl

@[simp] theorem select_busy :
    (c.select cmd).busy = c.busy := rfl

@[simp] theorem select_enabled :
    (c.select cmd).enabled = c.enabled := rfl

@[simp] theorem withBuffer_cmd :
    (c.withBuffer mem buffer).cmd = c.cmd := rfl

@[simp] theorem withBuffer_buffer :
    (c.withBuffer mem buffer).buffer mem = buffer := by
  simp [withBuffer]

@[simp] theorem withBuffer_content :
    (c.withBuffer mem buffer).content = c.content := rfl

@[simp] theorem withBuffer_busy :
    (c.withBuffer mem buffer).busy = c.busy := rfl

@[simp] theorem withBuffer_enabled :
    (c.withBuffer mem buffer).enabled = c.enabled := rfl

@[simp] theorem withBuffer_withBuffer
    (later : Nat → UInt8) :
    (c.withBuffer mem buffer).withBuffer mem later =
      c.withBuffer mem later := by
  have hSame :
      (fun other =>
        if other = mem then later
        else if other = mem then buffer else c.buffer other) =
      fun other =>
        if other = mem then later else c.buffer other := by
    funext other
    by_cases hMem : other = mem
    · rw [if_pos hMem, if_pos hMem]
    · rw [if_neg hMem, if_neg hMem, if_neg hMem]
  exact congrArg (fun buffers => { c with buffer := buffers })
    hSame

@[simp] theorem start_buffer :
    (c.start p).buffer = c.buffer := rfl

@[simp] theorem start_content :
    (c.start p).content = c.content := rfl

@[simp] theorem start_enabled :
    (c.start p).enabled = c.enabled := rfl

@[simp] theorem start_busy :
    (c.start p).busy = p.durations c.starts := rfl

@[simp] theorem polled_cmd :
    (c.polled b l).cmd = c.cmd := rfl

@[simp] theorem polled_buffer :
    (c.polled b l).buffer = c.buffer := rfl

@[simp] theorem polled_content :
    (c.polled b l).content = c.content := rfl

@[simp] theorem polled_busy :
    (c.polled b l).busy = b := rfl

@[simp] theorem polled_enabled :
    (c.polled b l).enabled = c.enabled := rfl

@[simp] theorem polled_polled (b' l' : Nat) :
    (c.polled b l).polled b' l' = c.polled b' l' := rfl

end Fields

------------------------------------------------------------
-- Accesses of a Ready Chip
------------------------------------------------------------

section Ready

variable (p : Part) {c : Chip}

theorem Ready.store_cmd
    (hReady : c.Ready)
    (cmd : UInt8) :
    c.store p nvmCmdReg cmd = c.select cmd := by
  simp [store, hReady.enabled, hReady.busy]

theorem Ready.store_ctrla
    (hReady : c.Ready) :
    c.store p nvmCtrlaReg 0x01 = c.execute p := by
  have hNot : ¬ nvmCtrlaReg = nvmCmdReg := by decide
  simp [store, hReady.enabled, hReady.busy, hNot]

/- The registers are not part of a memory. -/
theorem not_register
    {mem : PagedMemory}
    {address : UInt32}
    (hIn : (p.region mem).Contains address.toNat) :
    address ≠ nvmCmdReg ∧ address ≠ nvmCtrlaReg ∧
      address ≠ nvmStatusReg := by
  have hOff := (p.region mem).off_io address.toNat hIn
  refine ⟨?_, ?_, ?_⟩
  · rintro rfl
    exact hOff (by decide)
  · rintro rfl
    exact hOff (by decide)
  · rintro rfl
    exact hOff (by decide)

theorem Ready.store_memory
    (hReady : c.Ready)
    {mem : PagedMemory}
    {address : UInt32}
    (hIn : (p.region mem).Contains address.toNat)
    (data : UInt8) :
    c.store p address data =
      c.storeMemory p mem address.toNat data := by
  rcases not_register p hIn with ⟨hCmd, hCtrla, _hStatus⟩
  simp only [store, hReady.enabled, hReady.busy,
    Bool.true_eq_false, ne_eq, not_true_eq_false, or_self,
    if_false, hCmd, hCtrla, p.memoryAt_of_contains hIn]

theorem Ready.load_memory
    (hReady : c.Ready)
    (hCmd : c.cmd = cmdReadNvm)
    {mem : PagedMemory}
    {address : UInt32}
    (hIn : (p.region mem).Contains address.toNat) :
    c.load p address =
      (some (c.content address.toNat),
        c.polled 0 (c.loads + 1)) := by
  rcases not_register p hIn with ⟨_hCmd, _hCtrla, hStatus⟩
  simp [load, hStatus, hReady.enabled, hReady.busy, hCmd]

/- `CMDEX` under the erase command of a page buffer. -/
theorem execute_eraseBuffer
    {mem : PagedMemory}
    (hCmd : c.cmd = mem.eraseBufferCmd) :
    c.execute p =
      (c.withBuffer mem fun _ => 0xFF).start p := by
  cases mem with
  | flash =>
      rw [execute, hCmd]
      exact if_pos rfl
  | eeprom =>
      have hNot :
          ¬ PagedMemory.eeprom.eraseBufferCmd =
            cmdEraseFlashPageBuffer := by
        decide
      rw [execute, hCmd, if_neg hNot]
      exact if_pos rfl

end Ready

end Chip

------------------------------------------------------------
-- Driver Operations on the Chip
------------------------------------------------------------

namespace Direct

variable (p : Part) (k : Direct Chip)

/- One status read. -/
theorem poll_chip :
    ∃ log status,
      load p.bus nvmStatusReg k =
          (some status,
            { k with
              bus :=
                k.bus.polled (k.bus.busy - 1) (k.bus.loads + 1)
              log := log }) ∧
        (status &&& ((1 : UInt8) <<< 7) = 0 ↔
          k.bus.busy = 0) := by
  refine ⟨_, _, rfl, ?_⟩
  by_cases hIdle : k.bus.busy = 0
  · simp only [hIdle, if_true, iff_true]
    exact status_clear _
  · simp only [hIdle, if_false, iff_false]
    exact status_set _

/- Polls until the flag is seen clear, which it is in time. -/
theorem polls_chip
    (n : Nat)
    (hShort : k.bus.busy < n) :
    (polls p.bus n k).1 =
        .ok (UInt8.ofNat (n - 1 - k.bus.busy)) ∧
      ∃ loads,
        (polls p.bus n k).2.bus = k.bus.polled 0 loads := by
  induction n generalizing k with
  | zero => exact absurd hShort (Nat.not_lt_zero _)
  | succ n ih =>
      rcases poll_chip p k with ⟨log, status, hPoll, hStatus⟩
      rw [polls, hPoll]
      simp only [hStatus]
      by_cases hIdle : k.bus.busy = 0
      · simp only [hIdle, if_true]
        exact ⟨rfl, _, rfl⟩
      · simp only [hIdle, if_false]
        rcases ih
            { k with
              bus :=
                k.bus.polled (k.bus.busy - 1) (k.bus.loads + 1)
              log := log }
            (by
              rw [Chip.polled_busy]
              omega) with ⟨hLeft, loads, hBus⟩
        have hCount :
            n - 1 - (k.bus.busy - 1) =
              n + 1 - 1 - k.bus.busy := by
          omega
        refine ⟨?_, loads, ?_⟩
        · rw [hLeft, Chip.polled_busy, hCount]
        · rw [hBus, Chip.polled_polled]

/- A wait for an operation of the part succeeds. -/
theorem wait_chip
    (hShort : k.bus.busy < 254) :
    (wait p.bus k).1 = .noError ∧
      ∃ loads, (wait p.bus k).2.bus = k.bus.polled 0 loads := by
  have hPolls := polls_chip p k 255 (by omega)
  unfold wait
  rcases hEnd : polls p.bus 255 k with ⟨left, after⟩
  rw [hEnd] at hPolls
  rcases hPolls with ⟨hLeft, loads, hBus⟩
  simp only at hLeft
  subst hLeft
  have hNotLast :
      UInt8.ofNat (255 - 1 - k.bus.busy) ≠ 0 := by
    intro hZero
    have hNat := congrArg UInt8.toNat hZero
    simp only [UInt8.toNat_ofNat', UInt8.toNat_zero] at hNat
    omega
  simp only [hNotLast, if_false]
  exact ⟨trivial, loads, hBus⟩

theorem command_chip
    (hReady : k.bus.Ready)
    (cmd : UInt8) :
    (command p.bus cmd k).bus = k.bus.select cmd :=
  hReady.store_cmd p cmd

/- The page buffer is blank after its erase. -/
theorem erasePageBuffer_chip
    (hReady : k.bus.Ready)
    (mem : PagedMemory) :
    ∃ starts loads,
      (erasePageBuffer p.bus mem k).2.bus =
        { (k.bus.select mem.eraseBufferCmd).withBuffer mem
            (fun _ => 0xFF) with
          busy := 0, starts := starts, loads := loads } := by
  have hSelected :
      (k.bus.select mem.eraseBufferCmd).Ready :=
    ⟨hReady.enabled, hReady.busy⟩
  have hTriggered :
      (trigger p.bus
          (command p.bus mem.eraseBufferCmd k)).bus =
        ((k.bus.select mem.eraseBufferCmd).withBuffer mem
          (fun _ => 0xFF)).start p := by
    have hCommand := command_chip p k hReady mem.eraseBufferCmd
    have hStore :=
      hSelected.store_ctrla p
    rw [← hCommand] at hStore
    exact hStore.trans
      (by rw [hCommand]
          exact Chip.execute_eraseBuffer p rfl)
  have hWait :=
    wait_chip p
      (trigger p.bus (command p.bus mem.eraseBufferCmd k))
      (by
        rw [hTriggered]
        exact p.settles _)
  rcases hWait with ⟨_hResult, loads, hBus⟩
  refine ⟨k.bus.starts + 1, loads, ?_⟩
  rw [erasePageBuffer, hBus, hTriggered]
  rfl

/- The next address, as the pointer counts. -/
theorem ofNat_succ
    (n : Nat) :
    UInt32.ofNat n + 1 = UInt32.ofNat (n + 1) := by
  rw [UInt32.ofNat_add]
  rfl

/- The address of a place of a memory. -/
theorem toNat_of_contains
    {r : Region}
    {address : Nat}
    (hIn : r.Contains address) :
    (UInt32.ofNat address).toNat = address := by
  have hFits := r.addressable
  rcases hIn with ⟨_hFrom, hTo⟩
  apply UInt32.toNat_ofNat_of_lt'
  show address < 2 ^ 32
  omega

/- Stores under the load command fill the page buffer. -/
theorem stores_chip
    {mem : PagedMemory}
    (hReady : k.bus.Ready)
    (hCmd : k.bus.cmd = mem.loadBufferCmd)
    {base i : Nat}
    (bytes : List UInt8)
    (hAligned : (p.region mem).page ∣ base)
    (hFits : i + bytes.length ≤ (p.region mem).page)
    (hIn :
      ∀ j < (p.region mem).page,
        (p.region mem).Contains (base + j)) :
    (stores p.bus (UInt32.ofNat (base + i)) bytes k).bus =
      k.bus.withBuffer mem
        (Pages.put i bytes (k.bus.buffer mem)) := by
  induction bytes generalizing i k with
  | nil =>
      rw [stores, Pages.put_nil]
      have hSame :
          (fun other =>
            if other = mem then k.bus.buffer mem
            else k.bus.buffer other) =
            k.bus.buffer := by
        funext other
        by_cases hMem : other = mem
        · rw [if_pos hMem, hMem]
        · rw [if_neg hMem]
      rw [Chip.withBuffer, hSame]
  | cons b bytes ih =>
      rw [List.length_cons] at hFits
      have hHere : i < (p.region mem).page := by omega
      have hNat :
          (UInt32.ofNat (base + i)).toNat = base + i :=
        toNat_of_contains (hIn i hHere)
      have hPlace : (base + i) % (p.region mem).page = i := by
        rw [Nat.add_mod, Nat.mod_eq_zero_of_dvd hAligned,
          Nat.zero_add, Nat.mod_mod, Nat.mod_eq_of_lt hHere]
      have hStore :
          (store p.bus (UInt32.ofNat (base + i)) b k).bus =
            k.bus.withBuffer mem
              (Pages.set i b (k.bus.buffer mem)) := by
        have hPlaced :
            (p.region mem).Contains
              (UInt32.ofNat (base + i)).toNat := by
          rw [hNat]
          exact hIn i hHere
        have hTaken := hReady.store_memory p hPlaced b
        rw [hNat, Chip.storeMemory] at hTaken
        simp only [hCmd, if_true, hPlace] at hTaken
        exact hTaken
      rw [stores, ofNat_succ, Nat.add_assoc,
        ih (store p.bus (UInt32.ofNat (base + i)) b k)]
      · rw [hStore, Chip.withBuffer_withBuffer,
          Chip.withBuffer_buffer, ← Pages.put_cons]
      · rw [hStore]
        exact ⟨hReady.enabled, hReady.busy⟩
      · rw [hStore]
        exact hCmd
      · omega

/- The triggering store copies the page buffer. -/
theorem store_chip_page
    {mem : PagedMemory}
    (hReady : k.bus.Ready)
    (hCmd : k.bus.cmd = mem.eraseWriteCmd)
    {base : Nat}
    (bytes : List UInt8)
    (hBuffer :
      k.bus.buffer mem = Pages.put 0 bytes fun _ => 0xFF)
    (hAligned : (p.region mem).page ∣ base)
    (hIn : (p.region mem).Contains base)
    (data : UInt8) :
    (store p.bus (UInt32.ofNat base) data k).bus =
      (k.bus.withContent
        (Pages.writePage (p.region mem).page base 0xFF bytes
          k.bus.content)).start p := by
  have hNat : (UInt32.ofNat base).toNat = base :=
    toNat_of_contains hIn
  have hStart : base - base % (p.region mem).page = base := by
    rw [Nat.mod_eq_zero_of_dvd hAligned, Nat.sub_zero]
  have hOther : mem.eraseWriteCmd ≠ mem.loadBufferCmd := by
    cases mem <;> decide
  have hPlaced :
      (p.region mem).Contains (UInt32.ofNat base).toNat := by
    rw [hNat]
    exact hIn
  have hTaken := hReady.store_memory p hPlaced data
  rw [hNat, Chip.storeMemory] at hTaken
  simp only [hCmd, hOther, if_false, if_true, hStart, hBuffer,
    Pages.put_blank] at hTaken
  exact hTaken

/-
  A page write on the chip replaces the page by the bytes
  given and blanks behind them.
-/
theorem pagedWrite_chip
    (hReady : k.bus.Ready)
    (mem : PagedMemory)
    {base : Nat}
    (bytes : List UInt8)
    (hAligned : (p.region mem).page ∣ base)
    (hFits : bytes.length ≤ (p.region mem).page)
    (hIn :
      ∀ j < (p.region mem).page,
        (p.region mem).Contains (base + j)) :
    let out :=
      loadAndWritePage p.bus (UInt32.ofNat base) bytes mem
        (erasePageBuffer p.bus mem k).2
    out.1 = .noError ∧
      out.2.bus.Ready ∧
      out.2.bus.content =
        Pages.writePage (p.region mem).page base 0xFF bytes
          k.bus.content := by
  rcases erasePageBuffer_chip p k hReady mem with
    ⟨starts, loads, hErased⟩
  simp only [loadAndWritePage]
  generalize (erasePageBuffer p.bus mem k).2 = k₁ at hErased ⊢
  have hReady₁ : k₁.bus.Ready := by
    rw [hErased]
    exact ⟨hReady.enabled, rfl⟩
  have hBlank : k₁.bus.buffer mem = fun _ => 0xFF := by
    rw [hErased]
    exact Chip.withBuffer_buffer _ _ _
  have hContent : k₁.bus.content = k.bus.content := by
    rw [hErased]
    rfl
  -- the page buffer is loaded
  have hLoad := command_chip p k₁ hReady₁ mem.loadBufferCmd
  have hLoading :
      (command p.bus mem.loadBufferCmd k₁).bus.cmd =
        mem.loadBufferCmd := by
    rw [hLoad, Chip.select_cmd]
  have hFromStart : 0 + bytes.length ≤ (p.region mem).page := by
    rw [Nat.zero_add]
    exact hFits
  have hStored :=
    stores_chip p (command p.bus mem.loadBufferCmd k₁)
      (by
        rw [hLoad]
        exact ⟨hReady₁.enabled, hReady₁.busy⟩)
      hLoading bytes hAligned hFromStart hIn
  rw [hLoad, Chip.select_buffer, hBlank, Nat.add_zero]
    at hStored
  generalize
    stores p.bus (UInt32.ofNat base) bytes
      (command p.bus mem.loadBufferCmd k₁) = k₂
      at hStored ⊢
  have hReady₂ : k₂.bus.Ready := by
    rw [hStored]
    exact ⟨hReady₁.enabled, hReady₁.busy⟩
  -- the page is written
  have hWrite := command_chip p k₂ hReady₂ mem.eraseWriteCmd
  have hWriting :
      (command p.bus mem.eraseWriteCmd k₂).bus.cmd =
        mem.eraseWriteCmd := by
    rw [hWrite, Chip.select_cmd]
  have hPage :=
    store_chip_page p (command p.bus mem.eraseWriteCmd k₂)
      (by
        rw [hWrite]
        exact ⟨hReady₂.enabled, hReady₂.busy⟩)
      hWriting bytes
      (by
        rw [hWrite, Chip.select_buffer, hStored,
          Chip.withBuffer_buffer])
      hAligned (hIn 0 (p.region mem).page_pos) 0x00
  rw [hWrite, Chip.select_content, hStored,
    Chip.withBuffer_content, Chip.select_content, hContent]
    at hPage
  rcases wait_chip p
      (store p.bus (UInt32.ofNat base) 0x00
        (command p.bus mem.eraseWriteCmd k₂))
      (by
        rw [hPage]
        exact p.settles _) with
    ⟨hResult, loads', hAfter⟩
  refine ⟨hResult, ?_, ?_⟩
  · rw [hAfter, hPage]
    exact ⟨hReady₁.enabled, rfl⟩
  · rw [hAfter, hPage]
    rfl

/- Loads under `READ_NVM` return what the memory holds. -/
theorem loads_chip
    (hReady : k.bus.Ready)
    (hCmd : k.bus.cmd = cmdReadNvm)
    {mem : PagedMemory}
    (n base data : Nat)
    (hIn : ∀ j < n, (p.region mem).Contains (base + j)) :
    (loads p.bus n (UInt32.ofNat base) data k).1 = .noError ∧
      (loads p.bus n (UInt32.ofNat base) data k).2.ram =
        Pages.put data (Pages.read base n k.bus.content)
          k.ram ∧
      ∃ count,
        (loads p.bus n (UInt32.ofNat base) data k).2.bus =
          k.bus.polled 0 count := by
  induction n generalizing base data k with
  | zero =>
      refine ⟨rfl, ?_, k.bus.loads, ?_⟩
      · rw [loads, Pages.read_zero, Pages.put_nil]
      · rw [loads, ← hReady.busy]
        rfl
  | succ n ih =>
      have hHere := hIn 0 (Nat.succ_pos n)
      rw [Nat.add_zero] at hHere
      have hNat := toNat_of_contains hHere
      have hLoad :
          load p.bus (UInt32.ofNat base) k =
            (some (k.bus.content base),
              { k with
                bus := k.bus.polled 0 (k.bus.loads + 1)
                log :=
                  k.log ++
                    [.load (UInt32.ofNat base)
                      (some (k.bus.content base))] }) := by
        have hPlaced :
            (p.region mem).Contains
              (UInt32.ofNat base).toNat := by
          rw [hNat]
          exact hHere
        have hRead := hReady.load_memory p hCmd hPlaced
        rw [hNat] at hRead
        simp only [load, Part.bus, hRead]
      rcases ih
          (put data (k.bus.content base)
            { k with
              bus := k.bus.polled 0 (k.bus.loads + 1)
              log :=
                k.log ++
                  [.load (UInt32.ofNat base)
                    (some (k.bus.content base))] })
          ⟨hReady.enabled, rfl⟩ hCmd (base + 1) (data + 1)
          (by
            intro j hj
            rw [Nat.add_assoc, Nat.add_comm 1]
            exact hIn (j + 1) (by omega)) with
        ⟨hResult, hRam, count, hBus⟩
      rw [loads, hLoad]
      simp only [ofNat_succ]
      refine ⟨hResult, ?_, count, ?_⟩
      · rw [hRam, Pages.read_succ, Pages.put_cons]
        rfl
      · rw [hBus]
        rfl

/- A single load is a run of one. -/
theorem readByte_chip
    (hReady : k.bus.Ready)
    (hCmd : k.bus.cmd = cmdReadNvm)
    {mem : PagedMemory}
    {base : Nat}
    (hIn : (p.region mem).Contains base) :
    (readByte p.bus (UInt32.ofNat base) k).1 =
        (.noError, k.bus.content base) ∧
      ∃ count,
        (readByte p.bus (UInt32.ofNat base) k).2.bus =
          k.bus.polled 0 count := by
  have hNat := toNat_of_contains hIn
  have hPlaced :
      (p.region mem).Contains (UInt32.ofNat base).toNat := by
    rw [hNat]
    exact hIn
  have hRead := hReady.load_memory p hCmd hPlaced
  rw [hNat] at hRead
  simp only [readByte, load, Part.bus, hRead]
  exact ⟨trivial, _, rfl⟩

end Direct

end Lucax
