import Lucax.Driver.Session
import Lucax.Target.Encoding

/-
  An NVM controller that is busy for an arbitrary number of
  status polls, and what the driver sends it meanwhile.

  Key definitions include:
    * `Drive`, `Controller`, `Controller.bus`
    * `Controller.Settles`, `Controller.Exhausts`
    * `QuietCall`, `QuietRun`
    * `Controller.Orderly`, `OrderlyRun`

  Main declarations:
    * `Direct.polls_cases`
    * `Direct.wait_exhausted`
    * `quietRun_of_orderlyRun`
-/

------------------------------------------------------------
-- The Controller
------------------------------------------------------------

namespace Lucax

open Simulation

/- What must not be sent to a busy controller. -/
inductive DriveKind where
| command
| ctrla
| pageLoad
| pageTrigger
deriving DecidableEq, Repr

/-
  A drive with the state of `NVMBUSY` it met and the number
  of controller operations started before it.
-/
structure Drive where
  kind : DriveKind
  busy : Bool
  starts : Nat
deriving DecidableEq, Repr

/-
  The controller: `busy` counts the status polls for which
  `NVMBUSY` stays set.  Operation `i` sets it to
  `durations i`, and load `i` gets `replies i`, `none` being a
  load that times out.
-/
structure Controller where
  cmd : UInt8
  busy : Nat
  starts : Nat
  durations : Nat → Nat
  loads : Nat
  replies : Nat → Option UInt8
  drives : List Drive

namespace Controller

/- A controller out of reset. -/
def reset
    (durations : Nat → Nat)
    (replies : Nat → Option UInt8) : Controller where
  cmd := 0
  busy := 0
  starts := 0
  durations := durations
  loads := 0
  replies := replies
  drives := []

/- Record a drive. -/
def drive
    (kind : DriveKind)
    (c : Controller) : Controller :=
  { c with
    drives := c.drives ++ [⟨kind, c.busy ≠ 0, c.starts⟩] }

/- Begin an operation. -/
def start (c : Controller) : Controller :=
  { c with
    busy := c.durations c.starts
    starts := c.starts + 1 }

/- Select a command. -/
def select
    (cmd : UInt8)
    (c : Controller) : Controller :=
  { c with cmd := cmd }

/- Commands that `CMDEX` starts. -/
def triggered : List UInt8 :=
  [cmdEraseFlashPageBuffer, cmdEraseEepromPageBuffer,
    cmdChipErase, cmdWriteLock]

def pageLoads : List UInt8 :=
  [cmdLoadFlashPageBuffer, cmdLoadEepromPageBuffer]

def pageWrites : List UInt8 :=
  [cmdEraseWriteFlashPage, cmdEraseWriteEepromPage]

def store
    (c : Controller)
    (address : UInt32)
    (data : UInt8) : Controller :=
  if address = nvmCmdReg then
    (c.drive .command).select data
  else if address = nvmCtrlaReg then
    if data &&& 1 ≠ 0 ∧ c.cmd ∈ triggered then
      (c.drive .ctrla).start
    else c.drive .ctrla
  else if c.cmd ∈ pageLoads then
    c.drive .pageLoad
  else if c.cmd ∈ pageWrites then
    (c.drive .pageTrigger).start
  else if c.cmd = cmdWriteFuse then
    c.start
  else c

/- A poll or another load has been taken. -/
def polled
    (busy loads : Nat)
    (c : Controller) : Controller :=
  { c with busy := busy, loads := loads }

/- The status register shows `NVMBUSY` in bit 7. -/
def load
    (c : Controller)
    (address : UInt32) : Option UInt8 × Controller :=
  let reply := c.replies c.loads
  if address = nvmStatusReg then
    (reply.map
        (fun v => if c.busy = 0 then v &&& 0x7F else v ||| 0x80),
      c.polled (c.busy - 1) (c.loads + 1))
  else (reply, c.polled c.busy (c.loads + 1))

def bus : Bus Controller where
  load := load
  store := store
  loadControl := fun c _ => (some 0, c)
  storeControl := fun c _ _ => c
  key := fun c _ => c

/-
  Operation `i` is over within a wait that begins at load
  `l`, and every poll up to its end is answered.
-/
def Settles
    (c : Controller)
    (i l : Nat) : Prop :=
  c.durations i < 255 ∧
    ∀ n ≤ c.durations i, (c.replies (l + n)).isSome

/-
  Operation `i` outlasts a wait that begins at load `l` and
  has all its 255 polls answered.
-/
def Exhausts
    (c : Controller)
    (i l : Nat) : Prop :=
  255 ≤ c.durations i ∧
    ∀ n < 255, (c.replies (l + n)).isSome

instance (c : Controller) (i l : Nat) :
    Decidable (c.Settles i l) := by
  unfold Settles
  infer_instance

instance (c : Controller) (i l : Nat) :
    Decidable (c.Exhausts i l) := by
  unfold Exhausts
  infer_instance

------------------------------------------------------------
-- Quiet Changes
------------------------------------------------------------

/-
  Between two states every drive that met a set `NVMBUSY` met
  the one the operation was entered with, in state `c₀`.
-/
def Quietly (c₀ c c' : Controller) : Prop :=
  ∃ new,
    c'.drives = c.drives ++ new ∧
      ∀ d ∈ new, d.busy = true →
        c₀.busy ≠ 0 ∧ d.starts = c₀.starts

theorem Quietly.refl
    (c₀ : Controller)
    {c c' : Controller}
    (hSame : c'.drives = c.drives) :
    Quietly c₀ c c' :=
  ⟨[], by simp [hSame], by simp⟩

theorem Quietly.trans
    {c₀ c c' c'' : Controller}
    (hFirst : Quietly c₀ c c')
    (hSecond : Quietly c₀ c' c'') :
    Quietly c₀ c c'' := by
  rcases hFirst with ⟨front, hFront, hQuietFront⟩
  rcases hSecond with ⟨back, hBack, hQuietBack⟩
  refine ⟨front ++ back, by simp [hBack, hFront], ?_⟩
  intro d hMem
  rcases List.mem_append.mp hMem with hHere | hThere
  · exact hQuietFront d hHere
  · exact hQuietBack d hThere

/- A drive of an idle controller or of the one met first. -/
theorem Quietly.drive
    {c₀ c : Controller}
    (kind : DriveKind)
    (hBusy :
      c.busy ≠ 0 → c₀.busy ≠ 0 ∧ c.starts = c₀.starts) :
    Quietly c₀ c (c.drive kind) := by
  refine ⟨_, rfl, ?_⟩
  intro d hMem hSet
  have hDrive := List.mem_singleton.mp hMem
  subst hDrive
  exact hBusy (by simpa using hSet)

/- Entering an operation drives what was met first. -/
theorem Quietly.command
    (c : Controller)
    (cmd : UInt8) :
    Quietly c c ((c.drive .command).select cmd) :=
  Quietly.trans (Quietly.drive .command (fun h => ⟨h, rfl⟩))
    (Quietly.refl c rfl)

theorem Quietly.triggerCommand
    (c : Controller)
    (cmd : UInt8) :
    Quietly c c
      (((c.drive .command).select cmd).drive .ctrla).start :=
  Quietly.trans (Quietly.command c cmd)
    (Quietly.trans (Quietly.drive .ctrla (fun h => ⟨h, rfl⟩))
      (Quietly.refl c rfl))

section Fields

variable (c : Controller) (kind : DriveKind) (cmd : UInt8)
variable (b l : Nat)

@[simp] theorem drive_busy :
    (c.drive kind).busy = c.busy := rfl

@[simp] theorem drive_cmd :
    (c.drive kind).cmd = c.cmd := rfl

@[simp] theorem drive_starts :
    (c.drive kind).starts = c.starts := rfl

@[simp] theorem drive_durations :
    (c.drive kind).durations = c.durations := rfl

@[simp] theorem drive_loads :
    (c.drive kind).loads = c.loads := rfl

@[simp] theorem drive_replies :
    (c.drive kind).replies = c.replies := rfl

@[simp] theorem start_busy :
    c.start.busy = c.durations c.starts := rfl

@[simp] theorem start_cmd :
    c.start.cmd = c.cmd := rfl

@[simp] theorem start_starts :
    c.start.starts = c.starts + 1 := rfl

@[simp] theorem start_durations :
    c.start.durations = c.durations := rfl

@[simp] theorem start_loads :
    c.start.loads = c.loads := rfl

@[simp] theorem start_replies :
    c.start.replies = c.replies := rfl

@[simp] theorem start_drives :
    c.start.drives = c.drives := rfl

@[simp] theorem select_busy :
    (c.select cmd).busy = c.busy := rfl

@[simp] theorem select_cmd :
    (c.select cmd).cmd = cmd := rfl

@[simp] theorem select_starts :
    (c.select cmd).starts = c.starts := rfl

@[simp] theorem select_durations :
    (c.select cmd).durations = c.durations := rfl

@[simp] theorem select_loads :
    (c.select cmd).loads = c.loads := rfl

@[simp] theorem select_replies :
    (c.select cmd).replies = c.replies := rfl

@[simp] theorem select_drives :
    (c.select cmd).drives = c.drives := rfl

@[simp] theorem polled_busy :
    (c.polled b l).busy = b := rfl

@[simp] theorem polled_cmd :
    (c.polled b l).cmd = c.cmd := rfl

@[simp] theorem polled_starts :
    (c.polled b l).starts = c.starts := rfl

@[simp] theorem polled_durations :
    (c.polled b l).durations = c.durations := rfl

@[simp] theorem polled_loads :
    (c.polled b l).loads = l := rfl

@[simp] theorem polled_replies :
    (c.polled b l).replies = c.replies := rfl

@[simp] theorem polled_drives :
    (c.polled b l).drives = c.drives := rfl

@[simp] theorem polled_polled (b' l' : Nat) :
    (c.polled b l).polled b' l' = c.polled b' l' := rfl

end Fields

theorem eraseBufferCmd_mem
    (mem : PagedMemory) :
    mem.eraseBufferCmd ∈ triggered := by
  cases mem <;> decide

theorem loadBufferCmd_mem
    (mem : PagedMemory) :
    mem.loadBufferCmd ∈ pageLoads := by
  cases mem <;> decide

theorem eraseWriteCmd_mem
    (mem : PagedMemory) :
    mem.eraseWriteCmd ∈ pageWrites := by
  cases mem <;> decide

/- A write to the command register. -/
theorem store_cmd
    (c : Controller)
    (cmd : UInt8) :
    c.store nvmCmdReg cmd =
      (c.drive .command).select cmd := by
  simp [store]

/- `CMDEX` under a command it starts. -/
theorem store_cmdex
    {c : Controller}
    (hCmd : c.cmd ∈ triggered) :
    c.store nvmCtrlaReg 0x01 = (c.drive .ctrla).start := by
  have hOther : nvmCtrlaReg ≠ nvmCmdReg := by decide
  simp [store, hOther, hCmd]

end Controller

------------------------------------------------------------
-- Waiting
------------------------------------------------------------

/-
  The last access of a log is a poll that shows `NVMBUSY`
  clear.
-/
def SeenClear (log : List Access) : Prop :=
  ∃ status,
    log.getLast? = some (.load nvmStatusReg (some status)) ∧
      ¬ Busy status

namespace Direct

variable (k : Direct Controller)

/- An answered poll, by the state of `NVMBUSY`. -/
theorem poll_some
    {v : UInt8}
    (hReply : k.bus.replies k.bus.loads = some v) :
    load Controller.bus nvmStatusReg k =
      (some (if k.bus.busy = 0 then v &&& 0x7F
          else v ||| 0x80),
        { k with
          bus :=
            k.bus.polled (k.bus.busy - 1) (k.bus.loads + 1)
          log := k.log ++
            [.load nvmStatusReg
              (some (if k.bus.busy = 0 then v &&& 0x7F
                else v ||| 0x80))] }) := by
  simp [load, Controller.bus, Controller.load, hReply]

theorem poll_none
    (hReply : k.bus.replies k.bus.loads = none) :
    load Controller.bus nvmStatusReg k =
      (none,
        { k with
          bus :=
            k.bus.polled (k.bus.busy - 1) (k.bus.loads + 1)
          log := k.log ++ [.load nvmStatusReg none] }) := by
  simp [load, Controller.bus, Controller.load, hReply]

/-
  Up to `n` polls end with `NVMBUSY` seen clear, with a poll
  that is not answered, or with all of them busy.
-/
theorem polls_cases
    (n : Nat) :
    let out := polls Controller.bus n k
    (k.bus.busy < n ∧
        out.1 = .ok (UInt8.ofNat (n - 1 - k.bus.busy)) ∧
        out.2.bus =
          k.bus.polled 0 (k.bus.loads + k.bus.busy + 1) ∧
        SeenClear out.2.log) ∨
      (out.1 = .error .timeOut ∧
        (∃ b l, out.2.bus = k.bus.polled b l) ∧
        ∃ m < n, m ≤ k.bus.busy ∧
          k.bus.replies (k.bus.loads + m) = none) ∨
      (n ≤ k.bus.busy ∧
        out.1 = .ok 255 ∧
        (∃ b l, out.2.bus = k.bus.polled b l) ∧
        ∀ m < n, (k.bus.replies (k.bus.loads + m)).isSome) := by
  induction n generalizing k with
  | zero =>
      exact Or.inr (Or.inr ⟨by omega, rfl,
        ⟨k.bus.busy, k.bus.loads, rfl⟩, by simp⟩)
  | succ n ih =>
      rw [polls]
      cases hReply : k.bus.replies k.bus.loads with
      | none =>
          rw [poll_none k hReply]
          exact Or.inr (Or.inl ⟨rfl, ⟨_, _, rfl⟩, 0,
            by omega, by omega, hReply⟩)
      | some v =>
          rw [poll_some k hReply]
          by_cases hIdle : k.bus.busy = 0
          · have hClear := status_clear v
            refine Or.inl ⟨by omega, ?_, ?_, v &&& 0x7F, ?_, ?_⟩
            · simp [hIdle, hClear]
            · simp [hIdle, hClear]
            · simp [hIdle, hClear]
            · exact not_not.mpr hClear
          · have hSet := status_set v
            simp only [hIdle, hSet, if_false]
            -- one poll less, one answered load more
            rcases ih
                { k with
                  bus := k.bus.polled (k.bus.busy - 1)
                    (k.bus.loads + 1)
                  log := k.log ++
                    [.load nvmStatusReg
                      (some (v ||| 0x80))] } with
              ⟨hLess, hLeft, hBus, hSeen⟩ |
              ⟨hLeft, ⟨b, l, hBus⟩, m, hm, hmBusy, hNone⟩ |
              ⟨hMore, hLeft, ⟨b, l, hBus⟩, hSome⟩
            · refine Or.inl ⟨?_, ?_, ?_, hSeen⟩
              · simp only [Controller.polled_busy] at hLess
                omega
              · rw [hLeft]
                simp only [Controller.polled_busy]
                congr 2
                omega
              · rw [hBus]
                simp only [Controller.polled_busy,
                  Controller.polled_loads,
                  Controller.polled_polled]
                congr 1
                omega
            · refine Or.inr (Or.inl
                ⟨hLeft, ⟨b, l, hBus⟩, m + 1, ?_, ?_, ?_⟩)
              · omega
              · simp only [Controller.polled_busy] at hmBusy
                omega
              · rw [← hNone]
                simp only [Controller.polled_loads,
                  Controller.polled_replies]
                congr 1
                omega
            · refine Or.inr (Or.inr
                ⟨?_, hLeft, ⟨b, l, hBus⟩, ?_⟩)
              · simp only [Controller.polled_busy] at hMore
                omega
              · intro m hm
                cases m with
                | zero => simp [hReply]
                | succ m =>
                    have hNext := hSome m (by omega)
                    simp only [Controller.polled_loads,
                      Controller.polled_replies] at hNext
                    have hShift :
                        k.bus.loads + (m + 1) =
                          k.bus.loads + 1 + m := by
                      omega
                    rw [hShift]
                    exact hNext

/-
  One wait for operation `i`: a wait that reports no error
  leaves an idle controller unless its polls ran out, and one
  in which the operation settles ends with `NVMBUSY` seen
  clear.
-/
theorem wait_spec
    {i : Nat}
    (hBusy : k.bus.busy = k.bus.durations i) :
    let out := wait Controller.bus k
    ∃ b l,
      out.2.bus = k.bus.polled b l ∧
        (out.1 = .noError →
          ¬ k.bus.Exhausts i k.bus.loads → b = 0) ∧
        (k.bus.Settles i k.bus.loads →
          b = 0 ∧ l = k.bus.loads + k.bus.durations i + 1 ∧
            SeenClear out.2.log) := by
  have hCases := polls_cases k 255
  unfold wait
  rcases hPolls : polls Controller.bus 255 k with
    ⟨left, after⟩
  simp only [hPolls] at hCases
  rcases hCases with
    ⟨hLess, hLeft, hBus, hSeen⟩ |
    ⟨hLeft, ⟨b, l, hBus⟩, m, hm, hmBusy, hNone⟩ |
    ⟨hMore, hLeft, ⟨b, l, hBus⟩, hSome⟩
  · subst hLeft
    refine ⟨0, k.bus.loads + k.bus.busy + 1, ?_,
      fun _ _ => rfl, fun _ => ⟨rfl, by rw [hBusy], ?_⟩⟩
    · simp only
      split <;> exact hBus
    · simp only
      split <;> exact hSeen
  · subst hLeft
    refine ⟨b, l, hBus, ?_, ?_⟩
    · intro hResult
      cases hResult
    · rintro ⟨hShort, hAnswered⟩
      have hSome := hAnswered m (hBusy ▸ hmBusy)
      rw [hNone] at hSome
      cases hSome
  · subst hLeft
    refine ⟨b, l, hBus, ?_, ?_⟩
    · intro _hResult hNot
      exact absurd ⟨hBusy ▸ hMore, hSome⟩ hNot
    · rintro ⟨hShort, _hAnswered⟩
      omega

/- A wait whose 255 polls are all busy reports no error. -/
theorem wait_exhausted
    (hBusy : 255 ≤ k.bus.busy)
    (hAnswered :
      ∀ m < 255, (k.bus.replies (k.bus.loads + m)).isSome) :
    (wait Controller.bus k).1 = .noError := by
  have hCases := polls_cases k 255
  unfold wait
  rcases hPolls : polls Controller.bus 255 k with
    ⟨left, after⟩
  simp only [hPolls] at hCases
  rcases hCases with
    ⟨hLess, _hSeen⟩ |
    ⟨_hLeft, _hBus, m, hm, _hmBusy, hNone⟩ |
    ⟨_hMore, hLeft, _hBus, _hSome⟩
  · omega
  · have hSome := hAnswered m hm
    rw [hNone] at hSome
    cases hSome
  · subst hLeft
    rfl

end Direct

------------------------------------------------------------
-- Loading the Page Buffer
------------------------------------------------------------

/- The first `n` addresses from `address` on are memory. -/
def AvoidsRegisters
    (address : UInt32)
    (n : Nat) : Prop :=
  ∀ i < n,
    address + UInt32.ofNat i ≠ nvmCmdReg ∧
      address + UInt32.ofNat i ≠ nvmCtrlaReg

instance (address : UInt32) (n : Nat) :
    Decidable (AvoidsRegisters address n) := by
  unfold AvoidsRegisters
  infer_instance

theorem AvoidsRegisters.head
    {address : UInt32}
    {n : Nat}
    (hAvoids : AvoidsRegisters address n)
    (hPos : 0 < n) :
    address ≠ nvmCmdReg ∧ address ≠ nvmCtrlaReg := by
  have hFirst := hAvoids 0 hPos
  simpa using hFirst

theorem AvoidsRegisters.tail
    {address : UInt32}
    {n : Nat}
    (hAvoids : AvoidsRegisters address (n + 1)) :
    AvoidsRegisters (address + 1) n := by
  intro i hi
  have hNext := hAvoids (i + 1) (by omega)
  rw [← address_succ]
  simpa using hNext

namespace Controller

/- Drives have been recorded. -/
def recorded
    (new : List Drive)
    (c : Controller) : Controller :=
  { c with drives := c.drives ++ new }

@[simp] theorem recorded_busy
    (new : List Drive)
    (c : Controller) :
    (c.recorded new).busy = c.busy := rfl

@[simp] theorem recorded_starts
    (new : List Drive)
    (c : Controller) :
    (c.recorded new).starts = c.starts := rfl

@[simp] theorem recorded_durations
    (new : List Drive)
    (c : Controller) :
    (c.recorded new).durations = c.durations := rfl

@[simp] theorem recorded_loads
    (new : List Drive)
    (c : Controller) :
    (c.recorded new).loads = c.loads := rfl

@[simp] theorem recorded_replies
    (new : List Drive)
    (c : Controller) :
    (c.recorded new).replies = c.replies := rfl

/- Drives that all met an idle controller are quiet. -/
theorem Quietly.recorded
    {c₀ c : Controller}
    {new : List Drive}
    (hIdle : ∀ d ∈ new, d.busy = false) :
    Quietly c₀ c (c.recorded new) := by
  refine ⟨new, rfl, ?_⟩
  intro d hMem hSet
  rw [hIdle d hMem] at hSet
  cases hSet

end Controller

/- Page-buffer loads of an idle controller leave it idle. -/
theorem Direct.stores_idle
    {address : UInt32}
    {bytes : List UInt8}
    {k : Direct Controller}
    (hCmd : k.bus.cmd ∈ Controller.pageLoads)
    (hIdle : k.bus.busy = 0)
    (hAvoids : AvoidsRegisters address bytes.length) :
    ∃ new,
      (stores Controller.bus address bytes k).bus =
          k.bus.recorded new ∧
        ∀ d ∈ new, d.busy = false := by
  induction bytes generalizing address k with
  | nil =>
      exact ⟨[], by simp [stores, Controller.recorded],
        by simp⟩
  | cons b bytes ih =>
      rcases hAvoids.head (by simp) with ⟨hNotCmd, hNotCtrla⟩
      have hFirst :
          (store Controller.bus address b k).bus =
            k.bus.drive .pageLoad := by
        simp [store, Controller.bus, Controller.store,
          hNotCmd, hNotCtrla, hCmd]
      have hTail :
          AvoidsRegisters (address + 1) bytes.length :=
        AvoidsRegisters.tail (by simpa using hAvoids)
      rcases ih (k := store Controller.bus address b k)
          (by rw [hFirst]; exact hCmd)
          (by rw [hFirst]; exact hIdle) hTail with
        ⟨new, hBus, hNew⟩
      refine
        ⟨⟨.pageLoad, false, k.bus.starts⟩ :: new, ?_, ?_⟩
      · rw [stores, hBus, hFirst]
        simp [Controller.drive, Controller.recorded, hIdle]
      · intro d hMem
        rcases List.mem_cons.mp hMem with hHere | hLater
        · rw [hHere]
        · exact hNew d hLater

------------------------------------------------------------
-- Operations
------------------------------------------------------------

/- The operations of the controller driver. -/
def Call.IsNvm : Call → Prop
| .nvmChipErase => True
| .nvmReadByte _ => True
| .nvmReadBytes _ _ _ => True
| .nvmWriteByte _ _ _ => True
| .nvmPagedWrite _ _ _ _ => True
| _ => False

instance : DecidablePred Call.IsNvm
| .nvmChipErase => isTrue trivial
| .nvmReadByte _ => isTrue trivial
| .nvmReadBytes _ _ _ => isTrue trivial
| .nvmWriteByte _ _ _ => isTrue trivial
| .nvmPagedWrite _ _ _ _ => isTrue trivial
| .pdiReadByte _ => isFalse id
| .pdiWriteByte _ _ => isFalse id
| .pdiReadBytes _ _ _ => isFalse id
| .pdiWriteBytes _ _ _ => isFalse id

/-
  An operation entered in an open session with the controller
  in this state stays clear of what the driver mishandles: a
  count of zero, data stored to the command registers, a wait
  whose 255 polls all find the controller busy, a page-buffer
  erase not seen to end, and a read over a set `NVMBUSY`.
-/
def Controller.Orderly
    (c : Controller) :
    Call → Prop
| .nvmChipErase => ¬ c.Exhausts c.starts c.loads
| .nvmReadByte _ => c.busy = 0
| .nvmReadBytes _ _ count => c.busy = 0 ∧ count ≠ 0
| .nvmWriteByte address _ _ =>
    AvoidsRegisters address 1 ∧
      ¬ c.Exhausts c.starts c.loads
| .nvmPagedWrite address _ count _ =>
    count ≠ 0 ∧ AvoidsRegisters address count.toNat ∧
      c.Settles c.starts c.loads ∧
      ¬ c.Exhausts (c.starts + 1)
        (c.loads + c.durations c.starts + 1)
| _ => True

instance
    (c : Controller)
    (call : Call) :
    Decidable (c.Orderly call) :=
  match call with
  | .nvmChipErase =>
      inferInstanceAs
        (Decidable (¬ c.Exhausts c.starts c.loads))
  | .nvmReadByte _ =>
      inferInstanceAs (Decidable (c.busy = 0))
  | .nvmReadBytes _ _ count =>
      inferInstanceAs (Decidable (c.busy = 0 ∧ count ≠ 0))
  | .nvmWriteByte address _ _ =>
      inferInstanceAs
        (Decidable
          (AvoidsRegisters address 1 ∧
            ¬ c.Exhausts c.starts c.loads))
  | .nvmPagedWrite address _ count _ =>
      inferInstanceAs
        (Decidable
          (count ≠ 0 ∧ AvoidsRegisters address count.toNat ∧
            c.Settles c.starts c.loads ∧
            ¬ c.Exhausts (c.starts + 1)
              (c.loads + c.durations c.starts + 1)))
  | .pdiReadByte _ => isTrue trivial
  | .pdiWriteByte _ _ => isTrue trivial
  | .pdiReadBytes _ _ _ => isTrue trivial
  | .pdiWriteBytes _ _ _ => isTrue trivial

namespace Direct

open Controller

variable {k : Direct Controller}

theorem command_bus
    (cmd : UInt8)
    (k : Direct Controller) :
    (command Controller.bus cmd k).bus =
      (k.bus.drive .command).select cmd :=
  store_cmd k.bus cmd

/- A triggered command starts an operation. -/
theorem trigger_bus
    (hCmd : k.bus.cmd ∈ triggered) :
    (trigger Controller.bus k).bus =
      (k.bus.drive .ctrla).start :=
  store_cmdex hCmd

/- Selecting and triggering a command. -/
theorem triggerCommand_bus
    (cmd : UInt8)
    (hCmd : cmd ∈ triggered)
    (k : Direct Controller) :
    (trigger Controller.bus
        (command Controller.bus cmd k)).bus =
      (((k.bus.drive .command).select cmd).drive
        .ctrla).start := by
  rw [trigger_bus (by rw [command_bus]; exact hCmd),
    command_bus]

/-
  What an operation of the controller driver is to keep: its
  drives are quiet, and reporting no error it leaves the
  controller idle.
-/
def Keeps
    (c : Controller)
    (out : PdiResult × Direct Controller) : Prop :=
  Quietly c c out.2.bus ∧
    (out.1 = .noError → out.2.bus.busy = 0)

/- A wait at the end of an operation. -/
theorem keeps_wait
    {c : Controller}
    {i : Nat}
    (hQuiet : Quietly c c k.bus)
    (hBusy : k.bus.busy = k.bus.durations i)
    (hEnds : ¬ k.bus.Exhausts i k.bus.loads) :
    Keeps c (wait Controller.bus k) := by
  rcases wait_spec k hBusy with
    ⟨b, l, hBus, hResult, _hSettles⟩
  constructor
  · rw [hBus]
    exact hQuiet.trans (Quietly.refl c rfl)
  · intro hNoError
    rw [hBus, polled_busy]
    exact hResult hNoError hEnds

theorem keeps_chipErase
    (hEnds : ¬ k.bus.Exhausts k.bus.starts k.bus.loads) :
    Keeps k.bus
      (wait Controller.bus
        (trigger Controller.bus
          (command Controller.bus cmdChipErase k))) := by
  have hBus :=
    triggerCommand_bus cmdChipErase (by decide) k
  refine keeps_wait (i := k.bus.starts) ?_ ?_ ?_
  · rw [hBus]
    exact Quietly.triggerCommand k.bus cmdChipErase
  · rw [hBus]
    rfl
  · rw [hBus]
    exact hEnds

/- A store to memory under a byte-write command. -/
theorem store_bus_byteWrite
    {address : UInt32}
    (hAvoids : AvoidsRegisters address 1)
    (data : UInt8)
    (mem : ByteMemory)
    (hCmd : k.bus.cmd = mem.writeCmd) :
    (store Controller.bus address data k).bus =
      if mem = .fuse then k.bus.start else k.bus := by
  rcases hAvoids.head (by omega) with ⟨hNotCmd, hNotCtrla⟩
  have hLoads : mem.writeCmd ∉ pageLoads := by
    cases mem <;> decide
  have hWrites : mem.writeCmd ∉ pageWrites := by
    cases mem <;> decide
  cases mem with
  | fuse =>
      simp_all [store, Controller.bus, Controller.store,
        ByteMemory.writeCmd]
  | lock =>
      have hFuse : cmdWriteLock ≠ cmdWriteFuse := by decide
      simp_all [store, Controller.bus, Controller.store,
        ByteMemory.writeCmd]

theorem keeps_writeByte
    {address : UInt32}
    (hAvoids : AvoidsRegisters address 1)
    (data : UInt8)
    (mem : ByteMemory)
    (hEnds : ¬ k.bus.Exhausts k.bus.starts k.bus.loads) :
    Keeps k.bus
      (wait Controller.bus
        (let k' :=
          store Controller.bus address data
            (command Controller.bus mem.writeCmd k)
        if mem = .lock then trigger Controller.bus k'
        else k')) := by
  have hCommand := command_bus mem.writeCmd k
  have hStore :=
    store_bus_byteWrite hAvoids data mem
      (k := command Controller.bus mem.writeCmd k)
      (by rw [hCommand]; rfl)
  rw [hCommand] at hStore
  generalize
    store Controller.bus address data
      (command Controller.bus mem.writeCmd k) = k'
    at hStore ⊢
  have hEntered := Quietly.command k.bus mem.writeCmd
  cases mem with
  | fuse =>
      simp only [if_true, reduceCtorEq, if_false] at hStore ⊢
      apply keeps_wait (i := k.bus.starts)
      · rw [hStore]
        exact hEntered.trans (Quietly.refl k.bus rfl)
      · rw [hStore]
        rfl
      · rw [hStore]
        exact hEnds
  | lock =>
      simp only [if_true, reduceCtorEq, if_false] at hStore ⊢
      have hTrigger : (trigger Controller.bus k').bus =
          (k'.bus.drive .ctrla).start :=
        trigger_bus (by rw [hStore, select_cmd]; decide)
      rw [hStore] at hTrigger
      apply keeps_wait (i := k.bus.starts)
      · rw [hTrigger]
        exact Quietly.triggerCommand k.bus cmdWriteLock
      · rw [hTrigger]
        rfl
      · rw [hTrigger]
        exact hEnds

/- Loads drive nothing and start nothing. -/
theorem load_bus
    (address : UInt32)
    (k : Direct Controller)
    (hIdle : k.bus.busy = 0) :
    ∃ l,
      (load Controller.bus address k).2.bus =
        k.bus.polled 0 l := by
  refine ⟨k.bus.loads + 1, ?_⟩
  by_cases hStatus : address = nvmStatusReg
  · simp [load, Controller.bus, Controller.load, hStatus,
      hIdle]
  · simp [load, Controller.bus, Controller.load, hStatus,
      hIdle]

theorem loads_bus
    (n : Nat)
    (address : UInt32)
    (data : Nat)
    (k : Direct Controller)
    (hIdle : k.bus.busy = 0) :
    ∃ l,
      (loads Controller.bus n address data k).2.bus =
        k.bus.polled 0 l := by
  induction n generalizing address data k with
  | zero =>
      exact ⟨k.bus.loads, by
        simp [loads, Controller.polled, ← hIdle]⟩
  | succ n ih =>
      rcases load_bus address k hIdle with ⟨l, hBus⟩
      rw [loads]
      rcases hLoad : load Controller.bus address k with
        ⟨answer, after⟩
      rw [hLoad] at hBus
      cases answer with
      | none => exact ⟨l, hBus⟩
      | some b =>
          simp only at hBus ⊢
          rcases ih (address + 1) (data + 1)
              (put data b after) (by simp [put, hBus]) with
            ⟨l', hRest⟩
          refine ⟨l', ?_⟩
          rw [hRest]
          simp [put, hBus]

/- A read after its command was selected. -/
theorem keeps_read
    {k k' : Direct Controller}
    {r : PdiResult}
    (hIdle : k.bus.busy = 0)
    (hRead :
      (command Controller.bus cmdReadNvm k).bus.busy = 0 →
        ∃ l,
          k'.bus =
            (command Controller.bus cmdReadNvm k).bus.polled
              0 l) :
    Keeps k.bus (r, k') := by
  have hCommand := command_bus cmdReadNvm k
  rw [hCommand] at hRead
  rcases hRead hIdle with ⟨l, hBus⟩
  constructor
  · simp only [hBus]
    exact (Quietly.command k.bus cmdReadNvm).trans
      (Quietly.refl k.bus rfl)
  · intro _hResult
    simp [hBus]

/- The store that starts a page write. -/
theorem store_bus_pageWrite
    {address : UInt32}
    (hMemory : address ≠ nvmCmdReg ∧ address ≠ nvmCtrlaReg)
    (data : UInt8)
    (hCmd : k.bus.cmd ∈ pageWrites) :
    (store Controller.bus address data k).bus =
      (k.bus.drive .pageTrigger).start := by
  have hLoads : k.bus.cmd ∉ pageLoads := by
    simp only [pageWrites, List.mem_cons, List.not_mem_nil,
      or_false] at hCmd
    rcases hCmd with hFlash | hEeprom
    · rw [hFlash]
      decide
    · rw [hEeprom]
      decide
  simp [store, Controller.bus, Controller.store, hMemory.1,
    hMemory.2, hLoads, hCmd]

/- A page write up to and with its first wait. -/
theorem erasePageBuffer_spec
    (mem : PagedMemory)
    (hSettles : k.bus.Settles k.bus.starts k.bus.loads) :
    (erasePageBuffer Controller.bus mem k).2.bus =
        (((k.bus.drive .command).select
            mem.eraseBufferCmd).drive .ctrla).start.polled 0
          (k.bus.loads + k.bus.durations k.bus.starts + 1) ∧
      SeenClear
        (erasePageBuffer Controller.bus mem k).2.log := by
  have hErase :=
    triggerCommand_bus mem.eraseBufferCmd
      (eraseBufferCmd_mem mem) k
  rcases wait_spec
      (trigger Controller.bus
        (command Controller.bus mem.eraseBufferCmd k))
      (i := k.bus.starts) (by rw [hErase]; rfl) with
    ⟨b, l, hBus, _hResult, hSettled⟩
  rw [hErase] at hBus hSettled
  rcases hSettled hSettles with ⟨hIdle, hLoads, hSeen⟩
  subst hIdle
  subst hLoads
  exact ⟨hBus, hSeen⟩

theorem keeps_pagedWrite
    {address : UInt32}
    {bytes : List UInt8}
    (mem : PagedMemory)
    (hPos : 0 < bytes.length)
    (hAvoids : AvoidsRegisters address bytes.length)
    (hSettles : k.bus.Settles k.bus.starts k.bus.loads)
    (hEnds :
      ¬ k.bus.Exhausts (k.bus.starts + 1)
        (k.bus.loads + k.bus.durations k.bus.starts + 1)) :
    Keeps k.bus
      (loadAndWritePage Controller.bus address bytes mem
        (erasePageBuffer Controller.bus mem k).2) := by
  rcases erasePageBuffer_spec mem hSettles with
    ⟨hErased, _hSeen⟩
  have hQuietErase :
      Quietly k.bus k.bus
        (erasePageBuffer Controller.bus mem k).2.bus := by
    rw [hErased]
    exact (Quietly.triggerCommand k.bus
      mem.eraseBufferCmd).trans (Quietly.refl k.bus rfl)
  generalize
    (erasePageBuffer Controller.bus mem k).2 = erased
    at hErased hQuietErase ⊢
  simp only [loadAndWritePage]
  -- load the page buffer of an idle controller
  have hLoadCmd := command_bus mem.loadBufferCmd erased
  rcases stores_idle
      (k := command Controller.bus mem.loadBufferCmd erased)
      (by rw [hLoadCmd]; exact loadBufferCmd_mem mem)
      (by rw [hLoadCmd, hErased]; rfl) hAvoids with
    ⟨new, hLoaded, hNew⟩
  rw [hLoadCmd] at hLoaded
  have hQuietLoaded :
      Quietly k.bus k.bus
        (stores Controller.bus address bytes
          (command Controller.bus mem.loadBufferCmd
            erased)).bus := by
    rw [hLoaded]
    refine hQuietErase.trans (Quietly.trans (Quietly.drive
      .command ?_) (Quietly.trans (Quietly.refl k.bus rfl)
        (Quietly.recorded hNew)))
    rw [hErased]
    intro hBusy
    exact absurd rfl hBusy
  generalize
    stores Controller.bus address bytes
      (command Controller.bus mem.loadBufferCmd erased) =
      loaded
    at hLoaded hQuietLoaded ⊢
  -- trigger the write of the page
  have hWriteCmd := command_bus mem.eraseWriteCmd loaded
  have hTrigger :=
    store_bus_pageWrite (hAvoids.head hPos) 0x00
      (k := command Controller.bus mem.eraseWriteCmd loaded)
      (by rw [hWriteCmd]; exact eraseWriteCmd_mem mem)
  rw [hWriteCmd] at hTrigger
  have hStillIdle : loaded.bus.busy = 0 := by
    rw [hLoaded, hErased]
    rfl
  have hQuietTrigger :
      Quietly k.bus k.bus
        (((loaded.bus.drive .command).select
          mem.eraseWriteCmd).drive .pageTrigger).start := by
    refine hQuietLoaded.trans (Quietly.trans (Quietly.drive
      .command ?_) (Quietly.trans (Quietly.refl k.bus rfl)
        (Quietly.trans (Quietly.drive .pageTrigger ?_)
          (Quietly.refl k.bus rfl))))
    · intro hBusy
      exact absurd hStillIdle hBusy
    · intro hBusy
      exact absurd hStillIdle hBusy
  refine keeps_wait (i := k.bus.starts + 1) ?_ ?_ ?_
  · rw [hTrigger]
    exact hQuietTrigger
  · rw [hTrigger, hLoaded, hErased]
    rfl
  · rw [hTrigger, hLoaded, hErased]
    exact hEnds

/-
  Every orderly operation keeps what it is to keep, and an
  orderly page write sees the end of its first phase.
-/
theorem keeps_call
    {call : Call}
    (hNvm : call.IsNvm)
    (hOrderly : k.bus.Orderly call) :
    Keeps k.bus
      ((Direct.call Controller.bus call k).1.1,
        (Direct.call Controller.bus call k).2) := by
  cases call with
  | pdiReadByte address => exact absurd hNvm id
  | pdiWriteByte address data => exact absurd hNvm id
  | pdiReadBytes start data count => exact absurd hNvm id
  | pdiWriteBytes start data count => exact absurd hNvm id
  | nvmChipErase =>
      exact keeps_chipErase hOrderly
  | nvmReadByte address =>
      apply keeps_read hOrderly
      intro hIdle
      rcases load_bus address _ hIdle with ⟨l, hBus⟩
      refine ⟨l, ?_⟩
      rw [← hBus]
      simp only [Direct.call, readByte]
      split
      · rename_i after hLoad
        rw [hLoad]
      · rename_i b after hLoad
        rw [hLoad]
  | nvmReadBytes address data count =>
      rcases hOrderly with ⟨hBusy, _hCount⟩
      apply keeps_read hBusy
      intro hIdle
      exact loads_bus count.toNat address data _ hIdle
  | nvmWriteByte address data mem =>
      rcases hOrderly with ⟨hAvoids, hEnds⟩
      exact keeps_writeByte hAvoids data mem hEnds
  | nvmPagedWrite address data count mem =>
      rcases hOrderly with
        ⟨hCount, hAvoids, hSettles, hEnds⟩
      have hLength :
          (data.bytes k.ram count.toNat).length =
            count.toNat :=
        Ptr.bytes_length k.ram data count.toNat
      apply keeps_pagedWrite mem
      · rw [hLength, repeatOperand_succ hCount]
        omega
      · rw [hLength]
        exact hAvoids
      · exact hSettles
      · exact hEnds

end Direct

------------------------------------------------------------
-- Runs
------------------------------------------------------------

/- The drives an operation added. -/
def newDrives (before after : Controller) : List Drive :=
  after.drives.drop before.drives.length

/- The page write up to and with its first wait. -/
def eraseWait
    {τ : Type}
    (line : Line τ)
    (address : UInt32)
    (mem : PagedMemory)
    (s : Fw τ) : PdiResult × Fw τ :=
  let s := nvmPointer line address s
  let s := nvmCmd line mem.eraseBufferCmd s
  let s := trigCmdex line s
  waitNvm line s

/-
  The operation after one with result `last` is quiet: what
  it drives into a set `NVMBUSY` follows a failure and was
  not made busy by itself; and a page write whose first wait
  does not end with `NVMBUSY` seen clear triggers no page
  write and reports an error.
-/
structure QuietCall
    (last : PdiResult)
    (call : Call)
    (s : Fw (Decoder Controller))
    (out :
      (PdiResult × UInt8) × Fw (Decoder Controller)) :
    Prop where
  drives :
    ∀ d ∈ newDrives s.target.bus out.2.target.bus,
      d.busy = true →
        last ≠ .noError ∧ d.starts = s.target.bus.starts
  erased :
    ∀ address data count mem,
      call = .nvmPagedWrite address data count mem →
        ¬ SeenClear
            (eraseWait (Decoder.line Controller.bus) address
              mem s).2.target.log →
          (∀ d ∈ newDrives s.target.bus out.2.target.bus,
              d.kind ≠ .pageTrigger) ∧
            out.1.1 ≠ .noError

/- Every operation of a run is quiet. -/
def QuietRun :
    PdiResult → List Call → Fw (Decoder Controller) → Prop
| _, [], _ => True
| last, call :: calls, s =>
    let out := call.exec (Decoder.line Controller.bus) s
    QuietCall last call s out ∧ QuietRun out.1.1 calls out.2

/- Every operation entered in an open session is orderly. -/
def OrderlyRun :
    List Call → Fw (Decoder Controller) → Prop
| [], _ => True
| call :: calls, s =>
    (s.pdiOn = true → s.target.bus.Orderly call) ∧
      OrderlyRun calls
        (call.exec (Decoder.line Controller.bus) s).2

/- Added drives of a quiet change. -/
theorem newDrives_quiet
    {c c' : Controller}
    (hQuiet : Controller.Quietly c c c') :
    ∀ d ∈ newDrives c c', d.busy = true →
      c.busy ≠ 0 ∧ d.starts = c.starts := by
  rcases hQuiet with ⟨new, hDrives, hNew⟩
  have hDrop : newDrives c c' = new := by
    simp [newDrives, hDrives]
  rw [hDrop]
  exact hNew

/- An orderly operation has a positive count. -/
theorem Controller.Orderly.countPos
    {c : Controller}
    {call : Call}
    (hNvm : call.IsNvm)
    (hOrderly : c.Orderly call) :
    call.CountPos := by
  cases call with
  | nvmReadBytes address data count => exact hOrderly.2
  | nvmPagedWrite address data count mem => exact hOrderly.1
  | _ => first | exact trivial | exact absurd hNvm id

/-
  An orderly operation in an open session is quiet when the
  controller is idle after a success, and leaves it so.
-/
theorem quietCall_of_orderly
    {last : PdiResult}
    {call : Call}
    {s : Fw (Decoder Controller)}
    (hNvm : call.IsNvm)
    (hOpen : s.pdiOn = true)
    (hBoundary : s.target.AtBoundary)
    (hIdle : last = .noError → s.target.bus.busy = 0)
    (hOrderly : s.target.bus.Orderly call) :
    let out := call.exec (Decoder.line Controller.bus) s
    QuietCall last call s out ∧ out.2.target.AtBoundary ∧
      (out.1.1 = .noError → out.2.target.bus.busy = 0) := by
  have hReflects := reflects_direct hOpen hBoundary
  rcases Reflects.call Controller.bus
      (hOrderly.countPos hNvm) s s.direct hReflects with
    ⟨hResult, hAfter⟩
  rcases Direct.keeps_call (k := s.direct) hNvm hOrderly with
    ⟨hQuiet, hEndsIdle⟩
  simp only
  rw [hAfter.bus, hResult]
  refine ⟨⟨?_, ?_⟩, hAfter.boundary, hEndsIdle⟩
  · intro d hMem hSet
    rw [hAfter.bus] at hMem
    rcases newDrives_quiet hQuiet d hMem hSet with
      ⟨hBusy, hStarts⟩
    exact ⟨fun hLast => hBusy (hIdle hLast), hStarts⟩
  · intro address data count mem hCall hNotSeen
    subst hCall
    -- an orderly first wait does see the end of the erase
    rcases hOrderly with ⟨_hCount, _hAvoids, hSettles, _hEnds⟩
    have hErase :=
      hReflects.erasePageBuffer Controller.bus address mem
    rcases Direct.erasePageBuffer_spec (k := s.direct) mem
      hSettles with ⟨_hBus, hSeen⟩
    rw [← hErase.log] at hSeen
    simp only [eraseWait] at hNotSeen
    exact absurd hSeen hNotSeen

/-
  With no session open an operation leaves a controller out
  of reset with no command selected, idle and driven only
  while idle.
-/
structure Dormant (s : Fw (Decoder Controller)) : Prop where
  closed : s.pdiOn = false
  boundary : s.target.AtBoundary
  unselected : s.target.bus.cmd = 0
  idle : s.target.bus.busy = 0

/- A zero stored under no command starts nothing. -/
theorem Controller.store_zero
    {c : Controller}
    (hCmd : c.cmd = 0)
    (hIdle : c.busy = 0)
    (address : UInt32) :
    ∃ new,
      c.store address 0 = c.recorded new ∧
        ∀ d ∈ new, d.busy = false ∧ d.kind ≠ .pageTrigger := by
  by_cases hReg : address = nvmCmdReg
  · refine ⟨[⟨.command, false, c.starts⟩], ?_, by simp⟩
    simp [Controller.store, hReg, Controller.select,
      Controller.drive, Controller.recorded, hIdle, ← hCmd]
  · by_cases hCtrla : address = nvmCtrlaReg
    · have hOther : nvmCtrlaReg ≠ nvmCmdReg := by decide
      refine ⟨[⟨.ctrla, false, c.starts⟩], ?_, by simp⟩
      simp [Controller.store, hCtrla, hOther,
        Controller.drive, Controller.recorded, hIdle]
    · have hLoads : c.cmd ∉ Controller.pageLoads := by
        rw [hCmd]
        decide
      have hWrites : c.cmd ∉ Controller.pageWrites := by
        rw [hCmd]
        decide
      have hFuse : c.cmd ≠ cmdWriteFuse := by
        rw [hCmd]
        decide
      refine ⟨[], ?_, by simp⟩
      simp [Controller.store, hReg, hCtrla, hLoads, hWrites,
        hFuse, Controller.recorded]

/- An operation with no session open is quiet. -/
theorem quietCall_of_dormant
    (last : PdiResult)
    (call : Call)
    {s : Fw (Decoder Controller)}
    (hDormant : Dormant s) :
    let out := call.exec (Decoder.line Controller.bus) s
    QuietCall last call s out ∧ Dormant out.2 := by
  rcases hDormant with ⟨hOff, hBoundary, hCmd, hIdle⟩
  by_cases hPaged : call.IsPagedWrite
  · cases call with
    | nvmPagedWrite address data count mem =>
        have hTarget :=
          Decoder.frames_pagedWrite_disabled Controller.bus hBoundary
            address
        rcases Controller.store_zero hCmd hIdle address with
          ⟨new, hStore, hNew⟩
        have hBus :
            ((Decoder.line Controller.bus).frames s.target
              (pointerFrames address ++
                pointerFrames address ++ [0x64, 0x00])).bus =
              s.target.bus.recorded new := by
          rw [hTarget, ← hStore]
          rfl
        have hAdded :
            newDrives s.target.bus
                (s.target.bus.recorded new) = new := by
          simp [newDrives, Controller.recorded]
        simp only [Call.exec,
          nvmPagedWrite_disabled _ hOff]
        refine ⟨⟨?_, ?_⟩, ?_, ?_, ?_, ?_⟩
        · intro d hMem hSet
          rw [feed_target, hBus, hAdded] at hMem
          rw [(hNew d hMem).1] at hSet
          cases hSet
        · intro address' data' count' mem' _hCall _hNotSeen
          refine ⟨?_, by simp⟩
          intro d hMem
          rw [feed_target, hBus, hAdded] at hMem
          exact (hNew d hMem).2
        · simpa using hOff
        · rw [feed_target, hTarget]
          exact hBoundary
        · rw [feed_target, hBus]
          exact hCmd
        · rw [feed_target, hBus]
          exact hIdle
    | _ => exact absurd hPaged id
  · rw [Call.exec_disabled _ hOff hPaged]
    refine ⟨⟨?_, ?_⟩, hOff, hBoundary, hCmd, hIdle⟩
    · intro d hMem
      simp [newDrives] at hMem
    · intro address data count mem hCall
      subst hCall
      exact absurd trivial hPaged

theorem quietRun_dormant
    (calls : List Call)
    (last : PdiResult)
    {s : Fw (Decoder Controller)}
    (hDormant : Dormant s) :
    QuietRun last calls s := by
  induction calls generalizing last s with
  | nil => trivial
  | cons call calls ih =>
      rcases quietCall_of_dormant last call hDormant with
        ⟨hQuiet, hAfter⟩
      exact ⟨hQuiet, ih _ hAfter⟩

/-
  The invariant of an orderly run: after a success the
  controller is idle.
-/
theorem quietRun_open
    {last : PdiResult}
    {calls : List Call}
    {s : Fw (Decoder Controller)}
    (hNvm : ∀ call ∈ calls, call.IsNvm)
    (hOpen : s.pdiOn = true)
    (hBoundary : s.target.AtBoundary)
    (hIdle : last = .noError → s.target.bus.busy = 0)
    (hOrderly : OrderlyRun calls s) :
    QuietRun last calls s := by
  induction calls generalizing last s with
  | nil => trivial
  | cons call calls ih =>
      rcases hOrderly with ⟨hHead, hTail⟩
      rcases quietCall_of_orderly (hNvm call (by simp)) hOpen
          hBoundary hIdle (hHead hOpen) with
        ⟨hQuiet, hNext, hStillIdle⟩
      refine ⟨hQuiet, ih ?_ ?_ hNext hStillIdle hTail⟩
      · intro c hMem
        exact hNvm c (List.mem_cons_of_mem _ hMem)
      · rw [Call.exec_pdiOn, hOpen]

/-
  In a run from reset whose operations are all orderly, every
  operation is quiet.
-/
theorem quietRun_of_orderlyRun
    (durations : Nat → Nat)
    (replies : Nat → Option UInt8)
    (calls : List Call)
    (hNvm : ∀ call ∈ calls, call.IsNvm)
    (s : Fw (Decoder Controller))
    (hReset :
      s.target =
        Decoder.initial (Controller.reset durations replies))
    (hOrderly : OrderlyRun calls s) :
    QuietRun .noError calls s := by
  have hBoundary : s.target.AtBoundary := by
    rw [hReset]
    exact ⟨rfl, rfl⟩
  have hIdle : s.target.bus.busy = 0 := by
    rw [hReset]
    rfl
  cases hOpen : s.pdiOn with
  | true =>
      exact quietRun_open hNvm hOpen hBoundary
        (fun _ => hIdle) hOrderly
  | false =>
      have hCmd : s.target.bus.cmd = 0 := by
        rw [hReset]
        rfl
      exact quietRun_dormant calls .noError
        ⟨hOpen, hBoundary, hCmd, hIdle⟩

/- An open session on a controller out of reset. -/
def Controller.opened
    (durations : Nat → Nat)
    (replies : Nat → Option UInt8) : Fw (Decoder Controller) :=
  { Fw.powerOn
      (Decoder.initial (Controller.reset durations replies)) with
    pdiOn := true }

/- A page write and a read back, two busy polls a phase. -/
theorem quietRun_page_and_read :
    QuietRun .noError
      [.nvmPagedWrite 0x00800000 (.array [0xAA, 0xBB]) 2
          .flash,
        .nvmReadByte 0x00800001]
      (Controller.opened (fun _ => 2) (fun _ => some 0)) :=
  quietRun_of_orderlyRun (fun _ => 2) (fun _ => some 0) _
    (by decide) _ rfl
    ⟨fun _ => by decide, fun _ => by decide, trivial⟩

/-
  The first poll after the page-buffer erase gets no answer:
  the next command goes out over the set `NVMBUSY`.
-/
theorem not_quietRun_silent_erase :
    ¬ QuietRun .noError
        [.nvmPagedWrite 0x00800000 (.array [0xAA]) 1 .flash]
        (Controller.opened (fun _ => 5) (fun _ => none)) := by
  rintro ⟨⟨hDrives, _hErased⟩, _hRest⟩
  have hCommand :=
    hDrives ⟨.command, true, 1⟩ (by decide) rfl
  exact hCommand.1 rfl

end Lucax
