import Mathlib.Data.List.Basic
import Lucax.Target.Direct

/-
  The bus accesses every driver call stands for, written out,
  and the proof that a decoding target carries out these and
  no others.

  Key definitions include:
    * `loadsFrom`, `storesTo`, `pollsOf`
    * `Polled`
    * `EncodedCall`
    * `EncodedCall.Intended`, `IntendedRun`

  Main declarations:
    * `intended_call`
    * `intended_runAll`
-/

------------------------------------------------------------
-- Intended Accesses
------------------------------------------------------------

namespace Lucax

open Simulation

/- Byte `i` is loaded from `start + i`. -/
def loadsFrom
    (start : UInt32)
    (replies : List UInt8) : List Access :=
  replies.mapIdx
    (fun i v => .load (start + UInt32.ofNat i) (some v))

/- Byte `i` is stored to `start + i`. -/
def storesTo
    (start : UInt32)
    (bytes : List UInt8) : List Access :=
  bytes.mapIdx
    (fun i b => .store (start + UInt32.ofNat i) b)

/- Loads of the status register. -/
def pollsOf (statuses : List UInt8) : List Access :=
  statuses.map (fun v => .load nvmStatusReg (some v))

/- Bit 7 of the status register is `NVMBUSY`. -/
def Busy (status : UInt8) : Prop :=
  status &&& ((1 : UInt8) <<< 7) ≠ 0

instance : DecidablePred Busy := fun status => by
  unfold Busy
  infer_instance

/-
  The statuses one `wait_nvm` reads and its result.  It ends
  at the first clear status or after 255 busy ones.
-/
inductive Polled : List UInt8 → PdiResult → Prop where
| clear
    (busy : List UInt8) (last : UInt8)
    (hBusy : ∀ v ∈ busy, Busy v)
    (hClear : ¬ Busy last)
    (hShort : busy.length < 254) :
    Polled (busy ++ [last]) .noError
| clearAtLast
    (busy : List UInt8) (last : UInt8)
    (hBusy : ∀ v ∈ busy, Busy v)
    (hClear : ¬ Busy last)
    (hLength : busy.length = 254) :
    Polled (busy ++ [last]) .timeOut
| exhausted
    (busy : List UInt8)
    (hBusy : ∀ v ∈ busy, Busy v)
    (hLength : busy.length = 255) :
    Polled busy .noError

/- A driver call or a pointer load on its own. -/
inductive EncodedCall where
| driver (call : Call)
| nvmPointer (address : UInt32)
deriving DecidableEq, Repr

def EncodedCall.CountPos : EncodedCall → Prop
| .driver call => call.CountPos
| .nvmPointer _ => True

instance : DecidablePred EncodedCall.CountPos := fun call => by
  cases call <;> unfold EncodedCall.CountPos <;> infer_instance

def EncodedCall.exec
    {τ : Type}
    (line : Line τ) :
    EncodedCall → Fw τ → (PdiResult × UInt8) × Fw τ
| .driver call, s => call.exec line s
| .nvmPointer address, s =>
    ((.noError, 0), Lucax.nvmPointer line address s)

/- Memory after a transfer into it. -/
def received
    (ram : Nat → UInt8)
    (data : Nat)
    (replies : List UInt8) : Nat → UInt8 :=
  fun j =>
    if data ≤ j ∧ j < data + replies.length then
      replies.getD (j - data) 0
    else ram j

/-
  What a call is meant to do: entered with memory `ram` it
  makes the listed accesses, returns the given result and
  leaves the given memory.
-/
inductive EncodedCall.Intended
    (ram : Nat → UInt8) :
    EncodedCall → List Access → PdiResult × UInt8 →
      (Nat → UInt8) → Prop where
| pdiReadByte
    (address : UInt32) (v : UInt8) :
    Intended ram (.driver (.pdiReadByte address))
      [.load address (some v)] (.noError, v) ram
| pdiWriteByte
    (address : UInt32) (data : UInt8) :
    Intended ram (.driver (.pdiWriteByte address data))
      [.store address data] (.noError, 0) ram
| pdiReadBytes
    (start : UInt32) (data : Nat) (count : UInt16)
    (replies : List UInt8)
    (hLength : replies.length = count.toNat) :
    Intended ram (.driver (.pdiReadBytes start data count))
      (loadsFrom start replies) (.noError, 0)
      (received ram data replies)
| pdiWriteBytes
    (start : UInt32) (data : Ptr) (count : UInt16) :
    Intended ram (.driver (.pdiWriteBytes start data count))
      (storesTo start (data.bytes ram count.toNat))
      (.noError, 0) ram
| nvmPointer
    (address : UInt32) :
    Intended ram (.nvmPointer address) [] (.noError, 0) ram
| nvmReadByte
    (address : UInt32) (v : UInt8) :
    Intended ram (.driver (.nvmReadByte address))
      [.store nvmCmdReg cmdReadNvm, .load address (some v)]
      (.noError, v) ram
| nvmReadBytes
    (address : UInt32) (data : Nat) (count : UInt16)
    (replies : List UInt8)
    (hLength : replies.length = count.toNat) :
    Intended ram (.driver (.nvmReadBytes address data count))
      (.store nvmCmdReg cmdReadNvm ::
        loadsFrom address replies)
      (.noError, 0) (received ram data replies)
| nvmWriteFuse
    (address : UInt32) (data : UInt8)
    {statuses : List UInt8} {r : PdiResult}
    (hPolled : Polled statuses r) :
    Intended ram (.driver (.nvmWriteByte address data .fuse))
      ([.store nvmCmdReg cmdWriteFuse,
        .store address data] ++ pollsOf statuses)
      (r, 0) ram
| nvmWriteLock
    (address : UInt32) (data : UInt8)
    {statuses : List UInt8} {r : PdiResult}
    (hPolled : Polled statuses r) :
    Intended ram (.driver (.nvmWriteByte address data .lock))
      ([.store nvmCmdReg cmdWriteLock,
        .store address data, .store nvmCtrlaReg 0x01] ++
        pollsOf statuses)
      (r, 0) ram
| nvmChipErase
    {statuses : List UInt8} {r : PdiResult}
    (hPolled : Polled statuses r) :
    Intended ram (.driver .nvmChipErase)
      ([.store nvmCmdReg cmdChipErase,
        .store nvmCtrlaReg 0x01] ++ pollsOf statuses)
      (r, 0) ram
| nvmPagedWrite
    (address : UInt32) (data : Ptr) (count : UInt16)
    (mem : PagedMemory)
    {erase write : List UInt8} {rErase r : PdiResult}
    (hErase : Polled erase rErase)
    (hWrite : Polled write r) :
    Intended ram
      (.driver (.nvmPagedWrite address data count mem))
      ([.store nvmCmdReg mem.eraseBufferCmd,
          .store nvmCtrlaReg 0x01] ++ pollsOf erase ++
        .store nvmCmdReg mem.loadBufferCmd ::
          storesTo address (data.bytes ram count.toNat) ++
        [.store nvmCmdReg mem.eraseWriteCmd,
          .store address 0x00] ++ pollsOf write)
      (r, 0) ram

/- A run whose calls are all carried out as intended. -/
inductive IntendedRun :
    (Nat → UInt8) → List EncodedCall → List Access →
      List (PdiResult × UInt8) → (Nat → UInt8) → Prop where
| nil
    (ram : Nat → UInt8) :
    IntendedRun ram [] [] [] ram
| cons
    {ram ram' ram'' : Nat → UInt8}
    {call : EncodedCall} {calls : List EncodedCall}
    {accesses rest : List Access}
    {r : PdiResult × UInt8} {rs : List (PdiResult × UInt8)}
    (hHead : call.Intended ram accesses r ram')
    (hTail : IntendedRun ram' calls rest rs ram'') :
    IntendedRun ram (call :: calls) (accesses ++ rest)
      (r :: rs) ram''

------------------------------------------------------------
-- Direct Accesses Written Out
------------------------------------------------------------

theorem storesTo_cons
    (start : UInt32)
    (b : UInt8)
    (bytes : List UInt8) :
    storesTo start (b :: bytes) =
      .store start b :: storesTo (start + 1) bytes := by
  simp [storesTo, List.mapIdx_cons, address_succ]

theorem loadsFrom_cons
    (start : UInt32)
    (v : UInt8)
    (replies : List UInt8) :
    loadsFrom start (v :: replies) =
      .load start (some v) :: loadsFrom (start + 1) replies := by
  simp [loadsFrom, List.mapIdx_cons, address_succ]

/- A received byte followed by the rest of a transfer. -/
theorem received_cons
    (ram : Nat → UInt8)
    (data : Nat)
    (v : UInt8)
    (replies : List UInt8) :
    received ram data (v :: replies) =
      received (fun j => if j = data then v else ram j)
        (data + 1) replies := by
  funext j
  unfold received
  by_cases hFirst : j = data
  · subst hFirst
    have hBefore : ¬ j + 1 ≤ j := by omega
    simp [hBefore]
  · by_cases hIn : data + 1 ≤ j
    · have hShift : j - data = (j - (data + 1)) + 1 := by
        omega
      have hLower : data ≤ j := by omega
      simp only [hShift, List.length_cons, List.getD_cons_succ,
        hIn, hLower, hFirst, true_and, if_false]
      refine if_congr ?_ rfl rfl
      omega
    · have hLower : ¬ data ≤ j := by omega
      simp [hIn, hLower, hFirst]

namespace Direct

variable {β : Type} (bus : Bus β) (k : Direct β)

@[simp] theorem store_log
    (address : UInt32)
    (data : UInt8) :
    (store bus address data k).log =
      k.log ++ [.store address data] := rfl

@[simp] theorem command_log
    (c : UInt8) :
    (command bus c k).log =
      k.log ++ [.store nvmCmdReg c] := rfl

@[simp] theorem trigger_log :
    (trigger bus k).log =
      k.log ++ [.store nvmCtrlaReg 0x01] := rfl

@[simp] theorem stores_log
    (address : UInt32)
    (bytes : List UInt8) :
    (stores bus address bytes k).log =
      k.log ++ storesTo address bytes := by
  induction bytes generalizing address k with
  | nil =>
      simp [stores, storesTo]
  | cons b bytes ih =>
      rw [stores, ih, store_log, storesTo_cons]
      simp

variable {bus}

/- A load on an answering bus. -/
theorem load_answers
    (hAnswers : bus.Answers)
    (address : UInt32) :
    ∃ v,
      (load bus address k).1 = some v ∧
        (load bus address k).2.log =
          k.log ++ [.load address (some v)] := by
  rcases Option.isSome_iff_exists.mp (hAnswers k.bus address)
    with ⟨v, hV⟩
  exact ⟨v, hV, by simp [load, hV]⟩

theorem readByte_answers
    (hAnswers : bus.Answers)
    (address : UInt32) :
    ∃ v,
      (readByte bus address k).1 = (.noError, v) ∧
        (readByte bus address k).2.log =
          k.log ++ [.load address (some v)] ∧
        (readByte bus address k).2.ram = k.ram := by
  rcases load_answers k hAnswers address with
    ⟨v, hV, hLog⟩
  have hRam := load_ram bus k address
  unfold readByte
  rcases hLoad : load bus address k with ⟨answer, after⟩
  rw [hLoad] at hV hLog hRam
  simp only at hV
  subst hV
  exact ⟨v, rfl, hLog, hRam⟩

/- A run of loads fills memory with what was returned. -/
theorem loads_answers
    (hAnswers : bus.Answers)
    (n : Nat)
    (address : UInt32)
    (data : Nat) :
    ∃ replies,
      replies.length = n ∧
        (loads bus n address data k).1 = .noError ∧
        (loads bus n address data k).2.log =
          k.log ++ loadsFrom address replies ∧
        (loads bus n address data k).2.ram =
          received k.ram data replies := by
  induction n generalizing address data k with
  | zero =>
      refine ⟨[], rfl, rfl, by simp [loads, loadsFrom], ?_⟩
      funext j
      have hEmpty : ¬ (data ≤ j ∧ j < data + 0) := by omega
      simp only [received, List.length_nil, hEmpty, if_false]
      rfl
  | succ n ih =>
      rcases load_answers k hAnswers address with
        ⟨v, hV, hLog⟩
      have hRam := load_ram bus k address
      rw [loads]
      rcases hLoad : load bus address k with ⟨answer, after⟩
      rw [hLoad] at hV hLog hRam
      simp only at hV hLog hRam
      subst hV
      rcases ih (put data v after) (address + 1) (data + 1)
        with ⟨replies, hLength, hResult, hTail, hMemory⟩
      refine
        ⟨v :: replies, by simp [hLength], hResult, ?_, ?_⟩
      · rw [hTail, loadsFrom_cons]
        simp [put, hLog]
      · rw [hMemory, received_cons]
        simp [put, hRam]

/-
  Polling stops at the first clear status; the counter is
  one less for every busy status before it.
-/
theorem polls_answers
    (hAnswers : bus.Answers)
    (n : Nat) :
    ∃ busy,
      (∀ v ∈ busy, Busy v) ∧
        ((∃ last,
            ¬ Busy last ∧ busy.length < n ∧
              (polls bus n k).1 =
                .ok (UInt8.ofNat (n - 1 - busy.length)) ∧
              (polls bus n k).2.log =
                k.log ++ pollsOf (busy ++ [last])) ∨
          (busy.length = n ∧
            (polls bus n k).1 = .ok 255 ∧
            (polls bus n k).2.log =
              k.log ++ pollsOf busy)) := by
  induction n generalizing k with
  | zero =>
      exact ⟨[], by simp, Or.inr ⟨rfl, rfl, by
        simp [polls, pollsOf]⟩⟩
  | succ n ih =>
      rcases load_answers k hAnswers nvmStatusReg with
        ⟨v, hV, hLog⟩
      rw [polls]
      rcases hLoad : load bus nvmStatusReg k with
        ⟨answer, after⟩
      rw [hLoad] at hV hLog
      simp only at hV hLog
      subst hV
      by_cases hClear : v &&& ((1 : UInt8) <<< 7) = 0
      · refine ⟨[], by simp, Or.inl ⟨v, ?_, by simp, ?_⟩⟩
        · exact not_not.mpr hClear
        · simp [hClear, hLog, pollsOf]
      · simp only [hClear, if_false]
        have hBusyV : Busy v := hClear
        rcases ih after with ⟨busy, hBusy, hEnd⟩
        refine ⟨v :: busy, ?_, ?_⟩
        · intro w hMem
          rcases List.mem_cons.mp hMem with hHere | hLater
          · exact hHere ▸ hBusyV
          · exact hBusy w hLater
        · rcases hEnd with
            ⟨last, hLast, hLength, hResult, hTail⟩ |
            ⟨hLength, hResult, hTail⟩
          · refine Or.inl ⟨last, hLast, ?_, ?_, ?_⟩
            · simp
              omega
            · rw [hResult, List.length_cons]
              congr 2
              omega
            · rw [hTail, hLog]
              simp [pollsOf]
          · refine Or.inr ⟨by simp [hLength], hResult, ?_⟩
            rw [hTail, hLog]
            simp [pollsOf]

/- One `wait_nvm` on an answering bus. -/
theorem wait_answers
    (hAnswers : bus.Answers) :
    ∃ statuses,
      Polled statuses (wait bus k).1 ∧
        (wait bus k).2.log = k.log ++ pollsOf statuses := by
  rcases polls_answers k hAnswers 255 with
    ⟨busy, hBusy, hEnd⟩
  unfold wait
  rcases hPolls : polls bus 255 k with ⟨left, after⟩
  rw [hPolls] at hEnd
  simp only at hEnd
  rcases hEnd with
    ⟨last, hLast, hLength, hLeft, hLog⟩ |
    ⟨hLength, hLeft, hLog⟩
  · subst hLeft
    refine ⟨busy ++ [last], ?_, ?_⟩
    · by_cases hFinal : busy.length = 254
      · simpa [hFinal] using
          Polled.clearAtLast busy last hBusy hLast hFinal
      · have hShort : busy.length < 254 := by omega
        have hNonzero :
            UInt8.ofNat (255 - 1 - busy.length) ≠ 0 := by
          intro hZero
          have hNat := congrArg UInt8.toNat hZero
          simp at hNat
          omega
        simpa [hNonzero] using
          Polled.clear busy last hBusy hLast hShort
    · simp only
      split <;> exact hLog
  · subst hLeft
    exact ⟨busy, Polled.exhausted busy hBusy hLength, hLog⟩

end Direct

------------------------------------------------------------
-- Calls
------------------------------------------------------------

variable {β : Type} {bus : Bus β}

/- A call wired straight to the bus does what is intended. -/
theorem Direct.intended
    (hAnswers : bus.Answers)
    (call : Call)
    (k : Direct β) :
    ∃ accesses,
      (Direct.call bus call k).2.log = k.log ++ accesses ∧
        (EncodedCall.driver call).Intended k.ram accesses
          (Direct.call bus call k).1
          (Direct.call bus call k).2.ram := by
  cases call with
  | pdiReadByte address =>
      rcases readByte_answers k hAnswers address with
        ⟨v, hResult, hLog, hRam⟩
      refine ⟨_, hLog, ?_⟩
      simp only [call, hResult, hRam]
      exact .pdiReadByte address v
  | pdiWriteByte address data =>
      exact ⟨_, rfl, .pdiWriteByte address data⟩
  | pdiReadBytes start data count =>
      rcases loads_answers k hAnswers count.toNat start data
        with ⟨replies, hLength, hResult, hLog, hRam⟩
      refine ⟨_, hLog, ?_⟩
      simp only [call, hResult, hRam]
      exact .pdiReadBytes start data count replies hLength
  | pdiWriteBytes start data count =>
      refine ⟨_, stores_log bus k start _, ?_⟩
      simp only [call, stores_ram]
      exact .pdiWriteBytes start data count
  | nvmChipErase =>
      rcases wait_answers
          (trigger bus (command bus cmdChipErase k)) hAnswers
        with ⟨statuses, hPolled, hLog⟩
      refine ⟨?_, ?_, ?_⟩
      rotate_left 2
      · simp only [call, wait_ram, trigger_ram, command_ram]
        exact .nvmChipErase hPolled
      · simp [call, hLog]
  | nvmReadByte address =>
      rcases readByte_answers (command bus cmdReadNvm k)
        hAnswers address with ⟨v, hResult, hLog, hRam⟩
      refine ⟨?_, ?_, ?_⟩
      rotate_left 2
      · simp only [call, hResult, hRam, command_ram]
        exact .nvmReadByte address v
      · simp [call, hLog]
  | nvmReadBytes address data count =>
      rcases loads_answers (command bus cmdReadNvm k) hAnswers
        count.toNat address data with
        ⟨replies, hLength, hResult, hLog, hRam⟩
      refine ⟨?_, ?_, ?_⟩
      rotate_left 2
      · simp only [call, hResult, hRam, command_ram]
        exact .nvmReadBytes address data count replies hLength
      · simp [call, hLog]
  | nvmWriteByte address data mem =>
      cases mem with
      | fuse =>
          rcases wait_answers
              (store bus address data
                (command bus cmdWriteFuse k)) hAnswers with
            ⟨statuses, hPolled, hLog⟩
          have hIntended :
              EncodedCall.Intended k.ram
                (.driver (.nvmWriteByte address data .fuse))
                _ _ _ :=
            .nvmWriteFuse address data hPolled
          refine ⟨?_, ?_, ?_⟩
          rotate_left 2
          · simpa [call, ByteMemory.writeCmd] using hIntended
          · simp [call, ByteMemory.writeCmd, hLog]
      | lock =>
          rcases wait_answers
              (trigger bus (store bus address data
                (command bus cmdWriteLock k))) hAnswers with
            ⟨statuses, hPolled, hLog⟩
          have hIntended :
              EncodedCall.Intended k.ram
                (.driver (.nvmWriteByte address data .lock))
                _ _ _ :=
            .nvmWriteLock address data hPolled
          refine ⟨?_, ?_, ?_⟩
          rotate_left 2
          · simpa [call, ByteMemory.writeCmd] using hIntended
          · simp [call, ByteMemory.writeCmd, hLog]
  | nvmPagedWrite address data count mem =>
      rcases wait_answers
          (trigger bus (command bus mem.eraseBufferCmd k))
          hAnswers with ⟨erase, hErase, hEraseWait⟩
      have hEraseLog :
          (erasePageBuffer bus mem k).2.log =
            (trigger bus (command bus mem.eraseBufferCmd
              k)).log ++ pollsOf erase :=
        hEraseWait
      rcases wait_answers
          (store bus address 0x00
            (command bus mem.eraseWriteCmd
              (stores bus address (data.bytes k.ram count.toNat)
                (command bus mem.loadBufferCmd
                  (erasePageBuffer bus mem k).2))))
          hAnswers with ⟨write, hWrite, hWriteLog⟩
      have hIntended :
          EncodedCall.Intended k.ram
            (.driver (.nvmPagedWrite address data count mem))
            _ _ _ :=
        .nvmPagedWrite address data count mem hErase hWrite
      refine ⟨?_, ?_, ?_⟩
      rotate_left 2
      · simpa [call, loadAndWritePage] using hIntended
      · simp [call, loadAndWritePage, hWriteLog, hEraseLog]

/-
  A call in an open session whose target is at a boundary
  leaves it at one and has carried out what was intended.
-/
theorem intended_call
    (hAnswers : bus.Answers)
    {call : EncodedCall}
    (hCount : call.CountPos)
    {s : Fw (Decoder β)}
    (hOpen : s.pdiOn = true)
    (hBoundary : s.target.AtBoundary) :
    let out := call.exec (Decoder.line bus) s
    out.2.pdiOn = true ∧ out.2.target.AtBoundary ∧
      ∃ accesses,
        out.2.target.log = s.target.log ++ accesses ∧
          call.Intended s.ram accesses out.1 out.2.ram := by
  have hReflects := reflects_direct hOpen hBoundary
  cases call with
  | driver call =>
      rcases Reflects.call bus hCount s s.direct hReflects with
        ⟨hResult, hAfter⟩
      rcases Direct.intended hAnswers call s.direct with
        ⟨accesses, hLog, hIntended⟩
      refine
        ⟨hAfter.open_, hAfter.boundary, accesses, ?_, ?_⟩
      · rw [EncodedCall.exec, hAfter.log, hLog]
        rfl
      · rw [EncodedCall.exec, hAfter.ram, hResult]
        exact hIntended
  | nvmPointer address =>
      have hAfter := hReflects.pointer bus address
      refine ⟨hAfter.open_, hAfter.boundary, [], ?_, ?_⟩
      · rw [EncodedCall.exec, hAfter.log]
        simp [Fw.direct]
      · rw [EncodedCall.exec, hAfter.ram]
        exact .nvmPointer address

/-
  Over a whole run the decoded accesses are the intended
  ones, in order, and the decoder is at an instruction
  boundary after every call.
-/
theorem intended_runAll
    (bus : Bus β)
    (hAnswers : bus.Answers)
    (calls : List EncodedCall)
    (hCounts : ∀ call ∈ calls, call.CountPos)
    (s : Fw (Decoder β))
    (hOpen : s.pdiOn = true)
    (hBoundary : s.target.AtBoundary) :
    (∀ front, front <+: calls →
      (runAll (EncodedCall.exec (Decoder.line bus)) front
        s).2.target.AtBoundary) ∧
      ∃ accesses,
        let out :=
          runAll (EncodedCall.exec (Decoder.line bus)) calls s
        out.2.target.log = s.target.log ++ accesses ∧
          IntendedRun s.ram calls accesses out.1
            out.2.ram := by
  induction calls generalizing s with
  | nil =>
      refine ⟨?_, [], by simp, .nil s.ram⟩
      intro front hFront
      rw [List.prefix_nil.mp hFront]
      exact hBoundary
  | cons call calls ih =>
      rcases intended_call hAnswers (hCounts call (by simp))
          hOpen hBoundary with
        ⟨hStillOpen, hNext, accesses, hLog, hIntended⟩
      rcases ih
          (fun c hMem => hCounts c (List.mem_cons_of_mem _ hMem))
          _ hStillOpen hNext with
        ⟨hBoundaries, rest, hRest, hRun⟩
      refine ⟨?_, accesses ++ rest, ?_, ?_⟩
      · intro front hFront
        cases front with
        | nil => exact hBoundary
        | cons head front =>
            rcases List.cons_prefix_cons.mp hFront with
              ⟨rfl, hTail⟩
            exact hBoundaries front hTail
      · simp only [runAll_cons]
        rw [hRest, hLog, List.append_assoc]
      · exact .cons hIntended hRun

/- A memory of zeros that answers every load. -/
def zeroBus : Bus Unit where
  load := fun _ _ => (some 0, ())
  store := fun _ _ _ => ()
  loadControl := fun _ _ => (some 0, ())
  storeControl := fun _ _ _ => ()
  key := fun _ _ => ()

/- A page write and a stream that wraps the address space. -/
theorem intended_runAll_wrapped :
    let calls : List EncodedCall :=
      [.driver (.nvmPagedWrite 0x00800040
          (.array [0xAA, 0xBB]) 2 .flash),
        .driver (.pdiReadBytes 0xFFFFFFFF 0 2)]
    let s : Fw (Decoder Unit) :=
      { Fw.powerOn (Decoder.initial ()) with pdiOn := true }
    ∃ accesses,
      let out :=
        runAll (EncodedCall.exec (Decoder.line zeroBus)) calls s
      out.2.target.log = accesses ∧
        IntendedRun s.ram calls accesses out.1 out.2.ram :=
  (intended_runAll zeroBus (fun _ _ => rfl) _ (by decide) _
    rfl (by decide)).2

end Lucax
