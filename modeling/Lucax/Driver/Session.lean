import Mathlib.Data.List.Induction
import Lucax.Common.Simulation
import Lucax.Driver.Nvm

/-
  The session flag `pdi_on`: what it guards and when it is
  right.

  Key definitions include:
    * `scripted`
    * `Call.Inert`
    * `Line.opens`
    * `SessionCall`, `Truthful`, `ReopenFails`

  Main declarations:
    * `inert_iff_not_pagedWrite`
    * `pdiInit_result`, `pdiInit_flag`
    * `truthful_iff_not_reopenFails`
-/

------------------------------------------------------------
-- Scripted Targets
------------------------------------------------------------

namespace Lucax

open Simulation

/-
  A target given by its answers alone: every `read_byte`
  takes the next entry of a list, and a list that has run out
  answers nothing.
-/
def scripted : Line (List (Option UInt8)) where
  frame := fun t _ => t
  reply := fun t => (t.headD none, t.tail)
  lineBreak := fun t => t

variable {τ : Type}

------------------------------------------------------------
-- Calls with PDI Disabled
------------------------------------------------------------

/- A page write, the one call that reaches the line raw. -/
def Call.IsPagedWrite : Call → Prop
| .nvmPagedWrite _ _ _ _ => True
| _ => False

/-
  A call reports that PDI is disabled, hands no byte to
  `send_byte` and leaves the USART as it was.
-/
structure Call.Inert
    (line : Line τ)
    (call : Call)
    (s : Fw τ) : Prop where
  result : (call.exec line s).1.1 = .pdiDisabled
  sent : (call.exec line s).2.sent = s.sent
  direction : (call.exec line s).2.state = s.state
  pending : (call.exec line s).2.pending = s.pending
  control :
    (call.exec line s).2.ucsr1b = s.ucsr1b ∧
      (call.exec line s).2.ucsr1c = s.ucsr1c ∧
      (call.exec line s).2.ubrr1 = s.ubrr1

/- A call that only reports the closed session is inert. -/
theorem Call.Inert.of_exec
    {line : Line τ}
    {call : Call}
    {s : Fw τ}
    {data : UInt8}
    (hExec : call.exec line s = ((.pdiDisabled, data), s)) :
    call.Inert line s := by
  constructor
  all_goals simp [hExec]

/-
  Every call but a page write stops at a guard before it
  reaches the line.
-/
theorem Call.exec_disabled
    (line : Line τ)
    {s : Fw τ}
    (hOff : s.pdiOn = false)
    {call : Call}
    (hCall : ¬ call.IsPagedWrite) :
    call.exec line s = ((.pdiDisabled, 0), s) := by
  have hCmd := nvmCmd_disabled line hOff
  have hTrig := trigCmdex_disabled line hOff
  have hWait := waitNvm_disabled line hOff
  cases call with
  | pdiReadByte address =>
      simp [Call.exec, pdiReadByte_disabled line hOff]
  | pdiWriteByte address data =>
      simp [Call.exec, pdiWriteByte_disabled line hOff]
  | pdiReadBytes start data count =>
      simp [Call.exec, pdiReadBytes_disabled line hOff]
  | pdiWriteBytes start data count =>
      simp [Call.exec, pdiWriteBytes_disabled line hOff]
  | nvmChipErase =>
      simp [Call.exec, Lucax.nvmChipErase, hCmd, hTrig, hWait]
  | nvmReadByte address =>
      simp [Call.exec, Lucax.nvmReadByte, hCmd,
        pdiReadByte_disabled line hOff]
  | nvmReadBytes address data count =>
      simp [Call.exec, Lucax.nvmReadBytes, hCmd,
        pdiReadBytes_disabled line hOff]
  | nvmWriteByte address data mem =>
      cases mem <;>
        simp [Call.exec, Lucax.nvmWriteByte, hCmd, hTrig,
          hWait, pdiWriteByte_disabled line hOff]
  | nvmPagedWrite address data count mem =>
      exact absurd trivial hCall

/-
  With PDI disabled a call is inert exactly when it is not a
  page write.  The twelve bytes of a page write go out with
  no guard in front of them.
-/
theorem inert_iff_not_pagedWrite
    (line : Line τ)
    (s : Fw τ)
    (hOff : s.pdiOn = false)
    (call : Call) :
    call.Inert line s ↔ ¬ call.IsPagedWrite := by
  constructor
  · intro hInert hPaged
    cases call with
    | nvmPagedWrite address data count mem =>
        have hSent := hInert.sent
        simp [Call.exec, nvmPagedWrite_disabled line hOff,
          pointerFrames] at hSent
    | _ => exact hPaged
  · intro hCall
    exact Call.Inert.of_exec
      (Call.exec_disabled line hOff hCall)

/- A byte write at power-on. -/
theorem inert_at_powerOn :
    (Call.nvmWriteByte 0x008F0020 0x5A .fuse).Inert scripted
      (Fw.powerOn []) :=
  (inert_iff_not_pagedWrite scripted (Fw.powerOn []) rfl
    (.nvmWriteByte 0x008F0020 0x5A .fuse)).mpr id

/-
  A page write after a `pdi_init` that failed on a silent
  target: the transmitter is on and gets the bytes.
-/
theorem pagedWrite_not_inert_after_failure :
    let failed := pdiInit scripted 250 (Fw.powerOn [])
    failed.1 = .timeOut ∧ failed.2.pdiOn = false ∧
      ¬ (Call.nvmPagedWrite 0x00800000 (.array [0xAA]) 1
        .flash).Inert scripted failed.2 := by
  intro failed
  refine ⟨by decide, by decide, fun hInert => ?_⟩
  have hSent :
      ((Call.nvmPagedWrite 0x00800000 (.array [0xAA]) 1
        .flash).exec scripted failed.2).2.sent ≠
        failed.2.sent := by
    decide
  exact hSent hInert.sent

------------------------------------------------------------
-- Opening a Session
------------------------------------------------------------

/- The frames `pdi_init` sends before its first poll. -/
def initFrames : List UInt8 :=
  [0xC2, 0x03, 0xC1, 0x59, 0xE0, 0xFF, 0x88, 0xD8, 0xCD,
    0x45, 0xAB, 0x89, 0x12]

/-
  Within `n` status polls the target reports the NVM enable
  bit, with no poll unanswered before that.
-/
def Line.enables
    (line : Line τ) :
    Nat → τ → Bool
| 0, _ => false
| n + 1, t =>
    match line.reply (line.frame t 0x80) with
    | (none, _) => false
    | (some status, t) =>
        if status &&& 2 ≠ 0 then true else line.enables n t

/- A target that a `pdi_init` started now can open. -/
def Line.opens
    (line : Line τ)
    (t : τ) : Bool :=
  line.enables 200 (line.frames t initFrames)

@[simp] theorem sendIdle_target
    (s : Fw τ) :
    (sendIdle s).target = s.target := by
  unfold sendIdle usartWaitTx usartTxMode
  split <;> rfl

@[simp] theorem sendIdle_pdiOn
    (s : Fw τ) :
    (sendIdle s).pdiOn = s.pdiOn := by
  unfold sendIdle usartWaitTx usartTxMode
  split <;> rfl

@[simp] theorem sendIdle_touched
    (s : Fw τ) :
    (sendIdle s).touched = s.touched := by
  unfold sendIdle usartWaitTx usartTxMode
  split <;> rfl

@[simp] theorem sendIdles_target
    (n : Nat)
    (s : Fw τ) :
    (sendIdles n s).target = s.target := by
  induction n generalizing s with
  | zero => rfl
  | succ n ih => rw [sendIdles, ih, sendIdle_target]

@[simp] theorem sendIdles_pdiOn
    (n : Nat)
    (s : Fw τ) :
    (sendIdles n s).pdiOn = s.pdiOn := by
  induction n generalizing s with
  | zero => rfl
  | succ n ih => rw [sendIdles, ih, sendIdle_pdiOn]

@[simp] theorem sendIdles_touched
    (n : Nat)
    (s : Fw τ) :
    (sendIdles n s).touched = s.touched := by
  induction n generalizing s with
  | zero => rfl
  | succ n ih => rw [sendIdles, ih, sendIdle_touched]

/- The poll loop succeeds exactly on an enabling target. -/
theorem pollNvmen_result
    (line : Line τ)
    (n : Nat)
    (s : Fw τ) :
    (pollNvmen line n s).1 =
      bif line.enables n s.target then .noError
      else .timeOut := by
  induction n generalizing s with
  | zero => rfl
  | succ n ih =>
      have hAnswer := readByte_answer line
        (sendByte line
          (pdiLoadControlReg ||| pdiStatusReg) s)
      have hTarget := readByte_target line
        (sendByte line
          (pdiLoadControlReg ||| pdiStatusReg) s)
      have hOpcode :
          pdiLoadControlReg ||| pdiStatusReg = 0x80 := rfl
      have hMask : (1 : UInt8) <<< nvmen = 2 := rfl
      simp only [pollNvmen, Line.enables]
      simp only [hOpcode, hMask, sendByte_target] at *
      generalize readByte line (sendByte line 0x80 s) = read
        at hAnswer hTarget ⊢
      generalize line.reply (line.frame s.target 0x80) =
        reply at hAnswer hTarget ⊢
      rcases read with ⟨answer, after⟩
      rcases reply with ⟨answer', t⟩
      simp only at hAnswer hTarget
      subst hAnswer
      cases answer with
      | none => rfl
      | some status =>
          by_cases hSet : status &&& 2 = 0
          · simp [hSet, ih, hTarget]
          · simp [hSet]

@[simp] theorem pollNvmen_pdiOn
    (line : Line τ)
    (n : Nat)
    (s : Fw τ) :
    (pollNvmen line n s).2.pdiOn = s.pdiOn := by
  induction n generalizing s with
  | zero => rfl
  | succ n ih =>
      have hRead := readByte_pdiOn line
        (sendByte line
          (pdiLoadControlReg ||| pdiStatusReg) s)
      simp only [pollNvmen]
      split
      · rename_i after hPoll
        simpa [hPoll] using hRead
      · rename_i status after hPoll
        have hSame : after.pdiOn = s.pdiOn := by
          simpa [hPoll] using hRead
        split
        · exact hSame
        · simp [ih, hSame]

@[simp] theorem pollNvmen_touched
    (line : Line τ)
    (n : Nat)
    (s : Fw τ) :
    (pollNvmen line n s).2.touched = s.touched := by
  induction n generalizing s with
  | zero => rfl
  | succ n ih =>
      have hRead := readByte_touched line
        (sendByte line
          (pdiLoadControlReg ||| pdiStatusReg) s)
      simp only [pollNvmen]
      split
      · rename_i after hPoll
        simpa [hPoll] using hRead
      · rename_i status after hPoll
        have hSame : after.touched = s.touched := by
          simpa [hPoll] using hRead
        split
        · exact hSame
        · simp [ih, hSame]

/-
  `pdi_init` up to its poll loop: the state it polls from has
  the caller's flag and a target that saw the whole preamble.
-/
theorem pdiInit_eq
    (line : Line τ)
    (freqKhz : UInt16)
    (s : Fw τ) :
    ∃ s' : Fw τ,
      s'.pdiOn = s.pdiOn ∧
        s'.target = line.frames s.target initFrames ∧
        s'.touched = s.touched ∧
        pdiInit line freqKhz s =
          match pollNvmen line 200 s' with
          | (.noError, s) =>
              (.noError, { s with pdiOn := true })
          | (r, s) => (r, s) := by
  refine ⟨_, ?_, ?_, ?_, rfl⟩
  · simp [pinDefaultState, usartTxMode, usartSetup]
  · simp [pinDefaultState, usartTxMode, usartSetup]
    rfl
  · simp [pinDefaultState, usartTxMode, usartSetup]

/- `pdi_init` succeeds exactly on a target it can open. -/
theorem pdiInit_result
    (line : Line τ)
    (freqKhz : UInt16)
    (s : Fw τ) :
    (pdiInit line freqKhz s).1 =
      bif line.opens s.target then .noError
      else .timeOut := by
  rcases pdiInit_eq line freqKhz s with
    ⟨s', _hOn, hTarget, _hTouched, hInit⟩
  have hPoll := pollNvmen_result line 200 s'
  rw [hTarget] at hPoll
  rw [hInit]
  unfold Line.opens
  rcases hEnd : pollNvmen line 200 s' with ⟨r, after⟩
  rw [hEnd] at hPoll
  rw [← hPoll]
  cases r <;> rfl

/-
  A successful `pdi_init` sets the flag; a failed one leaves
  it as it found it.
-/
theorem pdiInit_flag
    (line : Line τ)
    (freqKhz : UInt16)
    (s : Fw τ) :
    (pdiInit line freqKhz s).2.pdiOn =
      (line.opens s.target || s.pdiOn) := by
  have hResult := pdiInit_result line freqKhz s
  rcases pdiInit_eq line freqKhz s with
    ⟨s', hOn, _hTarget, _hTouched, hInit⟩
  have hSame := pollNvmen_pdiOn line 200 s'
  rw [hInit] at hResult ⊢
  rcases hEnd : pollNvmen line 200 s' with ⟨r, after⟩
  rw [hEnd, hOn] at hSame
  rw [hEnd] at hResult
  cases hOpens : line.opens s.target with
  | true =>
      simp only [hOpens, cond_true] at hResult
      cases r <;> simp at hResult ⊢
  | false =>
      simp only [hOpens, cond_false] at hResult
      cases r <;> simp_all

/- Opening a session leaves the transfer buffer alone. -/
theorem pdiInit_touched
    (line : Line τ)
    (freqKhz : UInt16)
    (s : Fw τ) :
    (pdiInit line freqKhz s).2.touched = s.touched := by
  rcases pdiInit_eq line freqKhz s with
    ⟨s', _hOn, _hTarget, hTouched, hInit⟩
  have hPoll := pollNvmen_touched line 200 s'
  rw [hInit]
  rcases hEnd : pollNvmen line 200 s' with ⟨r, after⟩
  rw [hEnd, hTouched] at hPoll
  cases r <;> exact hPoll

/- The end of a session: two breaks, then reset released. -/
theorem pdiExit_target
    (line : Line τ)
    (s : Fw τ) :
    (pdiExit line s).target =
      line.frames (line.lineBreak (line.lineBreak s.target))
        [0xC1, 0] := by
  have hOpcode :
      pdiStoreControlReg ||| pdiResetReg = 0xC1 := rfl
  simp only [pdiExit, usartDisconnect, sendIdle_target,
    sendByte_target, hOpcode]
  rfl

/- `pdi_exit` clears the flag in every state. -/
theorem pdiExit_flag
    (line : Line τ)
    (s : Fw τ) :
    (pdiExit line s).pdiOn = false := rfl

------------------------------------------------------------
-- Session Runs
------------------------------------------------------------

/- A step of a run: open, close or use the session. -/
inductive SessionCall where
| init (freqKhz : UInt16)
| exit
| use (call : Call)
deriving DecidableEq, Repr

/-
  Execute a step.  The record of a step says what it was and
  what it returned; `pdi_exit` returns nothing.
-/
def SessionCall.exec
    (line : Line τ)
    (step : SessionCall)
    (s : Fw τ) :
    (SessionCall × PdiResult) × Fw τ :=
  match step with
  | .init freqKhz =>
      let out := pdiInit line freqKhz s
      ((step, out.1), out.2)
  | .exit => ((step, .noError), pdiExit line s)
  | .use call =>
      let out := call.exec line s
      ((step, out.1.1), out.2)

/-
  What a record says about the session: opened, closed or
  failed to open, or nothing.
-/
def sessionEvent :
    SessionCall × PdiResult → Option Bool
| (.init _, r) => some (r = .noError)
| (.exit, _) => some false
| (.use _, _) => none

/-
  The last `pdi_init` or `pdi_exit` of a recorded run was a
  `pdi_init` that returned `NO_ERROR`.
-/
def lastOpened
    (records : List (SessionCall × PdiResult)) : Bool :=
  ((records.filterMap sessionEvent).getLast?).getD false

/- After a run from power-on the flag tells the truth. -/
def Truthful
    (line : Line τ)
    (t : τ)
    (steps : List SessionCall) : Prop :=
  let run :=
    runAll (SessionCall.exec line) steps (Fw.powerOn t)
  run.2.pdiOn = true ↔ lastOpened run.1 = true

/-
  The last `pdi_init` or `pdi_exit` of the run is a
  `pdi_init` entered with the flag set on a target that it
  cannot open.
-/
def ReopenFails
    (line : Line τ)
    (t : τ)
    (steps : List SessionCall) : Prop :=
  ∃ front freqKhz, ∃ uses : List Call,
    steps = front ++ .init freqKhz :: uses.map .use ∧
      let before :=
        runAll (SessionCall.exec line) front (Fw.powerOn t)
      before.2.pdiOn = true ∧
        line.opens before.2.target = false

/- A record list followed by a call says the same. -/
theorem lastOpened_append_use
    (records : List (SessionCall × PdiResult))
    (call : Call)
    (r : PdiResult) :
    lastOpened (records ++ [(.use call, r)]) =
      lastOpened records := by
  simp [lastOpened, sessionEvent, List.filterMap_append]

/- A session event at the end of a record list decides. -/
theorem lastOpened_append_event
    (records : List (SessionCall × PdiResult))
    (record : SessionCall × PdiResult)
    {opened : Bool}
    (hEvent : sessionEvent record = some opened) :
    lastOpened (records ++ [record]) = opened := by
  simp [lastOpened, hEvent, List.filterMap_append]

/-
  The last step of a run that ends in uses of a session is
  the `pdi_init` before them or the last use.
-/
theorem append_eq_init_uses
    {steps front : List SessionCall}
    {last : SessionCall}
    {freqKhz : UInt16}
    {uses : List Call}
    (hSteps :
      steps ++ [last] =
        front ++ .init freqKhz :: uses.map .use) :
    (steps = front ∧ last = .init freqKhz) ∨
      ∃ (before : List Call) (call : Call),
        steps = front ++ .init freqKhz :: before.map .use ∧
          last = .use call := by
  induction uses using List.reverseRecOn with
  | nil =>
      have hCut := List.append_inj' hSteps rfl
      exact Or.inl ⟨hCut.1, List.singleton_inj.mp hCut.2⟩
  | append_singleton before call _ih =>
      have hLast :
          steps ++ [last] =
            (front ++ .init freqKhz :: before.map .use) ++
              [.use call] := by
        simpa using hSteps
      have hCut := List.append_inj' hLast rfl
      exact Or.inr ⟨before, call, hCut.1,
        List.singleton_inj.mp hCut.2⟩

/- A call after a run does not change a failed reopening. -/
theorem reopenFails_append_use
    (line : Line τ)
    (t : τ)
    (steps : List SessionCall)
    (call : Call) :
    ReopenFails line t (steps ++ [.use call]) ↔
      ReopenFails line t steps := by
  constructor
  · rintro ⟨front, freqKhz, uses, hSteps, hFails⟩
    rcases append_eq_init_uses hSteps with
      ⟨_hFront, hLast⟩ | ⟨before, _call, hBefore, _hLast⟩
    · cases hLast
    · exact ⟨front, freqKhz, before, hBefore, hFails⟩
  · rintro ⟨front, freqKhz, uses, hSteps, hFails⟩
    exact ⟨front, freqKhz, uses ++ [call],
      by simp [hSteps], hFails⟩

/- A run that ends in `pdi_init` reopens in that step. -/
theorem reopenFails_append_init
    (line : Line τ)
    (t : τ)
    (steps : List SessionCall)
    (freqKhz : UInt16) :
    ReopenFails line t (steps ++ [.init freqKhz]) ↔
      let before :=
        runAll (SessionCall.exec line) steps (Fw.powerOn t)
      before.2.pdiOn = true ∧
        line.opens before.2.target = false := by
  constructor
  · rintro ⟨front, freq, uses, hSteps, hFails⟩
    rcases append_eq_init_uses hSteps with
      ⟨hFront, _hLast⟩ | ⟨_before, _call, _hBefore, hLast⟩
    · subst hFront
      exact hFails
    · cases hLast
  · intro hBefore
    exact ⟨steps, freqKhz, [], rfl, hBefore⟩

/- A run that ends in `pdi_exit` does not fail to reopen. -/
theorem not_reopenFails_append_exit
    (line : Line τ)
    (t : τ)
    (steps : List SessionCall) :
    ¬ ReopenFails line t (steps ++ [.exit]) := by
  rintro ⟨front, freqKhz, uses, hSteps, _hFails⟩
  rcases append_eq_init_uses hSteps with
    ⟨_hFront, hLast⟩ | ⟨_before, _call, _hBefore, hLast⟩
  · cases hLast
  · cases hLast

/-
  The flag is right after a run exactly when the run's last
  session step is not a `pdi_init` that fails while the flag
  is already set.
-/
theorem truthful_iff_not_reopenFails
    (line : Line τ)
    (t : τ)
    (steps : List SessionCall) :
    Truthful line t steps ↔ ¬ ReopenFails line t steps := by
  induction steps using List.reverseRecOn with
  | nil =>
      have hNot : ¬ ReopenFails line t [] := by
        rintro ⟨front, freqKhz, uses, hSteps, _⟩
        simp at hSteps
      simp [hNot, Truthful, lastOpened, Fw.powerOn]
  | append_singleton steps step ih =>
      unfold Truthful at ih ⊢
      simp only [runAll_append, runAll_cons, runAll_nil]
        at ih ⊢
      generalize hRun :
        runAll (SessionCall.exec line) steps
          (Fw.powerOn t) = run at ih ⊢
      cases step with
      | use call =>
          rw [reopenFails_append_use]
          simp only [SessionCall.exec, lastOpened_append_use,
            Call.exec_pdiOn]
          exact ih
      | exit =>
          have hNot :=
            not_reopenFails_append_exit line t steps
          have hEvent := lastOpened_append_event run.1
            (.exit, .noError) rfl
          simp [SessionCall.exec, hNot, hEvent,
            pdiExit_flag]
      | init freqKhz =>
          rw [reopenFails_append_init, hRun]
          simp only [SessionCall.exec, pdiInit_flag,
            pdiInit_result]
          rw [lastOpened_append_event run.1 _ rfl]
          cases line.opens run.2.target <;>
            cases run.2.pdiOn <;> simp

/-
  The second of two `pdi_init` calls gets no answer: the flag
  stays set although the session failed to open.
-/
theorem not_truthful_after_failed_reopen :
    ¬ Truthful scripted [some 2]
        [.init 250, .init 250] := by
  unfold Truthful
  decide

end Lucax
