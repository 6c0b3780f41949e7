import Lucax.Driver.Transmitter

/-
  Where the transmitter is on.  `send_byte` switches it on in
  receive mode only; in transmit mode it relies on what the
  driver did before.

  Key definitions include:
    * `Fw.transmits`, `Fw.On`
    * `UsartOp.on`, `onAfter`
    * `CallOps`

  Main declarations:
    * `pdiInit_on`
    * `Call.exists_callOps`
-/

------------------------------------------------------------
-- The Transmitter in Transmit Mode
------------------------------------------------------------

namespace Lucax

variable {τ : Type}

/- The transmitter is enabled. -/
def Fw.transmits (s : Fw τ) : Bool :=
  s.ucsr1b &&& txen1 ≠ 0

/- In transmit mode the transmitter is enabled. -/
def Fw.On (s : Fw τ) : Prop :=
  s.state = .utx → s.transmits = true

section On

variable (line : Line τ) {s : Fw τ}

theorem usartTxMode_transmits
    (s : Fw τ) :
    (usartTxMode s).transmits = true := by
  have hMask : txen1 &&& txen1 ≠ 0 := by decide
  exact decide_eq_true hMask

/- A send leaves the transmitter enabled. -/
theorem Fw.On.send
    (hOn : s.On)
    (b : UInt8) :
    (sendByte line b s).transmits = true := by
  cases hMode : s.state with
  | urx =>
      have hEnabled := usartTxMode_transmits s
      simpa [sendByte, hMode, Fw.transmits] using hEnabled
  | utx =>
      have hEnabled := hOn hMode
      simpa [sendByte, hMode, Fw.transmits] using hEnabled

/- A read ends in receive mode. -/
theorem readByte_state
    (s : Fw τ) :
    (readByte line s).2.state = .urx := by
  cases hMode : s.state with
  | urx => simp [readByte, hMode]
  | utx => simp [readByte, hMode, usartRxMode]

theorem Fw.On.waitTx
    (hOn : s.On) :
    (usartWaitTx s).On := by
  rw [usartWaitTx]
  split
  · exact hOn
  · exact hOn

end On

------------------------------------------------------------
-- Sequences
------------------------------------------------------------

/-
  Whether `Fw.On` is known behind `op`, given whether it is
  known before; none where `op` waits for the transmitter
  without it.
-/
def UsartOp.on : UsartOp τ → Bool → Option Bool
| .send _, true => some true
| .send _, false => none
| .read, true => some true
| .read, false => none
| .waitTx, true => some true
| .waitTx, false => none
| .txMode, _ => some true
| .rxMode, _ => some true
| .disconnect, _ => some false
| .setup _, known => some known
| .other _ _, known => some known

def onAfter :
    Bool → List (UsartOp τ) → Option Bool
| known, [] => some known
| known, op :: ops =>
    (op.on known).bind fun next => onAfter next ops

theorem onAfter_append
    (known : Bool)
    (front rest : List (UsartOp τ)) :
    onAfter known (front ++ rest) =
      (onAfter known front).bind
        (fun next => onAfter next rest) := by
  induction front generalizing known with
  | nil => rfl
  | cons op front ih =>
      rw [List.cons_append, onAfter, onAfter]
      cases op.on known with
      | none => rfl
      | some next => exact ih next

section Sequences

variable
  (line : Line τ)
  {s : Fw τ}
  {known next : Bool}

/- What one use of the USART makes of what is known. -/
theorem UsartOp.on_run
    {op : UsartOp τ}
    (hOp : op.on known = some next)
    (hKnown : known = true → s.On)
    (hNext : next = true) :
    (op.run line s).On := by
  cases op with
  | send b =>
      cases known with
      | true => exact fun _hState => (hKnown rfl).send line b
      | false => cases hOp
  | read =>
      intro hState
      rw [UsartOp.run, readByte_state] at hState
      cases hState
  | txMode => exact fun _hState => usartTxMode_transmits s
  | rxMode =>
      intro hState
      cases hState
  | disconnect =>
      rw [hNext] at hOp
      cases hOp
  | setup ubrr =>
      rw [hNext] at hOp
      exact hKnown (Option.some.inj hOp)
  | waitTx =>
      cases known with
      | true => exact (hKnown rfl).waitTx
      | false => cases hOp
  | other f hSame =>
      rw [hNext] at hOp
      have hOn := hKnown (Option.some.inj hOp)
      have hFields := hSame s
      rw [Fw.On, Fw.transmits, UsartOp.run, hFields.1,
        hFields.2.2]
      exact hOn

/- So for whole sequences; by induction on the uses. -/
theorem onAfter_runOps
    {ops : List (UsartOp τ)}
    (hOps : onAfter known ops = some next)
    (hKnown : known = true → s.On)
    (hNext : next = true) :
    (runOps line ops s).On := by
  induction ops generalizing s known with
  | nil =>
      rw [onAfter, hNext] at hOps
      exact hKnown (Option.some.inj hOps)
  | cons op ops ih =>
      rw [onAfter] at hOps
      rcases Option.bind_eq_some_iff.mp hOps with
        ⟨now, hOp, hRest⟩
      exact ih hRest (UsartOp.on_run line hOp hKnown)

/- The uses of a driver call keep it known. -/
theorem onAfter_plain
    {ops : List (UsartOp τ)}
    (hPlain : ∀ op ∈ ops, op.Plain) :
    onAfter true ops = some true := by
  induction ops with
  | nil => rfl
  | cons op ops ih =>
      have hOp := hPlain op List.mem_cons_self
      have hStays : op.on true = some true := by
        cases op with
        | send b => rfl
        | read => rfl
        | other f hSame => rfl
        | _ => cases hOp
      rw [onAfter, hStays]
      exact ih fun other hMem =>
        hPlain other (List.mem_cons_of_mem op hMem)

theorem onAfter_pollOps
    (retry : Nat)
    (s : Fw τ) :
    onAfter true (pollOps line retry s) = some true := by
  induction retry generalizing s with
  | zero => rfl
  | succ retry ih =>
      rw [pollOps]
      rcases
          readByte line
            (sendByte line
              (pdiLoadControlReg ||| pdiStatusReg) s) with
        ⟨answer, after⟩
      cases answer with
      | none => rfl
      | some status =>
          simp only
          split
          · rfl
          · rw [onAfter_append]
            exact ih (sendIdles 2 after)

/- `pdi_init` switches the transmitter on itself. -/
theorem onAfter_pdiInitOps
    (freqKhz : UInt16)
    (s : Fw τ) :
    onAfter false (pdiInitOps line freqKhz s) =
      some true := by
  have hConnect :
      onAfter false
          (connectOps freqKhz : List (UsartOp τ)) =
        some true := rfl
  rw [pdiInitOps, onAfter_append, onAfter_append, hConnect,
    Option.bind_some, onAfter_pollOps, Option.bind_some]
  split
  · rfl
  · rfl

theorem pdiInit_on
    (freqKhz : UInt16)
    (s : Fw τ) :
    (pdiInit line freqKhz s).2.On := by
  rw [← runOps_pdiInitOps]
  refine
    onAfter_runOps line (onAfter_pdiInitOps line freqKhz s)
      ?_ rfl
  intro hNot
  cases hNot

end Sequences

------------------------------------------------------------
-- Driver Calls
------------------------------------------------------------

/-
  `nvm_pointer` and the dummy store of a page write are sent
  without a look at `pdi_on`.
-/
def Call.unguarded : Call → Bool
| .nvmPagedWrite _ _ _ _ => true
| _ => false

/-
  What a call does to the USART: in an open session it begins
  with a frame, in a closed one it sends frames only.
-/
inductive CallOps
    (line : Line τ)
    (c : Call)
    (s : Fw τ) :
    List (UsartOp τ) → Prop where
| opened
    (hOn : s.pdiOn = true)
    {b : UInt8} {ops : List (UsartOp τ)}
    (hPlain : ∀ op ∈ ops, op.Plain)
    (hRun :
      runOps line (.send b :: ops) s = (c.exec line s).2) :
    CallOps line c s (.send b :: ops)
| closed
    (hOff : s.pdiOn = false)
    {frames : List UInt8}
    (hRun : feed line frames s = (c.exec line s).2) :
    CallOps line c s (frames.map .send)

section Calls

variable {line : Line τ} {s : Fw τ}

/- Most calls do nothing in a closed session. -/
theorem Call.exec_closed
    (hOff : s.pdiOn = false)
    {c : Call}
    (hGuarded : c.unguarded = false) :
    (c.exec line s).2 = s := by
  cases c with
  | pdiReadByte address =>
      simp only [Call.exec, pdiReadByte_disabled line hOff]
  | pdiWriteByte address data =>
      simp only [Call.exec, pdiWriteByte_disabled line hOff]
  | pdiReadBytes start data count =>
      simp only [Call.exec, pdiReadBytes_disabled line hOff]
  | pdiWriteBytes start data count =>
      simp only [Call.exec, pdiWriteBytes_disabled line hOff]
  | nvmChipErase =>
      simp only [Call.exec, Lucax.nvmChipErase,
        nvmCmd_disabled line hOff, trigCmdex_disabled line hOff,
        waitNvm_disabled line hOff]
  | nvmReadByte address =>
      simp only [Call.exec, Lucax.nvmReadByte,
        nvmCmd_disabled line hOff,
        pdiReadByte_disabled line hOff]
  | nvmReadBytes address data count =>
      simp only [Call.exec, Lucax.nvmReadBytes,
        nvmCmd_disabled line hOff,
        pdiReadBytes_disabled line hOff]
  | nvmWriteByte address data mem =>
      simp only [Call.exec, Lucax.nvmWriteByte,
        nvmCmd_disabled line hOff,
        pdiWriteByte_disabled line hOff,
        trigCmdex_disabled line hOff, ite_self,
        waitNvm_disabled line hOff]
  | nvmPagedWrite address data count mem => cases hGuarded

/- Every call does one of these things. -/
theorem Call.exists_callOps
    (c : Call)
    (s : Fw τ) :
    ∃ ops, CallOps line c s ops := by
  cases hOn : s.pdiOn with
  | true =>
      rcases c.exec_first line hOn with ⟨b, hSteps⟩
      rcases exists_ops_of_steps hSteps with
        ⟨ops, hPlain, hRun⟩
      exact ⟨_, .opened hOn hPlain hRun⟩
  | false =>
      cases hKind : c.unguarded with
      | false =>
          have hNone :
              feed line [] s = (c.exec line s).2 :=
            (Call.exec_closed hOn hKind).symm
          exact ⟨_, .closed hOn hNone⟩
      | true =>
          cases c with
          | nvmPagedWrite address data count mem =>
              have hPage :
                  feed line
                      (pointerFrames address ++
                        pointerFrames address ++ [0x64, 0x00])
                      s =
                    (Call.exec line
                      (.nvmPagedWrite address data count mem)
                      s).2 := by
                simp only [Call.exec]
                rw [nvmPagedWrite_disabled line hOn]
              exact ⟨_, .closed hOn hPage⟩
          | _ => cases hKind

/- A call that sends needs the transmitter. -/
theorem CallOps.onAfter
    {c : Call}
    {ops : List (UsartOp τ)}
    (hOps : CallOps line c s ops) :
    onAfter true ops = some true := by
  cases hOps with
  | @opened hOpen b ops hPlain hRun =>
      have hBehind :
          Lucax.onAfter true (UsartOp.send b :: ops) =
            Lucax.onAfter true ops := rfl
      rw [hBehind, onAfter_plain hPlain]
  | @closed hOff frames hRun =>
      apply onAfter_plain
      intro op hMem
      rcases List.mem_map.mp hMem with ⟨b, _hFrame, hOp⟩
      rw [← hOp]
      trivial

end Calls

end Lucax
