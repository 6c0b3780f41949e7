import Lucax.Driver.Enabled

/-
  usart.c one statement after another, beside a transmitter
  that may finish a frame between any two of them.

  A level below `Machine`, where the uses of the USART are
  single steps and `send_byte` leaves its frame in flight.

  Key definitions include:
    * `Prim`, `Stmt`, `UsartOp.stmts`
    * `Hw`, `Board`, `Board.Step`
    * `Awaits`
    * `Board.Stuck`, `Board.Lossy`, `Board.Kept`

  Main declarations:
    * `UsartOp.run_stmts`
    * `Board.Sound.step`
    * `Board.not_stuck_of_kept`
    * `Board.Lossy.stuck`
-/

------------------------------------------------------------
-- Statements
------------------------------------------------------------

namespace Lucax

open Relation

variable {τ : Type}

/-
  The statements of usart.c without a condition of their own.
  `receive` is the end of `read_byte` from the poll of `RXC1`
  on, which is bounded.
-/
inductive Prim (τ : Type) where
| ubrr1 (v : UInt16)
| ucsr1c (v : UInt8)
| ucsr1b (v : UInt8)
| setState (m : UsartState)
| setPending (b : Bool)
| awaitUdre
| awaitTxc
| udr1 (data : UInt8)
| clearTxc
| receive
| other (f : Fw τ → Fw τ)

/- A statement, or an `if` with what it guards. -/
inductive Stmt (τ : Type) where
| prim (p : Prim τ)
| when (c : Fw τ → Bool) (body : List (Prim τ))

def usartSetupStmts
    (ubrr : UInt16) : List (Prim τ) :=
  [.ubrr1 ((ubrr &&& 0xFFFF) - 1),
    .ucsr1c
      (((1 : UInt8) <<< 6) ||| ((1 : UInt8) <<< 5) |||
        ((1 : UInt8) <<< 3) ||| ((1 : UInt8) <<< 2) |||
        ((1 : UInt8) <<< 1) ||| 1)]

def usartTxModeStmts : List (Prim τ) :=
  [.ucsr1b txen1, .setState .utx, .setPending false]

def usartRxModeStmts : List (Prim τ) :=
  [.ucsr1b rxen1, .setState .urx]

def usartDisconnectStmts : List (Prim τ) := [.ucsr1b 0]

/- `TXC1` is cleared behind the write to `UDR1`. -/
def sendByteStmts
    (data : UInt8) : List (Stmt τ) :=
  [.when (fun s => s.state = .urx) usartTxModeStmts,
    .prim .awaitUdre, .prim (.udr1 data), .prim .clearTxc,
    .prim (.setPending true)]

def readByteStmts : List (Stmt τ) :=
  [.when (fun s => s.state = .utx)
      (.awaitTxc :: usartRxModeStmts ++ [.setPending false]),
    .prim .receive]

def usartWaitTxStmts : List (Stmt τ) :=
  [.when (fun s => s.state = .utx ∧ s.pending = true)
      [.awaitTxc, .setPending false]]

/- The statements of one use of the USART. -/
def UsartOp.stmts : UsartOp τ → List (Stmt τ)
| .setup ubrr => (usartSetupStmts ubrr).map .prim
| .txMode => usartTxModeStmts.map .prim
| .rxMode => usartRxModeStmts.map .prim
| .disconnect => usartDisconnectStmts.map .prim
| .send b => sendByteStmts b
| .read => readByteStmts
| .waitTx => usartWaitTxStmts
| .other f _ => [.prim (.other f)]

/- What a statement does to the memory. -/
def Prim.run
    (line : Line τ) :
    Prim τ → Fw τ → Fw τ
| .ubrr1 v, s => { s with ubrr1 := v }
| .ucsr1c v, s => { s with ucsr1c := v }
| .ucsr1b v, s => { s with ucsr1b := v }
| .setState m, s => { s with state := m }
| .setPending b, s => { s with pending := b }
| .udr1 data, s =>
    { s with
      target := line.frame s.target data
      sent := s.sent ++ [data] }
| .receive, s =>
    { s with target := (line.reply s.target).2 }
| .other f, s => f s
| .awaitUdre, s => s
| .awaitTxc, s => s
| .clearTxc, s => s

def Stmt.run
    (line : Line τ) :
    Stmt τ → Fw τ → Fw τ
| .prim p, s => p.run line s
| .when c body, s =>
    if c s = true then
      body.foldl (fun s p => p.run line s) s
    else s

/- The statements do what the functions do. -/
theorem UsartOp.run_stmts
    (line : Line τ)
    (op : UsartOp τ)
    (s : Fw τ) :
    op.stmts.foldl (fun s st => st.run line s) s =
      op.run line s := by
  cases op with
  | send b =>
      cases hState : s.state with
      | utx =>
          simp [stmts, sendByteStmts, Stmt.run, Prim.run,
            UsartOp.run, sendByte, hState]
      | urx =>
          simp [stmts, sendByteStmts, Stmt.run, Prim.run,
            UsartOp.run, sendByte, hState, usartTxModeStmts,
            usartTxMode]
  | read =>
      cases hState : s.state with
      | utx =>
          simp [stmts, readByteStmts, Stmt.run, Prim.run,
            UsartOp.run, readByte, hState, usartRxModeStmts,
            usartRxMode]
      | urx =>
          simp [stmts, readByteStmts, Stmt.run, Prim.run,
            UsartOp.run, readByte, hState]
  | waitTx =>
      by_cases hWaits : s.state = .utx ∧ s.pending = true
      · simp [stmts, usartWaitTxStmts, Stmt.run, Prim.run,
          UsartOp.run, usartWaitTx, hWaits]
      · simp [stmts, usartWaitTxStmts, Stmt.run, UsartOp.run,
          usartWaitTx, hWaits]
  | _ => rfl

theorem runOps_stmts
    (line : Line τ)
    (ops : List (UsartOp τ))
    (s : Fw τ) :
    (ops.flatMap UsartOp.stmts).foldl
        (fun s st => st.run line s) s =
      runOps line ops s := by
  induction ops generalizing s with
  | nil => rfl
  | cons op ops ih =>
      rw [List.flatMap_cons, List.foldl_append,
        UsartOp.run_stmts, ih, runOps_cons]

------------------------------------------------------------
-- The Transmitter
------------------------------------------------------------

/-
  Data register, shift register and the flag `TXC1`.  `UDRE1`
  says that the data register is empty.
-/
structure Hw where
  data : Option UInt8
  shift : Option UInt8
  txc : Bool
deriving DecidableEq, Repr

namespace Hw

/- No frame is in either register. -/
def Empty (h : Hw) : Prop := h.data = none ∧ h.shift = none

instance (h : Hw) : Decidable h.Empty :=
  inferInstanceAs (Decidable (_ ∧ _))

/-
  What the transmitter does next: it loads the shift register,
  done with the frame that was there, or it finishes the last
  frame.  Frames go on behind a transmitter that is switched
  off, so `TXEN1` is not looked at.
-/
def advance (h : Hw) : Option Hw :=
  match h.data, h.shift with
  | some b, _ => some { h with data := none, shift := some b }
  | none, some _ => some { h with shift := none, txc := true }
  | none, none => none

/- Every move leaves a frame behind or the flag set. -/
theorem advance_inFlight
    {h h' : Hw}
    (hMoves : h.advance = some h') :
    h'.txc = true ∨ ¬ h'.Empty := by
  rcases h with ⟨data, shift, txc⟩
  cases data with
  | some b =>
      have hLoaded := (Option.some.inj hMoves).symm
      rw [hLoaded]
      refine Or.inr fun hEmpty => ?_
      cases hEmpty.2
  | none =>
      cases shift with
      | some b =>
          have hFinished := (Option.some.inj hMoves).symm
          rw [hFinished]
          exact Or.inl rfl
      | none => cases hMoves

theorem Empty.advance
    {h : Hw}
    (hEmpty : h.Empty) :
    h.advance = none := by
  rw [Hw.advance, hEmpty.1, hEmpty.2]

end Hw

/- Only the waits may keep the driver. -/
def Prim.ready : Prim τ → Hw → Bool
| .awaitUdre, h => h.data.isNone
| .awaitTxc, h => h.txc
| _, _ => true

/- What a statement does to the transmitter. -/
def Prim.effect : Prim τ → Hw → Hw
| .udr1 data, h => { h with data := some data }
| .clearTxc, h => { h with txc := false }
| _, h => h

------------------------------------------------------------
-- Runs
------------------------------------------------------------

/-
  The driver's memory, the transmitter and the statements that
  the driver has still to execute for the request it serves.
-/
structure Board (τ : Type) where
  fw : Fw τ
  hw : Hw
  todo : List (Stmt τ)

/- The uses of the USART that one request makes. -/
inductive Requested
    (line : Line τ)
    (s : Fw τ) :
    List (UsartOp τ) → Prop where
| pdiInit (freqKhz : UInt16) :
    Requested line s (pdiInitOps line freqKhz s)
| pdiExit : Requested line s (pdiExitOps line)
| call
    (c : Call) {ops : List (UsartOp τ)}
    (hOps : CallOps line c s ops) :
    Requested line s ops
| buffer
    (f : Fw τ → Fw τ)
    (hSame :
      ∀ s,
        (f s).state = s.state ∧
          (f s).pending = s.pending ∧
          (f s).ucsr1b = s.ucsr1b) :
    Requested line s [.other f hSame]

namespace Board

def powerOn (target : τ) : Board τ :=
  ⟨Fw.powerOn target, ⟨none, none, false⟩, []⟩

/-
  The hardware moves, the driver executes a statement or goes
  into a condition, or the next request comes in.
-/
inductive Step
    (line : Line τ) :
    Board τ → Board τ → Prop where
| hardware
    (s : Fw τ) (todo : List (Stmt τ)) {h h' : Hw}
    (hMoves : h.advance = some h') :
    Step line ⟨s, h, todo⟩ ⟨s, h', todo⟩
| executed
    (s : Fw τ) (h : Hw) (p : Prim τ) (rest : List (Stmt τ))
    (hReady : p.ready h = true) :
    Step line ⟨s, h, .prim p :: rest⟩
      ⟨p.run line s, p.effect h, rest⟩
| branched
    (s : Fw τ) (h : Hw) (c : Fw τ → Bool)
    (body : List (Prim τ)) (rest : List (Stmt τ)) :
    Step line ⟨s, h, .when c body :: rest⟩
      ⟨s, h,
        (if c s = true then body.map .prim else []) ++ rest⟩
| requested
    (s : Fw τ) (h : Hw) {ops : List (UsartOp τ)}
    (hRequest : Requested line s ops) :
    Step line ⟨s, h, []⟩ ⟨s, h, ops.flatMap UsartOp.stmts⟩

end Board

/- Statements that neither wait for `TXC1` nor write. -/
def Prim.passes : Prim τ → Bool
| .awaitTxc => false
| .udr1 _ => false
| _ => true

/-
  The driver waits for `TXC1` before it writes to `UDR1`
  again.
-/
inductive Awaits
    (line : Line τ) :
    Fw τ → List (Stmt τ) → Prop where
| here
    (s : Fw τ) (rest : List (Stmt τ)) :
    Awaits line s (.prim .awaitTxc :: rest)
| behind
    (s : Fw τ) (p : Prim τ) (rest : List (Stmt τ))
    (hPasses : p.passes = true)
    (hRest : Awaits line (p.run line s) rest) :
    Awaits line s (.prim p :: rest)
| branched
    (s : Fw τ) (c : Fw τ → Bool) (body : List (Prim τ))
    (rest : List (Stmt τ))
    (hRest :
      Awaits line s
        ((if c s = true then body.map .prim else []) ++
          rest)) :
    Awaits line s (.when c body :: rest)

namespace Board

/-
  `read_byte` or `usart_wait_tx` waits for `TXC1`, which is 0,
  and no frame is in the data or shift register.
-/
def Stuck (m : Board τ) : Prop :=
  ∃ rest,
    m.todo = .prim .awaitTxc :: rest ∧
      m.hw.txc = false ∧ m.hw.Empty

/-
  `send_byte` clears `TXC1` when its frame is through already,
  and the driver goes on to wait for `TXC1`.
-/
def Lossy
    (line : Line τ)
    (m : Board τ) : Prop :=
  ∃ rest,
    m.todo = .prim .clearTxc :: rest ∧
      m.hw.Empty ∧ Awaits line m.fw rest

/- Runs in which `TXC1` is not lost. -/
abbrev Kept (line : Line τ) : Board τ → Board τ → Prop :=
  ReflTransGen fun m m' => ¬ m.Lossy line ∧ Step line m m'

end Board

------------------------------------------------------------
-- Requests Write Before They Wait
------------------------------------------------------------

section Awaits

variable
  {line : Line τ}
  {s : Fw τ}
  {rest : List (Stmt τ)}

theorem not_awaits_nil : ¬ Awaits line s [] := by
  intro hAwaits
  cases hAwaits

theorem not_awaits_udr1
    (b : UInt8) :
    ¬ Awaits line s (.prim (.udr1 b) :: rest) := by
  intro hAwaits
  cases hAwaits with
  | behind s p rest hPasses hRest => cases hPasses

theorem awaits_branched
    (c : Fw τ → Bool)
    (body : List (Prim τ)) :
    Awaits line s (.when c body :: rest) ↔
      Awaits line s
        ((if c s = true then body.map .prim else []) ++
          rest) := by
  constructor
  · intro hAwaits
    cases hAwaits with
    | branched s c body rest hRest => exact hRest
  · exact Awaits.branched s c body rest

theorem awaits_passes
    {p : Prim τ}
    (hPasses : p.passes = true) :
    Awaits line s (.prim p :: rest) ↔
      Awaits line (p.run line s) rest := by
  constructor
  · intro hAwaits
    cases hAwaits with
    | here s rest => cases hPasses
    | behind s p rest hPasses hRest => exact hRest
  · exact Awaits.behind s p rest hPasses

theorem awaits_body
    {body : List (Prim τ)}
    (hPasses : body.all Prim.passes = true) :
    Awaits line s (body.map .prim ++ rest) ↔
      Awaits line (body.foldl (fun s p => p.run line s) s)
        rest := by
  induction body generalizing s with
  | nil => exact Iff.rfl
  | cons p body ih =>
      rw [List.all_cons, Bool.and_eq_true] at hPasses
      rw [List.map_cons, List.cons_append,
        awaits_passes hPasses.1]
      exact ih hPasses.2

/- A condition around such statements. -/
theorem awaits_around
    {body : List (Prim τ)}
    (hPasses : body.all Prim.passes = true)
    (c : Fw τ → Bool) :
    Awaits line s (.when c body :: rest) ↔
      Awaits line ((Stmt.when c body).run line s) rest := by
  rw [awaits_branched, Stmt.run]
  split
  · exact awaits_body hPasses
  · exact Iff.rfl

/- `send_byte` writes. -/
theorem not_awaits_send
    (b : UInt8) :
    ¬ Awaits line s ((UsartOp.send b).stmts ++ rest) := by
  have hStmts :
      (UsartOp.send b).stmts ++ rest =
        .when (fun s => s.state = .urx) usartTxModeStmts ::
          .prim .awaitUdre :: .prim (.udr1 b) ::
          .prim .clearTxc :: .prim (.setPending true) ::
          rest := rfl
  rw [hStmts, awaits_around rfl, awaits_passes rfl]
  exact not_awaits_udr1 b

/- `usart_wait_tx` with nothing pending. -/
theorem awaits_waitTx
    (hIdle : s.state = .utx → s.pending = false) :
    Awaits line s (UsartOp.waitTx.stmts ++ rest) ↔
      Awaits line s rest := by
  have hNot :
      decide (s.state = .utx ∧ s.pending = true) = false := by
    apply decide_eq_false
    rintro ⟨hState, hPending⟩
    rw [hIdle hState] at hPending
    cases hPending
  have hStmts :
      UsartOp.waitTx.stmts ++ rest =
        .when (fun s => s.state = .utx ∧ s.pending = true)
          [.awaitTxc, .setPending false] :: rest := rfl
  rw [hStmts, awaits_branched, hNot]
  exact Iff.rfl

end Awaits

/-
  What a request does first with the transmitter: a write, or
  nothing.  `idle` says that nothing is pending in transmit
  mode, so that `usart_wait_tx` does not wait.
-/
def writesFirst : Bool → List (UsartOp τ) → Bool
| _, [] => true
| idle, op :: ops =>
    match op with
    | .send _ => true
    | .read => false
    | .waitTx => idle && writesFirst idle ops
    | .txMode => writesFirst true ops
    | .rxMode => writesFirst true ops
    | .setup _ => writesFirst idle ops
    | .disconnect => writesFirst idle ops
    | .other _ _ => writesFirst idle ops

/- By induction on the uses up to the first write. -/
theorem not_awaits_of_writesFirst
    {line : Line τ}
    {idle : Bool}
    {s : Fw τ}
    {ops : List (UsartOp τ)}
    (hIdle :
      idle = true → s.state = .utx → s.pending = false)
    (hFirst : writesFirst idle ops = true) :
    ¬ Awaits line s (ops.flatMap UsartOp.stmts) := by
  induction ops generalizing idle s with
  | nil => exact not_awaits_nil
  | cons op ops ih =>
      rw [List.flatMap_cons]
      cases op with
      | send b => exact not_awaits_send b
      | read => cases hFirst
      | waitTx =>
          rw [writesFirst, Bool.and_eq_true] at hFirst
          rw [awaits_waitTx (hIdle hFirst.1)]
          exact ih hIdle hFirst.2
      | txMode =>
          have hNow :
              (usartTxMode s).state = .utx →
                (usartTxMode s).pending = false :=
            fun _hState => rfl
          intro hAwaits
          exact ih (fun _hIdle => hNow) hFirst
            ((awaits_body rfl).mp hAwaits)
      | rxMode =>
          intro hAwaits
          refine
            ih (s := usartRxMode s) ?_ hFirst
              ((awaits_body rfl).mp hAwaits)
          intro _hIdle hState
          cases hState
      | setup ubrr =>
          intro hAwaits
          exact ih (s := usartSetup ubrr s) hIdle hFirst
            ((awaits_body rfl).mp hAwaits)
      | disconnect =>
          intro hAwaits
          exact ih (s := usartDisconnect s) hIdle hFirst
            ((awaits_body rfl).mp hAwaits)
      | other f hSame =>
          have hStmts :
              (UsartOp.other f hSame).stmts =
                [Prim.other f].map .prim := rfl
          have hFields := hSame s
          have hNow :
              idle = true → (f s).state = .utx →
                (f s).pending = false := by
            rw [hFields.1, hFields.2.1]
            exact hIdle
          rw [hStmts, awaits_body rfl]
          exact ih hNow hFirst

section Requests

variable {line : Line τ} {s : Fw τ}

/- `pdi_init` begins with `usart_tx_mode`. -/
theorem writesFirst_pdiInitOps
    (freqKhz : UInt16) :
    writesFirst false (pdiInitOps line freqKhz s) = true := rfl

/- `pdi_exit` begins with a break. -/
theorem writesFirst_pdiExitOps :
    writesFirst false (pdiExitOps line) = true := rfl

theorem writesFirst_sends
    (frames : List UInt8) :
    writesFirst false
        (frames.map (UsartOp.send (τ := τ))) = true := by
  cases frames with
  | nil => rfl
  | cons b frames => rfl

/- No request waits for the frames of an earlier one. -/
theorem Requested.not_awaits
    {ops : List (UsartOp τ)}
    (hRequest : Requested line s ops) :
    ¬ Awaits line s (ops.flatMap UsartOp.stmts) := by
  have hFirst : writesFirst false ops = true := by
    cases hRequest with
    | pdiInit freqKhz => exact writesFirst_pdiInitOps freqKhz
    | pdiExit => exact writesFirst_pdiExitOps
    | call c hOps =>
        cases hOps with
        | opened hOn hPlain hRun => rfl
        | closed hOff hRun => exact writesFirst_sends _
    | buffer f hSame => rfl
  refine not_awaits_of_writesFirst ?_ hFirst
  intro hNot
  cases hNot

end Requests

------------------------------------------------------------
-- The Invariant
------------------------------------------------------------

namespace Board

/-
  Before a wait for `TXC1` the flag is set or will be by a
  frame in the registers.
-/
def Sound
    (line : Line τ)
    (m : Board τ) : Prop :=
  Awaits line m.fw m.todo → m.hw.txc = true ∨ ¬ m.hw.Empty

section Runs

variable {line : Line τ} {m m' : Board τ}

theorem sound_powerOn
    (target : τ) :
    (powerOn target).Sound line := by
  intro hAwaits
  exact absurd hAwaits not_awaits_nil

theorem Sound.not_stuck
    (hSound : m.Sound line) :
    ¬ m.Stuck := by
  rintro ⟨rest, hTodo, hCleared, hEmpty⟩
  have hAwaits : Awaits line m.fw m.todo := by
    rw [hTodo]
    exact Awaits.here m.fw rest
  rcases hSound hAwaits with hSet | hSome
  · rw [hCleared] at hSet
    cases hSet
  · exact hSome hEmpty

/- The step lemma. -/
theorem Sound.step
    (hSound : m.Sound line)
    (hKept : ¬ m.Lossy line)
    (hStep : Step line m m') :
    m'.Sound line := by
  cases hStep with
  | hardware s todo hMoves =>
      intro _hAwaits
      exact Hw.advance_inFlight hMoves
  | executed s h p rest hReady =>
      intro hAwaits
      cases p with
      | awaitTxc => exact Or.inl hReady
      | udr1 b =>
          refine Or.inr fun hEmpty => ?_
          cases hEmpty.1
      | clearTxc =>
          refine Or.inr fun hEmpty => ?_
          exact hKept ⟨rest, rfl, hEmpty, hAwaits⟩
      | _ => exact hSound (Awaits.behind _ _ rest rfl hAwaits)
  | branched s h c body rest =>
      intro hAwaits
      exact hSound (Awaits.branched s c body rest hAwaits)
  | requested s h hRequest =>
      intro hAwaits
      exact absurd hAwaits hRequest.not_awaits

/- The run lemma. -/
theorem Sound.kept
    (hSound : m.Sound line)
    (hRun : Kept line m m') :
    m'.Sound line := by
  induction hRun with
  | refl => exact hSound
  | tail _hRun hStep ih => exact ih.step hStep.1 hStep.2

------------------------------------------------------------
-- Where the Flag Is Lost
------------------------------------------------------------

/- Nothing ends such a wait. -/
theorem Stuck.no_step
    (hStuck : m.Stuck) :
    ¬ Step line m m' := by
  rcases m with ⟨s, h, todo⟩
  rcases hStuck with ⟨rest, hTodo, hCleared, hEmpty⟩
  intro hStep
  cases hStep with
  | hardware s todo hMoves =>
      rw [Hw.Empty.advance hEmpty] at hMoves
      cases hMoves
  | executed s h p rest' hReady =>
      cases hTodo
      rw [Prim.ready, hCleared] at hReady
      cases hReady
  | branched s h c body rest' => cases hTodo
  | requested s h hRequest => cases hTodo

/- The driver runs into the wait. -/
theorem stuck_of_awaits
    {s : Fw τ}
    {h : Hw}
    {todo : List (Stmt τ)}
    (hAwaits : Awaits line s todo)
    (hCleared : h.txc = false)
    (hEmpty : h.Empty) :
    ∃ m',
      ReflTransGen (Step line) ⟨s, h, todo⟩ m' ∧
        m'.Stuck := by
  induction hAwaits with
  | here s rest =>
      exact ⟨_, ReflTransGen.refl, rest, rfl, hCleared,
        hEmpty⟩
  | behind s p rest hPasses hRest ih =>
      rcases ih with ⟨m', hRun, hStuck⟩
      refine ⟨m', hRun.head ?_, hStuck⟩
      have hReady : p.ready h = true := by
        cases p with
        | awaitTxc => cases hPasses
        | awaitUdre => rw [Prim.ready, hEmpty.1]; rfl
        | _ => rfl
      have hSame : p.effect h = h := by
        cases p with
        | udr1 b => cases hPasses
        | clearTxc => rw [Prim.effect, ← hCleared]
        | _ => rfl
      have hStep :
          Step line ⟨s, h, .prim p :: rest⟩
            ⟨p.run line s, p.effect h, rest⟩ :=
        Step.executed s h p rest hReady
      rw [hSame] at hStep
      exact hStep
  | branched s c body rest hRest ih =>
      rcases ih with ⟨m', hRun, hStuck⟩
      exact
        ⟨m', hRun.head (Step.branched s h c body rest), hStuck⟩

/- Once the flag is lost the driver runs into such a wait. -/
theorem Lossy.stuck
    (hLossy : m.Lossy line) :
    ∃ m', ReflTransGen (Step line) m m' ∧ m'.Stuck := by
  rcases m with ⟨s, h, todo⟩
  rcases hLossy with ⟨rest, hTodo, hEmpty, hAwaits⟩
  cases hTodo
  rcases
      stuck_of_awaits (h := { h with txc := false }) hAwaits rfl
        hEmpty with
    ⟨m', hRun, hStuck⟩
  exact
    ⟨m', hRun.head (Step.executed s h .clearTxc rest rfl),
      hStuck⟩

end Runs

------------------------------------------------------------
-- Schedules
------------------------------------------------------------

/- One move of a schedule; `PDI_INIT` stands for a request. -/
inductive Act where
| hardware
| driver
| pdiInit (freqKhz : UInt16)
deriving DecidableEq, Repr

/- The move, or nothing where it is not possible. -/
def act
    (line : Line τ)
    (m : Board τ) : Act → Board τ
| .hardware =>
    match m.hw.advance with
    | some h => { m with hw := h }
    | none => m
| .driver =>
    match m.todo with
    | [] => m
    | .prim p :: rest =>
        if p.ready m.hw = true then
          ⟨p.run line m.fw, p.effect m.hw, rest⟩
        else m
    | .when c body :: rest =>
        { m with
          todo :=
            (if c m.fw = true then body.map .prim else []) ++
              rest }
| .pdiInit freqKhz =>
    match m.todo with
    | [] =>
        { m with
          todo :=
            (pdiInitOps line freqKhz m.fw).flatMap
              UsartOp.stmts }
    | _ :: _ => m

def play
    (line : Line τ)
    (m : Board τ)
    (acts : List Act) : Board τ :=
  acts.foldl (act line) m

/- `TXC1` is not cleared here with both registers empty. -/
def careful (m : Board τ) : Bool :=
  match m.todo with
  | .prim .clearTxc :: _ => !decide m.hw.Empty
  | _ => true

/- So on the way through a schedule. -/
def carefully
    (line : Line τ) :
    Board τ → List Act → Bool
| _, [] => true
| m, a :: acts =>
    m.careful && carefully line (m.act line a) acts

section Schedules

variable (line : Line τ)

/- Every move of a schedule is a step. -/
theorem act_step
    (m : Board τ)
    (a : Act) :
    m.act line a = m ∨ Step line m (m.act line a) := by
  rcases m with ⟨s, h, todo⟩
  cases a with
  | hardware =>
      cases hMoves : h.advance with
      | none => exact Or.inl (by simp only [act, hMoves])
      | some h' =>
          have hStep :
              Step line ⟨s, h, todo⟩ ⟨s, h', todo⟩ :=
            Step.hardware s todo hMoves
          exact Or.inr (by simpa only [act, hMoves] using hStep)
  | driver =>
      cases todo with
      | nil => exact Or.inl rfl
      | cons st rest =>
          cases st with
          | prim p =>
              cases hReady : p.ready h with
              | false =>
                  left
                  simp only [act, hReady, Bool.false_eq_true,
                    if_false]
              | true =>
                  right
                  have hStep :
                      Step line ⟨s, h, .prim p :: rest⟩
                        ⟨p.run line s, p.effect h, rest⟩ :=
                    Step.executed s h p rest hReady
                  simpa only [act, hReady, if_true] using hStep
          | when c body =>
              exact Or.inr (Step.branched s h c body rest)
  | pdiInit freqKhz =>
      cases todo with
      | nil =>
          exact Or.inr (Step.requested s h (.pdiInit freqKhz))
      | cons st rest => exact Or.inl rfl

theorem careful.not_lossy
    {m : Board τ}
    (hCareful : m.careful = true) :
    ¬ m.Lossy line := by
  rintro ⟨rest, hTodo, hEmpty, _hAwaits⟩
  rw [careful, hTodo] at hCareful
  simp [hEmpty] at hCareful

theorem play_reaches
    (m : Board τ)
    (acts : List Act) :
    ReflTransGen (Step line) m (m.play line acts) := by
  induction acts generalizing m with
  | nil => exact ReflTransGen.refl
  | cons a acts ih =>
      refine ReflTransGen.trans ?_ (ih (m.act line a))
      rcases m.act_step line a with hSame | hStep
      · rw [hSame]
      · exact ReflTransGen.single hStep

theorem play_kept
    (m : Board τ)
    (acts : List Act)
    (hCareful : carefully line m acts = true) :
    Kept line m (m.play line acts) := by
  induction acts generalizing m with
  | nil => exact ReflTransGen.refl
  | cons a acts ih =>
      rw [carefully, Bool.and_eq_true] at hCareful
      have hNot := careful.not_lossy line hCareful.1
      refine
        ReflTransGen.trans ?_ (ih (m.act line a) hCareful.2)
      rcases m.act_step line a with hSame | hStep
      · rw [hSame]
      · exact ReflTransGen.single ⟨hNot, hStep⟩

end Schedules

/-
  In a run that does not clear `TXC1` behind a frame that is
  through already, right before a wait for it, no wait is for
  a completion that cannot come.
-/
theorem not_stuck_of_kept
    {line : Line τ}
    {target : τ}
    {m : Board τ}
    (hRun : Kept line (powerOn target) m) :
    ¬ m.Stuck :=
  ((sound_powerOn target).kept hRun).not_stuck

/- A line with nothing at its other end. -/
def openLine : Line Unit :=
  ⟨fun t _ => t, fun t => (none, t), id⟩

/- `pdi_init` up to its second write to `UDR1`. -/
def connects : List Act :=
  [.pdiInit 250] ++ List.replicate 22 .driver ++
    [.hardware] ++ List.replicate 2 .driver

/- The second frame is through behind the clear only. -/
def inTime : List Act :=
  connects ++ List.replicate 3 .driver

/- It is through before the clear. -/
def tooEarly : List Act :=
  connects ++ List.replicate 2 .hardware ++
    List.replicate 3 .driver

/- `send_idle` waits for the frame that is in flight. -/
theorem not_stuck_inTime :
    (∃ rest,
        (play openLine (powerOn ()) inTime).todo =
          .prim .awaitTxc :: rest) ∧
      ¬ (play openLine (powerOn ()) inTime).Stuck :=
  ⟨⟨_, rfl⟩,
    not_stuck_of_kept
      (play_kept openLine (powerOn ()) inTime rfl)⟩

/-
  In `pdi_init` a frame is through between the write to `UDR1`
  and the clear; `send_idle` then waits for ever.
-/
theorem stuck_tooEarly :
    ReflTransGen (Step openLine) (powerOn ())
        (play openLine (powerOn ()) tooEarly) ∧
      (play openLine (powerOn ()) tooEarly).Stuck :=
  ⟨play_reaches openLine (powerOn ()) tooEarly, _, rfl, rfl,
    rfl, rfl⟩

end Board

end Lucax
