import Lucax.Driver.Steps

/-
  The driver and the USART transmitter: what the driver does
  to the USART one thing after another, and the frames that
  are in flight meanwhile.

  The hardware completes a frame whenever it likes.  A wait
  for `UDRE1` ends with room for a frame, a wait for `TXC1`
  with none in flight.

  Key definitions include:
    * `UsartOp`, `runOps`
    * `pdiInitOps`, `pdiExitOps`, `Served`
    * `Machine`, `Proceeds`, `Moves`
    * `Machine.Safe`

  Main declarations:
    * `runOps_pdiInitOps`, `runOps_pdiExitOps`
    * `Call.exists_ops`
    * `Machine.Guarded.moves`, `Machine.Guarded.reaches`
-/

------------------------------------------------------------
-- Uses of the USART
------------------------------------------------------------

namespace Lucax

open Relation

variable {τ : Type}

/-
  What the driver does to the USART.  `other` stands for all
  that leaves `state`, `pending` and `UCSR1B` alone.
-/
inductive UsartOp (τ : Type) where
| setup (ubrr : UInt16)
| txMode
| rxMode
| disconnect
| send (b : UInt8)
| read
| waitTx
| other
    (f : Fw τ → Fw τ)
    (hSame :
      ∀ s,
        (f s).state = s.state ∧
          (f s).pending = s.pending ∧ (f s).ucsr1b = s.ucsr1b)

def UsartOp.run
    (line : Line τ) :
    UsartOp τ → Fw τ → Fw τ
| .setup ubrr, s => usartSetup ubrr s
| .txMode, s => usartTxMode s
| .rxMode, s => usartRxMode s
| .disconnect, s => usartDisconnect s
| .send b, s => sendByte line b s
| .read, s => (readByte line s).2
| .waitTx, s => usartWaitTx s
| .other f _, s => f s

def runOps
    (line : Line τ)
    (ops : List (UsartOp τ))
    (s : Fw τ) : Fw τ :=
  ops.foldl (fun s op => op.run line s) s

@[simp] theorem runOps_nil
    (line : Line τ)
    (s : Fw τ) :
    runOps line [] s = s := rfl

theorem runOps_cons
    (line : Line τ)
    (op : UsartOp τ)
    (ops : List (UsartOp τ))
    (s : Fw τ) :
    runOps line (op :: ops) s =
      runOps line ops (op.run line s) := rfl

theorem runOps_append
    (line : Line τ)
    (front rest : List (UsartOp τ))
    (s : Fw τ) :
    runOps line (front ++ rest) s =
      runOps line rest (runOps line front s) := by
  simp [runOps, List.foldl_append]

theorem runOps_sends
    (line : Line τ)
    (bytes : List UInt8)
    (s : Fw τ) :
    runOps line (bytes.map .send) s = feed line bytes s := by
  rw [runOps, List.foldl_map]
  rfl

/- `send_idle` -/
def idleOps : List (UsartOp τ) := [.waitTx, .txMode]

/- `pdi_init` up to the poll of the NVM enable bit. -/
def connectOps (freqKhz : UInt16) : List (UsartOp τ) :=
  [.other
      (fun s =>
        { s with
          charUs := charLength freqKhz
          pdiPort :=
            s.pdiPort &&& ~~~(txPin ||| rxPin ||| clkPin)
          pdiDdr :=
            (s.pdiDdr &&& ~~~rxPin) ||| (clkPin ||| txPin) })
      (fun _ => ⟨rfl, rfl, rfl⟩),
    .setup (UInt16.ofNat (baudDivisor freqKhz)),
    .other (fun s => { s with pdiPort := s.pdiPort ||| txPin })
      (fun _ => ⟨rfl, rfl, rfl⟩),
    .txMode,
    .other pinDefaultState (fun _ => ⟨rfl, rfl, rfl⟩)] ++
    idleOps ++ idleOps ++
    [.send (pdiStoreControlReg ||| pdiCtrlReg), .send 0x03] ++
    idleOps ++
    [.send (pdiStoreControlReg ||| pdiResetReg),
      .send pdiResetSignature] ++
    idleOps ++
    [.send pdiKey, .send 0xFF, .send 0x88, .send 0xD8,
      .send 0xCD, .send 0x45, .send 0xAB, .send 0x89,
      .send 0x12] ++
    idleOps ++ idleOps

/- The poll, as far as the replies let it go. -/
def pollOps
    (line : Line τ) :
    Nat → Fw τ → List (UsartOp τ)
| 0, _ => []
| retry + 1, s =>
    [.send (pdiLoadControlReg ||| pdiStatusReg), .read] ++
      match
        readByte line
          (sendByte line (pdiLoadControlReg ||| pdiStatusReg)
            s) with
      | (none, _) => []
      | (some status, s) =>
          if status &&& (1 <<< nvmen) ≠ 0 then []
          else
            idleOps ++ idleOps ++
              pollOps line retry (sendIdles 2 s)

def pdiInitOps
    (line : Line τ)
    (freqKhz : UInt16)
    (s : Fw τ) : List (UsartOp τ) :=
  connectOps freqKhz ++
    pollOps line 200 (runOps line (connectOps freqKhz) s) ++
    match
      (pollNvmen line 200
        (runOps line (connectOps freqKhz) s)).1 with
    | .noError =>
        [.other (fun s => { s with pdiOn := true })
          (fun _ => ⟨rfl, rfl, rfl⟩)]
    | _ => []

/- `send_break` -/
def breakOps
    (line : Line τ) : List (UsartOp τ) :=
  [.other (fun s => { s with pdiDdr := s.pdiDdr ||| txPin })
      (fun _ => ⟨rfl, rfl, rfl⟩),
    .rxMode,
    .other
      (fun s =>
        { s with
          target := line.lineBreak s.target
          pdiDdr := s.pdiDdr &&& ~~~txPin })
      (fun _ => ⟨rfl, rfl, rfl⟩),
    .txMode]

def pdiExitOps
    (line : Line τ) : List (UsartOp τ) :=
  breakOps line ++ breakOps line ++ idleOps ++ idleOps ++
    [.send (pdiStoreControlReg ||| pdiResetReg), .send 0] ++
    idleOps ++ idleOps ++ idleOps ++ idleOps ++
    [.disconnect,
      .other
        (fun s =>
          { s with
            pdiPort :=
              s.pdiPort &&& ~~~(clkPin ||| txPin ||| rxPin)
            pdiDdr :=
              s.pdiDdr &&& ~~~(clkPin ||| txPin ||| rxPin)
            pdiOn := false })
        (fun _ => ⟨rfl, rfl, rfl⟩)]

section Sequences

variable (line : Line τ) (s : Fw τ)

theorem runOps_pollOps
    (retry : Nat) :
    runOps line (pollOps line retry s) s =
      (pollNvmen line retry s).2 := by
  induction retry generalizing s with
  | zero => rfl
  | succ retry ih =>
      rw [pollOps, pollNvmen, runOps_append]
      have hRead :
          runOps line
              [.send (pdiLoadControlReg ||| pdiStatusReg),
                .read] s =
            (readByte line
              (sendByte line
                (pdiLoadControlReg ||| pdiStatusReg) s)).2 :=
        rfl
      rw [hRead]
      rcases
          readByte line
            (sendByte line
              (pdiLoadControlReg ||| pdiStatusReg) s) with
        ⟨answer, after⟩
      cases answer with
      | none => rfl
      | some status =>
          simp only
          split
          · rfl
          · rw [runOps_append]
            exact ih (sendIdles 2 after)

/- `pdi_init` from the poll on. -/
theorem pdiInit_connectOps
    (freqKhz : UInt16) :
    pdiInit line freqKhz s =
      match
        pollNvmen line 200
          (runOps line (connectOps freqKhz) s) with
      | (.noError, s) => (.noError, { s with pdiOn := true })
      | (r, s) => (r, s) := rfl

/- The sequence of `pdi_init` is what `pdi_init` does. -/
theorem runOps_pdiInitOps
    (freqKhz : UInt16) :
    runOps line (pdiInitOps line freqKhz s) s =
      (pdiInit line freqKhz s).2 := by
  rw [pdiInit_connectOps, pdiInitOps, runOps_append,
    runOps_append, runOps_pollOps]
  rcases
      pollNvmen line 200
        (runOps line (connectOps freqKhz) s) with
    ⟨result, after⟩
  cases result with
  | noError => rfl
  | pdiDisabled => rfl
  | timeOut => rfl
  | invalidAddress => rfl

theorem runOps_pdiExitOps :
    runOps line (pdiExitOps line) s = pdiExit line s := rfl

end Sequences

/- A driver call sends, reads and changes memory. -/
def UsartOp.Plain : UsartOp τ → Prop
| .send _ => True
| .read => True
| .other _ _ => True
| _ => False

/- Every sequence of steps is a sequence of such uses. -/
theorem exists_ops_of_steps
    {line : Line τ}
    {s s' : Fw τ}
    (hSteps : PdiSteps line s s') :
    ∃ ops : List (UsartOp τ),
      (∀ op ∈ ops, op.Plain) ∧ runOps line ops s = s' := by
  induction hSteps with
  | refl => exact ⟨[], by simp, rfl⟩
  | @tail a b _hSteps hStep ih =>
      rcases ih with ⟨ops, hPlain, hRun⟩
      have hLast :
          ∃ op : UsartOp τ, op.Plain ∧ op.run line a = b := by
        cases hStep with
        | send byte => exact ⟨.send byte, trivial, rfl⟩
        | read => exact ⟨.read, trivial, rfl⟩
        | memory ram reads touched =>
            exact
              ⟨.other
                (fun s =>
                  { s with
                    ram := ram
                    reads := reads
                    touched := touched })
                (fun _ => ⟨rfl, rfl, rfl⟩), trivial, rfl⟩
      rcases hLast with ⟨op, hOp, hEffect⟩
      refine ⟨ops ++ [op], ?_, ?_⟩
      · intro other hMem
        rcases List.mem_append.mp hMem with hFront | hHere
        · exact hPlain other hFront
        · rw [List.mem_singleton.mp hHere]
          exact hOp
      · rw [runOps_append, hRun]
        exact hEffect

/- Every driver call is such a sequence. -/
theorem Call.exists_ops
    (line : Line τ)
    (c : Call)
    (s : Fw τ) :
    ∃ ops : List (UsartOp τ),
      (∀ op ∈ ops, op.Plain) ∧
        runOps line ops s = (c.exec line s).2 :=
  exists_ops_of_steps (c.exec_steps line s)

------------------------------------------------------------
-- Frames in Flight
------------------------------------------------------------

/-
  The frames in flight after `op` when those of `queue` are in
  flight before it.  Only the waits take any away.
-/
def UsartOp.Leaves
    (op : UsartOp τ)
    (s : Fw τ)
    (queue queue' : List UInt8) : Prop :=
  match op with
  | .send b =>
      ∃ rest,
        rest <:+ queue ∧ rest.length ≤ 1 ∧
          queue' = rest ++ [b]
  | .read => queue' = if s.state = .utx then [] else queue
  | .waitTx =>
      queue' =
        if s.state = .utx ∧ s.pending = true then []
        else queue
  | _ => queue' = queue

/- Every use can be gone through. -/
theorem UsartOp.exists_leaves
    (op : UsartOp τ)
    (s : Fw τ)
    (queue : List UInt8) :
    ∃ queue', op.Leaves s queue queue' := by
  cases op with
  | send b =>
      exact ⟨[b], [], List.nil_suffix, Nat.zero_le 1, rfl⟩
  | _ => exact ⟨_, rfl⟩

/- The flag `TXC1` after `op`; `send_byte` clears it. -/
def UsartOp.txcAfter
    (op : UsartOp τ)
    (s : Fw τ)
    (txc : Bool) : Bool :=
  match op with
  | .send _ => false
  | .read => if s.state = .utx then true else txc
  | .waitTx =>
      if s.state = .utx ∧ s.pending = true then true else txc
  | _ => txc

/- One of the four that change mode or baud rate at once. -/
def UsartOp.changes : UsartOp τ → Bool
| .setup _ => true
| .txMode => true
| .rxMode => true
| .disconnect => true
| _ => false

/-
  `op` runs `usart_setup`, `usart_tx_mode`, `usart_rx_mode` or
  `usart_disconnect` while a frame is in flight.  `send_byte`
  runs `usart_tx_mode` first in receive mode; `read_byte` runs
  `usart_rx_mode` only behind its wait.
-/
def UsartOp.Cuts
    (op : UsartOp τ)
    (s : Fw τ)
    (queue : List UInt8) : Prop :=
  queue ≠ [] ∧
    match op with
    | .send _ => s.state = .urx
    | op => op.changes = true

/-
  The driver's memory, the frames in flight, the flag `TXC1`
  and what the driver has still to do for the request it
  serves.
-/
structure Machine (τ : Type) where
  fw : Fw τ
  queue : List UInt8
  txc : Bool
  ops : List (UsartOp τ)

/- What a request that is neither of the session's makes. -/
inductive Served
    (line : Line τ)
    (s : Fw τ) :
    List (UsartOp τ) → Prop where
| call
    (c : Call) {ops : List (UsartOp τ)}
    (hPlain : ∀ op ∈ ops, op.Plain)
    (hRun : runOps line ops s = (c.exec line s).2) :
    Served line s ops
| buffer
    (f : Fw τ → Fw τ)
    (hSame :
      ∀ s,
        (f s).state = s.state ∧
          (f s).pending = s.pending ∧
          (f s).ucsr1b = s.ucsr1b) :
    Served line s [.other f hSame]

/- The hardware completes a frame, or the driver goes on. -/
inductive Proceeds
    (line : Line τ) :
    Machine τ → Machine τ → Prop where
| completed
    (s : Fw τ) (b : UInt8) (queue : List UInt8) (txc : Bool)
    (ops : List (UsartOp τ)) :
    Proceeds line ⟨s, b :: queue, txc, ops⟩
      ⟨s, queue, txc || queue.isEmpty, ops⟩
| executed
    (s : Fw τ) {queue queue' : List UInt8} (txc : Bool)
    (op : UsartOp τ) (ops : List (UsartOp τ))
    (hLeaves : op.Leaves s queue queue') :
    Proceeds line ⟨s, queue, txc, op :: ops⟩
      ⟨op.run line s, queue', op.txcAfter s txc, ops⟩

/-
  The moves of the system.  `PDI_INIT` and `RELEASE_INTERFACE`
  are served in the states that meet `P`.
-/
inductive Moves
    (line : Line τ)
    (P : Machine τ → Prop) :
    Machine τ → Machine τ → Prop where
| proceeds
    {m m' : Machine τ} (hProceeds : Proceeds line m m') :
    Moves line P m m'
| served
    (s : Fw τ) (queue : List UInt8) (txc : Bool)
    {ops : List (UsartOp τ)}
    (hServed : Served line s ops) :
    Moves line P ⟨s, queue, txc, []⟩ ⟨s, queue, txc, ops⟩
| pdiInit
    (s : Fw τ) (queue : List UInt8) (txc : Bool)
    (freqKhz : UInt16)
    (hStart : P ⟨s, queue, txc, []⟩) :
    Moves line P ⟨s, queue, txc, []⟩
      ⟨s, queue, txc, pdiInitOps line freqKhz s⟩
| pdiExit
    (s : Fw τ) (queue : List UInt8) (txc : Bool)
    (hStart : P ⟨s, queue, txc, []⟩) :
    Moves line P ⟨s, queue, txc, []⟩
      ⟨s, queue, txc, pdiExitOps line⟩

/- Any number of moves. -/
abbrev Reaches
    (line : Line τ)
    (P : Machine τ → Prop) :
    Machine τ → Machine τ → Prop :=
  ReflTransGen (Moves line P)

namespace Machine

/- Nothing was sent since the reset. -/
def powerOn (target : τ) : Machine τ :=
  ⟨Fw.powerOn target, [], false, []⟩

/- Nothing is in flight. -/
def Quiet (m : Machine τ) : Prop := m.queue = []

/-
  No frame is cut off by what the driver does next, and none
  in flight in transmit mode is forgotten.
-/
structure Safe (m : Machine τ) : Prop where
  notCut : ∀ op ∈ m.ops.head?, ¬ op.Cuts m.fw m.queue
  pending :
    m.queue ≠ [] → m.fw.state = .utx → m.fw.pending = true

------------------------------------------------------------
-- The Invariant
------------------------------------------------------------

end Machine

/- Whether nothing is in flight for sure behind `op`. -/
def UsartOp.idleAfter
    (idle : Bool) :
    UsartOp τ → Bool
| .send _ => false
| .read => true
| .waitTx => true
| _ => idle

/-
  Mode changes come only where the sequence itself makes sure
  that nothing is in flight; `idle` says so for its start.
-/
def guarded : Bool → List (UsartOp τ) → Bool
| _, [] => true
| idle, op :: ops =>
    (!op.changes || idle) && guarded (op.idleAfter idle) ops

/- A frame in flight shows in `state` and `pending`. -/
def Shown (s : Fw τ) (queue : List UInt8) : Prop :=
  queue ≠ [] → s.state = .utx ∧ s.pending = true

/- What one use of the USART keeps. -/
theorem UsartOp.keeps
    (line : Line τ)
    (op : UsartOp τ)
    {s : Fw τ}
    {queue queue' : List UInt8}
    {idle : Bool}
    (hShown : Shown s queue)
    (hIdle : idle = true → queue = [])
    (hMode : op.changes = true → idle = true)
    (hLeaves : op.Leaves s queue queue') :
    Shown (op.run line s) queue' ∧
      (op.idleAfter idle = true → queue' = []) := by
  have hNone :
      queue' = [] →
        Shown (op.run line s) queue' ∧
          (op.idleAfter idle = true → queue' = []) := by
    intro hEmpty
    exact ⟨fun hSome => absurd hEmpty hSome, fun _ => hEmpty⟩
  have hChanged :
      op.changes = true → queue' = queue → queue' = [] := by
    intro hChanges hSame
    rw [hSame]
    exact hIdle (hMode hChanges)
  cases op with
  | setup ubrr => exact hNone (hChanged rfl hLeaves)
  | txMode => exact hNone (hChanged rfl hLeaves)
  | rxMode => exact hNone (hChanged rfl hLeaves)
  | disconnect => exact hNone (hChanged rfl hLeaves)
  | send b =>
      refine ⟨fun _hSome => ?_, fun hNot => by cases hNot⟩
      cases hState : s.state with
      | utx => simp [UsartOp.run, sendByte, hState]
      | urx =>
          simp [UsartOp.run, sendByte, usartTxMode, hState]
  | read =>
      apply hNone
      rw [UsartOp.Leaves] at hLeaves
      rw [hLeaves]
      split
      · rfl
      · rename_i hReceiving
        by_contra hSome
        exact hReceiving (hShown hSome).1
  | waitTx =>
      apply hNone
      rw [UsartOp.Leaves] at hLeaves
      rw [hLeaves]
      split
      · rfl
      · rename_i hNotWaiting
        by_contra hSome
        exact hNotWaiting (hShown hSome)
  | other f hSame =>
      have hQueue : queue' = queue := hLeaves
      subst hQueue
      refine ⟨fun hSome => ?_, hIdle⟩
      have hFields := hSame s
      rw [UsartOp.run, hFields.1, hFields.2.1]
      exact hShown hSome

namespace Machine

/- What holds of every state of a run. -/
structure Guarded (m : Machine τ) : Prop where
  shown : Shown m.fw m.queue
  ops :
    ∃ idle,
      (idle = true → m.queue = []) ∧
        guarded idle m.ops = true

theorem guarded_powerOn (target : τ) :
    (powerOn target).Guarded where
  shown := fun hSome => absurd rfl hSome
  ops := ⟨true, fun _ => rfl, rfl⟩

/- The invariant is enough. -/
theorem Guarded.safe
    {m : Machine τ}
    (hGuarded : m.Guarded) :
    m.Safe := by
  constructor
  · intro op hNext hCuts
    rcases hGuarded.ops with ⟨idle, hIdle, hOps⟩
    rcases m with ⟨s, queue, txc, ops⟩
    rcases hCuts with ⟨hSome, hRuns⟩
    cases ops with
    | nil => cases hNext
    | cons first ops =>
        have hSame : first = op := Option.some.inj hNext
        subst hSame
        rw [guarded, Bool.and_eq_true, Bool.or_eq_true]
          at hOps
        have hShown := hGuarded.shown hSome
        have hNot : first.changes = true → False := by
          intro hChanges
          rcases hOps.1 with hPlain | hIs
          · rw [hChanges] at hPlain
            cases hPlain
          · exact hSome (hIdle hIs)
        cases first with
        | send b =>
            rw [hShown.1] at hRuns
            cases hRuns
        | _ => exact hNot hRuns
  · intro hSome _hState
    exact (hGuarded.shown hSome).2

end Machine

------------------------------------------------------------
-- Every Move Keeps It
------------------------------------------------------------

theorem guarded_plain
    (idle : Bool)
    (ops : List (UsartOp τ))
    (hPlain : ∀ op ∈ ops, op.Plain) :
    guarded idle ops = true := by
  induction ops generalizing idle with
  | nil => rfl
  | cons op ops ih =>
      have hOp := hPlain op List.mem_cons_self
      have hRest :=
        ih (op.idleAfter idle)
          (fun other hMem =>
            hPlain other (List.mem_cons_of_mem _ hMem))
      have hStays : op.changes = false := by
        cases op with
        | send b => rfl
        | read => rfl
        | other f hSame => rfl
        | _ => cases hOp
      rw [guarded, hStays, hRest]
      rfl

/- A sequence behind one that ends idle or not. -/
theorem guarded_append
    (idle : Bool)
    (front rest : List (UsartOp τ)) :
    guarded idle (front ++ rest) =
      (guarded idle front &&
        guarded
          (front.foldl (fun idle op => op.idleAfter idle) idle)
          rest) := by
  induction front generalizing idle with
  | nil => rfl
  | cons op front ih =>
      rw [List.cons_append, guarded, ih, guarded,
        Bool.and_assoc]
      rfl

theorem guarded_pollOps
    (line : Line τ)
    (retry : Nat)
    (s : Fw τ) :
    guarded true (pollOps line retry s) = true := by
  induction retry generalizing s with
  | zero => rfl
  | succ retry ih =>
      rw [pollOps]
      rcases
          readByte line
            (sendByte line
              (pdiLoadControlReg ||| pdiStatusReg) s) with
        ⟨answer, after⟩
      cases answer with
      | none => rfl
      | some status =>
          simp only
          split
          · rfl
          · rw [guarded_append, guarded_append]
            exact ih (sendIdles 2 after)

theorem guarded_pdiInitOps
    (line : Line τ)
    (freqKhz : UInt16)
    (s : Fw τ) :
    guarded true (pdiInitOps line freqKhz s) = true := by
  have hConnect :
      guarded true (connectOps freqKhz : List (UsartOp τ)) =
        true := rfl
  have hIdle :
      (connectOps freqKhz : List (UsartOp τ)).foldl
        (fun idle op => op.idleAfter idle) true = true := rfl
  rw [pdiInitOps, List.append_assoc, guarded_append, hConnect,
    hIdle, Bool.true_and, guarded_append, guarded_pollOps,
    Bool.true_and]
  apply guarded_plain
  intro op hMem
  split at hMem
  · rw [List.mem_singleton.mp hMem]
    trivial
  · cases hMem

theorem guarded_pdiExitOps
    (line : Line τ) :
    guarded true (pdiExitOps line) = true := rfl

theorem Machine.Guarded.proceeds
    {line : Line τ}
    {m m' : Machine τ}
    (hGuarded : m.Guarded)
    (hProceeds : Proceeds line m m') :
    m'.Guarded := by
  rcases hGuarded.ops with ⟨idle, hIdle, hOps⟩
  have hShown := hGuarded.shown
  cases hProceeds with
  | completed s b queue txc ops =>
      refine ⟨fun _hSome => hShown (List.cons_ne_nil b queue),
        idle, fun hIs => ?_, hOps⟩
      cases hIdle hIs
  | executed s txc op ops hLeaves =>
      rw [guarded, Bool.and_eq_true] at hOps
      have hMode : op.changes = true → idle = true := by
        intro hChanges
        simpa [hChanges] using hOps.1
      have hKept := op.keeps line hShown hIdle hMode hLeaves
      exact ⟨hKept.1, _, hKept.2, hOps.2⟩

/- The step lemma. -/
theorem Machine.Guarded.moves
    {line : Line τ}
    {m m' : Machine τ}
    (hGuarded : m.Guarded)
    (hMoves : Moves line Machine.Quiet m m') :
    m'.Guarded := by
  have hShown := hGuarded.shown
  cases hMoves with
  | proceeds hProceeds => exact hGuarded.proceeds hProceeds
  | served s queue txc hServed =>
      refine ⟨hShown, false, ⟨fun hNot => ?_, ?_⟩⟩
      · cases hNot
      · apply guarded_plain
        intro op hMem
        cases hServed with
        | call c hPlain hRun => exact hPlain op hMem
        | buffer f hSame =>
            rw [List.mem_singleton.mp hMem]
            trivial
  | pdiInit s queue txc freqKhz hStart =>
      exact ⟨hShown, true, fun _ => hStart,
        guarded_pdiInitOps line freqKhz s⟩
  | pdiExit s queue txc hStart =>
      exact ⟨hShown, true, fun _ => hStart,
        guarded_pdiExitOps line⟩

/- The run lemma. -/
theorem Machine.Guarded.reaches
    {line : Line τ}
    {m m' : Machine τ}
    (hGuarded : m.Guarded)
    (hRun : Reaches line Machine.Quiet m m') :
    m'.Guarded := by
  induction hRun with
  | refl => exact hGuarded
  | tail _hRun hMove ih => exact ih.moves hMove

------------------------------------------------------------
-- Runs of Whole Requests
------------------------------------------------------------

section Whole

variable (line : Line τ) {P : Machine τ → Prop}

/- The hardware may complete all that is in flight. -/
theorem Reaches.drained
    (s : Fw τ)
    (queue : List UInt8)
    (txc : Bool)
    (ops : List (UsartOp τ)) :
    ∃ txc',
      Reaches line P ⟨s, queue, txc, ops⟩
        ⟨s, [], txc', ops⟩ := by
  induction queue generalizing txc with
  | nil => exact ⟨txc, ReflTransGen.refl⟩
  | cons b queue ih =>
      rcases ih (txc || queue.isEmpty) with ⟨txc', hRest⟩
      exact
        ⟨txc',
          hRest.head
            (.proceeds (.completed s b queue txc ops))⟩

/- The driver may do all it has to do. -/
theorem Reaches.finished
    (s : Fw τ)
    (queue : List UInt8)
    (txc : Bool)
    (ops rest : List (UsartOp τ)) :
    ∃ queue' txc',
      Reaches line P ⟨s, queue, txc, ops ++ rest⟩
        ⟨runOps line ops s, queue', txc', rest⟩ := by
  induction ops generalizing s queue txc with
  | nil => exact ⟨queue, txc, ReflTransGen.refl⟩
  | cons op ops ih =>
      rcases op.exists_leaves s queue with ⟨next, hLeaves⟩
      rcases ih (op.run line s) next (op.txcAfter s txc) with
        ⟨queue', txc', hRest⟩
      exact ⟨queue', txc',
        hRest.head
          (.proceeds
            (.executed s txc op (ops ++ rest) hLeaves))⟩

end Whole

end Lucax
