import Mathlib.Tactic.Common

/-
  The programmer's memory and its half-duplex USART driver
  (usart.c), over an arbitrary target on the PDI line.

  Key definitions include:
    * `Line`
    * `Fw`
    * `usartTxMode`, `usartRxMode`, `usartDisconnect`
    * `sendByte`, `readByte`, `usartWaitTx`
    * `Ptr`, `Fw.deref`, `Fw.storeByte`
    * `feed`
-/

------------------------------------------------------------
-- The PDI Line
------------------------------------------------------------

namespace Lucax

/-
  What the programmer can observe of a target: how its state
  moves on a received frame, how it answers one `read_byte`
  (`none` when no frame completes within the 250 polls), and
  how it moves on a break condition.
-/
structure Line (τ : Type) where
  frame : τ → UInt8 → τ
  reply : τ → Option UInt8 × τ
  lineBreak : τ → τ

------------------------------------------------------------
-- Firmware Memory
------------------------------------------------------------

/- usart.c: direction of the half-duplex line. -/
inductive UsartState where
| utx
| urx
deriving DecidableEq, Repr

/- pdi.h: result of a PDI or NVM operation. -/
inductive PdiResult where
| noError
| pdiDisabled
| timeOut
| invalidAddress
deriving DecidableEq, Repr

/- The enumeration value stored in an `unsigned char`. -/
def PdiResult.toByte : PdiResult → UInt8
| .noError => 0
| .pdiDisabled => 1
| .timeOut => 2
| .invalidAddress => 3

/-
  Globals and registers the PDI driver works on.  `ram i` is
  the byte `i` places after the start of `buffer`, so an
  index of 1024 or more lies outside the array.

  The last four fields are ghost state: the target at the
  other end of the line, the bytes handed to `send_byte`, the
  answers to reads with the address each was asked for, and
  the indices at which `buffer` was accessed.
-/
structure Fw (τ : Type) where
  state : UsartState
  pending : Bool
  ucsr1b : UInt8
  ucsr1c : UInt8
  ubrr1 : UInt16
  pdiOn : Bool
  charUs : UInt16
  pdiPort : UInt8
  pdiDdr : UInt8
  ram : Nat → UInt8
  target : τ
  sent : List UInt8
  reads : List (UInt32 × Option UInt8)
  touched : List Nat

/- Memory at power-on: statics are zero, pins are inputs. -/
def Fw.powerOn {τ : Type} (target : τ) : Fw τ where
  state := .utx
  pending := false
  ucsr1b := 0
  ucsr1c := 6
  ubrr1 := 0
  pdiOn := false
  charUs := 0
  pdiPort := 0
  pdiDdr := 0
  ram := fun _ => 0
  target := target
  sent := []
  reads := []
  touched := []

variable {τ : Type}

/- Record the answer to a read of one target address. -/
def Fw.logRead
    (s : Fw τ)
    (address : UInt32)
    (reply : Option UInt8) : Fw τ :=
  { s with reads := s.reads ++ [(address, reply)] }

/- Record accesses to the buffer. -/
def Fw.touch
    (s : Fw τ)
    (indices : List Nat) : Fw τ :=
  { s with touched := s.touched ++ indices }

/- `buffer[i] = b` -/
def Fw.storeByte
    (s : Fw τ)
    (i : Nat)
    (b : UInt8) : Fw τ :=
  { s.touch [i] with
    ram := fun j => if j = i then b else s.ram j }

/- `buffer[i]` as a value. -/
def Fw.loadByte
    (s : Fw τ)
    (i : Nat) : UInt8 × Fw τ :=
  (s.ram i, s.touch [i])

/-
  An `unsigned char *` argument: a place in the shared
  buffer or a local array.
-/
inductive Ptr where
| buffer (offset : Nat)
| array (bytes : List UInt8)
deriving DecidableEq, Repr

/- `data++` -/
def Ptr.next : Ptr → Ptr
| .buffer offset => .buffer (offset + 1)
| .array bytes => .array bytes.tail

/- `*data` -/
def Fw.deref
    (s : Fw τ) :
    Ptr → UInt8 × Fw τ
| .buffer offset => s.loadByte offset
| .array bytes => (bytes.headD 0, s)

/- The first `n` bytes a pointer reaches. -/
def Ptr.bytes
    (ram : Nat → UInt8) :
    Ptr → Nat → List UInt8
| _, 0 => []
| .buffer offset, n + 1 =>
    ram offset :: Ptr.bytes ram (.buffer (offset + 1)) n
| .array bytes, n + 1 =>
    bytes.headD 0 :: Ptr.bytes ram (.array bytes.tail) n

/- The buffer indices read through a pointer. -/
def Ptr.indices : Ptr → Nat → List Nat
| _, 0 => []
| .buffer offset, n + 1 =>
    offset :: Ptr.indices (.buffer (offset + 1)) n
| .array _, _ + 1 => []

------------------------------------------------------------
-- USART Driver
------------------------------------------------------------

/- Bit masks of the `UCSR1B` register. -/
def txen1 : UInt8 := (1 : UInt8) <<< 3
def rxen1 : UInt8 := (1 : UInt8) <<< 4

/-
  8 bits, even parity, 2 stop bits, synchronous operation.
-/
def usartSetup
    (ubrr : UInt16)
    (s : Fw τ) : Fw τ :=
  { s with
    ubrr1 := (ubrr &&& 0xFFFF) - 1
    ucsr1c :=
      ((1 : UInt8) <<< 6) ||| ((1 : UInt8) <<< 5) |||
        ((1 : UInt8) <<< 3) ||| ((1 : UInt8) <<< 2) |||
        ((1 : UInt8) <<< 1) ||| 1 }

def usartTxMode (s : Fw τ) : Fw τ :=
  { s with ucsr1b := txen1, state := .utx, pending := false }

def usartRxMode (s : Fw τ) : Fw τ :=
  { s with ucsr1b := rxen1, state := .urx }

def usartDisconnect (s : Fw τ) : Fw τ :=
  { s with ucsr1b := 0 }

/-
  The wait for `UDRE1` and the clearing of `TXC1` have no
  effect on the fields modelled here; they end once the
  transmitter has taken the previous byte.
-/
def sendByte
    (line : Line τ)
    (data : UInt8)
    (s : Fw τ) : Fw τ :=
  let s := if s.state = .urx then usartTxMode s else s
  { s with
    pending := true
    target := line.frame s.target data
    sent := s.sent ++ [data] }

/-
  `some data` is the return value 0 with `*data` stored,
  `none` the return value 1 after 250 polls of `RXC1`.
-/
def readByte
    (line : Line τ)
    (s : Fw τ) : Option UInt8 × Fw τ :=
  let s :=
    if s.state = .utx then
      { usartRxMode s with pending := false }
    else s
  let answer := line.reply s.target
  (answer.1, { s with target := answer.2 })

def usartWaitTx (s : Fw τ) : Fw τ :=
  if s.state = .utx ∧ s.pending then
    { s with pending := false }
  else s

------------------------------------------------------------
-- Byte Sequences
------------------------------------------------------------

/- Hand a list of bytes to `send_byte` one after another. -/
def feed
    (line : Line τ)
    (bytes : List UInt8)
    (s : Fw τ) : Fw τ :=
  bytes.foldl (fun s b => sendByte line b s) s

/- How a target moves on a list of frames. -/
def Line.frames
    (line : Line τ)
    (t : τ)
    (bytes : List UInt8) : τ :=
  bytes.foldl line.frame t

theorem Line.frames_append
    (line : Line τ)
    (t : τ)
    (front bytes : List UInt8) :
    line.frames t (front ++ bytes) =
      line.frames (line.frames t front) bytes :=
  List.foldl_append

section SendByte

variable (line : Line τ) (b : UInt8) (s : Fw τ)

@[simp] theorem sendByte_pdiOn :
    (sendByte line b s).pdiOn = s.pdiOn := by
  unfold sendByte usartTxMode
  split <;> rfl

@[simp] theorem sendByte_target :
    (sendByte line b s).target = line.frame s.target b := by
  unfold sendByte usartTxMode
  split <;> rfl

@[simp] theorem sendByte_sent :
    (sendByte line b s).sent = s.sent ++ [b] := by
  unfold sendByte usartTxMode
  split <;> rfl

@[simp] theorem sendByte_ram :
    (sendByte line b s).ram = s.ram := by
  unfold sendByte usartTxMode
  split <;> rfl

@[simp] theorem sendByte_reads :
    (sendByte line b s).reads = s.reads := by
  unfold sendByte usartTxMode
  split <;> rfl

@[simp] theorem sendByte_touched :
    (sendByte line b s).touched = s.touched := by
  unfold sendByte usartTxMode
  split <;> rfl

end SendByte

section Feed

variable (line : Line τ) (bytes : List UInt8) (s : Fw τ)

@[simp] theorem feed_nil :
    feed line [] s = s := rfl

theorem feed_cons (b : UInt8) :
    feed line (b :: bytes) s =
      feed line bytes (sendByte line b s) := rfl

theorem feed_append (front : List UInt8) :
    feed line (front ++ bytes) s =
      feed line bytes (feed line front s) := by
  simp [feed, List.foldl_append]

@[simp] theorem feed_pdiOn :
    (feed line bytes s).pdiOn = s.pdiOn := by
  induction bytes generalizing s with
  | nil => rfl
  | cons b bytes ih => rw [feed_cons, ih, sendByte_pdiOn]

@[simp] theorem feed_target :
    (feed line bytes s).target =
      line.frames s.target bytes := by
  induction bytes generalizing s with
  | nil => rfl
  | cons b bytes ih =>
      rw [feed_cons, ih, sendByte_target]
      rfl

@[simp] theorem feed_sent :
    (feed line bytes s).sent = s.sent ++ bytes := by
  induction bytes generalizing s with
  | nil => simp
  | cons b bytes ih =>
      rw [feed_cons, ih, sendByte_sent]
      simp

@[simp] theorem feed_ram :
    (feed line bytes s).ram = s.ram := by
  induction bytes generalizing s with
  | nil => rfl
  | cons b bytes ih => rw [feed_cons, ih, sendByte_ram]

@[simp] theorem feed_reads :
    (feed line bytes s).reads = s.reads := by
  induction bytes generalizing s with
  | nil => rfl
  | cons b bytes ih => rw [feed_cons, ih, sendByte_reads]

@[simp] theorem feed_touched :
    (feed line bytes s).touched = s.touched := by
  induction bytes generalizing s with
  | nil => rfl
  | cons b bytes ih => rw [feed_cons, ih, sendByte_touched]

/- Recorded accesses do not influence what is sent. -/
theorem feed_touch (indices : List Nat) :
    feed line bytes (s.touch indices) =
      (feed line bytes s).touch indices := by
  induction bytes generalizing s with
  | nil => rfl
  | cons b bytes ih =>
      have hStep :
          sendByte line b (s.touch indices) =
            (sendByte line b s).touch indices := by
        by_cases hMode : s.state = .urx
        · simp [sendByte, usartTxMode, Fw.touch, hMode]
        · simp [sendByte, Fw.touch, hMode]
      rw [feed_cons, hStep, ih, feed_cons]

end Feed

section ReadByte

variable (line : Line τ) (s : Fw τ)

@[simp] theorem readByte_answer :
    (readByte line s).1 = (line.reply s.target).1 := by
  unfold readByte usartRxMode
  split <;> rfl

@[simp] theorem readByte_target :
    (readByte line s).2.target =
      (line.reply s.target).2 := by
  unfold readByte usartRxMode
  split <;> rfl

@[simp] theorem readByte_pdiOn :
    (readByte line s).2.pdiOn = s.pdiOn := by
  unfold readByte usartRxMode
  split <;> rfl

@[simp] theorem readByte_sent :
    (readByte line s).2.sent = s.sent := by
  unfold readByte usartRxMode
  split <;> rfl

@[simp] theorem readByte_ram :
    (readByte line s).2.ram = s.ram := by
  unfold readByte usartRxMode
  split <;> rfl

@[simp] theorem readByte_reads :
    (readByte line s).2.reads = s.reads := by
  unfold readByte usartRxMode
  split <;> rfl

@[simp] theorem readByte_touched :
    (readByte line s).2.touched = s.touched := by
  unfold readByte usartRxMode
  split <;> rfl

/-
  A read takes one answer from the target and moves nothing
  else but the direction of the line.
-/
theorem readByte_eq :
    ∃ after : Fw τ,
      readByte line s = ((line.reply s.target).1, after) ∧
        after.target = (line.reply s.target).2 ∧
        after.pdiOn = s.pdiOn ∧
        after.ram = s.ram :=
  ⟨(readByte line s).2,
    Prod.ext (readByte_answer line s) rfl,
    readByte_target line s, readByte_pdiOn line s,
    readByte_ram line s⟩

end ReadByte

section Memory

variable (s : Fw τ)

@[simp] theorem touch_nil :
    s.touch [] = s := by
  simp [Fw.touch]

@[simp] theorem touch_touch
    (is js : List Nat) :
    (s.touch is).touch js = s.touch (is ++ js) := by
  simp [Fw.touch]

@[simp] theorem touch_pdiOn
    (is : List Nat) :
    (s.touch is).pdiOn = s.pdiOn := rfl

@[simp] theorem touch_target
    (is : List Nat) :
    (s.touch is).target = s.target := rfl

@[simp] theorem touch_ram
    (is : List Nat) :
    (s.touch is).ram = s.ram := rfl

@[simp] theorem touch_reads
    (is : List Nat) :
    (s.touch is).reads = s.reads := rfl

@[simp] theorem touch_sent
    (is : List Nat) :
    (s.touch is).sent = s.sent := rfl

@[simp] theorem touch_touched
    (is : List Nat) :
    (s.touch is).touched = s.touched ++ is := rfl

@[simp] theorem logRead_reads
    (a : UInt32)
    (r : Option UInt8) :
    (s.logRead a r).reads = s.reads ++ [(a, r)] := rfl

@[simp] theorem logRead_pdiOn
    (a : UInt32)
    (r : Option UInt8) :
    (s.logRead a r).pdiOn = s.pdiOn := rfl

@[simp] theorem logRead_target
    (a : UInt32)
    (r : Option UInt8) :
    (s.logRead a r).target = s.target := rfl

@[simp] theorem logRead_ram
    (a : UInt32)
    (r : Option UInt8) :
    (s.logRead a r).ram = s.ram := rfl

@[simp] theorem logRead_touched
    (a : UInt32)
    (r : Option UInt8) :
    (s.logRead a r).touched = s.touched := rfl

@[simp] theorem logRead_sent
    (a : UInt32)
    (r : Option UInt8) :
    (s.logRead a r).sent = s.sent := rfl

@[simp] theorem storeByte_pdiOn
    (i : Nat)
    (b : UInt8) :
    (s.storeByte i b).pdiOn = s.pdiOn := rfl

@[simp] theorem storeByte_target
    (i : Nat)
    (b : UInt8) :
    (s.storeByte i b).target = s.target := rfl

@[simp] theorem storeByte_reads
    (i : Nat)
    (b : UInt8) :
    (s.storeByte i b).reads = s.reads := rfl

@[simp] theorem storeByte_sent
    (i : Nat)
    (b : UInt8) :
    (s.storeByte i b).sent = s.sent := rfl

@[simp] theorem storeByte_touched
    (i : Nat)
    (b : UInt8) :
    (s.storeByte i b).touched = s.touched ++ [i] := rfl

end Memory

/- A pointer reaches as many bytes as it is asked for. -/
@[simp] theorem Ptr.bytes_length
    (ram : Nat → UInt8)
    (data : Ptr)
    (n : Nat) :
    (data.bytes ram n).length = n := by
  induction n generalizing data with
  | zero => cases data <;> rfl
  | succ n ih => cases data <;> simp [Ptr.bytes, ih]

/- What a pointer into the buffer reaches, in two parts. -/
theorem Ptr.bytes_buffer_add
    (ram : Nat → UInt8)
    (offset m n : Nat) :
    (Ptr.buffer offset).bytes ram (m + n) =
      (Ptr.buffer offset).bytes ram m ++
        (Ptr.buffer (offset + m)).bytes ram n := by
  induction m generalizing offset with
  | zero =>
      rw [Nat.zero_add]
      rfl
  | succ m ih =>
      rw [Nat.succ_add, Ptr.bytes, ih, Ptr.bytes,
        Nat.add_right_comm, List.cons_append]
      rfl

theorem Ptr.indices_buffer_add
    (offset m n : Nat) :
    (Ptr.buffer offset).indices (m + n) =
      (Ptr.buffer offset).indices m ++
        (Ptr.buffer (offset + m)).indices n := by
  induction m generalizing offset with
  | zero =>
      rw [Nat.zero_add]
      rfl
  | succ m ih =>
      rw [Nat.succ_add, Ptr.indices, ih, Ptr.indices,
        Nat.add_right_comm, List.cons_append]
      rfl

end Lucax
