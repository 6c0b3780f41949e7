import Lucax.Driver.Nvm

/-
  A target that decodes the PDI instruction formats of
  pdi_const.h and carries them out on an arbitrary bus.

  Key definitions include:
    * `Bus`
    * `Access`
    * `Phase`, `Decoder`
    * `Decoder.line`
    * `Decoder.AtBoundary`

  The effect of one instruction's frames is given by:
    * `frames_lds`, `frames_sts`
    * `frames_pointer`, `frames_repeat`
    * `frames_dummyStore`
    * `frames_stores`
-/

------------------------------------------------------------
-- The Bus
------------------------------------------------------------

namespace Lucax

/-
  What lies behind the PDI decoder: the byte-wide address
  space and the control registers.  A load that answers
  `none` is one whose frame does not arrive in time.
-/
structure Bus (β : Type) where
  load : β → UInt32 → Option UInt8 × β
  store : β → UInt32 → UInt8 → β
  loadControl : β → UInt8 → Option UInt8 × β
  storeControl : β → UInt8 → UInt8 → β
  key : β → List UInt8 → β

/- Every access answers. -/
def Bus.Answers {β : Type} (bus : Bus β) : Prop :=
  ∀ b address, (bus.load b address).1.isSome

/- One executed access. -/
inductive Access where
| load (address : UInt32) (reply : Option UInt8)
| store (address : UInt32) (data : UInt8)
| loadControl (reg : UInt8) (reply : Option UInt8)
| storeControl (reg : UInt8) (data : UInt8)
| key (bytes : List UInt8)
deriving DecidableEq, Repr

------------------------------------------------------------
-- Decoder State
------------------------------------------------------------

/- Instructions that take operand bytes. -/
inductive Instruction where
| loadDirect
| storeDirect
| storePointer
| repeatCount
| storeControl (reg : UInt8)
| key
deriving DecidableEq, Repr

/-
  Where the decoder is.  `operands` still takes `left + 1`
  bytes, `storing` still takes and `loading` still owes
  `left + 1` data bytes.  `lost` is a decoder that only a
  break brings back.
-/
inductive Phase where
| opcode
| operands
    (instruction : Instruction) (left : Nat)
    (got : List UInt8)
| storing (left : Nat)
| loading (left : Nat)
| loadingDirect (address : UInt32)
| loadingControl (reg : UInt8)
| lost
deriving DecidableEq, Repr

/-
  A decoder with its pointer, the announced repetitions of
  the next pointer instruction, the bus behind it and a
  record of what it executed.
-/
structure Decoder (β : Type) where
  phase : Phase
  pointer : UInt32
  repetitions : Nat
  bus : β
  log : List Access

namespace Decoder

variable {β : Type}

/- A decoder out of reset. -/
def initial (b : β) : Decoder β where
  phase := .opcode
  pointer := 0
  repetitions := 0
  bus := b
  log := []

/- The next byte is taken as an opcode, unrepeated. -/
def AtBoundary (d : Decoder β) : Prop :=
  d.phase = .opcode ∧ d.repetitions = 0

instance
    (d : Decoder β) :
    Decidable d.AtBoundary := by
  unfold AtBoundary
  infer_instance

------------------------------------------------------------
-- Received Frames
------------------------------------------------------------

/- Carry out one store on the bus. -/
def store
    (bus : Bus β)
    (address : UInt32)
    (data : UInt8)
    (d : Decoder β) : Decoder β :=
  { d with
    bus := bus.store d.bus address data
    log := d.log ++ [.store address data] }

/- Take an opcode. -/
def decodeOpcode
    (b : UInt8)
    (d : Decoder β) : Decoder β :=
  if b = pdiLoadDirect ||| (sizeLong <<< 2) ||| sizeByte then
    { d with phase := .operands .loadDirect 3 [] }
  else if
      b = pdiStoreDirect ||| (sizeLong <<< 2) ||| sizeByte then
    { d with phase := .operands .storeDirect 4 [] }
  else if b = pdiStoreIndirect ||| (ptr <<< 2) ||| sizeLong then
    { d with phase := .operands .storePointer 3 [] }
  else if b = pdiRepeat ||| sizeWord then
    { d with phase := .operands .repeatCount 1 [] }
  else if
      b = pdiLoadIndirect ||| (ptrDataInc <<< 2) |||
        sizeByte then
    { d with
      phase := .loading d.repetitions, repetitions := 0 }
  else if
      b = pdiStoreIndirect ||| (ptrDataInc <<< 2) |||
        sizeByte then
    { d with
      phase := .storing d.repetitions, repetitions := 0 }
  else if b &&& 0xF0 = pdiLoadControlReg then
    { d with phase := .loadingControl (b &&& 0x0F) }
  else if b &&& 0xF0 = pdiStoreControlReg then
    { d with
      phase := .operands (.storeControl (b &&& 0x0F)) 0 [] }
  else if b = pdiKey then
    { d with phase := .operands .key 7 [] }
  else { d with phase := .lost }

/- Carry out an instruction whose operands are complete. -/
def execute
    (bus : Bus β)
    (instruction : Instruction)
    (got : List UInt8)
    (d : Decoder β) : Decoder β :=
  match instruction with
  | .loadDirect =>
      { d with
        phase :=
          .loadingDirect (UInt32.ofNat (ByteOrder.leValue got)) }
  | .storeDirect =>
      store bus
        (UInt32.ofNat (ByteOrder.leValue (got.take 4)))
        (got.getD 4 0) { d with phase := .opcode }
  | .storePointer =>
      { d with
        phase := .opcode
        pointer := UInt32.ofNat (ByteOrder.leValue got) }
  | .repeatCount =>
      { d with
        phase := .opcode
        repetitions := ByteOrder.leValue got }
  | .storeControl reg =>
      let data := got.headD 0
      { d with
        phase := .opcode
        bus := bus.storeControl d.bus reg data
        log := d.log ++ [.storeControl reg data] }
  | .key =>
      { d with
        phase := .opcode
        bus := bus.key d.bus got
        log := d.log ++ [.key got] }

/-
  Take a frame.  A frame that arrives while the target owes
  data collides with its answer.
-/
def frame
    (bus : Bus β)
    (d : Decoder β)
    (b : UInt8) : Decoder β :=
  match d.phase with
  | .opcode => decodeOpcode b d
  | .operands instruction 0 got =>
      execute bus instruction (got ++ [b]) d
  | .operands instruction (left + 1) got =>
      { d with
        phase := .operands instruction left (got ++ [b]) }
  | .storing left =>
      store bus d.pointer b
        { d with
          pointer := d.pointer + 1
          phase :=
            match left with
            | 0 => .opcode
            | left + 1 => .storing left }
  | .loading _ | .loadingDirect _ | .loadingControl _ =>
      { d with phase := .lost }
  | .lost => d

------------------------------------------------------------
-- Answers
------------------------------------------------------------

/-
  Answer one `read_byte`.  A load that is not answered ends
  its instruction.
-/
def reply
    (bus : Bus β)
    (d : Decoder β) : Option UInt8 × Decoder β :=
  match d.phase with
  | .loadingDirect address =>
      let out := bus.load d.bus address
      (out.1,
        { d with
          phase := .opcode
          bus := out.2
          log := d.log ++ [.load address out.1] })
  | .loading left =>
      let out := bus.load d.bus d.pointer
      (out.1,
        { d with
          phase :=
            match out.1, left with
            | some _, left + 1 => .loading left
            | _, _ => .opcode
          pointer := d.pointer + 1
          bus := out.2
          log := d.log ++ [.load d.pointer out.1] })
  | .loadingControl reg =>
      let out := bus.loadControl d.bus reg
      (out.1,
        { d with
          phase := .opcode
          bus := out.2
          log := d.log ++ [.loadControl reg out.1] })
  | _ => (none, d)

/- A break returns the decoder to an instruction boundary. -/
def lineBreak (d : Decoder β) : Decoder β :=
  { d with phase := .opcode, repetitions := 0 }

/- The decoder as a target on the PDI line. -/
def line (bus : Bus β) : Line (Decoder β) where
  frame := frame bus
  reply := reply bus
  lineBreak := lineBreak

------------------------------------------------------------
-- Frames of One Instruction
------------------------------------------------------------

variable (bus : Bus β) (d : Decoder β)

@[simp] theorem line_reply :
    (line bus).reply d = reply bus d := rfl

/- Frames are taken one after another. -/
theorem frames_cons
    (b : UInt8)
    (bytes : List UInt8) :
    (line bus).frames d (b :: bytes) =
      (line bus).frames (frame bus d b) bytes := rfl

theorem frames_append
    (front bytes : List UInt8) :
    (line bus).frames d (front ++ bytes) =
      (line bus).frames ((line bus).frames d front) bytes :=
  (line bus).frames_append d front bytes

/- Execution overwrites the phase it is entered in. -/
theorem execute_with_phase
    (instruction : Instruction)
    (got : List UInt8)
    (phase : Phase) :
    execute bus instruction got { d with phase := phase } =
      execute bus instruction got d := by
  cases instruction <;> rfl

/-
  An instruction that takes `left + 1` more operand bytes
  executes once they have arrived.
-/
theorem frames_operands
    {instruction : Instruction}
    {left : Nat}
    {got bytes : List UInt8}
    (hPhase : d.phase = .operands instruction left got)
    (hLength : bytes.length = left + 1) :
    (line bus).frames d bytes =
      execute bus instruction (got ++ bytes) d := by
  induction bytes generalizing d left got with
  | nil =>
      simp at hLength
  | cons b bytes ih =>
      rw [frames_cons]
      cases left with
      | zero =>
          have hNil : bytes = [] := by
            simpa using hLength
          subst hNil
          simp [Line.frames, frame, hPhase]
      | succ left =>
          have hNext :
              frame bus d b =
                { d with
                  phase :=
                    .operands instruction left
                      (got ++ [b]) } := by
            simp [frame, hPhase]
          have hRest : bytes.length = left + 1 := by
            simpa using hLength
          rw [hNext, ih _ rfl hRest, execute_with_phase]
          simp

section FromOpcode

variable {d}

/- `LDS` leaves the decoder owing the addressed byte. -/
theorem frames_lds
    (hOpcode : d.phase = .opcode)
    (address : UInt32) :
    (line bus).frames d (ldsFrames address) =
      { d with phase := .loadingDirect address } := by
  have hFirst :
      frame bus d 0x0C =
        { d with phase := .operands .loadDirect 3 [] } := by
    simp only [frame, hOpcode]
    rfl
  rw [ldsFrames, frames_cons, hFirst,
    frames_operands bus _ rfl (by simp)]
  simp [execute, ByteOrder.ofNat_leValue_leBytes]

/- `STS` carries out one store. -/
theorem frames_sts
    (hOpcode : d.phase = .opcode)
    (address : UInt32)
    (data : UInt8) :
    (line bus).frames d (stsFrames address data) =
      store bus address data d := by
  have hFirst :
      frame bus d 0x4C =
        { d with phase := .operands .storeDirect 4 [] } := by
    simp only [frame, hOpcode]
    rfl
  have hTake :
      (ByteOrder.leBytes 4 address.toNat ++ [data]).take 4 =
        ByteOrder.leBytes 4 address.toNat := by
    simp
  have hData :
      (ByteOrder.leBytes 4 address.toNat ++ [data]).getD 4 0 =
        data := by
    simp [List.getD_eq_getElem?_getD]
  rw [stsFrames, frames_cons, hFirst,
    frames_operands bus _ rfl (by simp), execute_with_phase]
  simp only [execute, List.nil_append, hTake, hData,
    ByteOrder.ofNat_leValue_leBytes]
  rw [← hOpcode]

/- `ST ptr` loads the pointer register. -/
theorem frames_pointer
    (hOpcode : d.phase = .opcode)
    (address : UInt32) :
    (line bus).frames d (pointerFrames address) =
      { d with pointer := address } := by
  have hFirst :
      frame bus d 0x6B =
        { d with phase := .operands .storePointer 3 [] } := by
    simp only [frame, hOpcode]
    rfl
  rw [pointerFrames, frames_cons, hFirst,
    frames_operands bus _ rfl (by simp), execute_with_phase]
  simp [execute, ByteOrder.ofNat_leValue_leBytes, ← hOpcode]

/- `REPEAT` announces further executions. -/
theorem frames_repeat
    (hOpcode : d.phase = .opcode)
    (n : UInt16) :
    (line bus).frames d (repeatFrames n) =
      { d with repetitions := n.toNat } := by
  have hFirst :
      frame bus d 0xA1 =
        { d with phase := .operands .repeatCount 1 [] } := by
    simp only [frame, hOpcode]
    rfl
  have hCount :
      ByteOrder.leValue (ByteOrder.leBytes 2 n.toNat) =
        n.toNat :=
    ByteOrder.leValue_leBytes_of_lt n.toNat_lt
  rw [repeatFrames, frames_cons, hFirst,
    frames_operands bus _ rfl (by simp), execute_with_phase]
  simp [execute, hCount, ← hOpcode]

/- A store through the pointer with nothing repeated. -/
theorem frames_dummyStore
    (hBoundary : d.AtBoundary) :
    (line bus).frames d [0x64, 0x00] =
      { store bus d.pointer 0x00 d with
        pointer := d.pointer + 1 } := by
  rcases hBoundary with ⟨hPhase, hReps⟩
  have hOpcode :
      frame bus d 0x64 =
        { d with
          phase := .storing d.repetitions
          repetitions := 0 } := by
    simp only [frame, hPhase]
    rfl
  rw [frames_cons, hOpcode, hReps]
  simp [Line.frames, line, frame, store, hPhase, hReps]

/-
  The target after the three raw writes of a page write with
  no session open.
-/
theorem frames_pagedWrite_disabled
    (hBoundary : d.AtBoundary)
    (address : UInt32) :
    (line bus).frames d
        (pointerFrames address ++ pointerFrames address ++
          [0x64, 0x00]) =
      { store bus address 0x00 d with
        pointer := address + 1 } := by
  have hPhase := hBoundary.1
  rw [frames_append, frames_append,
    frames_pointer bus hPhase,
    frames_pointer bus (by simpa using hPhase),
    frames_dummyStore bus
      (d := { d with pointer := address })
      ⟨hPhase, hBoundary.2⟩]
  rfl

/- Pointer set-up and repeat counter of a transfer. -/
theorem frames_stream
    (hOpcode : d.phase = .opcode)
    (start : UInt32)
    (count : UInt16)
    (instruction : UInt8) :
    (line bus).frames d (streamFrames start count instruction) =
      decodeOpcode instruction
        { d with
          pointer := start
          repetitions := (count - 1).toNat } := by
  rw [streamFrames, frames_append, frames_append,
    frames_pointer bus hOpcode,
    frames_repeat bus (by simpa using hOpcode)]
  simp [Line.frames, line, frame, hOpcode]

end FromOpcode

------------------------------------------------------------
-- Streams
------------------------------------------------------------

/- Consecutive stores through the pointer. -/
def storeAll : List UInt8 → Decoder β → Decoder β
| [], d => d
| b :: bytes, d =>
    storeAll bytes
      { store bus d.pointer b d with
        pointer := d.pointer + 1 }

/-
  A decoder that still takes `left + 1` data bytes is back at
  an opcode once they have been stored.
-/
theorem frames_stores
    {left : Nat}
    {bytes : List UInt8}
    (hPhase : d.phase = .storing left)
    (hLength : bytes.length = left + 1) :
    (line bus).frames d bytes =
      storeAll bus bytes { d with phase := .opcode } := by
  induction bytes generalizing d left with
  | nil =>
      simp at hLength
  | cons b bytes ih =>
      rw [frames_cons]
      cases left with
      | zero =>
          have hNil : bytes = [] := by
            simpa using hLength
          subst hNil
          simp [Line.frames, frame, hPhase, storeAll, store]
      | succ left =>
          have hRest : bytes.length = left + 1 := by
            simpa using hLength
          rw [ih (frame bus d b) (by simp [frame, hPhase, store])
            hRest]
          simp [frame, hPhase, storeAll, store]

end Decoder

end Lucax
