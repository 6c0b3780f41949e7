import Lucax.Driver.Reads
import Lucax.Driver.Session
import Lucax.Host.Exchange

/-
  What a successful return of a reading call says about the
  bytes it stored.

  Key definitions include:
    * `ReadCall`
    * `ReadCall.Faithful`
    * `ReadCall.Answered`

  Main declarations:
    * `readAnswer_ends`
    * `faithful_iff_answered_of_idle`
    * `faithful_iff_answered`
-/

------------------------------------------------------------
-- Reading Calls
------------------------------------------------------------

namespace Lucax

open Simulation

variable {τ ℓ : Type}

/- A reading call of the driver. -/
inductive ReadCall where
| load (m : AvrMem) (baseaddr nBytes : UInt32)
| byte (m : AvrMem) (addr : UInt32) (value : UInt8)

namespace ReadCall

/- The code returned, and the byte stored at each place. -/
def exec
    (usb : Libusb ℓ) :
    ReadCall → ℓ → (Int × (Nat → UInt8)) × ℓ
| .load m baseaddr nBytes, l =>
    let out := lucaxPagedLoad usb m baseaddr nBytes l
    ((out.1.1, out.1.2.buf), out.2)
| .byte m addr value, l =>
    let out := lucaxReadByte usb m addr value l
    ((out.1.1, fun _ => out.1.2), out.2)

/- The target address of the first byte. -/
def address : ReadCall → UInt32
| .load m baseaddr _ => m.address baseaddr
| .byte m addr _ => m.address addr

/- Where the bytes are stored, and how many. -/
def place : ReadCall → Nat
| .load _ baseaddr _ => baseaddr.toNat
| .byte _ _ _ => 0

def count : ReadCall → Nat
| .load _ _ nBytes => nBytes.toNat
| .byte _ _ _ => 1

/- What is sent to the target before its first answer. -/
def frames : ReadCall → List UInt8
| .load m baseaddr nBytes =>
    nvmReadFrames (m.address baseaddr) nBytes.toUInt16
| .byte m addr _ =>
    if isRawAddress (m.address addr) then
      streamFrames (m.address addr) 1 0x24
    else nvmReadFrames (m.address addr) 1

end ReadCall

/- What two logs of the device show of the time between. -/
def newReads
    (d after : Device τ) : List (UInt32 × Option UInt8) :=
  after.fw.reads.drop d.fw.reads.length

def newCalls
    (d after : Device τ) : List (Call × PdiResult) :=
  after.calls.drop d.calls.length

section Faithful

variable (line : Line τ)

/- The device after a reading call and the firmware's part. -/
def ReadCall.after
    (c : ReadCall)
    (d : Device τ) : Device τ :=
  settle line (c.exec (wireUsb line) d).2

/-
  A call that returns 0 stored the bytes the target returned
  for these addresses during the call, nothing is stored
  elsewhere, and a call during which an operation failed
  returns a negative code.
-/
structure ReadCall.Faithful
    (c : ReadCall)
    (d : Device τ) : Prop where
  stored :
    (c.exec (wireUsb line) d).1.1 = 0 →
      ∀ i < c.count,
        (newReads d (c.after line d))[i]? =
          some
            (c.address + UInt32.ofNat i,
              some
                ((c.exec (wireUsb line) d).1.2 (c.place + i)))
  elsewhere :
    ∀ m baseaddr nBytes, c = .load m baseaddr nBytes →
      ∀ j, j < c.place ∨ c.place + c.count ≤ j →
        (c.exec (wireUsb line) d).1.2 j = m.buf j
  failed :
    (∃ made ∈ newCalls d (c.after line d),
        made.2 ≠ .noError) →
      (c.exec (wireUsb line) d).1.1 < 0

/-
  The session is open and the target answers every read, or
  the page is longer than the firmware's buffer.
-/
def ReadCall.Answered
    (c : ReadCall)
    (d : Device τ) : Prop :=
  1024 < c.count ∨ d.fw.Readable line c.frames c.count

------------------------------------------------------------
-- Answers of the Firmware
------------------------------------------------------------

/- How the answer to a read request comes about. -/
theorem readAnswer_ends
    (address : UInt32)
    (count : UInt16)
    (d : Device τ) :
    ∃ c result,
      (readAnswer line address count d).2.calls =
          d.calls ++ [(c, result)] ∧
        ReadEnds
          (d.fw.Readable line
            (nvmReadFrames address (clamp count))
            (clamp count).toNat)
          result
          ((readAnswer line address count d).2.fw.reads =
            d.fw.reads ++
              readLog address
                (readAnswer line address count d).1) := by
  by_cases hOne : count = 1
  · subst hOne
    exact ⟨.nvmReadByte address, _, rfl,
      nvmReadByte_ends line address d.fw⟩
  · have hMany : clamp count ≠ 1 := by
      unfold clamp
      split
      · decide
      · exact hOne
    refine ⟨.nvmReadBytes address 0 (clamp count),
      (nvmReadBytes line address 0 (clamp count) d.fw).1,
      ?_, ?_⟩
    · simp only [readAnswer, hOne, if_false]
      rfl
    · simp only [readAnswer, hOne, if_false]
      exact nvmReadBytes_ends line address hMany d.fw

/-
  A call that returns 0 and makes one read of its place is
  faithful exactly when the target is readable.
-/
theorem faithful_iff_of_ends
    (c : ReadCall)
    {d : Device τ}
    {made : Call}
    {result : PdiResult}
    {bytes : List UInt8}
    (hCode : (c.exec (wireUsb line) d).1.1 = 0)
    (hCalls :
      (c.after line d).calls = d.calls ++ [(made, result)])
    (hEnds :
      ReadEnds (d.fw.Readable line c.frames c.count) result
        ((c.after line d).fw.reads =
          d.fw.reads ++ readLog c.address bytes))
    (hLength : bytes.length = c.count)
    (hStored :
      ∀ i b, bytes[i]? = some b →
        (c.exec (wireUsb line) d).1.2 (c.place + i) = b)
    (hElsewhere :
      ∀ m baseaddr nBytes, c = .load m baseaddr nBytes →
        ∀ j, j < c.place ∨ c.place + c.count ≤ j →
          (c.exec (wireUsb line) d).1.2 j = m.buf j) :
    c.Faithful line d ↔ d.fw.Readable line c.frames c.count := by
  have hNewCalls :
      newCalls d (c.after line d) = [(made, result)] := by
    rw [newCalls, hCalls, List.drop_left]
  cases hEnds with
  | whole hReadable hResult hLogged =>
      have hNewReads :
          newReads d (c.after line d) =
            readLog c.address bytes := by
        rw [newReads, hLogged, List.drop_left]
      constructor
      · intro _hFaithful
        exact hReadable
      · intro _hReadable
        refine ⟨?_, hElsewhere, ?_⟩
        · intro _hZero i hi
          rw [← hLength] at hi
          have hByte := List.getElem?_eq_getElem hi
          rw [hNewReads, readLog_getElem?, hByte,
            hStored i _ hByte]
          rfl
        · rintro ⟨other, hMem, hFailed⟩
          rw [hNewCalls, List.mem_singleton] at hMem
          subst hMem
          exact absurd hResult hFailed
  | failed hNot hResult =>
      constructor
      · intro hFaithful
        have hNegative :=
          hFaithful.failed
            ⟨(made, result), by rw [hNewCalls]; simp, hResult⟩
        rw [hCode] at hNegative
        exact absurd hNegative (by decide)
      · intro hReadable
        exact absurd hReadable hNot

theorem load_faithful_iff
    {d : Device τ}
    (hIdle : d.Idle)
    (m : AvrMem)
    (baseaddr nBytes : UInt32) :
    (ReadCall.load m baseaddr nBytes).Faithful line d ↔
      (ReadCall.load m baseaddr nBytes).Answered line d := by
  rcases pagedLoad_wire line hIdle m baseaddr nBytes with
    ⟨hOut, hAfter⟩
  have hLength :=
    readAnswer_length line (m.address baseaddr)
      nBytes.toUInt16
      (started (loadRequest nBytes)
        (addressBytes (m.address baseaddr)) d)
  rcases readAnswer_ends line (m.address baseaddr)
      nBytes.toUInt16
      (started (loadRequest nBytes)
        (addressBytes (m.address baseaddr)) d) with
    ⟨made, result, hCalls, hEnds⟩
  generalize
    readAnswer line (m.address baseaddr) nBytes.toUInt16
      (started (loadRequest nBytes)
        (addressBytes (m.address baseaddr)) d) =
      answer at hOut hAfter hLength hCalls hEnds
  have hElsewhere :
      ∀ j, j < baseaddr.toNat ∨
          baseaddr.toNat + nBytes.toNat ≤ j →
        (m.store baseaddr.toNat answer.1).buf j = m.buf j := by
    intro j hj
    have hAtMost := clamp_toUInt16_le nBytes
    rw [m.store_buf]
    apply Pages.put_outside
    omega
  have hOther :
      ∀ m' baseaddr' nBytes',
        ReadCall.load m baseaddr nBytes =
            .load m' baseaddr' nBytes' →
          ∀ j, j < baseaddr.toNat ∨
              baseaddr.toNat + nBytes.toNat ≤ j →
            (lucaxPagedLoad (wireUsb line) m baseaddr nBytes
              d).1.2.buf j = m'.buf j := by
    intro m' baseaddr' nBytes' hSame j hj
    cases hSame
    rw [hOut]
    exact hElsewhere j hj
  by_cases hLong : 1024 < nBytes.toNat
  · have hCode :
        (lucaxPagedLoad (wireUsb line) m baseaddr nBytes
          d).1.1 = -1 := by
      have hBound := clamp_le nBytes.toUInt16
      rw [hOut]
      apply if_neg
      omega
    constructor
    · intro _hFaithful
      exact Or.inl hLong
    · intro _hAnswered
      refine ⟨?_, hOther, ?_⟩
      · intro hZero
        simp only [ReadCall.exec, hCode] at hZero
        exact absurd hZero (by decide)
      · intro _hFailed
        simp only [ReadCall.exec, hCode]
        decide
  · rcases clamp_of_le (Nat.not_lt.mp hLong) with
      ⟨hClamp, hExact⟩
    rw [hClamp, hExact] at hLength hEnds
    have hReadable :
        (ReadCall.load m baseaddr nBytes).Answered line d ↔
          d.fw.Readable line
            (ReadCall.load m baseaddr nBytes).frames
            nBytes.toNat := by
      constructor
      · rintro (hMore | hThere)
        · exact absurd hMore hLong
        · exact hThere
      · exact Or.inr
    rw [hReadable]
    apply faithful_iff_of_ends line
      (.load m baseaddr nBytes)
    · simp only [ReadCall.exec, hOut]
      apply if_pos
      exact hLength
    · exact (congrArg World.calls hAfter).trans hCalls
    · simp only [ReadCall.after, ReadCall.exec, hAfter]
      exact hEnds
    · exact hLength
    · intro i b hByte
      simp only [ReadCall.exec, hOut, m.store_buf]
      exact Pages.put_inside _ _ hByte
    · exact hOther

/- A byte, by the same rule. -/
theorem byte_faithful_iff_of_ends
    {d : Device τ}
    {m : AvrMem}
    {addr : UInt32}
    {value b : UInt8}
    {made : Call}
    {result : PdiResult}
    (hOut :
      (lucaxReadByte (wireUsb line) m addr value d).1 = (0, b))
    (hCalls :
      ((ReadCall.byte m addr value).after line d).calls =
        d.calls ++ [(made, result)])
    (hEnds :
      ReadEnds
        (d.fw.Readable line (ReadCall.byte m addr value).frames
          1)
        result
        (((ReadCall.byte m addr value).after line d).fw.reads =
          d.fw.reads ++ readLog (m.address addr) [b])) :
    (ReadCall.byte m addr value).Faithful line d ↔
      (ReadCall.byte m addr value).Answered line d := by
  have hReadable :
      (ReadCall.byte m addr value).Answered line d ↔
        d.fw.Readable line
          (ReadCall.byte m addr value).frames 1 := by
    constructor
    · rintro (hMore | hThere)
      · simp only [ReadCall.count] at hMore
        omega
      · exact hThere
    · exact Or.inr
  rw [hReadable]
  apply faithful_iff_of_ends line (.byte m addr value) _ hCalls
    hEnds rfl
  · intro i b' hByte
    simp only [ReadCall.exec, hOut]
    cases i with
    | zero => exact Option.some.inj hByte
    | succ i => cases hByte
  · intro m' baseaddr nBytes hSame
    cases hSame
  · simp only [ReadCall.exec, hOut]

theorem byte_faithful_iff
    {d : Device τ}
    (hIdle : d.Idle)
    (m : AvrMem)
    (addr : UInt32)
    (value : UInt8) :
    (ReadCall.byte m addr value).Faithful line d ↔
      (ReadCall.byte m addr value).Answered line d := by
  cases hRaw : isRawAddress (m.address addr) with
  | true =>
      rcases readByte_wire_raw line hIdle m addr value hRaw with
        ⟨hOut, hAfter⟩
      have hEnds :=
        pdiReadBytes_ends line (m.address addr) 1 d.fw
      have hFrames :
          (ReadCall.byte m addr value).frames =
            streamFrames (m.address addr) 1 0x24 := by
        simp [ReadCall.frames, hRaw]
      apply byte_faithful_iff_of_ends line hOut
      · exact congrArg World.calls hAfter
      · rw [hFrames]
        simp only [ReadCall.after, ReadCall.exec, hAfter]
        exact hEnds
  | false =>
      rcases readByte_wire line hIdle m addr value hRaw with
        ⟨hOut, hAfter⟩
      have hEnds := nvmReadByte_ends line (m.address addr) d.fw
      have hFrames :
          (ReadCall.byte m addr value).frames =
            nvmReadFrames (m.address addr) 1 := by
        simp [ReadCall.frames, hRaw]
      apply byte_faithful_iff_of_ends line hOut
      · exact congrArg World.calls hAfter
      · rw [hFrames]
        simp only [ReadCall.after, ReadCall.exec, hAfter]
        exact hEnds

/- On an idle device, whatever its memory holds. -/
theorem faithful_iff_answered_of_idle
    {d : Device τ}
    (hIdle : d.Idle)
    (c : ReadCall) :
    c.Faithful line d ↔ c.Answered line d := by
  cases c with
  | load m baseaddr nBytes =>
      exact load_faithful_iff line hIdle m baseaddr nBytes
  | byte m addr value =>
      exact byte_faithful_iff line hIdle m addr value

/-
  After any calls of the driver, a reading call is faithful
  exactly when the session is open and the target answers
  every read, or it asks for more than 1024 bytes.
-/
theorem faithful_iff_answered
    (target : τ)
    (calls : List HostCall)
    (c : ReadCall) :
    let d :=
      (runAll (HostCall.onWire line) calls
        (World.powerOn target Wire.quiet)).2
    c.Faithful line d ↔ c.Answered line d :=
  faithful_iff_answered_of_idle line
    (runAll_idle line target calls) c

end Faithful

/- Two bytes at the start of the flash. -/
def twoBytes (b : UInt8) : AvrMem where
  desc := flashDesc
  offset := 0x00800000
  buf := fun _ => b

/-
  The device after a page write that follows a `lucax_init` a
  silent target did not answer.
-/
def afterPageWrite : Device (List (Option UInt8)) :=
  (runAll (HostCall.onWire scripted)
    [.init true 250 0 0, .pagedWrite (twoBytes 0xAA) 0 2]
    (World.powerOn [] Wire.quiet)).2

/-
  The first call returns -1, the second 0.  The verify pass of
  that write returns 0 and finds the bytes it wrote, without a
  read of the target.
-/
theorem load_not_faithful_after_write :
    let c := ReadCall.load (twoBytes 0x00) 0 2
    let out := c.exec (wireUsb scripted) afterPageWrite
    ¬ c.Faithful scripted afterPageWrite ∧
      (runAll (HostCall.onWire scripted)
        [.init true 250 0 0, .pagedWrite (twoBytes 0xAA) 0 2]
        (World.powerOn [] Wire.quiet)).1 = [-1, 0] ∧
      out.1.1 = 0 ∧
      out.1.2 0 = 0xAA ∧ out.1.2 1 = 0xAA ∧
      (c.after scripted afterPageWrite).fw.reads = [] := by
  intro c out
  have hStale :
      out.1.1 = 0 ∧ out.1.2 0 = 0xAA ∧ out.1.2 1 = 0xAA ∧
        (c.after scripted afterPageWrite).fw.reads = [] := by
    decide +kernel
  refine ⟨?_, by decide +kernel, hStale⟩
  intro hFaithful
  have hFirst := hFaithful.stored hStale.1 0 (by decide)
  rw [newReads, hStale.2.2.2, List.drop_nil] at hFirst
  cases hFirst

end Lucax
