import Lucax.Driver.Nvm

/-
  The answers of a target to data reads, and what the read
  routines make of them.

  Key definitions include:
    * `Line.replies`, `Line.Answers`
    * `readLog`
    * `nvmReadFrames`
    * `Fw.Readable`, `ReadEnds`

  Main declarations:
    * `readLoop_answered`, `readLoop_unanswered`
    * `pdiReadByte_ends`, `pdiReadBytes_ends`
    * `nvmReadByte_ends`, `nvmReadBytes_ends`
-/

------------------------------------------------------------
-- Replies
------------------------------------------------------------

namespace Lucax

variable {τ : Type}

/- The replies to `n` reads in a row. -/
def Line.replies
    (line : Line τ) :
    Nat → τ → List (Option UInt8)
| 0, _ => []
| n + 1, t =>
    (line.reply t).1 :: Line.replies line n (line.reply t).2

/- None of `n` reads in a row times out. -/
def Line.Answers
    (line : Line τ)
    (n : Nat)
    (t : τ) : Prop :=
  ∀ reply ∈ line.replies n t, reply.isSome

instance
    (line : Line τ)
    (n : Nat)
    (t : τ) :
    Decidable (line.Answers n t) :=
  inferInstanceAs (Decidable (∀ reply ∈ line.replies n t, _))

/- What the read log shows of bytes read from `a` on. -/
def readLog : UInt32 → List UInt8 → List (UInt32 × Option UInt8)
| _, [] => []
| a, b :: bytes => (a, some b) :: readLog (a + 1) bytes

theorem readLog_getElem?
    (a : UInt32)
    (bytes : List UInt8)
    (i : Nat) :
    (readLog a bytes)[i]? =
      bytes[i]?.map fun b => (a + UInt32.ofNat i, some b) := by
  induction bytes generalizing a i with
  | nil => rfl
  | cons b bytes ih =>
      cases i with
      | zero => simp [readLog]
      | succ i =>
          have hNext :
              a + 1 + UInt32.ofNat i =
                a + UInt32.ofNat (i + 1) := by
            rw [UInt32.ofNat_add, UInt32.add_assoc,
              UInt32.add_comm 1]
            rfl
          rw [readLog, List.getElem?_cons_succ, ih, hNext,
            List.getElem?_cons_succ]

section Replies

variable (line : Line τ) (t : τ)

theorem Line.answers_zero :
    line.Answers 0 t := by
  intro reply hMem
  cases hMem

theorem Line.answers_succ
    (n : Nat) :
    line.Answers (n + 1) t ↔
      (line.reply t).1.isSome ∧
        line.Answers n (line.reply t).2 := by
  simp [Line.Answers, Line.replies]

end Replies

------------------------------------------------------------
-- Multi-Byte Reads
------------------------------------------------------------

section ReadLoop

variable (line : Line τ)

/- Every read answered: all bytes are stored and logged. -/
theorem readLoop_answered
    (n : Nat)
    (address : UInt32)
    (data : Nat)
    (s : Fw τ)
    (hAnswers : line.Answers n s.target) :
    ∃ bytes : List UInt8,
      bytes.length = n ∧
        (readLoop line n address data s).1 = .noError ∧
        (readLoop line n address data s).2.reads =
          s.reads ++ readLog address bytes ∧
        (Ptr.buffer data).bytes
            (readLoop line n address data s).2.ram n =
          bytes ∧
        ∀ j < data,
          (readLoop line n address data s).2.ram j =
            s.ram j := by
  induction n generalizing address data s with
  | zero =>
      refine ⟨[], rfl, rfl, ?_, rfl, fun j hj => rfl⟩
      simp [readLoop, readLog]
  | succ n ih =>
      rcases (line.answers_succ s.target n).mp hAnswers with
        ⟨hHead, hTail⟩
      have hAnswer := readByte_answer line s
      have hTarget := readByte_target line s
      have hReads := readByte_reads line s
      have hRam := readByte_ram line s
      rw [readLoop]
      rcases hRead : readByte line s with ⟨reply, after⟩
      rw [hRead] at hAnswer hTarget hReads hRam
      simp only at hAnswer hTarget hReads hRam
      rw [← hAnswer] at hHead
      rcases Option.isSome_iff_exists.mp hHead with ⟨b, hB⟩
      subst hB
      have hNext :
          line.Answers n
            ((after.logRead address (some b)).storeByte data
              b).target := by
        rw [storeByte_target, logRead_target, hTarget]
        exact hTail
      rcases ih (address + 1) (data + 1) _ hNext with
        ⟨bytes, hLength, hResult, hLog, hStored, hBelow⟩
      refine ⟨b :: bytes, by rw [List.length_cons, hLength],
        hResult, ?_, ?_, ?_⟩
      · simp only [hLog, storeByte_reads, logRead_reads, hReads,
          readLog]
        simp
      · have hHere := hBelow data (Nat.lt_succ_self data)
        rw [Ptr.bytes]
        simp only [hStored, hHere]
        simp [Fw.storeByte]
      · intro j hj
        have hNot : j ≠ data := Nat.ne_of_lt hj
        have hSame := hBelow j (Nat.lt_succ_of_lt hj)
        simp only [hSame]
        simp [Fw.storeByte, hNot, Fw.touch, hRam]

/- A read that is not answered ends the loop. -/
theorem readLoop_unanswered
    (n : Nat)
    (address : UInt32)
    (data : Nat)
    (s : Fw τ)
    (hFails : ¬ line.Answers n s.target) :
    (readLoop line n address data s).1 = .timeOut := by
  induction n generalizing address data s with
  | zero => exact absurd (line.answers_zero s.target) hFails
  | succ n ih =>
      have hAnswer := readByte_answer line s
      have hTarget := readByte_target line s
      rw [readLoop]
      rcases hRead : readByte line s with ⟨reply, after⟩
      rw [hRead] at hAnswer hTarget
      simp only at hAnswer hTarget
      cases reply with
      | none => rfl
      | some b =>
          apply ih
          intro hTail
          apply hFails
          rw [storeByte_target, logRead_target, hTarget]
            at hTail
          rw [line.answers_succ]
          exact ⟨by rw [← hAnswer]; rfl, hTail⟩

end ReadLoop

------------------------------------------------------------
-- Read Operations
------------------------------------------------------------

/- What an NVM read sends before its first read. -/
def nvmReadFrames
    (address : UInt32)
    (count : UInt16) : List UInt8 :=
  stsFrames nvmCmdReg cmdReadNvm ++
    if count = 1 then ldsFrames address
    else streamFrames address count 0x24

/-
  The session is open and the target answers the `n` reads
  that follow `bytes`.
-/
def Fw.Readable
    (line : Line τ)
    (s : Fw τ)
    (bytes : List UInt8)
    (n : Nat) : Prop :=
  s.pdiOn = true ∧ line.Answers n (line.frames s.target bytes)

/- How a read ends, with what it leaves in the read log. -/
inductive ReadEnds
    (readable : Prop)
    (result : PdiResult)
    (logged : Prop) : Prop where
| whole
    (hReadable : readable) (hResult : result = .noError)
    (hLogged : logged)
| failed
    (hNot : ¬ readable) (hResult : result ≠ .noError)

section Operations

variable (line : Line τ)

theorem nvmCmd_enabled
    {s : Fw τ}
    (hOn : s.pdiOn = true)
    (c : UInt8) :
    nvmCmd line c s = feed line (stsFrames nvmCmdReg c) s := by
  rw [nvmCmd, pdiWriteByte_enabled line hOn]

/- Nothing is readable in a closed session. -/
theorem not_readable_of_off
    {s : Fw τ}
    (hOff : s.pdiOn = false)
    (bytes : List UInt8)
    (n : Nat) :
    ¬ s.Readable line bytes n := by
  rintro ⟨hOn, _hAnswers⟩
  rw [hOff] at hOn
  cases hOn

/- The command register is set before the reads. -/
theorem readable_readNvm
    {s : Fw τ}
    (hOn : s.pdiOn = true)
    (bytes : List UInt8)
    (n : Nat) :
    (nvmCmd line cmdReadNvm s).Readable line bytes n ↔
      s.Readable line
        (stsFrames nvmCmdReg cmdReadNvm ++ bytes) n := by
  unfold Fw.Readable
  rw [nvmCmd_pdiOn, nvmCmd_enabled line hOn, feed_target,
    Line.frames, Line.frames, Line.frames, List.foldl_append]

theorem pdiReadBytes_ends
    (address : UInt32)
    (count : UInt16)
    (s : Fw τ) :
    ReadEnds
      (s.Readable line (streamFrames address count 0x24)
        count.toNat)
      (pdiReadBytes line address 0 count s).1
      ((pdiReadBytes line address 0 count s).2.reads =
        s.reads ++
          readLog address
            ((Ptr.buffer 0).bytes
              (pdiReadBytes line address 0 count s).2.ram
              count.toNat)) := by
  cases hOn : s.pdiOn with
  | false =>
      apply ReadEnds.failed
      · exact not_readable_of_off line hOn _ _
      · rw [pdiReadBytes_disabled line hOn]
        exact PdiResult.noConfusion
  | true =>
      have hTarget :=
        feed_target line (streamFrames address count 0x24) s
      by_cases hAnswers :
          line.Answers count.toNat
            (line.frames s.target
              (streamFrames address count 0x24))
      · rw [← hTarget] at hAnswers
        rcases readLoop_answered line count.toNat address 0 _
            hAnswers with
          ⟨bytes, _hLength, hResult, hLog, hStored, _hBelow⟩
        rw [hTarget] at hAnswers
        rw [← pdiReadBytes_enabled line hOn]
          at hResult hLog hStored
        apply ReadEnds.whole ⟨hOn, hAnswers⟩ hResult
        rw [hLog, hStored, feed_reads]
      · apply ReadEnds.failed
        · intro hReadable
          exact hAnswers hReadable.2
        · rw [← hTarget] at hAnswers
          rw [pdiReadBytes_enabled line hOn,
            readLoop_unanswered line count.toNat address 0 _
              hAnswers]
          exact PdiResult.noConfusion

theorem nvmReadBytes_ends
    (address : UInt32)
    {count : UInt16}
    (hMany : count ≠ 1)
    (s : Fw τ) :
    ReadEnds
      (s.Readable line (nvmReadFrames address count)
        count.toNat)
      (nvmReadBytes line address 0 count s).1
      ((nvmReadBytes line address 0 count s).2.reads =
        s.reads ++
          readLog address
            ((Ptr.buffer 0).bytes
              (nvmReadBytes line address 0 count s).2.ram
              count.toNat)) := by
  cases hOn : s.pdiOn with
  | false =>
      apply ReadEnds.failed
      · exact not_readable_of_off line hOn _ _
      · simp only [nvmReadBytes, nvmCmd_disabled line hOn,
          pdiReadBytes_disabled line hOn]
        exact PdiResult.noConfusion
  | true =>
      have hEnds :=
        pdiReadBytes_ends line address count
          (nvmCmd line cmdReadNvm s)
      have hReads : (nvmCmd line cmdReadNvm s).reads = s.reads := by
        rw [nvmCmd_enabled line hOn, feed_reads]
      have hFrames :
          nvmReadFrames address count =
            stsFrames nvmCmdReg cmdReadNvm ++
              streamFrames address count 0x24 := by
        rw [nvmReadFrames, if_neg hMany]
      rw [readable_readNvm line hOn, hReads, ← hFrames] at hEnds
      exact hEnds

theorem pdiReadByte_ends
    (address : UInt32)
    (s : Fw τ) :
    ReadEnds
      (s.Readable line (ldsFrames address) 1)
      (pdiReadByte line address 0 s).1.1
      ((pdiReadByte line address 0 s).2.reads =
        s.reads ++
          readLog address
            [(pdiReadByte line address 0 s).1.2]) := by
  cases hOn : s.pdiOn with
  | false =>
      apply ReadEnds.failed
      · exact not_readable_of_off line hOn _ _
      · rw [pdiReadByte_disabled line hOn]
        exact PdiResult.noConfusion
  | true =>
      have hAnswer :=
        readByte_answer line (feed line (ldsFrames address) s)
      have hReads :=
        readByte_reads line (feed line (ldsFrames address) s)
      rw [feed_target] at hAnswer
      rw [feed_reads] at hReads
      rw [pdiReadByte_enabled line hOn]
      rcases hRead :
          readByte line (feed line (ldsFrames address) s) with
        ⟨reply, after⟩
      rw [hRead] at hAnswer hReads
      simp only at hAnswer hReads
      cases reply with
      | none =>
          apply ReadEnds.failed
          · rintro ⟨_hOn, hAnswers⟩
            have hSome := ((line.answers_succ _ 0).mp hAnswers).1
            rw [← hAnswer] at hSome
            cases hSome
          · exact PdiResult.noConfusion
      | some b =>
          apply ReadEnds.whole
          · refine ⟨hOn, ?_⟩
            rw [line.answers_succ, ← hAnswer]
            exact ⟨rfl, line.answers_zero _⟩
          · rfl
          · simp only [logRead_reads, hReads]
            rfl

theorem nvmReadByte_ends
    (address : UInt32)
    (s : Fw τ) :
    ReadEnds
      (s.Readable line (nvmReadFrames address 1) 1)
      (nvmReadByte line address 0 s).1.1
      ((nvmReadByte line address 0 s).2.reads =
        s.reads ++
          readLog address
            [(nvmReadByte line address 0 s).1.2]) := by
  cases hOn : s.pdiOn with
  | false =>
      apply ReadEnds.failed
      · exact not_readable_of_off line hOn _ _
      · simp only [nvmReadByte, nvmCmd_disabled line hOn,
          pdiReadByte_disabled line hOn]
        exact PdiResult.noConfusion
  | true =>
      have hEnds :=
        pdiReadByte_ends line address (nvmCmd line cmdReadNvm s)
      have hReads : (nvmCmd line cmdReadNvm s).reads = s.reads := by
        rw [nvmCmd_enabled line hOn, feed_reads]
      rw [readable_readNvm line hOn, hReads] at hEnds
      exact hEnds

end Operations

end Lucax
