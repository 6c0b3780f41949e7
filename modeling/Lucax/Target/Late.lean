import Lucax.Driver.Session
import Lucax.Driver.Steps
import Lucax.Target.Encoding

/-
  A target that may be late with the bytes it owes.

  A driver call that runs out of patience leaves the decoder
  in the middle of a load.  What the target delivers before
  the next frame decides where the next call begins.

  Key definitions include:
    * `LineEvent`, `Lateness`, `LateTarget`
    * `Decoder.owed`, `Decoder.deliver`, `Decoder.Away`
    * `LateTarget.settle`, `LateTarget.line`
    * `Deaf`, `Ignored`, `Punctual`, `Timely`
    * `LateTarget.Settled`, `Resynchronised`

  Main declarations:
    * `Decoder.deliver_atBoundary_iff`
    * `Call.exec_late`
    * `Call.exec_away`
    * `resynchronised_iff_settled`
    * `pdiExit_resynchronised`
-/

------------------------------------------------------------
-- Owed Bytes
------------------------------------------------------------

namespace Lucax

variable {β σ : Type}

namespace Decoder

/- The bytes that a decoder in a load owes. -/
def owed (d : Decoder β) : Nat :=
  match d.phase with
  | .loading left => left + 1
  | .loadingDirect _ => 1
  | .loadingControl _ => 1
  | _ => 0

/- The decoder is where no instruction is expected. -/
def Away (d : Decoder β) : Prop :=
  d.phase = .lost ∨ 0 < d.owed

/- An opcode is next, after the bytes that are owed. -/
def Waits (d : Decoder β) : Prop :=
  d.phase = .opcode ∨ 0 < d.owed

/-
  The target delivers up to `n` owed bytes that nobody reads.
  They end up in a receiver that `usart_tx_mode` switches off.
-/
def deliver
    (bus : Bus β) :
    Nat → Decoder β → Decoder β
| 0, d => d
| n + 1, d => deliver bus n (reply bus d).2

variable {bus : Bus β} {d : Decoder β}

theorem Away.not_atBoundary
    (hAway : d.Away) :
    ¬ d.AtBoundary := by
  rintro ⟨hPhase, _hNone⟩
  rcases hAway with hLost | hOwes
  · rw [hPhase] at hLost
    cases hLost
  · simp [owed, hPhase] at hOwes

/- A frame that meets a decoder elsewhere is lost with it. -/
theorem Away.frame
    (hAway : d.Away)
    (bus : Bus β)
    (b : UInt8) :
    d.frame bus b = { d with phase := .lost } := by
  rcases hAway with hLost | hOwes
  · simp only [Decoder.frame, hLost]
    rw [← hLost]
  · cases hPhase : d.phase with
    | loading left => simp [Decoder.frame, hPhase]
    | loadingDirect address => simp [Decoder.frame, hPhase]
    | loadingControl reg => simp [Decoder.frame, hPhase]
    | _ => simp [owed, hPhase] at hOwes

theorem lost_owed
    (hLost : d.phase = .lost) :
    d.owed = 0 := by
  simp [owed, hLost]

theorem opcode_iff_waits :
    d.phase = .opcode ↔ d.Waits ∧ d.owed = 0 := by
  constructor
  · intro hPhase
    exact ⟨Or.inl hPhase, by simp [owed, hPhase]⟩
  · rintro ⟨hPhase | hOwes, hNone⟩
    · exact hPhase
    · omega

/- A decoder that owes nothing has nothing to answer. -/
theorem reply_of_owed
    (hNone : d.owed = 0) :
    reply bus d = (none, d) := by
  cases hPhase : d.phase with
  | loading left => simp [owed, hPhase] at hNone
  | loadingDirect address => simp [owed, hPhase] at hNone
  | loadingControl reg => simp [owed, hPhase] at hNone
  | _ => simp [reply, hPhase]

@[simp] theorem reply_repetitions :
    (reply bus d).2.repetitions = d.repetitions := by
  unfold reply
  split <;> rfl

/- An answer is one byte less to deliver. -/
theorem reply_owed
    (hAnswers : bus.Answers) :
    (reply bus d).2.owed = d.owed - 1 := by
  cases hPhase : d.phase with
  | loading left =>
      rcases Option.isSome_iff_exists.mp
          (hAnswers d.bus d.pointer) with
        ⟨b, hLoad⟩
      cases left with
      | zero => simp [reply, owed, hPhase, hLoad]
      | succ left => simp [reply, owed, hPhase, hLoad]
  | _ => simp [reply, owed, hPhase]

theorem reply_waits
    (hAnswers : bus.Answers) :
    (reply bus d).2.Waits ↔ d.Waits := by
  by_cases hNone : d.owed = 0
  · rw [reply_of_owed hNone]
  · have hWaits : d.Waits := Or.inr (by omega)
    refine ⟨fun _ => hWaits, fun _ => ?_⟩
    cases hPhase : d.phase with
    | loading left =>
        rcases Option.isSome_iff_exists.mp
            (hAnswers d.bus d.pointer) with
          ⟨b, hLoad⟩
        cases left with
        | zero => simp [reply, Waits, hPhase, hLoad]
        | succ left => simp [reply, Waits, owed, hPhase, hLoad]
    | loadingDirect address => simp [reply, Waits, hPhase]
    | loadingControl reg => simp [reply, Waits, hPhase]
    | _ => simp [owed, hPhase] at hNone

/- Where the decoder is after a delivery. -/
theorem deliver_facts
    (hAnswers : bus.Answers)
    (n : Nat)
    (d : Decoder β) :
    ((deliver bus n d).Waits ↔ d.Waits) ∧
      (deliver bus n d).owed = d.owed - n ∧
      (deliver bus n d).repetitions = d.repetitions := by
  induction n generalizing d with
  | zero => exact ⟨Iff.rfl, rfl, rfl⟩
  | succ n ih =>
      rcases ih (reply bus d).2 with ⟨hWaits, hOwed, hReps⟩
      refine ⟨hWaits.trans (reply_waits hAnswers), ?_,
        hReps.trans reply_repetitions⟩
      rw [deliver, hOwed, reply_owed hAnswers]
      omega

/- What brings a decoder back without a break. -/
theorem deliver_atBoundary_iff
    (hAnswers : bus.Answers)
    (n : Nat)
    (d : Decoder β) :
    (deliver bus n d).AtBoundary ↔
      d.Waits ∧ d.repetitions = 0 ∧ d.owed ≤ n := by
  rcases deliver_facts hAnswers n d with
    ⟨hWaits, hOwed, hReps⟩
  rw [AtBoundary, opcode_iff_waits, hWaits, hOwed, hReps,
    Nat.sub_eq_zero_iff_le]
  constructor
  · rintro ⟨⟨hWait, hAll⟩, hNone⟩
    exact ⟨hWait, hNone, hAll⟩
  · rintro ⟨hWait, hNone, hAll⟩
    exact ⟨⟨hWait, hAll⟩, hNone⟩

end Decoder

------------------------------------------------------------
-- The Late Target
------------------------------------------------------------

/-
  What happens on the line: a frame, with whether it meets a
  decoder at an instruction boundary; an answer to one
  `read_byte`; an answer that is owed and held back; a number
  of owed bytes that come before a frame; a break.
-/
inductive LineEvent where
| frame (atBoundary : Bool) (b : UInt8)
| answer (reply : Option UInt8)
| late
| dropped (count : Nat)
| lineBreak
deriving DecidableEq, Repr

/-
  When a target is late: whether it holds the owed byte back
  for all the polls of a `read_byte`, and how many owed bytes
  it delivers between a `read_byte` and the next frame.
-/
structure Lateness (σ : Type) where
  holds : σ → Bool × σ
  delivers : σ → Nat × σ

/-
  A decoder with the state that decides when it is late, and
  what happened on the line so far.
-/
structure LateTarget (β σ : Type) where
  decoder : Decoder β
  timing : σ
  heard : List LineEvent

/- What is still owed comes before the next frame, or not. -/
def LateTarget.settle
    (bus : Bus β)
    (late : Lateness σ)
    (t : LateTarget β σ) : LateTarget β σ :=
  if t.decoder.owed = 0 then t
  else
    let turn := late.delivers t.timing
    { decoder := t.decoder.deliver bus turn.1
      timing := turn.2
      heard := t.heard ++ [.dropped turn.1] }

/- A late byte stays owed and may be delivered later. -/
def LateTarget.line
    (bus : Bus β)
    (late : Lateness σ) : Line (LateTarget β σ) where
  frame t b :=
    let t := t.settle bus late
    { t with
      decoder := Decoder.frame bus t.decoder b
      heard :=
        t.heard ++ [.frame (decide t.decoder.AtBoundary) b] }
  reply t :=
    if t.decoder.owed = 0 then
      (none, { t with heard := t.heard ++ [.answer none] })
    else
      let turn := late.holds t.timing
      if turn.1 then
        (none,
          { t with
            timing := turn.2, heard := t.heard ++ [.late] })
      else
        let out := Decoder.reply bus t.decoder
        (out.1,
          { decoder := out.2
            timing := turn.2
            heard := t.heard ++ [.answer out.1] })
  lineBreak t :=
    { t with
      decoder := t.decoder.lineBreak
      heard := t.heard ++ [.lineBreak] }

abbrev LateFw (β σ : Type) := Fw (LateTarget β σ)

variable (bus : Bus β) (late : Lateness σ)

section Settle

variable {bus late} {t : LateTarget β σ}

theorem LateTarget.settle_of_owed
    (hNone : t.decoder.owed = 0) :
    t.settle bus late = t := by
  rw [LateTarget.settle, if_pos hNone]

/- The delivery is all that is heard of it. -/
theorem LateTarget.settle_heard
    (bus : Bus β)
    (late : Lateness σ)
    (t : LateTarget β σ) :
    ∃ events,
      (t.settle bus late).heard = t.heard ++ events ∧
        ∀ event ∈ events, ∃ n, event = .dropped n := by
  rw [LateTarget.settle]
  split
  · exact ⟨[], by simp, by simp⟩
  · exact ⟨_, rfl, by simp⟩

/-
  The target stands at an instruction boundary once it has
  delivered what it is about to deliver: it is in no operand
  and not lost, no repetition is announced, and no more is
  owed than comes before the next frame.
-/
structure LateTarget.Settled
    (late : Lateness σ)
    (t : LateTarget β σ) : Prop where
  waits : t.decoder.Waits
  single : t.decoder.repetitions = 0
  delivered : t.decoder.owed ≤ (late.delivers t.timing).1

theorem LateTarget.settle_atBoundary_iff
    (hAnswers : bus.Answers) :
    (t.settle bus late).decoder.AtBoundary ↔
      t.Settled late := by
  have hDelivered :=
    Decoder.deliver_atBoundary_iff hAnswers
      (late.delivers t.timing).1 t.decoder
  have hSettled :
      t.Settled late ↔
        t.decoder.Waits ∧ t.decoder.repetitions = 0 ∧
          t.decoder.owed ≤ (late.delivers t.timing).1 :=
    ⟨fun h => ⟨h.waits, h.single, h.delivered⟩,
      fun h => ⟨h.1, h.2.1, h.2.2⟩⟩
  rw [hSettled, ← hDelivered, LateTarget.settle]
  split
  case isTrue hNone =>
    rw [hDelivered, Decoder.AtBoundary,
      Decoder.opcode_iff_waits, hNone]
    simp
  case isFalse hSome => rfl

/- Too little of it leaves the decoder elsewhere. -/
theorem LateTarget.settle_away
    (hAnswers : bus.Answers)
    (hAway : t.decoder.Away)
    (hSingle : t.decoder.repetitions = 0)
    (hOwes : ¬ t.Settled late) :
    (t.settle bus late).decoder.Away := by
  rcases hAway with hLost | hSome
  · rw [LateTarget.settle_of_owed (Decoder.lost_owed hLost)]
    exact Or.inl hLost
  · have hMore :
        (late.delivers t.timing).1 < t.decoder.owed := by
      by_contra hAll
      exact hOwes ⟨Or.inr hSome, hSingle, by omega⟩
    have hOwed :=
      (Decoder.deliver_facts hAnswers
        (late.delivers t.timing).1 t.decoder).2.1
    rw [LateTarget.settle, if_neg (by omega)]
    right
    simp only [hOwed]
    omega

end Settle

theorem LateTarget.line_frame_of_owed
    {t : LateTarget β σ}
    (hNone : t.decoder.owed = 0)
    (b : UInt8) :
    (LateTarget.line bus late).frame t b =
      { t with
        decoder := Decoder.frame bus t.decoder b
        heard :=
          t.heard ++
            [.frame (decide t.decoder.AtBoundary) b] } := by
  simp only [LateTarget.line,
    LateTarget.settle_of_owed hNone]

/- A frame is heard behind what comes before it. -/
theorem sendByte_heard
    (b : UInt8)
    (s : LateFw β σ) :
    (sendByte (LateTarget.line bus late) b s).target.heard =
      (s.target.settle bus late).heard ++
        [.frame
          (decide (s.target.settle bus late).decoder.AtBoundary)
          b] := by
  rw [sendByte_target]
  rfl

------------------------------------------------------------
-- Frames Without a Break
------------------------------------------------------------

/- What was heard between `s` and `s'` holds no break. -/
def Unbroken (s s' : LateFw β σ) : Prop :=
  ∃ events,
    s'.target.heard = s.target.heard ++ events ∧
      LineEvent.lineBreak ∉ events

namespace Unbroken

variable {s s' s'' : LateFw β σ}

theorem of_target
    (hSame : s'.target = s.target) :
    Unbroken s s' := by
  rw [Unbroken, hSame]
  exact ⟨[], by simp, List.not_mem_nil⟩

theorem trans
    (hFirst : Unbroken s s')
    (hSecond : Unbroken s' s'') :
    Unbroken s s'' := by
  rcases hFirst with ⟨events, hHeard, hNone⟩
  rcases hSecond with ⟨later, hMore, hNever⟩
  refine ⟨events ++ later, ?_, ?_⟩
  · rw [hMore, hHeard, List.append_assoc]
  · rw [List.mem_append]
    rintro (hMem | hMem)
    · exact hNone hMem
    · exact hNever hMem

/- No driver call sends a break. -/
theorem of_steps
    (hSteps : PdiSteps (LateTarget.line bus late) s s') :
    Unbroken s s' := by
  induction hSteps with
  | refl => exact of_target rfl
  | tail hSteps hStep ih =>
      apply ih.trans
      cases hStep with
      | send b =>
          rcases LateTarget.settle_heard bus late _ with
            ⟨events, hHeard, hDropped⟩
          rw [Unbroken, sendByte_heard, hHeard,
            List.append_assoc]
          refine ⟨_, rfl, ?_⟩
          rw [List.mem_append]
          rintro (hMem | hMem)
          · rcases hDropped _ hMem with ⟨n, hEq⟩
            cases hEq
          · simp at hMem
      | read =>
          rw [Unbroken, readByte_target]
          simp only [LateTarget.line]
          split
          · exact ⟨_, rfl, by simp⟩
          · split
            · exact ⟨_, rfl, by simp⟩
            · exact ⟨_, rfl, by simp⟩
      | memory ram reads touched => exact of_target rfl

end Unbroken

------------------------------------------------------------
-- A Decoder That Is Lost
------------------------------------------------------------

/- What leaves a lost decoder as it is. -/
def Deaf (s s' : LateFw β σ) : Prop :=
  s.target.decoder.phase = .lost →
    s'.target.decoder = s.target.decoder

namespace Deaf

variable {s s' s'' : LateFw β σ}

theorem trans
    (hFirst : Deaf s s')
    (hSecond : Deaf s' s'') :
    Deaf s s'' := by
  intro hLost
  have hSame := hFirst hLost
  rw [← hSame] at hLost
  exact (hSecond hLost).trans hSame

theorem sendByte
    (b : UInt8)
    (s : LateFw β σ) :
    Deaf s (sendByte (LateTarget.line bus late) b s) := by
  intro hLost
  have hFrame :=
    Decoder.Away.frame (Or.inl hLost) bus b
  rw [← hLost] at hFrame
  rw [sendByte_target]
  simp only [LateTarget.line,
    LateTarget.settle_of_owed (Decoder.lost_owed hLost)]
  exact hFrame

theorem readByte
    (s : LateFw β σ) :
    Deaf s (readByte (LateTarget.line bus late) s).2 := by
  intro hLost
  rw [readByte_target]
  simp only [LateTarget.line, Decoder.lost_owed hLost,
    if_true]

/- Whatever a driver call does leaves a lost decoder lost. -/
theorem of_steps
    (hSteps : PdiSteps (LateTarget.line bus late) s s') :
    Deaf s s' := by
  induction hSteps with
  | refl => exact fun _ => rfl
  | tail hSteps hStep ih =>
      apply ih.trans
      cases hStep with
      | send b => exact Deaf.sendByte bus late b _
      | read => exact Deaf.readByte bus late _
      | memory ram reads touched => exact fun _ => rfl

end Deaf

/- A lost decoder answers nothing. -/
theorem readByte_lost
    {s : LateFw β σ}
    (hLost : s.target.decoder.phase = .lost) :
    (readByte (LateTarget.line bus late) s).1 = none := by
  rw [readByte_answer]
  simp only [LateTarget.line, Decoder.lost_owed hLost,
    if_true]

/-
  A call whose first frame meets a decoder elsewhere: it
  loses the decoder and nothing of the call is carried out.
-/
def Ignored (s s' : LateFw β σ) : Prop :=
  s'.target.decoder =
    { (s.target.settle bus late).decoder with phase := .lost }

/- What begins with a frame is ignored. -/
theorem ignored_of_first
    {s s' : LateFw β σ}
    (hAway : (s.target.settle bus late).decoder.Away)
    {b : UInt8}
    (hSteps :
      PdiSteps (LateTarget.line bus late)
        (sendByte (LateTarget.line bus late) b s) s') :
    Ignored bus late s s' := by
  have hFirst :
      (sendByte (LateTarget.line bus late) b
          s).target.decoder =
        { (s.target.settle bus late).decoder with
          phase := .lost } := by
    rw [sendByte_target]
    simp only [LateTarget.line, hAway.frame bus b]
  have hSame :=
    Deaf.of_steps bus late hSteps (by rw [hFirst])
  rw [Ignored, hSame, hFirst]

/-
  A call in an open session begins with a frame, which meets
  the decoder where it stands after the delivery.
-/
theorem Call.exec_away
    {s : LateFw β σ}
    (hOn : s.pdiOn = true)
    (hAway : (s.target.settle bus late).decoder.Away)
    (c : Call) :
    Ignored bus late s
      (c.exec (LateTarget.line bus late) s).2 := by
  rcases c.exec_first (LateTarget.line bus late) hOn with
    ⟨b, hSteps⟩
  exact ignored_of_first bus late hAway hSteps

/- What has been delivered is not delivered again. -/
theorem sendByte_settle
    {s : LateFw β σ}
    (hNone : (s.target.settle bus late).decoder.owed = 0)
    (b : UInt8) :
    sendByte (LateTarget.line bus late) b s =
      sendByte (LateTarget.line bus late) b
        { s with target := s.target.settle bus late } := by
  have hFrame :
      (LateTarget.line bus late).frame
          (s.target.settle bus late) b =
        (LateTarget.line bus late).frame s.target b := by
    simp only [LateTarget.line,
      LateTarget.settle_of_owed hNone]
  simp only [sendByte]
  split
  · simp only [usartTxMode, hFrame]
  · simp only [hFrame]

------------------------------------------------------------
-- Calls That Run Out of Patience
------------------------------------------------------------

/- Nothing on the way from `s` to `s'` was late. -/
def Punctual (s s' : LateFw β σ) : Prop :=
  ∃ events,
    s'.target.heard = s.target.heard ++ events ∧
      LineEvent.late ∉ events

/-
  If something was late, the result says so and the decoder
  still owes it or is lost.
-/
def Timely
    (s : LateFw β σ)
    (r : PdiResult)
    (s' : LateFw β σ) : Prop :=
  ∃ events,
    s'.target.heard = s.target.heard ++ events ∧
      (LineEvent.late ∈ events →
        r = .timeOut ∧ s'.target.decoder.Away)

/-
  The same of a call that goes on after a late byte: unless
  owed bytes came before one of its frames.
-/
def TimelyOrDropped
    (s : LateFw β σ)
    (r : PdiResult)
    (s' : LateFw β σ) : Prop :=
  ∃ events,
    s'.target.heard = s.target.heard ++ events ∧
      (LineEvent.late ∈ events →
        (r = .timeOut ∧ s'.target.decoder.Away) ∨
          ∃ n, LineEvent.dropped (n + 1) ∈ events)

section Timely

variable {s s' s'' : LateFw β σ} {r : PdiResult}

theorem Timely.orDropped
    (hTimely : Timely s r s') :
    TimelyOrDropped s r s' := by
  rcases hTimely with ⟨events, hHeard, hLate⟩
  exact ⟨events, hHeard, fun hMem => Or.inl (hLate hMem)⟩

theorem Punctual.of_target
    (hSame : s'.target = s.target) :
    Punctual s s' := by
  rw [Punctual, hSame]
  exact ⟨[], by simp, List.not_mem_nil⟩

theorem Punctual.trans
    (hFirst : Punctual s s')
    (hSecond : Punctual s' s'') :
    Punctual s s'' := by
  rcases hFirst with ⟨events, hHeard, hNone⟩
  rcases hSecond with ⟨later, hMore, hNever⟩
  refine ⟨events ++ later, ?_, ?_⟩
  · rw [hMore, hHeard, List.append_assoc]
  · rw [List.mem_append]
    rintro (hMem | hMem)
    · exact hNone hMem
    · exact hNever hMem

theorem Punctual.timely
    (hPunctual : Punctual s s')
    (r : PdiResult) :
    Timely s r s' := by
  rcases hPunctual with ⟨events, hHeard, hNone⟩
  exact ⟨events, hHeard, fun hMem => absurd hMem hNone⟩

/- What was punctual before does not matter. -/
theorem Punctual.andThen
    (hFirst : Punctual s s')
    (hSecond : Timely s' r s'') :
    Timely s r s'' := by
  rcases hFirst with ⟨events, hHeard, hNone⟩
  rcases hSecond with ⟨later, hMore, hLate⟩
  refine ⟨events ++ later, ?_, ?_⟩
  · rw [hMore, hHeard, List.append_assoc]
  · intro hMem
    rcases List.mem_append.mp hMem with hFront | hBack
    · exact absurd hFront hNone
    · exact hLate hBack

/- Frames are never late. -/
theorem sendByte_punctual
    (b : UInt8)
    (s : LateFw β σ) :
    Punctual s (sendByte (LateTarget.line bus late) b s) := by
  rcases LateTarget.settle_heard bus late s.target with
    ⟨events, hHeard, hDropped⟩
  rw [Punctual, sendByte_heard, hHeard, List.append_assoc]
  refine ⟨_, rfl, ?_⟩
  rw [List.mem_append]
  rintro (hMem | hMem)
  · rcases hDropped _ hMem with ⟨n, hEq⟩
    cases hEq
  · simp at hMem

theorem feed_punctual
    (bytes : List UInt8)
    (s : LateFw β σ) :
    Punctual s (feed (LateTarget.line bus late) bytes s) := by
  induction bytes generalizing s with
  | nil => exact Punctual.of_target rfl
  | cons b bytes ih =>
      rw [feed_cons]
      exact (sendByte_punctual bus late b s).trans (ih _)

/- An answer that is not punctual stays owed. -/
theorem readByte_punctual_or
    (s : LateFw β σ) :
    Punctual s (readByte (LateTarget.line bus late) s).2 ∨
      ((readByte (LateTarget.line bus late) s).1 = none ∧
        (readByte (LateTarget.line bus late)
            s).2.target.heard =
          s.target.heard ++ [.late] ∧
        (readByte (LateTarget.line bus late)
          s).2.target.decoder.Away) := by
  rw [Punctual, readByte_answer, readByte_target]
  simp only [LateTarget.line]
  by_cases hNone : s.target.decoder.owed = 0
  · left
    simp only [hNone, if_true]
    exact ⟨_, rfl, by simp⟩
  · simp only [hNone, if_false]
    by_cases hLate : (late.holds s.target.timing).1 = true
    · right
      simp only [hLate, if_true]
      exact ⟨trivial, trivial,
        Or.inr (Nat.pos_of_ne_zero hNone)⟩
    · left
      simp only [hLate]
      exact ⟨_, rfl, by simp⟩

section Answers

variable {bus : Bus β} {late : Lateness σ} {after : LateFw β σ}

theorem readByte_some_punctual
    {b : UInt8}
    (hAnswer :
      readByte (LateTarget.line bus late) s =
        (some b, after)) :
    Punctual s after := by
  have hRead := readByte_punctual_or bus late s
  rw [hAnswer] at hRead
  rcases hRead with hPunctual | ⟨hNone, _hHeard, _hAway⟩
  · exact hPunctual
  · cases hNone

theorem readByte_none_timely
    (hAnswer :
      readByte (LateTarget.line bus late) s = (none, after)) :
    Timely s .timeOut after := by
  have hRead := readByte_punctual_or bus late s
  rw [hAnswer] at hRead
  rcases hRead with hPunctual | ⟨_hNone, hHeard, hAway⟩
  · exact hPunctual.timely _
  · exact ⟨[.late], hHeard, fun _ => ⟨rfl, hAway⟩⟩

end Answers

/- The receive loop returns at the first late byte. -/
theorem readLoop_timely
    (n : Nat)
    (address : UInt32)
    (data : Nat)
    (s : LateFw β σ) :
    Timely s
      (readLoop (LateTarget.line bus late) n address data s).1
      (readLoop (LateTarget.line bus late) n address data
        s).2 := by
  induction n generalizing address data s with
  | zero => exact (Punctual.of_target rfl).timely _
  | succ n ih =>
      rw [readLoop]
      rcases hAnswer :
          readByte (LateTarget.line bus late) s with
        ⟨reply, after⟩
      cases reply with
      | none =>
          have hTimely := readByte_none_timely hAnswer
          exact hTimely
      | some b =>
          exact
            ((readByte_some_punctual hAnswer).trans
              (Punctual.of_target rfl)).andThen (ih _ _ _)

theorem pdiReadByte_timely
    (address : UInt32)
    (data : UInt8)
    (s : LateFw β σ) :
    Timely s
      (pdiReadByte (LateTarget.line bus late) address data
        s).1.1
      (pdiReadByte (LateTarget.line bus late) address data
        s).2 := by
  cases hOn : s.pdiOn with
  | false =>
      rw [pdiReadByte_disabled _ hOn]
      exact (Punctual.of_target rfl).timely _
  | true =>
      rw [pdiReadByte_enabled _ hOn]
      apply (feed_punctual bus late _ s).andThen
      rcases hAnswer :
          readByte (LateTarget.line bus late)
            (feed (LateTarget.line bus late)
              (ldsFrames address) s) with
        ⟨reply, after⟩
      cases reply with
      | none =>
          have hTimely := readByte_none_timely hAnswer
          exact hTimely
      | some b =>
          exact
            ((readByte_some_punctual hAnswer).trans
              (Punctual.of_target rfl)).timely _

theorem pdiReadBytes_timely
    (start : UInt32)
    (data : Nat)
    (count : UInt16)
    (s : LateFw β σ) :
    Timely s
      (pdiReadBytes (LateTarget.line bus late) start data count
        s).1
      (pdiReadBytes (LateTarget.line bus late) start data count
        s).2 := by
  cases hOn : s.pdiOn with
  | false =>
      rw [pdiReadBytes_disabled _ hOn]
      exact (Punctual.of_target rfl).timely _
  | true =>
      rw [pdiReadBytes_enabled _ hOn]
      exact (feed_punctual bus late _ s).andThen
        (readLoop_timely bus late _ _ _ _)

theorem pdiWriteByte_punctual
    (address : UInt32)
    (data : UInt8)
    (s : LateFw β σ) :
    Punctual s
      (pdiWriteByte (LateTarget.line bus late) address data
        s).2 := by
  cases hOn : s.pdiOn with
  | false =>
      rw [pdiWriteByte_disabled _ hOn]
      exact Punctual.of_target rfl
  | true =>
      rw [pdiWriteByte_enabled _ hOn]
      exact feed_punctual bus late _ s

theorem pdiWriteRaw_punctual
    (data : Ptr)
    (count : Nat)
    (s : LateFw β σ) :
    Punctual s
      (pdiWriteRaw (LateTarget.line bus late) data count s) := by
  rw [pdiWriteRaw_eq]
  exact (feed_punctual bus late _ s).trans
    (Punctual.of_target rfl)

theorem pdiWriteBytes_punctual
    (start : UInt32)
    (data : Ptr)
    (count : UInt16)
    (s : LateFw β σ) :
    Punctual s
      (pdiWriteBytes (LateTarget.line bus late) start data
        count s).2 := by
  cases hOn : s.pdiOn with
  | false =>
      rw [pdiWriteBytes_disabled _ hOn]
      exact Punctual.of_target rfl
  | true =>
      rw [pdiWriteBytes_enabled _ hOn]
      exact (feed_punctual bus late _ s).trans
        (pdiWriteRaw_punctual bus late _ _ _)

theorem nvmCmd_punctual
    (c : UInt8)
    (s : LateFw β σ) :
    Punctual s (nvmCmd (LateTarget.line bus late) c s) :=
  pdiWriteByte_punctual bus late _ c s

theorem trigCmdex_punctual
    (s : LateFw β σ) :
    Punctual s (trigCmdex (LateTarget.line bus late) s) :=
  pdiWriteByte_punctual bus late _ _ s

theorem nvmPointer_punctual
    (c : UInt32)
    (s : LateFw β σ) :
    Punctual s (nvmPointer (LateTarget.line bus late) c s) := by
  rw [nvmPointer_eq_feed]
  exact feed_punctual bus late _ s

/- The polls end with the first one that is late. -/
theorem waitLoop_timely
    (n : Nat)
    (s : LateFw β σ) :
    ∃ events,
      (waitLoop (LateTarget.line bus late) n
          s).2.target.heard =
          s.target.heard ++ events ∧
        (LineEvent.late ∈ events →
          (waitLoop (LateTarget.line bus late) n s).1 =
              .error .timeOut ∧
            (waitLoop (LateTarget.line bus late) n
              s).2.target.decoder.Away) := by
  induction n generalizing s with
  | zero => exact ⟨[], by simp [waitLoop], by simp⟩
  | succ n ih =>
      rcases pdiReadByte_timely bus late nvmStatusReg 0 s with
        ⟨events, hHeard, hLate⟩
      rw [waitLoop]
      rcases hPoll :
          pdiReadByte (LateTarget.line bus late) nvmStatusReg 0
            s with
        ⟨⟨ret, status⟩, after⟩
      rw [hPoll] at hHeard hLate
      cases ret with
      | noError =>
          have hNone : LineEvent.late ∉ events := by
            intro hMem
            cases (hLate hMem).1
          simp only
          split
          · exact ⟨events, hHeard,
              fun hMem => absurd hMem hNone⟩
          · rcases ih after with ⟨later, hMore, hLater⟩
            refine ⟨events ++ later, ?_, ?_⟩
            · rw [hMore, hHeard, List.append_assoc]
            · intro hMem
              rcases List.mem_append.mp hMem with
                hFront | hBack
              · exact absurd hFront hNone
              · exact hLater hBack
      | timeOut =>
          exact ⟨events, hHeard,
            fun hMem => ⟨rfl, (hLate hMem).2⟩⟩
      | pdiDisabled =>
          refine ⟨events, hHeard, ?_⟩
          intro hMem
          cases (hLate hMem).1
      | invalidAddress =>
          refine ⟨events, hHeard, ?_⟩
          intro hMem
          cases (hLate hMem).1

theorem waitNvm_timely
    (s : LateFw β σ) :
    Timely s (waitNvm (LateTarget.line bus late) s).1
      (waitNvm (LateTarget.line bus late) s).2 := by
  rcases waitLoop_timely bus late 0xff s with
    ⟨events, hHeard, hLate⟩
  unfold waitNvm
  rcases hEnd :
      waitLoop (LateTarget.line bus late) 0xff s with
    ⟨outcome, after⟩
  rw [hEnd] at hHeard hLate
  cases outcome with
  | error ret =>
      refine ⟨events, hHeard, ?_⟩
      intro hMem
      rcases hLate hMem with ⟨hRet, hAway⟩
      exact ⟨Except.error.inj hRet, hAway⟩
  | ok wait =>
      have hNone : LineEvent.late ∉ events := by
        intro hMem
        cases (hLate hMem).1
      simp only
      split
      · exact ⟨events, hHeard, fun hMem => absurd hMem hNone⟩
      · exact ⟨events, hHeard, fun hMem => absurd hMem hNone⟩

/- A wait on a lost decoder times out. -/
theorem waitNvm_lost
    {s : LateFw β σ}
    (hOn : s.pdiOn = true)
    (hLost : s.target.decoder.phase = .lost) :
    (waitNvm (LateTarget.line bus late) s).1 = .timeOut ∧
      (waitNvm (LateTarget.line bus late)
        s).2.target.decoder.Away := by
  have hFed :
      (feed (LateTarget.line bus late)
        (ldsFrames nvmStatusReg) s).target.decoder.phase =
        .lost := by
    rw [Deaf.of_steps bus late
      (feed_steps (LateTarget.line bus late) s
        (ldsFrames nvmStatusReg)) hLost]
    exact hLost
  have hNothing := readByte_lost bus late hFed
  have hPoll :
      (pdiReadByte (LateTarget.line bus late) nvmStatusReg 0
        s).1 = (.timeOut, 0) := by
    rw [pdiReadByte_enabled _ hOn]
    rcases hAnswer :
        readByte (LateTarget.line bus late)
          (feed (LateTarget.line bus late)
            (ldsFrames nvmStatusReg) s) with
      ⟨reply, after⟩
    rw [hAnswer] at hNothing
    simp only at hNothing
    subst hNothing
    rfl
  constructor
  · have hTries : (0xff : Nat) = 254 + 1 := rfl
    rw [waitNvm, hTries, waitLoop]
    rcases hFirst :
        pdiReadByte (LateTarget.line bus late) nvmStatusReg 0
          s with
      ⟨first, after⟩
    rw [hFirst] at hPoll
    simp only at hPoll
    subst hPoll
    rfl
  · rw [Deaf.of_steps bus late
      (waitNvm_steps (LateTarget.line bus late) s) hLost]
    exact Or.inl hLost

/- A decoder that comes back has been sent for. -/
theorem LateTarget.dropped_of_settle
    {t : LateTarget β σ}
    (hAway : t.decoder.Away)
    (hBack : ¬ (t.settle bus late).decoder.Away) :
    ∃ n,
      (t.settle bus late).heard =
        t.heard ++ [.dropped (n + 1)] := by
  by_cases hNone : t.decoder.owed = 0
  · rw [LateTarget.settle_of_owed hNone] at hBack
    contradiction
  · simp only [LateTarget.settle, if_neg hNone] at hBack ⊢
    cases hCount : (late.delivers t.timing).1 with
    | zero =>
        rw [hCount] at hBack
        exact absurd hAway hBack
    | succ n => exact ⟨n, rfl⟩

/-
  A wait whose result is dropped, before another one.  What
  was late in the first loses the decoder for the second,
  unless it is delivered before the frame in between.
-/
theorem waitNvm_twice_timely
    {s triggered written : LateFw β σ}
    {b : UInt8}
    (hBefore : Punctual s triggered)
    (hBetween :
      Punctual
        (waitNvm (LateTarget.line bus late) triggered).2
        written)
    (hFirst :
      PdiSteps (LateTarget.line bus late)
        (sendByte (LateTarget.line bus late) b
          (waitNvm (LateTarget.line bus late) triggered).2)
        written)
    (hOn : written.pdiOn = true) :
    TimelyOrDropped s
      (waitNvm (LateTarget.line bus late) written).1
      (waitNvm (LateTarget.line bus late) written).2 := by
  rcases waitNvm_timely bus late triggered with
    ⟨events, hHeard, hLate⟩
  rcases hBefore with ⟨front, hFront, hNoneFront⟩
  by_cases hMem : LineEvent.late ∈ events
  · generalize
      (waitNvm (LateTarget.line bus late) triggered).2 = erased
      at hHeard hLate hBetween hFirst
    have hAway := (hLate hMem).2
    rcases Unbroken.of_steps bus late
        (hFirst.trans
          (waitNvm_steps (LateTarget.line bus late)
            written)) with
      ⟨rest, hRest, _hNone⟩
    rw [sendByte_heard] at hRest
    by_cases hBack : (erased.target.settle bus late).decoder.Away
    · have hIgnored :=
        ignored_of_first bus late hBack hFirst
      have hLost :
          written.target.decoder.phase = .lost := by
        rw [hIgnored]
      rcases LateTarget.settle_heard bus late
          erased.target with
        ⟨dropped, hDropped, _hAll⟩
      rw [hDropped, hHeard, hFront] at hRest
      simp only [List.append_assoc] at hRest
      exact ⟨_, hRest,
        fun _ => Or.inl (waitNvm_lost bus late hOn hLost)⟩
    · rcases LateTarget.dropped_of_settle bus late hAway hBack
        with ⟨n, hDropped⟩
      rw [hDropped, hHeard, hFront] at hRest
      simp only [List.append_assoc] at hRest
      exact ⟨_, hRest, fun _ => Or.inr ⟨n, by simp⟩⟩
  · have hThrough : Punctual s written :=
      Punctual.trans ⟨front, hFront, hNoneFront⟩
        (Punctual.trans ⟨events, hHeard, hMem⟩ hBetween)
    exact (hThrough.andThen
      (waitNvm_timely bus late written)).orDropped

/- A page write drops the result of its first wait. -/
theorem nvmPagedWrite_timely
    {s : LateFw β σ}
    (hOn : s.pdiOn = true)
    (address : UInt32)
    (data : Ptr)
    (count : UInt16)
    (mem : PagedMemory) :
    TimelyOrDropped s
      (nvmPagedWrite (LateTarget.line bus late) address data
        count mem s).1
      (nvmPagedWrite (LateTarget.line bus late) address data
        count mem s).2 := by
  have hBefore :=
    ((nvmPointer_punctual bus late address s).trans
      (nvmCmd_punctual bus late mem.eraseBufferCmd _)).trans
      (trigCmdex_punctual bus late _)
  generalize hErased :
    (waitNvm (LateTarget.line bus late)
      (trigCmdex (LateTarget.line bus late)
        (nvmCmd (LateTarget.line bus late) mem.eraseBufferCmd
          (nvmPointer (LateTarget.line bus late) address
            s)))).2 = erased
  have hErasedOn : erased.pdiOn = true := by
    rw [← hErased]
    simpa [nvmPointer_eq_feed] using hOn
  have hBetween :=
    ((((nvmCmd_punctual bus late mem.loadBufferCmd
        erased).trans
      (pdiWriteBytes_punctual bus late address data count
        _)).trans
      (nvmCmd_punctual bus late mem.eraseWriteCmd _)).trans
      (nvmPointer_punctual bus late address _)).trans
      (pdiWriteRaw_punctual bus late
        (.array
          [pdiStoreIndirect ||| (ptrDataInc <<< 2), 0x00])
        2 _)
  have hFirst :
      PdiSteps (LateTarget.line bus late)
        (sendByte (LateTarget.line bus late) 0x4C erased)
        (nvmCmd (LateTarget.line bus late) mem.loadBufferCmd
          erased) := by
    rw [nvmCmd, pdiWriteByte_enabled _ hErasedOn]
    exact feed_first _ erased rfl
  have hSteps :=
    (((hFirst.trans
      (pdiWriteBytes_steps _ _ address data count)).trans
      (nvmCmd_steps _ _ mem.eraseWriteCmd)).trans
      (nvmPointer_steps _ _ address)).trans
      (pdiWriteRaw_steps _ _
        (.array
          [pdiStoreIndirect ||| (ptrDataInc <<< 2), 0x00])
        2)
  simp only [nvmPagedWrite]
  rw [hErased]
  rw [← hErased] at hBetween hSteps ⊢
  refine waitNvm_twice_timely bus late hBefore hBetween hSteps
    ?_
  rw [hErased]
  simpa [nvmPointer_eq_feed] using hErasedOn

/-
  A call during which the target was late times out and
  leaves the decoder away from an instruction boundary,
  unless what it owed came inside the call.
-/
theorem Call.exec_late
    {s : LateFw β σ}
    (hOn : s.pdiOn = true)
    (c : Call) :
    TimelyOrDropped s (c.exec (LateTarget.line bus late) s).1.1
      (c.exec (LateTarget.line bus late) s).2 := by
  cases c with
  | pdiReadByte address =>
      exact (pdiReadByte_timely bus late address 0 s).orDropped
  | pdiWriteByte address data =>
      exact
        ((pdiWriteByte_punctual bus late _ _ s).timely
          _).orDropped
  | pdiReadBytes start data count =>
      exact
        (pdiReadBytes_timely bus late start data count
          s).orDropped
  | pdiWriteBytes start data count =>
      exact
        ((pdiWriteBytes_punctual bus late _ _ _ s).timely
          _).orDropped
  | nvmChipErase =>
      exact (((nvmCmd_punctual bus late _ s).trans
        (trigCmdex_punctual bus late _)).andThen
        (waitNvm_timely bus late _)).orDropped
  | nvmReadByte address =>
      have hRead :=
        (nvmCmd_punctual bus late cmdReadNvm s).andThen
          (pdiReadByte_timely bus late address 0 _)
      simp only [Call.exec, Lucax.nvmReadByte]
      exact hRead.orDropped
  | nvmReadBytes address data count =>
      exact ((nvmCmd_punctual bus late _ s).andThen
        (pdiReadBytes_timely bus late address data count
          _)).orDropped
  | nvmWriteByte address data mem =>
      have hWritten :=
        (nvmCmd_punctual bus late mem.writeCmd s).trans
          (pdiWriteByte_punctual bus late address data _)
      cases mem with
      | fuse =>
          exact (hWritten.andThen
            (waitNvm_timely bus late _)).orDropped
      | lock =>
          exact ((hWritten.trans
            (trigCmdex_punctual bus late _)).andThen
            (waitNvm_timely bus late _)).orDropped
  | nvmPagedWrite address data count mem =>
      have hPage :=
        nvmPagedWrite_timely bus late hOn address data count mem
      simp only [Call.exec]
      exact hPage

end Timely

------------------------------------------------------------
-- The Next Call
------------------------------------------------------------

/- What happened on the line between two states. -/
def lineEvents (s s' : LateFw β σ) : List LineEvent :=
  s'.target.heard.drop s.target.heard.length

/- Whether the first frame met an instruction boundary. -/
def firstFrame : List LineEvent → Option Bool
| [] => none
| .frame atBoundary _ :: _ => some atBoundary
| _ :: events => firstFrame events

/-
  The first instruction byte of a call goes out to a decoder
  that is at an instruction boundary.
-/
def Resynchronised
    (c : Call)
    (s : LateFw β σ) : Prop :=
  firstFrame
      (lineEvents s (c.exec (LateTarget.line bus late) s).2) =
    some true

theorem lineEvents_append
    {s s' : LateFw β σ}
    {events : List LineEvent}
    (hHeard :
      s'.target.heard = s.target.heard ++ events) :
    lineEvents s s' = events := by
  rw [lineEvents, hHeard, List.drop_left]

/- Deliveries do not hide the frame behind them. -/
theorem firstFrame_dropped
    {dropped : List LineEvent}
    (hDropped : ∀ event ∈ dropped, ∃ n, event = .dropped n)
    (atBoundary : Bool)
    (b : UInt8)
    (rest : List LineEvent) :
    firstFrame (dropped ++ .frame atBoundary b :: rest) =
      some atBoundary := by
  induction dropped with
  | nil => rfl
  | cons event dropped ih =>
      rcases hDropped event List.mem_cons_self with ⟨n, hEq⟩
      subst hEq
      exact ih fun event hMem =>
        hDropped event (List.mem_cons_of_mem _ hMem)

/- A call meets the decoder as the delivery leaves it. -/
theorem resynchronised_iff_atBoundary
    {s : LateFw β σ}
    (hOn : s.pdiOn = true)
    (c : Call) :
    Resynchronised bus late c s ↔
      (s.target.settle bus late).decoder.AtBoundary := by
  rcases c.exec_first (LateTarget.line bus late) hOn with
    ⟨b, hSteps⟩
  rcases Unbroken.of_steps bus late hSteps with
    ⟨rest, hRest, _hNone⟩
  rcases LateTarget.settle_heard bus late s.target with
    ⟨dropped, hHeard, hDropped⟩
  rw [sendByte_heard, hHeard, List.append_assoc,
    List.append_assoc] at hRest
  rw [Resynchronised, lineEvents_append hRest,
    List.cons_append, List.nil_append,
    firstFrame_dropped hDropped]
  simp

/-
  A call that the target was late in, and any call after it.
  No break is sent.  The next call begins at an instruction
  boundary iff the target has delivered all it owes before
  its first frame, and then it is the call on a target that
  owes nothing.  A call that comes too early loses the
  decoder, and the target carries out nothing of it.
-/
theorem resynchronised_iff_settled
    (hAnswers : bus.Answers)
    {s : LateFw β σ}
    (hOn : s.pdiOn = true)
    (c c' : Call)
    (hLate :
      LineEvent.late ∈
        lineEvents s
          (c.exec (LateTarget.line bus late) s).2) :
    let line := LateTarget.line bus late
    let failed := (c.exec line s).2
    let settled := failed.target.settle bus late
    let after := (c'.exec line failed).2
    (((c.exec line s).1.1 = .timeOut ∧
        failed.target.decoder.Away) ∨
      ∃ n, LineEvent.dropped (n + 1) ∈ lineEvents s failed) ∧
      LineEvent.lineBreak ∉ lineEvents failed after ∧
      (Resynchronised bus late c' failed ↔
        failed.target.Settled late) ∧
      (failed.target.Settled late →
        c'.exec line failed =
          c'.exec line { failed with target := settled }) ∧
      (failed.target.decoder.Away →
        failed.target.decoder.repetitions = 0 →
        ¬ failed.target.Settled late →
        after.target.decoder =
          { settled.decoder with phase := .lost }) := by
  intro line failed settled after
  have hStillOn : failed.pdiOn = true :=
    (c.exec_pdiOn line s).trans hOn
  refine ⟨?_, ?_, ?_, ?_, ?_⟩
  · rcases c.exec_late bus late hOn with
      ⟨events, hHeard, hEnds⟩
    rw [lineEvents_append hHeard] at hLate
    rw [lineEvents_append hHeard]
    exact hEnds hLate
  · rcases Unbroken.of_steps bus late
        (c'.exec_steps line failed) with
      ⟨events, hHeard, hNone⟩
    rw [lineEvents_append hHeard]
    exact hNone
  · rw [resynchronised_iff_atBoundary bus late hStillOn]
    exact LateTarget.settle_atBoundary_iff hAnswers
  · intro hSettled
    have hBoundary :=
      (LateTarget.settle_atBoundary_iff hAnswers).mpr hSettled
    have hNone :=
      (Decoder.opcode_iff_waits.mp hBoundary.1).2
    have hOnSettled :
        ({ failed with target := settled } :
          LateFw β σ).pdiOn = true := hStillOn
    exact c'.exec_congr line hStillOn hOnSettled
      (sendByte_settle bus late hNone)
  · intro hAway hSingle hOwes
    exact c'.exec_away bus late hStillOn
      (LateTarget.settle_away hAnswers hAway hSingle hOwes)

/- The breaks of `pdi_exit` are what no other call sends. -/
theorem pdiExit_resynchronised
    (s : LateFw β σ) :
    let after := pdiExit (LateTarget.line bus late) s
    after.target.decoder.AtBoundary ∧
      firstFrame (lineEvents s after) = some true := by
  intro after
  have hTarget :
      after.target =
        (LateTarget.line bus late).frames
          ((LateTarget.line bus late).lineBreak
            ((LateTarget.line bus late).lineBreak s.target))
          [0xC1, 0] :=
    pdiExit_target (LateTarget.line bus late) s
  have hHeard :
      ∃ rest,
        after.target.heard =
          s.target.heard ++
            .lineBreak :: .lineBreak :: .frame true 0xC1 ::
              rest := by
    rw [hTarget]
    simp only [Line.frames, List.foldl_cons, List.foldl_nil]
    rw [LateTarget.line_frame_of_owed bus late rfl,
      LateTarget.line_frame_of_owed bus late rfl]
    simp [LateTarget.line, Decoder.lineBreak,
      Decoder.AtBoundary]
  rcases hHeard with ⟨rest, hHeard⟩
  constructor
  · rw [hTarget]
    exact ⟨rfl, rfl⟩
  · rw [lineEvents_append hHeard]
    rfl

/-
  Late as often as the list says, then never again, with `n`
  owed bytes before every frame.
-/
def lateList (n : Nat) : Lateness (List Bool) where
  holds
  | [] => (false, [])
  | late :: rest => (late, rest)
  delivers rest := (n, rest)

/- A session with a target late with its second byte. -/
def lateSession : LateFw Unit (List Bool) :=
  { Fw.powerOn
      { decoder := Decoder.initial ()
        timing := [false, true]
        heard := [] } with
    pdiOn := true }

/-
  The second byte of two comes between the calls.  The byte
  write that follows meets an instruction boundary, and the
  target stores.
-/
theorem resynchronised_iff_settled_inBetween :
    let line := LateTarget.line zeroBus (lateList 1)
    let c := Call.pdiReadBytes 0x01000000 0 2
    let c' := Call.pdiWriteByte 0x01000000 0xAA
    let failed := (c.exec line lateSession).2
    (c.exec line lateSession).1.1 = .timeOut ∧
      Resynchronised zeroBus (lateList 1) c' failed ∧
      (c'.exec line failed).2.target.decoder.log =
        [.load 0x01000000 (some 0), .load 0x01000001 (some 0),
          .store 0x01000000 0xAA] := by
  have hCalls :=
    resynchronised_iff_settled zeroBus (lateList 1)
      (fun _ _ => rfl) (s := lateSession) rfl
      (.pdiReadBytes 0x01000000 0 2)
      (.pdiWriteByte 0x01000000 0xAA) (by decide)
  refine ⟨by decide, hCalls.2.2.1.mpr ?_, by decide⟩
  exact ⟨Or.inr (by decide), by decide, by decide⟩

/-
  The second byte stays out.  The byte write that follows
  returns no error, and the target never stores.
-/
theorem write_lost_after_late :
    let line := LateTarget.line zeroBus (lateList 0)
    let failed :=
      (Call.exec line (.pdiReadBytes 0x01000000 0 2)
        lateSession)
    let after :=
      Call.exec line (.pdiWriteByte 0x01000000 0xAA) failed.2
    failed.1.1 = .timeOut ∧
      after.1.1 = .noError ∧
      ¬ Resynchronised zeroBus (lateList 0)
        (.pdiWriteByte 0x01000000 0xAA) failed.2 ∧
      after.2.target.decoder.log =
        [.load 0x01000000 (some 0)] := by
  refine ⟨by decide, by decide, ?_, by decide⟩
  rw [Resynchronised]
  decide

end Lucax
