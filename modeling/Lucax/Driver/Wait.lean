import Lucax.Driver.Nvm

/-
  The answers of a target to status reads, and what
  `wait_nvm` makes of them.

  Key definitions include:
    * `Line.poll`, `Line.status`
    * `Line.BusyAt`, `Line.ClearAt`
    * `Line.EndsWell`, `Line.waited`
    * `statusRead`, `WaitsRight`

  Main declarations:
    * `waitLoop_cases`, `waitNvm_target`
    * `waitNvm_noError_iff`
    * `waitsRight_iff`
-/

------------------------------------------------------------
-- Status Replies
------------------------------------------------------------

namespace Lucax

variable {τ : Type}

/- A status read as the target sees it. -/
def Line.poll
    (line : Line τ)
    (t : τ) : Option UInt8 × τ :=
  line.reply (line.frames t (ldsFrames nvmStatusReg))

/- The target after `k` status reads. -/
def Line.polled
    (line : Line τ) : Nat → τ → τ
| 0, t => t
| k + 1, t => Line.polled line k (line.poll t).2

/- The answer to the status read after `k` others. -/
def Line.status
    (line : Line τ)
    (t : τ)
    (k : Nat) : Option UInt8 :=
  (line.poll (line.polled k t)).1

/- `(status & (1<<7)) == 0` -/
def isClear (status : UInt8) : Bool :=
  status &&& ((1 : UInt8) <<< 7) = 0

def Line.BusyAt
    (line : Line τ)
    (t : τ)
    (k : Nat) : Prop :=
  (line.status t k).any (fun status => !isClear status)

def Line.ClearAt
    (line : Line τ)
    (t : τ)
    (k : Nat) : Prop :=
  (line.status t k).any isClear

/-
  The wait sees the flag clear before its last poll, or it
  runs out with all its polls answered and busy.
-/
def Line.EndsWell
    (line : Line τ)
    (t : τ) : Prop :=
  (∃ k < 254, line.ClearAt t k ∧ ∀ j < k, line.BusyAt t j) ∨
    ∀ j < 255, line.BusyAt t j

/- The target after a wait of at most `n` polls. -/
def Line.waited
    (line : Line τ) : Nat → τ → τ
| 0, t => t
| n + 1, t =>
    match line.poll t with
    | (none, t) => t
    | (some status, t) =>
        if isClear status then t else Line.waited line n t

section Polls

variable (line : Line τ)

@[simp] theorem Line.status_zero
    (t : τ) :
    line.status t 0 = (line.poll t).1 := rfl

@[simp] theorem Line.status_succ
    (t : τ)
    (k : Nat) :
    line.status t (k + 1) = line.status (line.poll t).2 k :=
  rfl

/- A busy poll before busy polls. -/
theorem Line.busyAt_below_succ
    {t : τ}
    {k : Nat}
    (hHead : line.BusyAt t 0)
    (hTail : ∀ j < k, line.BusyAt (line.poll t).2 j) :
    ∀ j < k + 1, line.BusyAt t j := by
  intro j hj
  cases j with
  | zero => exact hHead
  | succ j =>
      apply hTail
      omega

variable {s : Fw τ}

theorem pdiReadByte_poll_none
    (hOn : s.pdiOn = true)
    (hPoll : (line.poll s.target).1 = none) :
    (pdiReadByte line nvmStatusReg 0 s).1 =
      (.timeOut, 0) := by
  have hAnswer :=
    readByte_answer line
      (feed line (ldsFrames nvmStatusReg) s)
  rw [feed_target] at hAnswer
  rw [pdiReadByte_enabled line hOn]
  split
  · rfl
  · rename_i b after hRead
    rw [hRead] at hAnswer
    simp only [Line.poll] at hPoll
    rw [← hAnswer] at hPoll
    cases hPoll

theorem pdiReadByte_poll_some
    (hOn : s.pdiOn = true)
    {b : UInt8}
    (hPoll : (line.poll s.target).1 = some b) :
    ∃ after : Fw τ,
      pdiReadByte line nvmStatusReg 0 s =
          ((.noError, b), after) ∧
        after.target = (line.poll s.target).2 ∧
        after.pdiOn = true := by
  have hAnswer :=
    readByte_answer line
      (feed line (ldsFrames nvmStatusReg) s)
  have hTarget :=
    readByte_target line
      (feed line (ldsFrames nvmStatusReg) s)
  have hFlag :=
    readByte_pdiOn line
      (feed line (ldsFrames nvmStatusReg) s)
  rw [feed_target] at hAnswer hTarget
  rw [feed_pdiOn, hOn] at hFlag
  simp only [Line.poll] at hPoll
  rw [pdiReadByte_enabled line hOn]
  split
  · rename_i after hRead
    rw [hRead] at hAnswer
    rw [← hAnswer] at hPoll
    cases hPoll
  · rename_i c after hRead
    rw [hRead] at hAnswer hTarget hFlag
    rw [← hAnswer] at hPoll
    cases hPoll
    exact ⟨_, rfl, hTarget, hFlag⟩

------------------------------------------------------------
-- The Wait
------------------------------------------------------------

/-
  The loop entered with the counter at `n`: it ends at the
  first clear status, at the first read that fails, or with
  the counter wrapped.
-/
theorem waitLoop_cases
    (hOn : s.pdiOn = true)
    (n : Nat) :
    (∃ k < n,
        line.ClearAt s.target k ∧
          (∀ j < k, line.BusyAt s.target j) ∧
          (waitLoop line n s).1 =
            .ok (UInt8.ofNat (n - 1 - k))) ∨
      (∃ k < n,
        line.status s.target k = none ∧
          (∀ j < k, line.BusyAt s.target j) ∧
          (waitLoop line n s).1 = .error .timeOut) ∨
      ((∀ j < n, line.BusyAt s.target j) ∧
        (waitLoop line n s).1 = .ok 255) := by
  induction n generalizing s with
  | zero =>
      right
      right
      exact ⟨fun j hj => absurd hj (Nat.not_lt_zero j), rfl⟩
  | succ n ih =>
      cases hPoll : (line.poll s.target).1 with
      | none =>
          have hRead := pdiReadByte_poll_none line hOn hPoll
          right
          left
          refine ⟨0, by omega, hPoll, by omega, ?_⟩
          rw [waitLoop]
          split
          · rename_i status after hOut
            rw [hOut] at hRead
            cases hRead
          · rename_i ret status after hFailed hOut
            rw [hOut] at hRead
            cases hRead
            rfl
      | some b =>
          rcases pdiReadByte_poll_some line hOn hPoll with
            ⟨after, hRead, hTarget, hOnAfter⟩
          rw [waitLoop, hRead]
          by_cases hClear : isClear b = true
          · left
            refine ⟨0, by omega, ?_, by omega, ?_⟩
            · simp [Line.ClearAt, hPoll, hClear]
            · have hBit :
                  b &&& ((1 : UInt8) <<< 7) = 0 := by
                simpa [isClear] using hClear
              simp [hBit]
          · have hHead : line.BusyAt s.target 0 := by
              simp [Line.BusyAt, hPoll, hClear]
            have hBit :
                ¬ b &&& ((1 : UInt8) <<< 7) = 0 := by
              simpa [isClear] using hClear
            simp only [hBit, if_false]
            rcases ih hOnAfter with
              ⟨k, hk, hClearAt, hBefore, hEnd⟩ |
              ⟨k, hk, hNone, hBefore, hEnd⟩ |
              ⟨hAll, hEnd⟩
            all_goals
              rw [hTarget] at *
            · left
              refine ⟨k + 1, by omega, hClearAt,
                line.busyAt_below_succ hHead hBefore, ?_⟩
              have hLeft : n + 1 - 1 - (k + 1) = n - 1 - k := by
                omega
              rw [hEnd, hLeft]
            · right
              left
              exact ⟨k + 1, by omega, hNone,
                line.busyAt_below_succ hHead hBefore, hEnd⟩
            · right
              right
              exact ⟨line.busyAt_below_succ hHead hAll, hEnd⟩

theorem pdiReadByte_poll_target
    (hOn : s.pdiOn = true) :
    (pdiReadByte line nvmStatusReg 0 s).2.target =
      (line.poll s.target).2 := by
  have hTarget :=
    readByte_target line
      (feed line (ldsFrames nvmStatusReg) s)
  rw [feed_target] at hTarget
  rw [pdiReadByte_enabled line hOn]
  split
  all_goals
    rename_i hRead
    rw [hRead] at hTarget
    exact hTarget

/- The wait sends its polls and nothing else. -/
theorem waitLoop_target
    (hOn : s.pdiOn = true)
    (n : Nat) :
    (waitLoop line n s).2.target = line.waited n s.target := by
  induction n generalizing s with
  | zero => rfl
  | succ n ih =>
      have hTarget := pdiReadByte_poll_target line hOn
      rw [waitLoop, Line.waited]
      rcases hPoll : line.poll s.target with ⟨reply, t⟩
      rw [hPoll] at hTarget
      cases reply with
      | none =>
          have hRead :=
            pdiReadByte_poll_none line hOn (by rw [hPoll])
          split
          · rename_i status after hOut
            rw [hOut] at hRead
            cases hRead
          · rename_i ret status after hFailed hOut
            rw [hOut] at hTarget
            exact hTarget
      | some b =>
          rcases pdiReadByte_poll_some line hOn
              (by rw [hPoll]) with
            ⟨after, hRead, _hSame, hOnAfter⟩
          rw [hRead] at hTarget ⊢
          simp only at hTarget ⊢
          by_cases hBit : b &&& ((1 : UInt8) <<< 7) = 0
          · simp only [isClear, hBit, if_true, decide_true]
            exact hTarget
          · simp only [isClear, hBit, if_false, decide_false,
              Bool.false_eq_true]
            rw [ih hOnAfter, hTarget]

theorem waitNvm_target
    (hOn : s.pdiOn = true) :
    (waitNvm line s).2.target = line.waited 0xff s.target := by
  rw [← waitLoop_target line hOn, waitNvm]
  rcases waitLoop line 0xff s with ⟨outcome, after⟩
  cases outcome with
  | error ret => rfl
  | ok wait =>
      simp only
      split
      · rfl
      · rfl

/- A poll shows one of the two states, or fails. -/
theorem Line.not_busyAt_of_clearAt
    {t : τ}
    {k : Nat}
    (hClear : line.ClearAt t k) :
    ¬ line.BusyAt t k := by
  unfold Line.ClearAt at hClear
  unfold Line.BusyAt
  cases hStatus : line.status t k with
  | none => simp
  | some b => simpa [hStatus] using hClear

theorem Line.not_busyAt_of_none
    {t : τ}
    {k : Nat}
    (hNone : line.status t k = none) :
    ¬ line.BusyAt t k := by
  simp [Line.BusyAt, hNone]

theorem Line.not_clearAt_of_none
    {t : τ}
    {k : Nat}
    (hNone : line.status t k = none) :
    ¬ line.ClearAt t k := by
  simp [Line.ClearAt, hNone]

/- The first place where `P` fails is a single one. -/
theorem first_end_unique
    {P : Nat → Prop}
    {j k : Nat}
    (hEndJ : ¬ P j)
    (hBeforeJ : ∀ i < j, P i)
    (hEndK : ¬ P k)
    (hBeforeK : ∀ i < k, P i) :
    j = k := by
  rcases Nat.lt_trichotomy j k with hLess | hEq | hMore
  · exact absurd (hBeforeK j hLess) hEndJ
  · exact hEq
  · exact absurd (hBeforeJ k hMore) hEndK

/-
  `wait_nvm` reports success exactly when the status polls
  end well, in an open session.
-/
theorem waitNvm_noError_iff
    (hOn : s.pdiOn = true) :
    (waitNvm line s).1 = .noError ↔
      line.EndsWell s.target := by
  have hCases := waitLoop_cases line hOn 255
  rcases hLoop : waitLoop line 0xff s with ⟨left, after⟩
  rw [hLoop] at hCases
  unfold waitNvm
  rw [hLoop]
  rcases hCases with
    ⟨k, hk, hClear, hBefore, hEnd⟩ |
    ⟨k, hk, hNone, hBefore, hEnd⟩ |
    ⟨hAll, hEnd⟩
  · subst hEnd
    have hNotBusy := line.not_busyAt_of_clearAt hClear
    by_cases hLast : k = 254
    · subst hLast
      constructor
      · intro hResult
        cases hResult
      · rintro (⟨j, hj, hClearJ, hBeforeJ⟩ | hAll)
        · have hSame :=
            first_end_unique (P := line.BusyAt s.target) hNotBusy
              hBefore (line.not_busyAt_of_clearAt hClearJ) hBeforeJ
          omega
        · exact absurd (hAll 254 (by omega)) hNotBusy
    · have hWait : UInt8.ofNat (255 - 1 - k) ≠ 0 := by
        intro hZero
        have hNat := congrArg UInt8.toNat hZero
        simp only [UInt8.toNat_ofNat', UInt8.toNat_zero]
          at hNat
        omega
      simp only [hWait, if_false, true_iff]
      left
      exact ⟨k, by omega, hClear, hBefore⟩
  · subst hEnd
    have hNotBusy := line.not_busyAt_of_none hNone
    constructor
    · intro hResult
      cases hResult
    · rintro (⟨j, hj, hClearJ, hBeforeJ⟩ | hAll)
      · have hSame :=
          first_end_unique (P := line.BusyAt s.target) hNotBusy
            hBefore (line.not_busyAt_of_clearAt hClearJ) hBeforeJ
        subst hSame
        exact absurd hClearJ (line.not_clearAt_of_none hNone)
      · exact absurd (hAll k hk) hNotBusy
  · subst hEnd
    constructor
    · intro _hResult
      exact Or.inr hAll
    · intro _hEnds
      rfl

end Polls

------------------------------------------------------------
-- Results of the Wait
------------------------------------------------------------

/- What the status read after `k` others returns. -/
def statusRead
    (line : Line τ)
    (s : Fw τ)
    (k : Nat) : Except PdiResult UInt8 :=
  if s.pdiOn = false then .error .pdiDisabled
  else
    match line.status s.target k with
    | none => .error .timeOut
    | some status => .ok status

def Succeeds (read : Except PdiResult UInt8) : Prop :=
  ∃ status, read = .ok status

def ShowsBusy (read : Except PdiResult UInt8) : Prop :=
  ∃ status, read = .ok status ∧ isClear status = false

def ShowsClear (read : Except PdiResult UInt8) : Prop :=
  ∃ status, read = .ok status ∧ isClear status = true

/-
  What `wait_nvm` should return.  Among reads that succeed
  only 255 busy ones are a time-out; a read that fails ends
  the wait with its own result.
-/
structure WaitsRight
    (line : Line τ)
    (s : Fw τ) : Prop where
  noError :
    (waitNvm line s).1 = .noError ↔
      ∃ k < 255,
        ShowsClear (statusRead line s k) ∧
          ∀ j < k, Succeeds (statusRead line s j)
  failed :
    ∀ k < 255, ∀ r,
      statusRead line s k = .error r →
        (∀ j < k, ShowsBusy (statusRead line s j)) →
          (waitNvm line s).1 = r
  timeOut :
    (∀ k < 255,
        (∀ j < k, ShowsBusy (statusRead line s j)) →
          Succeeds (statusRead line s k)) →
      ((waitNvm line s).1 = .timeOut ↔
        ∀ k < 255, ShowsBusy (statusRead line s k))

theorem ShowsBusy.succeeds
    {read : Except PdiResult UInt8}
    (hBusy : ShowsBusy read) :
    Succeeds read := by
  rcases hBusy with ⟨status, hRead, _hSet⟩
  exact ⟨status, hRead⟩

theorem ShowsClear.succeeds
    {read : Except PdiResult UInt8}
    (hClear : ShowsClear read) :
    Succeeds read := by
  rcases hClear with ⟨status, hRead, _hClear⟩
  exact ⟨status, hRead⟩

theorem ShowsClear.not_busy
    {read : Except PdiResult UInt8}
    (hClear : ShowsClear read) :
    ¬ ShowsBusy read := by
  rcases hClear with ⟨status, hRead, hBit⟩
  rintro ⟨other, hOther, hSet⟩
  rw [hRead] at hOther
  cases hOther
  rw [hBit] at hSet
  cases hSet

section Errors

variable {read : Except PdiResult UInt8} {r : PdiResult}

theorem not_succeeds_of_error
    (hFails : read = .error r) :
    ¬ Succeeds read := by
  rintro ⟨status, hRead⟩
  rw [hFails] at hRead
  cases hRead

theorem not_busy_of_error
    (hFails : read = .error r) :
    ¬ ShowsBusy read :=
  fun hBusy => not_succeeds_of_error hFails hBusy.succeeds

end Errors

section Results

variable (line : Line τ) (s : Fw τ)

/- A read does not fail with `NO_ERROR`. -/
theorem statusRead_error
    {k : Nat}
    {r : PdiResult}
    (hFails : statusRead line s k = .error r) :
    r ≠ .noError := by
  unfold statusRead at hFails
  rintro rfl
  split at hFails
  · cases hFails
  · split at hFails
    · cases hFails
    · cases hFails

/- How a wait ends, by the first read that is not busy. -/
theorem waitNvm_cases :
    (∃ k < 255,
        ShowsClear (statusRead line s k) ∧
          (∀ j < k, ShowsBusy (statusRead line s j)) ∧
          (waitNvm line s).1 =
            if k = 254 then .timeOut else .noError) ∨
      (∃ k < 255, ∃ r,
        statusRead line s k = .error r ∧
          (∀ j < k, ShowsBusy (statusRead line s j)) ∧
          (waitNvm line s).1 = r) ∨
      ((∀ k < 255, ShowsBusy (statusRead line s k)) ∧
        (waitNvm line s).1 = .noError) := by
  cases hOn : s.pdiOn with
  | false =>
      right
      left
      refine ⟨0, by omega, .pdiDisabled, ?_, by omega, ?_⟩
      · simp [statusRead, hOn]
      · rw [waitNvm_disabled line hOn]
  | true =>
      have hBusy :
          ∀ k, line.BusyAt s.target k →
            ShowsBusy (statusRead line s k) := by
        intro k hBusyAt
        unfold Line.BusyAt at hBusyAt
        cases hStatus : line.status s.target k with
        | none => simp [hStatus] at hBusyAt
        | some status =>
            refine ⟨status, ?_, ?_⟩
            · simp [statusRead, hOn, hStatus]
            · simpa [hStatus] using hBusyAt
      have hCases := waitLoop_cases line hOn 255
      rcases hLoop : waitLoop line 0xff s with ⟨left, after⟩
      rw [hLoop] at hCases
      unfold waitNvm
      rw [hLoop]
      rcases hCases with
        ⟨k, hk, hClear, hBefore, hEnd⟩ |
        ⟨k, hk, hNone, hBefore, hEnd⟩ |
        ⟨hAll, hEnd⟩
      · subst hEnd
        left
        refine ⟨k, hk, ?_, fun j hj => hBusy j (hBefore j hj),
          ?_⟩
        · unfold Line.ClearAt at hClear
          cases hStatus : line.status s.target k with
          | none => simp [hStatus] at hClear
          | some status =>
              refine ⟨status, ?_, ?_⟩
              · simp [statusRead, hOn, hStatus]
              · simpa [hStatus] using hClear
        · by_cases hLast : k = 254
          · subst hLast
            rfl
          · have hWait : UInt8.ofNat (255 - 1 - k) ≠ 0 := by
              intro hZero
              have hNat := congrArg UInt8.toNat hZero
              simp only [UInt8.toNat_ofNat', UInt8.toNat_zero]
                at hNat
              omega
            simp only [hWait, hLast, if_false]
      · subst hEnd
        right
        left
        refine ⟨k, hk, .timeOut, ?_,
          fun j hj => hBusy j (hBefore j hj), rfl⟩
        simp [statusRead, hOn, hNone]
      · subst hEnd
        right
        right
        exact ⟨fun k hk => hBusy k (hAll k hk), rfl⟩

/- The counter is zero behind a break at the last poll. -/
theorem not_waitsRight_of_lastClear
    (hBefore : ∀ k < 254, ShowsBusy (statusRead line s k))
    (hClear : ShowsClear (statusRead line s 254)) :
    ¬ WaitsRight line s := by
  intro hRight
  have hNoError : (waitNvm line s).1 = .noError :=
    hRight.noError.mpr
      ⟨254, by omega, hClear,
        fun j hj => (hBefore j hj).succeeds⟩
  rcases waitNvm_cases line s with
    ⟨k, hk, hClearK, _hBusy, hEnd⟩ |
    ⟨k, hk, r, hFails, _hBusy, _hEnd⟩ |
    ⟨hAll, _hEnd⟩
  · by_cases hSame : k = 254
    · rw [hEnd, if_pos hSame] at hNoError
      cases hNoError
    · exact hClearK.not_busy (hBefore k (by omega))
  · by_cases hSame : k = 254
    · subst hSame
      exact not_succeeds_of_error hFails hClear.succeeds
    · exact
        not_busy_of_error hFails (hBefore k (by omega))
  · exact hClear.not_busy (hAll 254 (by omega))

/- It is 255 behind 255 busy polls. -/
theorem not_waitsRight_of_allBusy
    (hAll : ∀ k < 255, ShowsBusy (statusRead line s k)) :
    ¬ WaitsRight line s := by
  intro hRight
  have hTimeOut : (waitNvm line s).1 = .timeOut :=
    (hRight.timeOut
      (fun k hk _hBusy => (hAll k hk).succeeds)).mpr hAll
  rcases waitNvm_cases line s with
    ⟨k, hk, hClearK, _hBusy, _hEnd⟩ |
    ⟨k, hk, r, hFails, _hBusy, _hEnd⟩ |
    ⟨_hAll, hEnd⟩
  · exact hClearK.not_busy (hAll k hk)
  · exact not_busy_of_error hFails (hAll k hk)
  · rw [hEnd] at hTimeOut
    cases hTimeOut

section First

variable
  {line : Line τ}
  {s : Fw τ}
  {k : Nat}
  (hBefore : ∀ j < k, ShowsBusy (statusRead line s j))

include hBefore

/- The busy reads end at the first failure, if one is there. -/
theorem eq_of_error
    {j : Nat}
    {r : PdiResult}
    (hNotBusy : ¬ ShowsBusy (statusRead line s k))
    (hFails : statusRead line s j = .error r)
    (hBeforeJ : ∀ i < j, ShowsBusy (statusRead line s i)) :
    k = j :=
  first_end_unique
    (P := fun i => ShowsBusy (statusRead line s i))
    hNotBusy hBefore (not_busy_of_error hFails) hBeforeJ

/- A clear status behind busy ones. -/
theorem waitsRight_of_clear
    (hk : k < 255)
    (hClear : ShowsClear (statusRead line s k))
    (hEnd : (waitNvm line s).1 = .noError) :
    WaitsRight line s := by
  constructor
  · constructor
    · intro _hNoError
      exact ⟨k, hk, hClear,
        fun j hj => (hBefore j hj).succeeds⟩
    · intro _hClear
      exact hEnd
  · intro j _hj r hFails hBeforeJ
    have hSame :=
      eq_of_error hBefore hClear.not_busy hFails hBeforeJ
    rw [← hSame] at hFails
    exact absurd hClear.succeeds (not_succeeds_of_error hFails)
  · intro _hGood
    rw [hEnd]
    constructor
    · intro hTimeOut
      cases hTimeOut
    · intro hAll
      exact absurd (hAll k hk) hClear.not_busy

/- A failed read behind busy ones. -/
theorem waitsRight_of_error
    {r : PdiResult}
    (hk : k < 255)
    (hFails : statusRead line s k = .error r)
    (hEnd : (waitNvm line s).1 = r) :
    WaitsRight line s := by
  have hNotGood := not_succeeds_of_error hFails
  constructor
  · constructor
    · intro hNoError
      rw [hEnd] at hNoError
      exact absurd hNoError (statusRead_error line s hFails)
    · rintro ⟨j, _hj, hClear, hGood⟩
      rcases Nat.lt_trichotomy j k with hLess | hEq | hMore
      · exact absurd (hBefore j hLess) hClear.not_busy
      · rw [hEq] at hClear
        exact absurd hClear.succeeds hNotGood
      · exact absurd (hGood k hMore) hNotGood
  · intro j _hj r' hFailsJ hBeforeJ
    have hSame :=
      eq_of_error hBefore (not_busy_of_error hFails) hFailsJ
        hBeforeJ
    rw [← hSame, hFails] at hFailsJ
    cases hFailsJ
    exact hEnd
  · intro hGood
    exact absurd (hGood k hk hBefore) hNotGood

end First

/-
  `wait_nvm` is right exactly when it does not come down to
  the last poll: the counter is zero after a break there and
  255 after exhaustion.
-/
theorem waitsRight_iff :
    WaitsRight line s ↔
      ¬ ((∀ k < 254, ShowsBusy (statusRead line s k)) ∧
        Succeeds (statusRead line s 254)) := by
  constructor
  · rintro hRight ⟨hBefore, status, hLast⟩
    cases hBit : isClear status with
    | true =>
        exact
          not_waitsRight_of_lastClear line s hBefore
            ⟨status, hLast, hBit⟩ hRight
    | false =>
        have hAll :
            ∀ k < 255, ShowsBusy (statusRead line s k) := by
          intro k hk
          by_cases hSame : k = 254
          · subst hSame
            exact ⟨status, hLast, hBit⟩
          · exact hBefore k (by omega)
        exact not_waitsRight_of_allBusy line s hAll hRight
  · intro hNotLast
    rcases waitNvm_cases line s with
      ⟨k, hk, hClear, hBefore, hEnd⟩ |
      ⟨k, hk, r, hFails, hBefore, hEnd⟩ |
      ⟨hAll, _hEnd⟩
    · have hEarly : k ≠ 254 := by
        rintro rfl
        exact hNotLast ⟨hBefore, hClear.succeeds⟩
      rw [if_neg hEarly] at hEnd
      exact waitsRight_of_clear hBefore hk hClear hEnd
    · exact waitsRight_of_error hBefore hk hFails hEnd
    · have hLast := (hAll 254 (by omega)).succeeds
      exact absurd
        ⟨fun k hk => hAll k (by omega), hLast⟩ hNotLast

end Results

/- A target whose `NVMBUSY` stays set. -/
def alwaysBusy : Line Unit where
  frame := fun t _ => t
  reply := fun t => (some 0x80, t)
  lineBreak := fun t => t

/- An open session with that target. -/
def busySession : Fw Unit :=
  { Fw.powerOn () with pdiOn := true }

/- 255 busy polls are reported as success. -/
theorem not_waitsRight_alwaysBusy :
    (waitNvm alwaysBusy busySession).1 = .noError ∧
      ¬ WaitsRight alwaysBusy busySession := by
  have hResult :
      (waitNvm alwaysBusy busySession).1 = .noError := by
    decide +kernel
  refine ⟨hResult, ?_⟩
  intro hRight
  have hAll :
      ∀ k < 255,
        ShowsBusy (statusRead alwaysBusy busySession k) := by
    intro k _hk
    exact ⟨0x80, rfl, rfl⟩
  have hTimeOut :=
    (hRight.timeOut
      (fun k hk _hBusy => (hAll k hk).succeeds)).mpr hAll
  rw [hResult] at hTimeOut
  cases hTimeOut

end Lucax
