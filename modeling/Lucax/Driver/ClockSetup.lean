import Lucax.Driver.Transmitter

/-
  The arithmetic of `pdi_init`: character length, baud rate
  register and the delay loops counted with them, for every
  clock the firmware may be built for.

  Key definitions include:
    * `divide`, `Clock`, `clockSetup`
    * `delayCounter`, `DelayEnds`
    * `ClockSound`

  Main declarations:
    * `delayEnds_iff`
    * `pdiInit_clock`
    * `clockSound_of_host`
    * `clockSound_iff`
-/

------------------------------------------------------------
-- Set-Up
------------------------------------------------------------

namespace Lucax

/- A division of the source, `none` for one by zero. -/
def divide (n d : Nat) : Option Nat :=
  if d = 0 then none else some (n / d)

/-
  What `pdi_init` computes before it sends anything: the
  character length, the argument of `usart_setup` and the
  value it writes to `UBRR1`.
-/
structure Clock where
  charUs : UInt16
  ubrr : UInt16
  ubrr1 : UInt16
deriving DecidableEq, Repr

/-
  The first statements of `pdi_init` for `F_CPU = fCpu`.  There
  is no check of `freq_khz`.
-/
def clockSetup
    (fCpu : Nat)
    (freqKhz : UInt16) : Option Clock :=
  (divide 12000 freqKhz.toNat).bind fun charUs =>
    (divide (fCpu / 2000) freqKhz.toNat).map fun brr =>
      let ubrr := UInt16.ofNat brr
      { charUs := UInt16.ofNat charUs
        ubrr := ubrr
        ubrr1 := (ubrr &&& 0xFFFF) - 1 }

section Setup

variable {fCpu : Nat} {freqKhz : UInt16}

theorem clockSetup_zero :
    clockSetup fCpu 0 = none := rfl

theorem clockSetup_of_ne
    (hSome : freqKhz ≠ 0) :
    clockSetup fCpu freqKhz =
      some
        { charUs := UInt16.ofNat (12000 / freqKhz.toNat)
          ubrr := UInt16.ofNat (fCpu / 2000 / freqKhz.toNat)
          ubrr1 :=
            (UInt16.ofNat (fCpu / 2000 / freqKhz.toNat) &&&
              0xFFFF) - 1 } := by
  have hNat : freqKhz.toNat ≠ 0 := by
    intro hZero
    exact hSome (UInt16.toNat_inj.mp hZero)
  rw [clockSetup, divide, if_neg hNat, divide, if_neg hNat]
  rfl

end Setup

------------------------------------------------------------
-- The Session's Clock
------------------------------------------------------------

section Session

variable {τ : Type}

/- The clock is as it was set up. -/
structure SameClock (s s' : Fw τ) : Prop where
  charUs : s'.charUs = s.charUs
  ubrr1 : s'.ubrr1 = s.ubrr1

namespace SameClock

variable (line : Line τ)

theorem refl (s : Fw τ) : SameClock s s := ⟨rfl, rfl⟩

theorem trans
    {s s' s'' : Fw τ}
    (hFirst : SameClock s s')
    (hSecond : SameClock s' s'') :
    SameClock s s'' :=
  ⟨hSecond.charUs.trans hFirst.charUs,
    hSecond.ubrr1.trans hFirst.ubrr1⟩

theorem sendByte
    (b : UInt8)
    (s : Fw τ) :
    SameClock s (sendByte line b s) := by
  unfold Lucax.sendByte
  split
  · exact ⟨rfl, rfl⟩
  · exact ⟨rfl, rfl⟩

theorem readByte
    (s : Fw τ) :
    SameClock s (readByte line s).2 := by
  unfold Lucax.readByte
  split
  · exact ⟨rfl, rfl⟩
  · exact ⟨rfl, rfl⟩

theorem sendIdle
    (s : Fw τ) :
    SameClock s (sendIdle s) := by
  unfold Lucax.sendIdle usartWaitTx
  split
  · exact ⟨rfl, rfl⟩
  · exact ⟨rfl, rfl⟩

theorem sendIdles
    (n : Nat)
    (s : Fw τ) :
    SameClock s (sendIdles n s) := by
  induction n generalizing s with
  | zero => exact refl s
  | succ n ih => exact (sendIdle s).trans (ih _)

theorem feed
    (bytes : List UInt8)
    (s : Fw τ) :
    SameClock s (feed line bytes s) := by
  induction bytes generalizing s with
  | nil => exact refl s
  | cons b bytes ih => exact (sendByte line b s).trans (ih _)

theorem pollNvmen
    (retry : Nat)
    (s : Fw τ) :
    SameClock s (pollNvmen line retry s).2 := by
  induction retry generalizing s with
  | zero => exact refl s
  | succ retry ih =>
      rw [Lucax.pollNvmen]
      have hAsked :=
        (sendByte line (pdiLoadControlReg ||| pdiStatusReg)
          s).trans (readByte line _)
      revert hAsked
      rcases
          Lucax.readByte line
            (Lucax.sendByte line
              (pdiLoadControlReg ||| pdiStatusReg) s) with
        ⟨answer, after⟩
      intro hAsked
      cases answer with
      | none => exact hAsked
      | some status =>
          simp only
          split
          · exact hAsked
          · exact
              (hAsked.trans (sendIdles 2 after)).trans (ih _)

end SameClock

/- The state of `pdi_init` once the clock is set up. -/
def clocked
    (freqKhz : UInt16)
    (s : Fw τ) : Fw τ :=
  usartSetup (UInt16.ofNat (baudDivisor freqKhz))
    { s with
      charUs := charLength freqKhz
      pdiPort := s.pdiPort &&& ~~~(txPin ||| rxPin ||| clkPin)
      pdiDdr :=
        (s.pdiDdr &&& ~~~rxPin) ||| (clkPin ||| txPin) }

/- The rest of `pdi_init` leaves the clock alone. -/
theorem pdiInit_sameClock
    (line : Line τ)
    (freqKhz : UInt16)
    (s : Fw τ) :
    SameClock (clocked freqKhz s)
      (pdiInit line freqKhz s).2 := by
  let ready : Fw τ :=
    pinDefaultState
      (usartTxMode
        { clocked freqKhz s with
          pdiPort := (clocked freqKhz s).pdiPort ||| txPin })
  let controlled : Fw τ :=
    feed line [pdiStoreControlReg ||| pdiCtrlReg, 0x03]
      (sendIdles 2 ready)
  let reset : Fw τ :=
    feed line
      [pdiStoreControlReg ||| pdiResetReg, pdiResetSignature]
      (sendIdle controlled)
  let keyed : Fw τ :=
    feed line
      [pdiKey, 0xFF, 0x88, 0xD8, 0xCD, 0x45, 0xAB, 0x89, 0x12]
      (sendIdle reset)
  have hConnected :
      runOps line (connectOps freqKhz) s = sendIdles 2 keyed :=
    rfl
  have hReady : SameClock (clocked freqKhz s) ready :=
    ⟨rfl, rfl⟩
  have hControlled : SameClock ready controlled :=
    (SameClock.sendIdles 2 ready).trans
      (SameClock.feed line _ _)
  have hReset : SameClock controlled reset :=
    (SameClock.sendIdle controlled).trans
      (SameClock.feed line _ _)
  have hKeyed : SameClock reset keyed :=
    (SameClock.sendIdle reset).trans (SameClock.feed line _ _)
  have hPolled :
      SameClock keyed
        (pollNvmen line 200 (sendIdles 2 keyed)).2 :=
    (SameClock.sendIdles 2 keyed).trans
      (SameClock.pollNvmen line 200 _)
  have hAll :=
    (((hReady.trans hControlled).trans hReset).trans
      hKeyed).trans hPolled
  rw [pdiInit_connectOps, hConnected]
  revert hAll
  rcases pollNvmen line 200 (sendIdles 2 keyed) with
    ⟨result, after⟩
  intro hAll
  cases result with
  | noError => exact ⟨hAll.charUs, hAll.ubrr1⟩
  | _ => exact hAll

end Session

/- The character length that a session ends up with. -/
theorem pdiInit_charUs
    {τ : Type}
    (line : Line τ)
    (freqKhz : UInt16)
    (s : Fw τ) :
    (pdiInit line freqKhz s).2.charUs = charLength freqKhz :=
  (pdiInit_sameClock line freqKhz s).charUs

/- Built for 16 MHz, this is the clock of the session. -/
theorem pdiInit_clock
    {τ : Type}
    (line : Line τ)
    {freqKhz : UInt16}
    {clock : Clock}
    (s : Fw τ)
    (hClock : clockSetup fCpu freqKhz = some clock) :
    (pdiInit line freqKhz s).2.charUs = clock.charUs ∧
      (pdiInit line freqKhz s).2.ubrr1 = clock.ubrr1 := by
  have hSome : freqKhz ≠ 0 := by
    intro hZero
    rw [hZero, clockSetup_zero] at hClock
    cases hClock
  have hSame := pdiInit_sameClock line freqKhz s
  rw [clockSetup_of_ne hSome] at hClock
  rw [pdiInit_charUs, hSame.ubrr1, ← Option.some.inj hClock,
    charLength, if_neg hSome, clocked, baudDivisor,
    if_neg hSome]
  refine ⟨?_, rfl⟩
  apply UInt16.toNat_inj.mp
  have hQuotient :
      12000 / freqKhz.toNat < UInt16.size :=
    Nat.lt_of_le_of_lt (Nat.div_le_self _ _) (by decide)
  rw [UInt16.toNat_ofNat_of_lt' hQuotient]
  rfl

------------------------------------------------------------
-- Delay Loops
------------------------------------------------------------

/- `c` after `n` turns of `for(..; c<char_us; c+=10)`. -/
def delayCounter : Nat → UInt16
| 0 => 0
| n + 1 => delayCounter n + 10

/- The loops of `send_idle` and `send_break` end. -/
def DelayEnds (charUs : UInt16) : Prop :=
  ∃ n, ¬ delayCounter n < charUs

theorem delayCounter_toNat
    (n : Nat) :
    (delayCounter n).toNat = 10 * n % 65536 := by
  induction n with
  | zero => rfl
  | succ n ih =>
      rw [delayCounter, UInt16.toNat_add, ih]
      have hTen : (10 : UInt16).toNat = 10 := rfl
      rw [hTen]
      omega

/-
  The counter jumps over odd bounds and wraps, and reaches
  65534 after 13107 turns.
-/
theorem delayEnds_iff
    (charUs : UInt16) :
    DelayEnds charUs ↔ charUs.toNat < 65535 := by
  constructor
  · rintro ⟨n, hEnds⟩
    rw [UInt16.lt_iff_toNat_lt, delayCounter_toNat] at hEnds
    omega
  · intro hBelow
    refine ⟨13107, ?_⟩
    rw [UInt16.lt_iff_toNat_lt, delayCounter_toNat]
    omega

/-
  The set-up divides by nothing that is zero, the value for
  `UBRR1` neither wraps below 0 nor exceeds its 12 bits, and
  the delay loops end.
-/
def ClockSound
    (fCpu : Nat)
    (freqKhz : UInt16) : Prop :=
  ∃ clock,
    clockSetup fCpu freqKhz = some clock ∧
      clock.ubrr &&& 0xFFFF ≠ 0 ∧
      clock.ubrr1.toNat < 4096 ∧
      DelayEnds clock.charUs

/- A quotient between 1 and 4096. -/
theorem div_bounds
    (k f : Nat)
    (hSome : 0 < f) :
    0 < k / f ∧ k / f ≤ 4096 ↔ f ≤ k ∧ k < 4097 * f := by
  have hUpper : k / f ≤ 4096 ↔ k < 4097 * f := by
    rw [← Nat.lt_succ_iff, Nat.div_lt_iff_lt_mul hSome]
  rw [Nat.div_pos_iff, hUpper]
  constructor
  · rintro ⟨⟨_hSome, hFrom⟩, hBelow⟩
    exact ⟨hFrom, hBelow⟩
  · rintro ⟨hFrom, hBelow⟩
    exact ⟨⟨hSome, hFrom⟩, hBelow⟩

/- The value written to `UBRR1`, for a divisor of 16 bits. -/
theorem register_iff
    (brr : Nat)
    (hWord : brr < 65536) :
    (UInt16.ofNat brr &&& 0xFFFF ≠ 0 ∧
        ((UInt16.ofNat brr &&& 0xFFFF) - 1).toNat < 4096) ↔
      0 < brr ∧ brr ≤ 4096 := by
  have hMask :
      UInt16.ofNat brr &&& 0xFFFF = UInt16.ofNat brr := by
    apply UInt16.toNat_inj.mp
    have hAll : (0xFFFF : UInt16).toNat = 2 ^ 16 - 1 := rfl
    rw [UInt16.toNat_and, hAll,
      Nat.and_two_pow_sub_one_eq_mod]
    exact Nat.mod_eq_of_lt (UInt16.toNat_lt _)
  have hNat : (UInt16.ofNat brr).toNat = brr :=
    UInt16.toNat_ofNat_of_lt' hWord
  have hZero : UInt16.ofNat brr ≠ 0 ↔ 0 < brr := by
    rw [Nat.pos_iff_ne_zero, ne_eq, ← UInt16.toNat_inj, hNat]
    rfl
  rw [hMask, hZero]
  apply and_congr_right
  intro hSome
  have hOne : (1 : UInt16) ≤ UInt16.ofNat brr := by
    rw [UInt16.le_iff_toNat_le, hNat]
    exact hSome
  have hLess :
      (UInt16.ofNat brr - 1).toNat = brr - 1 := by
    rw [UInt16.toNat_sub_of_le _ _ hOne, hNat]
    rfl
  rw [hLess]
  omega

theorem not_clockSound_zero
    (fCpu : Nat) :
    ¬ ClockSound fCpu 0 := by
  rintro ⟨clock, hClock, _hSound⟩
  rw [clockSetup_zero] at hClock
  cases hClock

/- Sound set-ups by their divisor. -/
theorem clockSound_iff_divisor
    {fCpu : Nat}
    {freqKhz : UInt16}
    (hSome : freqKhz ≠ 0)
    (hCpu : fCpu ≤ 16000000) :
    ClockSound fCpu freqKhz ↔
      0 < fCpu / 2000 / freqKhz.toNat ∧
        fCpu / 2000 / freqKhz.toNat ≤ 4096 := by
  have hDivisor :=
    Nat.div_le_self (fCpu / 2000) freqKhz.toNat
  rw [← register_iff _ (by omega)]
  constructor
  · rintro ⟨clock, hClock, hNonzero, hFits, _hEnds⟩
    rw [clockSetup_of_ne hSome] at hClock
    rw [← Option.some.inj hClock] at hNonzero hFits
    exact ⟨hNonzero, hFits⟩
  · rintro ⟨hNonzero, hFits⟩
    refine
      ⟨_, clockSetup_of_ne hSome, hNonzero, hFits, ?_⟩
    rw [delayEnds_iff]
    have hQuotient := Nat.div_le_self 12000 freqKhz.toNat
    rw [UInt16.toNat_ofNat_of_lt'
      (Nat.lt_of_le_of_lt hQuotient (by decide))]
    omega

/-
  At 16 MHz every frequency that the host lets through is
  sound.
-/
theorem clockSound_of_host
    {freqKhz : UInt16}
    (hFrom : 15 ≤ freqKhz.toNat)
    (hTo : freqKhz.toNat ≤ 1000) :
    ClockSound 16000000 freqKhz := by
  have hSome : freqKhz ≠ 0 := by
    rintro rfl
    exact absurd hFrom (by decide)
  rw [clockSound_iff_divisor hSome (by decide),
    div_bounds _ _ (by omega)]
  omega

/-
  The set-up is sound exactly for the clocks that the divisor
  fits: `freq_khz` is at most half the clock in kHz and not
  so small that the divisor exceeds 4096.
-/
theorem clockSound_iff
    (fCpu : Nat)
    (freqKhz : UInt16)
    (hCpu : fCpu ≤ 16000000) :
    ClockSound fCpu freqKhz ↔
      freqKhz.toNat ≤ fCpu / 2000 ∧
        fCpu / 2000 < 4097 * freqKhz.toNat := by
  by_cases hZero : freqKhz = 0
  · subst hZero
    constructor
    · intro hSound
      exact absurd hSound (not_clockSound_zero fCpu)
    · rintro ⟨_hFrom, hBelow⟩
      exact absurd hBelow (Nat.not_lt_zero _)
  · have hSome : 0 < freqKhz.toNat := by
      apply Nat.pos_of_ne_zero
      intro hNat
      exact hZero (UInt16.toNat_inj.mp hNat)
    rw [clockSound_iff_divisor hZero hCpu,
      div_bounds _ _ hSome]

theorem clockSound_iff_16MHz :
    ClockSound 16000000 250 ↔
      (250 : UInt16).toNat ≤ 16000000 / 2000 ∧
        16000000 / 2000 < 4097 * (250 : UInt16).toNat :=
  clockSound_iff 16000000 250 (by decide)

/-
  At 16 MHz: 0 kHz divides by zero, 1 kHz gives 7999 for
  `UBRR1`, and at 9000 kHz the divisor is 0 and `UBRR1` is
  written 0xFFFF.
-/
theorem not_clockSound_16MHz :
    clockSetup 16000000 0 = none ∧
      ¬ ClockSound 16000000 0 ∧
      ¬ ClockSound 16000000 1 ∧
      ¬ ClockSound 16000000 9000 := by
  refine ⟨rfl, ?_, ?_, ?_⟩
  · rintro ⟨clock, hClock, _hSound⟩
    cases hClock
  · rintro ⟨clock, hClock, _hSome, hFits, _hEnds⟩
    cases hClock
    exact absurd hFits (by decide)
  · rintro ⟨clock, hClock, hSome, _hFits, _hEnds⟩
    cases hClock
    exact absurd hSome (by decide)

end Lucax
