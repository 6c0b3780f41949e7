import Lucax.Host.Requests

/-
  What `lucax_init` and `lucax_chip_erase` decide on: status
  bytes that a transfer may leave as they were.

  Key definitions include:
    * `Pgm`, `lucaxInitInstalling`
    * `Accepts`
    * `EraseHonest`, `InitHonest`
    * `InitAnswered`

  Main declarations:
    * `lucaxInitInstalling_eq`
    * `installs_iff_accepts`
    * `statusHonest_iff`
-/

------------------------------------------------------------
-- Installed Functions
------------------------------------------------------------

namespace Lucax

variable {ℓ : Type}

/-
  avrdude: the pointers of `PROGRAMMER` that `lucax_init`
  sets, as whether they stand for the driver's functions.
-/
structure Pgm where
  chipErase : Bool
  setSckPeriod : Bool
deriving DecidableEq, Repr

/- `lucax_init` with what it installs. -/
def lucaxInitInstalling
    (usb : Libusb ℓ)
    (hasPdi : Bool)
    (ioFrequency : Int)
    (info status : UInt8)
    (pgm : Pgm)
    (l : ℓ) : (Int × Pgm) × ℓ :=
  let got :=
    usb.controlIn l (inRequest lucaxGetDescriptorReq 0 0)
  if got.1.1 < 0 then ((-1, pgm), got.2) else
  let info := got.1.2.headD info
  if hasPdi = false ∨ info &&& 0x01 = 0 then
    ((-1, pgm), got.2)
  else
  let out :=
    usb.controlIn got.2
      (inRequest lucaxPdiInitReq (initFrequency ioFrequency) 0)
  if out.1.1 < 0 then ((-1, pgm), out.2) else
  let status := out.1.2.headD status
  if status ≠ 0 then ((-1, pgm), out.2)
  else
    ((0, { pgm with chipErase := true, setSckPeriod := true }),
      out.2)

section Status

variable
  (usb : Libusb ℓ)
  (hasPdi : Bool)
  (ioFrequency : Int)
  (info status : UInt8)
  (pgm : Pgm)
  (l : ℓ)

/- The outcome of `LUCAX_GET_DESCRIPTOR`. -/
def descriptorOutcome : (Int × List UInt8) × ℓ :=
  usb.controlIn l (inRequest lucaxGetDescriptorReq 0 0)

/- The outcome of `LUCAX_PDI_INIT` behind it. -/
def pdiInitOutcome : (Int × List UInt8) × ℓ :=
  usb.controlIn (descriptorOutcome usb l).2
    (inRequest lucaxPdiInitReq (initFrequency ioFrequency) 0)

/- The outcome of `LUCAX_PDI_CHIP_ERASE`. -/
def chipEraseOutcome : (Int × List UInt8) × ℓ :=
  usb.controlIn l (inRequest lucaxPdiChipEraseReq 0 0)

/- When `lucax_init` returns 0. -/
def Accepts : Prop :=
  hasPdi = true ∧
    0 ≤ (descriptorOutcome usb l).1.1 ∧
    (descriptorOutcome usb l).1.2.headD info &&& 0x01 ≠ 0 ∧
    0 ≤ (pdiInitOutcome usb ioFrequency l).1.1 ∧
    (pdiInitOutcome usb ioFrequency l).1.2.headD status = 0

theorem lucaxInitInstalling_accepts
    (hAccepts : Accepts usb hasPdi ioFrequency info status l) :
    lucaxInitInstalling usb hasPdi ioFrequency info status pgm
        l =
      ((0, ⟨true, true⟩),
        (pdiInitOutcome usb ioFrequency l).2) := by
  rcases hAccepts with ⟨hPdi, hGot, hBit, hOut, hStatus⟩
  have hGo :
      ¬ (hasPdi = false ∨
        (descriptorOutcome usb l).1.2.headD info &&& 0x01 =
          0) := by
    rintro (hNone | hClear)
    · rw [hPdi] at hNone
      cases hNone
    · exact hBit hClear
  rw [descriptorOutcome] at hGot hGo
  rw [pdiInitOutcome, descriptorOutcome] at hOut hStatus
  rw [lucaxInitInstalling, if_neg (Int.not_lt.mpr hGot),
    if_neg hGo, if_neg (Int.not_lt.mpr hOut),
    if_neg (not_not_intro hStatus)]
  rfl

theorem lucaxInitInstalling_refuses
    (hNot : ¬ Accepts usb hasPdi ioFrequency info status l) :
    (lucaxInitInstalling usb hasPdi ioFrequency info status pgm
      l).1 = (-1, pgm) := by
  rw [lucaxInitInstalling]
  simp only
  split
  · rfl
  · rename_i hGot
    split
    · rfl
    · rename_i hGo
      split
      · rfl
      · rename_i hOut
        split
        · rfl
        · rename_i hStatus
          apply absurd _ hNot
          refine ⟨?_, Int.not_lt.mp hGot, ?_,
            Int.not_lt.mp hOut, not_not.mp hStatus⟩
          · by_contra hNone
            exact hGo (Or.inl (by simpa using hNone))
          · intro hClear
            exact hGo (Or.inr hClear)

/- The part without the pointers is `lucax_init`. -/
theorem lucaxInitInstalling_eq :
    ((lucaxInitInstalling usb hasPdi ioFrequency info status
          pgm l).1.1,
        (lucaxInitInstalling usb hasPdi ioFrequency info status
          pgm l).2) =
      lucaxInit usb hasPdi ioFrequency info status l := by
  have hGotEq :
      usb.controlIn l (inRequest lucaxGetDescriptorReq 0 0) =
        descriptorOutcome usb l := rfl
  have hOutEq :
      usb.controlIn (descriptorOutcome usb l).2
          (inRequest lucaxPdiInitReq
            (UInt16.ofNat (usedFrequency ioFrequency).toNat)
            0) =
        pdiInitOutcome usb ioFrequency l := rfl
  simp only [lucaxInitInstalling, lucaxInit, initFrequency,
    hGotEq, hOutEq]
  by_cases hGot : (descriptorOutcome usb l).1.1 < 0
  · simp only [if_pos hGot]
  · simp only [if_neg hGot]
    by_cases hGo :
        hasPdi = false ∨
          (descriptorOutcome usb l).1.2.headD info &&& 0x01 = 0
    · simp only [if_pos hGo]
    · simp only [if_neg hGo]
      by_cases hOut : (pdiInitOutcome usb ioFrequency l).1.1 < 0
      · simp only [if_pos hOut]
      · simp only [if_neg hOut]
        by_cases hStatus :
            (pdiInitOutcome usb ioFrequency l).1.2.headD
                status ≠ 0
        · simp only [if_pos hStatus]
        · simp only [if_neg hStatus]

------------------------------------------------------------
-- Delivered Bytes
------------------------------------------------------------

/- The byte `b` was delivered. -/
def Delivered
    (outcome : (Int × List UInt8) × ℓ)
    (b : UInt8) : Prop :=
  outcome.1.2.head? = some b

/-
  `lucax_chip_erase` returns 0 only for a delivered 0,
  whatever its local `ret` holds.
-/
def EraseHonest : Prop :=
  ∀ ret,
    (lucaxChipErase usb ret l).1 = 0 →
      Delivered (chipEraseOutcome usb l) 0

/-
  `lucax_init` returns 0 and installs only for a delivered
  descriptor with the PDI bit and a delivered status of 0,
  whatever its local `status` holds.
-/
def InitHonest : Prop :=
  ∀ status pgm,
    let out :=
      lucaxInitInstalling usb hasPdi ioFrequency info status pgm
        l
    out.1.1 = 0 ∨ out.1.2 ≠ pgm →
      (∃ b,
          Delivered (descriptorOutcome usb l) b ∧
            b &&& 0x01 ≠ 0) ∧
        Delivered (pdiInitOutcome usb ioFrequency l) 0

/-
  Both bytes are delivered, unless the part has no PDI, a
  transfer fails, the descriptor that stands in `lucax_info`
  lacks the PDI bit or an error status is delivered.
-/
def InitAnswered : Prop :=
  hasPdi = true →
    0 ≤ (descriptorOutcome usb l).1.1 →
    (descriptorOutcome usb l).1.2.headD info &&& 0x01 ≠ 0 →
    0 ≤ (pdiInitOutcome usb ioFrequency l).1.1 →
    (∀ b, Delivered (pdiInitOutcome usb ioFrequency l) b →
      b = 0) →
      (descriptorOutcome usb l).1.2 ≠ [] ∧
        (pdiInitOutcome usb ioFrequency l).1.2 ≠ []

/- A byte that is not delivered may be any. -/
theorem eraseHonest_iff :
    EraseHonest usb l ↔ (chipEraseOutcome usb l).1.2 ≠ [] := by
  have hErase :
      ∀ ret,
        (lucaxChipErase usb ret l).1 = 0 ↔
          (chipEraseOutcome usb l).1.2.headD ret = 0 := by
    intro ret
    rw [lucaxChipErase, chipEraseOutcome]
    split
    · rename_i hError
      refine ⟨fun hZero => ?_, fun hZero => absurd hZero hError⟩
      exact absurd hZero (show ¬ (-1 : Int) = 0 by decide)
    · rename_i hNone
      exact ⟨fun _ => not_not.mp hNone, fun _ => rfl⟩
  simp only [EraseHonest, Delivered, hErase]
  cases hBytes : (chipEraseOutcome usb l).1.2 with
  | nil =>
      constructor
      · intro hHonest
        have hNone := hHonest 0 rfl
        cases hNone
      · intro hSome
        exact absurd rfl hSome
  | cons b bytes =>
      constructor
      · intro _hHonest
        exact List.cons_ne_nil b bytes
      · intro _hSome ret hZero
        rw [List.head?_cons]
        exact congrArg some hZero

/- The call installs only when it returns 0. -/
theorem installs_iff_accepts :
    ((lucaxInitInstalling usb hasPdi ioFrequency info status
            pgm l).1.1 = 0 ∨
        (lucaxInitInstalling usb hasPdi ioFrequency info status
            pgm l).1.2 ≠ pgm) ↔
      Accepts usb hasPdi ioFrequency info status l := by
  by_cases hAccepts :
      Accepts usb hasPdi ioFrequency info status l
  · rw [lucaxInitInstalling_accepts usb hasPdi ioFrequency info
      status pgm l hAccepts]
    exact ⟨fun _ => hAccepts, fun _ => Or.inl rfl⟩
  · rw [lucaxInitInstalling_refuses usb hasPdi ioFrequency info
      status pgm l hAccepts]
    constructor
    · rintro (hZero | hInstalled)
      · exact absurd hZero (show ¬ (-1 : Int) = 0 by decide)
      · exact absurd rfl hInstalled
    · intro hNow
      exact absurd hNow hAccepts

theorem initHonest_iff :
    InitHonest usb hasPdi ioFrequency info l ↔
      InitAnswered usb hasPdi ioFrequency info l := by
  simp only [InitHonest, installs_iff_accepts]
  constructor
  · intro hHonest hPdi hGot hBit hOut hStatus
    have hZero :
        (pdiInitOutcome usb ioFrequency l).1.2.headD 0 = 0 := by
      cases hBytes : (pdiInitOutcome usb ioFrequency l).1.2 with
      | nil => rfl
      | cons b bytes =>
          apply hStatus b
          rw [Delivered, hBytes, List.head?_cons]
    rcases
        hHonest 0 ⟨false, false⟩
          ⟨hPdi, hGot, hBit, hOut, hZero⟩ with
      ⟨⟨b, hDescriptor, _hSet⟩, hDone⟩
    constructor
    · intro hNone
      rw [Delivered, hNone] at hDescriptor
      cases hDescriptor
    · intro hNone
      rw [Delivered, hNone] at hDone
      cases hDone
  · rintro hAnswered status pgm
      ⟨hPdi, hGot, hBit, hOut, hStatus⟩
    have hBoth :=
      hAnswered hPdi hGot hBit hOut
        (by
          intro b hDelivered
          rw [List.headD_eq_head?_getD] at hStatus
          rw [Delivered] at hDelivered
          rw [hDelivered] at hStatus
          exact hStatus)
    constructor
    · cases hBytes : (descriptorOutcome usb l).1.2 with
      | nil => exact absurd hBytes hBoth.1
      | cons b bytes =>
          rw [hBytes, List.headD_cons] at hBit
          refine ⟨b, ?_, hBit⟩
          rw [Delivered, hBytes, List.head?_cons]
    · cases hBytes : (pdiInitOutcome usb ioFrequency l).1.2 with
      | nil => exact absurd hBytes hBoth.2
      | cons b bytes =>
          rw [hBytes, List.headD_cons] at hStatus
          rw [Delivered, hBytes, List.head?_cons, hStatus]

/-
  The calls succeed only on a delivered success status exactly
  when each transfer whose byte decides delivers one.
-/
theorem statusHonest_iff :
    (EraseHonest usb l ↔ (chipEraseOutcome usb l).1.2 ≠ []) ∧
      (InitHonest usb hasPdi ioFrequency info l ↔
        InitAnswered usb hasPdi ioFrequency info l) :=
  ⟨eraseHonest_iff usb l,
    initHonest_iff usb hasPdi ioFrequency info l⟩

end Status

/- The descriptor comes and then nothing more. -/
def forgetfulUsb : Libusb Unit where
  controlOut := fun l _ data => (data.length, l)
  controlIn := fun l r =>
    if r.bRequest = lucaxGetDescriptorReq then ((1, [0x01]), l)
    else ((0, []), l)
  bulkOut := fun l packet => ((0, packet.length), l)
  bulkIn := fun l _ => ((0, []), l)

/- Both calls take the 0 on the stack for an answer. -/
theorem not_statusHonest_forgetful :
    ¬ EraseHonest forgetfulUsb () ∧
      ¬ InitHonest forgetfulUsb true 250 0 () := by
  constructor
  · intro hHonest
    have hNone : (none : Option UInt8) = some 0 :=
      hHonest 0 (by decide)
    cases hNone
  · intro hHonest
    have hNone : (none : Option UInt8) = some 0 :=
      (hHonest 0 ⟨false, false⟩ (Or.inl (by decide))).2
    cases hNone

end Lucax
