import Lucax.Driver.Session
import Lucax.Firmware.BufferUse
import Lucax.Target.Encoding

/-
  Requests and the instruction boundaries of the target.

  Key definitions include:
    * `Request.Announced`

  Main declarations:
    * `Call.exec_atBoundary`
    * `mainLoop_atBoundary`
-/

------------------------------------------------------------
-- Driver Calls
------------------------------------------------------------

namespace Lucax

variable {β η : Type}

/-
  A driver call with a positive count leaves the target at an
  instruction boundary, in an open session or a closed one.
-/
theorem Call.exec_atBoundary
    (bus : Bus β)
    {c : Call}
    (hCount : c.CountPos)
    {s : Fw (Decoder β)}
    (hBoundary : s.target.AtBoundary) :
    (c.exec (Decoder.line bus) s).2.target.AtBoundary := by
  cases hOpen : s.pdiOn with
  | true =>
      have hReflects := reflects_direct hOpen hBoundary
      exact (Reflects.call bus hCount s s.direct
        hReflects).2.boundary
  | false =>
      by_cases hPaged : c.IsPagedWrite
      · cases c with
        | nvmPagedWrite address data count mem =>
            simp only [Call.exec,
              nvmPagedWrite_disabled _ hOpen, feed_target,
              Decoder.frames_pagedWrite_disabled bus hBoundary]
            exact hBoundary
        | _ => exact absurd hPaged id
      · rw [Call.exec_disabled _ hOpen hPaged]
        exact hBoundary

------------------------------------------------------------
-- Requests
------------------------------------------------------------

/-
  A read or write request whose count is not zero and, for
  the raw ones, within the buffer.
-/
def Request.Announced (r : Request) : Prop :=
  match r.kind with
  | some .pdiNvmRead => r.wIndex ≠ 0
  | some .pdiNvmWritePage => r.wIndex ≠ 0
  | some .pdiNvmWriteByte => True
  | some .pdiRawRead => r.wLength ≠ 0 ∧ r.wLength ≤ maxBuffer
  | some .pdiRawWrite => r.wLength ≠ 0 ∧ r.wLength ≤ maxBuffer
  | _ => False

instance : DecidablePred Request.Announced := fun r => by
  unfold Request.Announced
  split <;> infer_instance

/- Clamping does not make a count zero. -/
theorem clamp_ne_zero
    {count : UInt16}
    (hPos : count ≠ 0) :
    clamp count ≠ 0 := by
  unfold clamp
  split
  · decide
  · exact hPos

theorem Request.Makes.countPos
    {r : Request}
    {c : Call}
    (hAnnounced : r.Announced)
    (hMakes : r.Makes c) :
    c.CountPos := by
  unfold Request.Announced at hAnnounced
  unfold Request.Makes at hMakes
  cases hKind : r.kind with
  | none =>
      rw [hKind] at hMakes
      exact absurd hMakes id
  | some kind =>
      rw [hKind] at hAnnounced hMakes
      cases kind with
      | pdiNvmRead =>
          simp only at hMakes hAnnounced
          split at hMakes
          · rcases hMakes with ⟨address, rfl⟩
            trivial
          · rcases hMakes with ⟨address, rfl⟩
            exact clamp_ne_zero hAnnounced
      | pdiNvmWritePage =>
          rcases hMakes with ⟨address, rfl⟩
          exact clamp_ne_zero hAnnounced
      | pdiNvmWriteByte =>
          rcases hMakes with ⟨address, rfl⟩
          trivial
      | pdiRawRead =>
          rcases hMakes with rfl
          exact hAnnounced.1
      | pdiRawWrite =>
          rcases hMakes with rfl
          exact hAnnounced.1
      | _ => exact absurd hAnnounced id

/- One effect of a request whose count is announced. -/
theorem FwStep.atBoundary
    (bus : Bus β)
    {R : Request → Prop}
    (hAnnounced : ∀ r, R r → r.Announced)
    {s s' : Fw (Decoder β)}
    (hStep : FwStep (Decoder.line bus) R s s')
    (hBoundary : s.target.AtBoundary) :
    s'.target.AtBoundary := by
  cases hStep with
  | load hRequest hTouches => exact hBoundary
  | store hRequest hTouches b => exact hBoundary
  | call hRequest hMakes =>
      exact Call.exec_atBoundary bus
        (hMakes.countPos (hAnnounced _ hRequest)) hBoundary
  | init hRequest hKind =>
      have hNot := hAnnounced _ hRequest
      rw [Request.Announced, hKind] at hNot
      exact absurd hNot id
  | exit hRequest hKind =>
      have hNot := hAnnounced _ hRequest
      rw [Request.Announced, hKind] at hNot
      exact absurd hNot id

/-
  A run whose requests all announce what they transfer leaves
  the target at an instruction boundary, whatever the host
  sends and whenever it stops sending.
-/
theorem mainLoop_atBoundary
    (bus : Bus β)
    (link : Link η)
    (fuel depth n : Nat)
    (w : World (Decoder β) η)
    (hBoundary : w.fw.target.AtBoundary)
    (hAnnounced :
      ∀ r ∈ (mainLoop (Decoder.line bus) link fuel depth n
          w).handled,
        r.Announced) :
    (mainLoop (Decoder.line bus) link fuel depth n
      w).fw.target.AtBoundary := by
  apply
    (mainLoop_evolves (Decoder.line bus) link fuel depth n
      w).invariant (P := fun s => s.target.AtBoundary)
  · intro s s' hStep hHere
    exact hStep.atBoundary bus hAnnounced hHere
  · exact hBoundary

/- A device with an open session on a memory of zeros. -/
def zeroDevice
    (requests : List Request) :
    World (Decoder Unit) (List Request) :=
  { World.powerOn (Decoder.initial ()) requests with
    fw :=
      { Fw.powerOn (Decoder.initial ()) with pdiOn := true } }

/- A read of two bytes, a page write and a raw write. -/
theorem mainLoop_atBoundary_eager :
    (mainLoop (Decoder.line zeroBus) eager 100 1 3
      (zeroDevice
        [⟨0x40, 36, 0, 2, 4⟩, ⟨0x40, 39, 0, 3, 4⟩,
          ⟨0x40, 41, 0, 0x0100, 5⟩])).fw.target.AtBoundary :=
  mainLoop_atBoundary zeroBus eager 100 1 3 _ (by decide)
    (by decide)

/-
  A read of no bytes announces 65536 loads and takes none.
-/
theorem emptyRead_not_atBoundary :
    ¬ (mainLoop (Decoder.line zeroBus) eager 100 1 1
        (zeroDevice
          [⟨0x40, 36, 0, 0, 4⟩])).fw.target.AtBoundary := by
  decide

end Lucax
