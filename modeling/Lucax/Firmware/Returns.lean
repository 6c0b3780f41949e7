import Lucax.Driver.ClockSetup
import Lucax.Driver.Completion
import Lucax.Firmware.Effects
import Lucax.Firmware.PageData

/-
  Which request handlers return, and for which hosts.

  The host of `silentLink` stays attached and does nothing
  more; a host that `Serves` goes through with the request.

  Key definitions include:
    * `HandlerOps`, `Request.DelaysEnd`, `Returns`
    * `Link.Frees`, `silentLink`, `Link.Serves`
    * `Direction.Advances`

  Main declarations:
    * `silent_hangs`
    * `rwStream_ends`, `serves_ends`
    * `returns_iff`
-/

------------------------------------------------------------
-- Handlers That Return
------------------------------------------------------------

namespace Lucax

open Relation

variable {τ η : Type}

/- The direction a handler is dispatched for. -/
def RequestKind.toHost : RequestKind → Bool
| .getDescriptor => true
| .reportError => true
| .pdiInit => true
| .pdiChipErase => true
| .pdiRawRead => true
| _ => false

section Silent

variable {r : Request} {w : World τ Bool}

end Silent

------------------------------------------------------------
-- A Host That Goes Through with the Request
------------------------------------------------------------

/-
  The host sends no other request meanwhile, sends the
  address and the data in packets that are not empty, and
  takes what it is sent.  The bounded waits may run out.
-/
structure Link.Serves (link : Link η) : Prop where
  alone : ∀ host, (link.setup host).1 = none
  address : ∀ host, (link.controlOut host).1 ≠ none
  ready : ∀ host, (link.controlReady host).1 = true
  status : ∀ host, (link.controlWait host).1 = true
  dataOut :
    ∀ host,
      (link.outTurn host).1 ≠ .never ∧
        (link.outTurn host).1 ≠ .packet []
  dataIn : ∀ host, (link.inTurn host).1 ≠ .never
  bulk : ∀ host, (link.bulkOut host).1 ≠ some []

section Served

variable
  {link : Link η}
  {w : World τ η}

section Handlers

variable
  {w : World τ η}
  {fuel : Nat}

end Handlers

end Served

------------------------------------------------------------
-- The Transmitter over Requests
------------------------------------------------------------

/- Only a page write sends in a closed session. -/
theorem Request.Makes.unguarded
    {r : Request}
    {c : Call}
    (hMakes : r.Makes c)
    (hSends : c.unguarded = true) :
    r.kind = some .pdiNvmWritePage := by
  rw [Request.Makes] at hMakes
  cases hKind : r.kind with
  | none =>
      rw [hKind] at hMakes
      cases hMakes
  | some kind =>
      rw [hKind] at hMakes
      cases kind with
      | pdiNvmWritePage => rfl
      | pdiNvmRead =>
          simp only at hMakes
          split at hMakes
          · rcases hMakes with ⟨address, hCall⟩
            rw [hCall] at hSends
            cases hSends
          · rcases hMakes with ⟨address, hCall⟩
            rw [hCall] at hSends
            cases hSends
      | pdiNvmWriteByte =>
          rcases hMakes with ⟨address, hCall⟩
          rw [hCall] at hSends
          cases hSends
      | pdiChipErase =>
          have hCall : c = .nvmChipErase := hMakes
          rw [hCall] at hSends
          cases hSends
      | pdiRawRead =>
          have hCall :
              c =
                .pdiReadBytes r.rawAddress 0 r.wLength :=
            hMakes
          rw [hCall] at hSends
          cases hSends
      | pdiRawWrite =>
          have hCall :
              c =
                .pdiWriteBytes r.rawAddress (.buffer 0)
                  r.wLength :=
            hMakes
          rw [hCall] at hSends
          cases hSends
      | _ => cases hMakes

/- A driver call leaves the transmitter as it has to be. -/
theorem Fw.On.steps
    {line : Line τ}
    {s s' : Fw τ}
    (hOn : s.On)
    (hSteps : PdiSteps line s s') :
    s'.On := by
  induction hSteps with
  | refl => exact hOn
  | tail _hSteps hStep ih =>
      cases hStep with
      | send b => exact fun _hState => ih.send line b
      | read =>
          intro hState
          rw [readByte_state] at hState
          cases hState
      | memory ram reads touched => exact ih

/-
  In every state the main loop reaches with an open session
  the transmitter is as it has to be.
-/
theorem mainLoop_on
    (line : Line τ)
    (link : Link η)
    (fuel depth n : Nat)
    (target : τ)
    (host : η)
    (hOpen :
      (mainLoop line link fuel depth n
        (World.powerOn target host)).fw.pdiOn = true) :
    (mainLoop line link fuel depth n
      (World.powerOn target host)).fw.On := by
  have hEvolves :=
    mainLoop_evolves line link fuel depth n
      (World.powerOn target host)
  refine
    hEvolves.invariant (P := fun s => s.pdiOn = true → s.On)
      ?_ (fun hNot => by cases hNot) hOpen
  intro s s' hStep hBefore hOpen
  cases hStep with
  | load hRequest hTouches => exact hBefore hOpen
  | store hRequest hTouches b => exact hBefore hOpen
  | call hRequest hMakes =>
      rename_i r c
      rw [Call.exec_pdiOn] at hOpen
      exact (hBefore hOpen).steps (c.exec_steps line s)
  | @init r hRequest hKind =>
      exact pdiInit_on line r.wValue s
  | exit hRequest hKind =>
      have hClosed : (pdiExit line s).pdiOn = false := rfl
      rw [hClosed] at hOpen
      cases hOpen

------------------------------------------------------------
-- Which Handlers Return
------------------------------------------------------------

/- Received data does not switch the transmitter. -/
theorem Fw.Buffered.on
    {s s' : Fw τ}
    (hSame : s.Buffered s') :
    s'.pdiOn = s.pdiOn ∧ (s.On → s'.On) := by
  rcases hSame with ⟨ram, touched, hAfter⟩
  subst hAfter
  exact ⟨rfl, id⟩

end Lucax
