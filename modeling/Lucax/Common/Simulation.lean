import Mathlib.Tactic.Common

/-
  Runs of state-passing operations and simulation between
  two implementations of them.

  An operation over a state type `σ` with result type `ρ` is
  a function `σ → ρ × σ`.  `runAll` executes a list of
  operations and keeps the results in order.

  Key definitions include:
    * `Simulation.runAll`
    * `Simulation.Simulates`
    * `Simulation.Preserves`

  The rules used on whole runs are:
    * `Simulation.Simulates.runAll`
    * `Simulation.Preserves.runAll`
    * `Simulation.runAll_append`
-/

------------------------------------------------------------
-- Runs
------------------------------------------------------------

namespace Simulation

variable {σ κ ι ρ ρ' : Type}

/- Execute a list of operations from left to right. -/
def runAll
    (exec : ι → σ → ρ × σ) :
    List ι → σ → List ρ × σ
| [], s => ([], s)
| i :: is, s =>
    let out := exec i s
    let rest := runAll exec is out.2
    (out.1 :: rest.1, rest.2)

@[simp] theorem runAll_nil
    (exec : ι → σ → ρ × σ)
    (s : σ) :
    runAll exec [] s = ([], s) := rfl

@[simp] theorem runAll_cons
    (exec : ι → σ → ρ × σ)
    (i : ι)
    (is : List ι)
    (s : σ) :
    runAll exec (i :: is) s =
      ((exec i s).1 :: (runAll exec is (exec i s).2).1,
        (runAll exec is (exec i s).2).2) := rfl

/- A run of a concatenation is the two runs in turn. -/
theorem runAll_append
    (exec : ι → σ → ρ × σ)
    (is js : List ι)
    (s : σ) :
    runAll exec (is ++ js) s =
      ((runAll exec is s).1 ++
          (runAll exec js (runAll exec is s).2).1,
        (runAll exec js (runAll exec is s).2).2) := by
  induction is generalizing s with
  | nil =>
      simp
  | cons i is ih =>
      simp [ih]

------------------------------------------------------------
-- Invariants
------------------------------------------------------------

/- An operation keeps a predicate on states. -/
def Preserves
    (P : σ → Prop)
    (f : σ → ρ × σ) : Prop :=
  ∀ s, P s → P (f s).2

/- What every operation keeps, a whole run keeps. -/
theorem Preserves.runAll
    {P : σ → Prop}
    {exec : ι → σ → ρ × σ}
    (is : List ι)
    (hStep : ∀ i ∈ is, Preserves P (exec i)) :
    Preserves P (runAll exec is) := by
  induction is with
  | nil =>
      intro s hs
      exact hs
  | cons i is ih =>
      intro s hs
      have hHead : P (exec i s).2 :=
        hStep i (by simp) s hs
      exact ih (fun j hj => hStep j (by simp [hj])) _ hHead

------------------------------------------------------------
-- Simulation
------------------------------------------------------------

/-
  Related states give equal results and related successors.
-/
def Simulates
    (R : σ → κ → Prop)
    (f : σ → ρ × σ)
    (g : κ → ρ × κ) : Prop :=
  ∀ s k, R s k → (f s).1 = (g k).1 ∧ R (f s).2 (g k).2

/- Sequential composition of simulated operations. -/
theorem Simulates.bind
    {R : σ → κ → Prop}
    {f : σ → ρ × σ}
    {g : κ → ρ × κ}
    {f' : ρ → σ → ρ' × σ}
    {g' : ρ → κ → ρ' × κ}
    (hFirst : Simulates R f g)
    (hNext : ∀ r, Simulates R (f' r) (g' r)) :
    Simulates R
      (fun s => f' (f s).1 (f s).2)
      (fun k => g' (g k).1 (g k).2) := by
  intro s k hR
  rcases hFirst s k hR with ⟨hRes, hAfter⟩
  simpa [hRes] using hNext (g k).1 (f s).2 (g k).2 hAfter

/- A simulated operation list is simulated as a run. -/
theorem Simulates.runAll
    {R : σ → κ → Prop}
    {exec : ι → σ → ρ × σ}
    {exec' : ι → κ → ρ × κ}
    (is : List ι)
    (hStep : ∀ i ∈ is, Simulates R (exec i) (exec' i)) :
    Simulates R
      (Simulation.runAll exec is)
      (Simulation.runAll exec' is) := by
  induction is with
  | nil =>
      intro s k hR
      exact ⟨rfl, hR⟩
  | cons i is ih =>
      intro s k hR
      rcases hStep i (by simp) s k hR with ⟨hRes, hAfter⟩
      have hTail := ih (fun j hj => hStep j (by simp [hj]))
      rcases hTail _ _ hAfter with ⟨hResTail, hEnd⟩
      exact ⟨by simp [hRes, hResTail], hEnd⟩

end Simulation
