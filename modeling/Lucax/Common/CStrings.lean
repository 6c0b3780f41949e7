import Mathlib.Tactic.Common

/-
  Strings in the memory of a C program: comparison with a
  literal and bounded copy, with the places that are read.

  A memory is a function from places to characters.

  Key definitions include:
    * `CString.cells`, `CString.HoldsAt`
    * `CString.strcmp`, `CString.strncpy`

  The rules used on strings and arrays are:
    * `CString.holdsAt_cells`
    * `CString.strcmp_string`, `CString.strcmp_array`
    * `CString.strncpy_string`, `CString.strncpy_length`
-/

------------------------------------------------------------
-- Memory
------------------------------------------------------------

namespace CString

/- The end of a string. -/
def nul : Char := Char.ofNat 0

/- An array and what stands behind it. -/
def cells
    (array : List Char)
    (behind : Nat → Char) : Nat → Char :=
  fun i => (array[i]?).getD (behind (i - array.length))

/- The characters `cs` stand from place `i` on. -/
def HoldsAt
    (memory : Nat → Char)
    (i : Nat)
    (cs : List Char) : Prop :=
  ∀ k c, cs[k]? = some c → memory (i + k) = c

/- An array stands at the start of its cells. -/
theorem holdsAt_cells
    (array : List Char)
    (behind : Nat → Char) :
    HoldsAt (cells array behind) 0 array := by
  intro k c hThere
  simp [cells, hThere]

/- What stands right behind an array. -/
theorem cells_length
    (array : List Char)
    (behind : Nat → Char) :
    cells array behind array.length = behind 0 := by
  simp [cells]

namespace HoldsAt

variable
  {memory : Nat → Char}
  {i : Nat}
  {c : Char}
  {cs : List Char}

theorem head
    (hHolds : HoldsAt memory i (c :: cs)) :
    memory i = c :=
  hHolds 0 c rfl

theorem tail
    (hHolds : HoldsAt memory i (c :: cs)) :
    HoldsAt memory (i + 1) cs := by
  intro k c' hThere
  have hNext := hHolds (k + 1) c' hThere
  rw [Nat.add_assoc, Nat.add_comm 1]
  exact hNext

end HoldsAt

------------------------------------------------------------
-- Comparison
------------------------------------------------------------

/-
  `strcmp(memory + i, literal) == 0`, and the place behind
  the last one read.  A difference ends the comparison.
-/
def strcmp
    (memory : Nat → Char) :
    List Char → Nat → Bool × Nat
| [], i => (memory i = nul, i + 1)
| c :: literal, i =>
    if memory i = c then strcmp memory literal (i + 1)
    else (false, i + 1)

/-
  A string with its end is read at most to there.  By
  induction on the literal.
-/
theorem strcmp_string
    {memory : Nat → Char}
    {literal : List Char}
    (hLiteral : nul ∉ literal)
    (i : Nat)
    (string : List Char)
    (hString : nul ∉ string)
    (hHolds : HoldsAt memory i (string ++ [nul])) :
    (strcmp memory literal i).1 = decide (string = literal) ∧
      (strcmp memory literal i).2 ≤ i + string.length + 1 := by
  induction literal generalizing i string with
  | nil =>
      cases string with
      | nil => simp [strcmp, hHolds.head]
      | cons c string =>
          have hSome : c ≠ nul := by
            intro hEnd
            exact hString (hEnd ▸ List.mem_cons_self)
          simp [strcmp, hHolds.head, hSome]
  | cons x literal ih =>
      have hFirst : x ≠ nul := by
        intro hEnd
        exact hLiteral (hEnd ▸ List.mem_cons_self)
      cases string with
      | nil => simp [strcmp, hHolds.head, Ne.symm hFirst]
      | cons c string =>
          rw [strcmp, hHolds.head]
          by_cases hSame : c = x
          · rw [if_pos hSame, hSame]
            have hRest :=
              ih (fun hMem => hLiteral (List.mem_cons_of_mem x hMem))
                (i + 1) string
                (fun hMem => hString (List.mem_cons_of_mem c hMem))
                hHolds.tail
            refine ⟨?_, ?_⟩
            · rw [hRest.1]
              simp
            · rw [List.length_cons]
              omega
          · rw [if_neg hSame]
            refine ⟨by simp [hSame], ?_⟩
            rw [List.length_cons]
            omega

/-
  An array as long as the literal is read beyond its end
  exactly when it holds the literal.
-/
theorem strcmp_array
    {memory : Nat → Char}
    (literal : List Char)
    (i : Nat)
    (array : List Char)
    (hLength : array.length = literal.length)
    (hHolds : HoldsAt memory i array) :
    if array = literal then
      strcmp memory literal i =
        (decide (memory (i + array.length) = nul),
          i + array.length + 1)
    else
      (strcmp memory literal i).1 = false ∧
        (strcmp memory literal i).2 ≤ i + array.length := by
  induction literal generalizing i array with
  | nil =>
      rw [List.eq_nil_of_length_eq_zero hLength, if_pos rfl]
      rfl
  | cons x literal ih =>
      cases array with
      | nil => cases hLength
      | cons c array =>
          have hRest :=
            ih (i + 1) array (Nat.succ.inj hLength) hHolds.tail
          have hPlace :
              i + 1 + array.length = i + (c :: array).length := by
            rw [List.length_cons]
            omega
          rw [hPlace] at hRest
          rw [strcmp, hHolds.head]
          by_cases hSame : c = x
          · rw [if_pos hSame, hSame]
            rw [hSame] at hRest
            by_cases hAll : array = literal
            · rw [if_pos hAll] at hRest
              rw [if_pos (by rw [hAll])]
              exact hRest
            · rw [if_neg hAll] at hRest
              rw [if_neg (by simpa using hAll)]
              exact hRest
          · rw [if_neg hSame, if_neg (by simp [hSame])]
            refine ⟨rfl, ?_⟩
            rw [List.length_cons]
            omega

------------------------------------------------------------
-- Copies
------------------------------------------------------------

/-
  What `strncpy(.., memory + i, n)` stores, and the place
  behind the last one read.
-/
def strncpy
    (memory : Nat → Char) :
    Nat → Nat → List Char × Nat
| 0, i => ([], i)
| n + 1, i =>
    if memory i = nul then
      (List.replicate (n + 1) nul, i + 1)
    else
      let rest := strncpy memory n (i + 1)
      (memory i :: rest.1, rest.2)

/- All of the array is written. -/
theorem strncpy_length
    (memory : Nat → Char)
    (n i : Nat) :
    (strncpy memory n i).1.length = n := by
  induction n generalizing i with
  | zero => rfl
  | succ n ih =>
      rw [strncpy]
      split
      · rw [List.length_replicate]
      · rw [List.length_cons, ih]

/- A string is cut off or filled up; its end is read once. -/
theorem strncpy_string
    {memory : Nat → Char}
    (n i : Nat)
    (string : List Char)
    (hString : nul ∉ string)
    (hHolds : HoldsAt memory i (string ++ [nul])) :
    (strncpy memory n i).1 =
        (string ++ List.replicate n nul).take n ∧
      (strncpy memory n i).2 ≤ i + string.length + 1 := by
  induction n generalizing i string with
  | zero =>
      refine ⟨rfl, ?_⟩
      rw [strncpy]
      omega
  | succ n ih =>
      cases string with
      | nil =>
          rw [strncpy, if_pos hHolds.head]
          refine ⟨?_, Nat.le_refl _⟩
          rw [List.nil_append, List.take_replicate,
            Nat.min_self]
      | cons c string =>
          have hSome : c ≠ nul := by
            intro hEnd
            exact hString (hEnd ▸ List.mem_cons_self)
          have hRest :=
            ih (i + 1) string
              (fun hMem => hString (List.mem_cons_of_mem c hMem))
              hHolds.tail
          rw [strncpy, hHolds.head, if_neg hSome]
          refine ⟨?_, ?_⟩
          · simp [hRest.1, List.take_append]
            omega
          · rw [List.length_cons]
            simp only
            omega

end CString
