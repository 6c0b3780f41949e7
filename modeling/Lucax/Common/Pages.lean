import Mathlib.Tactic.Common

/-
  A memory that is written a page at a time through a buffer.

  A memory is a function from places to elements.  Elements
  are put at consecutive places; a page is replaced as a
  whole, places it is given nothing for becoming blank.

  Key definitions include:
    * `Pages.put`
    * `Pages.writePage`
    * `Pages.read`

  The rules used on page writes are:
    * `Pages.put_cons`
    * `Pages.put_outside`, `Pages.put_inside`
    * `Pages.put_blank`
    * `Pages.read_succ`, `Pages.read_add`, `Pages.read_take`
-/

------------------------------------------------------------
-- Places
------------------------------------------------------------

namespace Pages

variable {α : Type}

/- Put `x` at one place. -/
def set
    (place : Nat)
    (x : α)
    (content : Nat → α) : Nat → α :=
  fun j => if j = place then x else content j

/- Put a list at consecutive places from `base` on. -/
def put
    (base : Nat)
    (xs : List α)
    (content : Nat → α) : Nat → α :=
  fun j =>
    if base ≤ j then (xs[j - base]?).getD (content j)
    else content j

/- Replace a page; what is not given becomes `blank`. -/
def writePage
    (page base : Nat)
    (blank : α)
    (xs : List α)
    (content : Nat → α) : Nat → α :=
  fun j =>
    if base ≤ j ∧ j < base + page then
      (xs[j - base]?).getD blank
    else content j

/- The elements at `n` places from `base` on. -/
def read
    (base n : Nat)
    (content : Nat → α) : List α :=
  (List.range' base n).map content

@[simp] theorem put_nil
    (base : Nat)
    (content : Nat → α) :
    put base [] content = content := by
  funext j
  simp [put]

/- The first element first, the others behind it. -/
theorem put_cons
    (base : Nat)
    (x : α)
    (xs : List α)
    (content : Nat → α) :
    put base (x :: xs) content =
      put (base + 1) xs (set base x content) := by
  funext j
  rcases Nat.lt_trichotomy j base with hLess | hHere | hMore
  · have hNot : ¬ base ≤ j := Nat.not_le.mpr hLess
    have hNotNext : ¬ base + 1 ≤ j := by omega
    simp [put, set, hNot, hNotNext, Nat.ne_of_lt hLess]
  · subst hHere
    have hNot : ¬ j + 1 ≤ j := by omega
    simp [put, set, hNot]
  · have hPlace : j - base = j - (base + 1) + 1 := by omega
    have hIn : base ≤ j := Nat.le_of_lt hMore
    have hNot : j ≠ base := by omega
    simp [put, set, hIn, hPlace, Nat.succ_le_of_lt hMore, hNot]

/- Places outside the range keep their elements. -/
theorem put_outside
    {base : Nat}
    {xs : List α}
    (content : Nat → α)
    {j : Nat}
    (hOutside : j < base ∨ base + xs.length ≤ j) :
    put base xs content j = content j := by
  unfold put
  split
  · have hNone : xs[j - base]? = none := by
      apply List.getElem?_eq_none
      omega
    rw [hNone, Option.getD_none]
  · rfl

/- An element that was put is found at its place. -/
theorem put_inside
    (base : Nat)
    {xs : List α}
    (content : Nat → α)
    {k : Nat}
    {x : α}
    (hElement : xs[k]? = some x) :
    put base xs content (base + k) = x := by
  simp [put, hElement]

/- A list put over blanks is a page that is given the list. -/
theorem put_blank
    (blank : α)
    (xs : List α)
    (j : Nat) :
    put 0 xs (fun _ => blank) j = (xs[j]?).getD blank := by
  simp [put]

@[simp] theorem read_zero
    (base : Nat)
    (content : Nat → α) :
    read base 0 content = [] := rfl

theorem read_succ
    (base n : Nat)
    (content : Nat → α) :
    read base (n + 1) content =
      content base :: read (base + 1) n content := by
  rw [read, List.range'_succ, List.map_cons]
  rfl

@[simp] theorem read_length
    (base n : Nat)
    (content : Nat → α) :
    (read base n content).length = n := by
  rw [read, List.length_map, List.length_range']

theorem read_take
    (base n k : Nat)
    (content : Nat → α) :
    (read base n content).take k =
      read base (min k n) content := by
  rw [read, ← List.map_take]
  by_cases hAll : n ≤ k
  · rw [List.take_range'_of_length_le hAll,
      Nat.min_eq_right hAll, read]
  · rw [List.take_range'_of_length_ge (by omega),
      Nat.min_eq_left (by omega), read]

theorem read_add
    (base m n : Nat)
    (content : Nat → α) :
    read base (m + n) content =
      read base m content ++ read (base + m) n content := by
  induction m generalizing base with
  | zero =>
      rw [Nat.zero_add, read_zero, Nat.add_zero,
        List.nil_append]
  | succ m ih =>
      rw [Nat.succ_add, read_succ, read_succ, ih,
        List.cons_append, Nat.add_assoc, Nat.add_comm 1]

/- Elements that were put are read back. -/
theorem read_put
    (base : Nat)
    (xs : List α)
    (content : Nat → α) :
    read base xs.length (put base xs content) = xs := by
  apply List.ext_getElem
  · rw [read_length]
  · intro i hi hi'
    simp [read, put, List.getElem?_eq_getElem hi']

end Pages
