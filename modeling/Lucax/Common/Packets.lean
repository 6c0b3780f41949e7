import Mathlib.Tactic.Common

/-
  A stream cut into packets of a fixed size, the last one
  possibly shorter.

  Key definitions include:
    * `Packets.split`

  The rules used on packet queues are:
    * `Packets.split_of_ne_nil`
    * `Packets.split_append`
    * `Packets.drop_split_succ`, `Packets.length_split`
    * `Packets.ne_nil_of_mem_split`
-/

------------------------------------------------------------
-- Cutting a Stream
------------------------------------------------------------

namespace Packets

variable {α : Type}

/- Packets of `size` elements; a size of 0 counts as 1. -/
def split
    (size : Nat) : List α → List (List α)
| [] => []
| x :: xs =>
    (x :: xs.take (size - 1)) :: split size (xs.drop (size - 1))
termination_by xs => xs.length
decreasing_by
  simp only [List.length_drop, List.length_cons]
  omega

variable {size : Nat}

@[simp] theorem split_nil :
    split size ([] : List α) = [] := by
  rw [split]

/- The first packet is cut off the front of the stream. -/
theorem split_of_ne_nil
    (hSize : 0 < size)
    {xs : List α}
    (hSome : xs ≠ []) :
    split size xs =
      xs.take size :: split size (xs.drop size) := by
  cases size with
  | zero => exact absurd hSize (Nat.lt_irrefl 0)
  | succ n =>
      cases xs with
      | nil => exact absurd rfl hSome
      | cons x xs =>
          rw [split]
          rfl

/- A stream no longer than a packet is one packet. -/
theorem split_of_length_le
    {xs : List α}
    (hSome : xs ≠ [])
    (hFits : xs.length ≤ size) :
    split size xs = [xs] := by
  have hSize : 0 < size :=
    Nat.lt_of_lt_of_le (List.length_pos_iff.mpr hSome) hFits
  rw [split_of_ne_nil hSize hSome, List.take_of_length_le hFits,
    List.drop_of_length_le hFits, split_nil]

/- A full packet, or a shorter last one, comes first. -/
theorem split_append
    {front rest : List α}
    (hSome : front ≠ [])
    (hPacket :
      front.length = size ∨ front.length ≤ size ∧ rest = []) :
    split size (front ++ rest) = front :: split size rest := by
  rcases hPacket with hFull | ⟨hShort, hLast⟩
  · have hSize : 0 < size := by
      rw [← hFull]
      exact List.length_pos_iff.mpr hSome
    rw [split_of_ne_nil hSize (List.append_ne_nil_of_left_ne_nil
        hSome rest),
      List.take_left' hFull, List.drop_left' hFull]
  · subst hLast
    rw [List.append_nil, split_of_length_le hSome hShort,
      split_nil]

/- The packets left once some have been taken. -/
theorem drop_split_succ
    (hSize : 0 < size)
    {xs : List α}
    (hSome : xs ≠ [])
    (n : Nat) :
    (split size xs).drop (n + 1) =
      (split size (xs.drop size)).drop n := by
  rw [split_of_ne_nil hSize hSome, List.drop_succ_cons]

/- As many packets as it takes, the last one counted whole. -/
theorem length_split
    (hSize : 0 < size)
    (xs : List α) :
    (split size xs).length = (xs.length + (size - 1)) / size := by
  fun_induction split size xs with
  | case1 =>
      rw [List.length_nil, List.length_nil, Nat.zero_add]
      exact (Nat.div_eq_of_lt (Nat.sub_lt hSize Nat.one_pos)).symm
  | case2 x xs ih =>
      rw [List.length_cons, ih, List.length_drop,
        List.length_cons]
      by_cases hMore : size - 1 ≤ xs.length
      · have hWhole :
            xs.length + 1 + (size - 1) =
              xs.length - (size - 1) + (size - 1) + size := by
          omega
        rw [hWhole, Nat.add_div_right _ hSize]
      · have hOne :
            xs.length + 1 + (size - 1) = xs.length + size := by
          omega
        have hLess : xs.length - (size - 1) = 0 := by omega
        rw [hLess, hOne, Nat.add_div_right _ hSize,
          Nat.zero_add,
          Nat.div_eq_of_lt (Nat.sub_lt hSize Nat.one_pos),
          Nat.div_eq_of_lt (by omega)]

/- Behind whole packets the next one begins anew. -/
theorem split_concat
    (hSize : 0 < size)
    (xs ys : List α)
    (hWhole : size ∣ xs.length) :
    split size (xs ++ ys) = split size xs ++ split size ys := by
  fun_induction split size xs with
  | case1 => rfl
  | case2 x xs ih =>
      have hFull : size - 1 ≤ xs.length := by
        have hLe := Nat.le_of_dvd (Nat.succ_pos _) hWhole
        omega
      have hRest : size ∣ (xs.drop (size - 1)).length := by
        rw [List.length_drop]
        rw [List.length_cons] at hWhole
        have hLess :
            xs.length - (size - 1) = xs.length + 1 - size := by
          omega
        rw [hLess]
        exact Nat.dvd_sub hWhole (Nat.dvd_refl _)
      rw [List.cons_append, split, List.cons_append,
        List.take_append_of_le_length hFull,
        List.drop_append_of_le_length hFull, ih hRest]

/- No packet is empty. -/
theorem ne_nil_of_mem_split
    {xs packet : List α}
    (hMem : packet ∈ split size xs) :
    packet ≠ [] := by
  fun_induction split size xs with
  | case1 => cases hMem
  | case2 x xs ih =>
      rcases List.mem_cons.mp hMem with rfl | hLater
      · exact List.cons_ne_nil _ _
      · exact ih hLater

end Packets
