import Mathlib.Algebra.Group.Nat.Defs
import Mathlib.Tactic.Common

/-
  Numbers in text, as the C library prints and reads them.

  Key definitions include:
    * `Numerals.digitIn`, `Numerals.number`
    * `Numerals.strtoul`
    * `Numerals.upperHex`

  What is printed is read back by:
    * `Numerals.number_toDigits`
    * `Numerals.strtoul_of_digits`
    * `Numerals.strtoul_upperHex`
-/

------------------------------------------------------------
-- Digits
------------------------------------------------------------

namespace Numerals

/- What a character stands for among 36 digits. -/
def digitValue (c : Char) : Option Nat :=
  if '0' ≤ c ∧ c ≤ '9' then some (c.toNat - 48)
  else if 'a' ≤ c ∧ c ≤ 'z' then some (c.toNat - 87)
  else if 'A' ≤ c ∧ c ≤ 'Z' then some (c.toNat - 55)
  else none

/- The same for the digits of a base. -/
def digitIn
    (base : Nat)
    (c : Char) : Option Nat :=
  (digitValue c).filter (fun d => d < base)

/-
  Go on reading digits behind a number: the number then, and
  what is not a digit any more.
-/
def number
    (base : Nat) :
    Nat → List Char → Nat × List Char
| value, [] => (value, [])
| value, c :: cs =>
    if (digitIn base c).isSome then
      number base (base * value + (digitIn base c).getD 0) cs
    else (value, c :: cs)

/- The text is made of digits of the base. -/
def AllDigits
    (base : Nat)
    (cs : List Char) : Prop :=
  ∀ c ∈ cs, (digitIn base c).isSome

instance
    (base : Nat)
    (cs : List Char) :
    Decidable (AllDigits base cs) :=
  List.decidableBAll
    (fun c => (digitIn base c).isSome = true) cs

theorem number_cons
    {base : Nat}
    {c : Char}
    {d : Nat}
    (hDigit : digitIn base c = some d)
    (value : Nat)
    (cs : List Char) :
    number base value (c :: cs) =
      number base (base * value + d) cs := by
  simp [number, hDigit]

/- Digits are read to their end, with what is behind next. -/
theorem number_append
    {base : Nat}
    {digits : List Char}
    (hDigits : AllDigits base digits)
    (value : Nat)
    (cs : List Char) :
    number base value (digits ++ cs) =
      number base (number base value digits).1 cs := by
  induction digits generalizing value with
  | nil => rfl
  | cons c digits ih =>
      have hHere := hDigits c List.mem_cons_self
      have hRest : AllDigits base digits :=
        fun c' hMem => hDigits c' (List.mem_cons_of_mem _ hMem)
      rw [List.cons_append, number, number, if_pos hHere,
        if_pos hHere, ih hRest]

theorem number_snd
    {base : Nat}
    {digits : List Char}
    (hDigits : AllDigits base digits)
    (value : Nat) :
    (number base value digits).2 = [] := by
  induction digits generalizing value with
  | nil => rfl
  | cons c digits ih =>
      have hHere := hDigits c List.mem_cons_self
      have hRest : AllDigits base digits :=
        fun c' hMem => hDigits c' (List.mem_cons_of_mem _ hMem)
      rw [number, if_pos hHere, ih hRest]

/- The digits below 16 stand for themselves in either case. -/
theorem digitValue_digitChar :
    ∀ d < 16, digitValue d.digitChar = some d := by
  decide

theorem digitValue_toUpper :
    ∀ d < 16, digitValue d.digitChar.toUpper = some d := by
  decide

theorem digitIn_digitChar
    {base d : Nat}
    (hBase : base ≤ 16)
    (hDigit : d < base) :
    digitIn base d.digitChar = some d := by
  rw [digitIn, digitValue_digitChar d (by omega)]
  simp [hDigit]

theorem digitIn_toUpper
    {d : Nat}
    (hDigit : d < 16) :
    digitIn 16 d.digitChar.toUpper = some d := by
  rw [digitIn, digitValue_toUpper d hDigit]
  simp [hDigit]

------------------------------------------------------------
-- Printed Numbers
------------------------------------------------------------

/-
  The digits of a number, each shown as `show` says, are
  digits and stand for the number.  By induction on the
  number, the last digit split off.
-/
theorem number_map_toDigits
    {base : Nat}
    (hBase : 1 < base)
    (shown : Char → Char)
    (hShown :
      ∀ d < base, digitIn base (shown d.digitChar) = some d)
    (n : Nat) :
    AllDigits base ((Nat.toDigits base n).map shown) ∧
      (number base 0 ((Nat.toDigits base n).map shown)).1 =
        n := by
  induction n using Nat.strongRecOn with
  | ind n ih =>
      have hLast := hShown (n % base) (Nat.mod_lt n (by omega))
      rw [Nat.toDigits_eq_if hBase]
      by_cases hOne : n < base
      · rw [if_pos hOne]
        have hHere := hShown n hOne
        refine ⟨?_, ?_⟩
        · intro c hMem
          simp only [List.map_cons, List.map_nil,
            List.mem_singleton] at hMem
          rw [hMem, hHere]
          rfl
        · rw [List.map_cons, number_cons hHere]
          simp [number]
      · rw [if_neg hOne, List.map_append]
        rcases ih (n / base)
            (Nat.div_lt_self (by omega) hBase) with
          ⟨hDigits, hValue⟩
        refine ⟨?_, ?_⟩
        · intro c hMem
          rcases List.mem_append.mp hMem with hFirst | hEnd
          · exact hDigits c hFirst
          · simp only [List.map_cons, List.map_nil,
              List.mem_singleton] at hEnd
            rw [hEnd, hLast]
            rfl
        · rw [number_append hDigits, hValue, List.map_cons,
            number_cons hLast]
          exact Nat.div_add_mod n base

/- A number printed in its base is read back. -/
theorem number_toDigits
    {base : Nat}
    (hBase : 1 < base)
    (hMost : base ≤ 16)
    (n : Nat) :
    AllDigits base (Nat.toDigits base n) ∧
      number base 0 (Nat.toDigits base n) = (n, []) := by
  rcases number_map_toDigits hBase id
      (fun d hd => digitIn_digitChar hMost hd) n with
    ⟨hDigits, hValue⟩
  rw [List.map_id] at hDigits hValue
  exact ⟨hDigits, Prod.ext hValue (number_snd hDigits 0)⟩

/- `%0nX` of `printf` -/
def upperHex (width n : Nat) : List Char :=
  List.leftpad width '0'
    ((Nat.toDigits 16 n).map Char.toUpper)

/- Zeroes in front change nothing. -/
theorem number_replicate_zero
    (base k : Nat)
    (hBase : 0 < base)
    (cs : List Char) :
    number base 0 (List.replicate k '0' ++ cs) =
      number base 0 cs := by
  have hZero : digitIn base '0' = some 0 := by
    have hValue : digitValue '0' = some 0 := by decide
    rw [digitIn, hValue]
    simp [hBase]
  induction k with
  | zero => rfl
  | succ k ih =>
      rw [List.replicate_succ, List.cons_append,
        number_cons hZero, Nat.mul_zero, Nat.add_zero, ih]

theorem upperHex_number
    (width n : Nat) :
    AllDigits 16 (upperHex width n) ∧
      number 16 0 (upperHex width n) = (n, []) := by
  rcases @number_map_toDigits 16 (by decide) Char.toUpper
      (fun d hd => digitIn_toUpper hd) n with
    ⟨hDigits, hValue⟩
  have hAll : AllDigits 16 (upperHex width n) := by
    intro c hMem
    rw [upperHex, List.leftpad] at hMem
    rcases List.mem_append.mp hMem with hPad | hDigit
    · rw [List.eq_of_mem_replicate hPad]
      decide
    · exact hDigits c hDigit
  refine ⟨hAll, Prod.ext ?_ (number_snd hAll 0)⟩
  rw [upperHex, List.leftpad,
    number_replicate_zero 16 _ (by decide), hValue]

/- A number that fits takes exactly the width. -/
theorem upperHex_length
    {width n : Nat}
    (hSome : 0 < width)
    (hFits : n < 16 ^ width) :
    (upperHex width n).length = width := by
  have hShort : (Nat.toDigits 16 n).length ≤ width :=
    (Nat.length_toDigits_le_iff (by decide) hSome).mpr hFits
  rw [upperHex, List.length_leftpad, List.length_map]
  exact Nat.max_eq_left hShort

/- The last digit is printed behind the others. -/
theorem upperHex_digit
    {width : Nat}
    (hSome : 0 < width)
    (n : Nat) :
    upperHex (width + 1) n =
      upperHex width (n / 16) ++
        [(n % 16).digitChar.toUpper] := by
  unfold upperHex
  rw [Nat.toDigits_eq_if (b := 16) (n := n) (by decide)]
  by_cases hOne : n < 16
  · rw [if_pos hOne, Nat.div_eq_of_lt hOne, Nat.toDigits_zero,
      Nat.mod_eq_of_lt hOne]
    obtain ⟨k, hWidth⟩ : ∃ k, width = k + 1 :=
      ⟨width - 1, by omega⟩
    have hPad :
        List.replicate (k + 1) '0' =
          List.replicate k '0' ++ ['0'] :=
      List.replicate_succ'
    subst hWidth
    simp [List.leftpad, hPad]
  · rw [if_neg hOne, List.map_append]
    simp [List.leftpad]

/- Two digits are printed behind the others. -/
theorem upperHex_byte
    {width : Nat}
    (hSome : 0 < width)
    (n : Nat) :
    upperHex (width + 2) n =
      upperHex width (n / 256) ++ upperHex 2 (n % 256) := by
  have hQuot : n / 16 / 16 = n / 256 := by omega
  have hLow : n % 256 / 16 = n / 16 % 16 := by omega
  have hLast : n % 256 % 16 = n % 16 := by omega
  have hOne :
      upperHex 1 (n / 16 % 16) =
        [(n / 16 % 16).digitChar.toUpper] := by
    rw [upperHex, Nat.toDigits_of_lt_base (by omega)]
    rfl
  rw [upperHex_digit (by omega), upperHex_digit hSome, hQuot,
    @upperHex_digit 1 (by decide), hLow, hLast, hOne,
    List.append_assoc]

------------------------------------------------------------
-- strtoul
------------------------------------------------------------

/- `isspace` -/
def isSpace (c : Char) : Bool :=
  c = ' ' ∨ '\t' ≤ c ∧ c ≤ '\r'

/- `ULONG_MAX` of a host whose `long` has 64 bits. -/
def ulongMax : Nat := 2 ^ 64 - 1

/- The text begins with `0x` and a digit behind it. -/
def hexMarked (cs : List Char) : Bool :=
  cs.head? = some '0' ∧
    (cs[1]? = some 'x' ∨ cs[1]? = some 'X') ∧
    (cs[2]?.bind (digitIn 16)).isSome

/- The base to read in and the text from its digits on. -/
def radix
    (base : Nat)
    (cs : List Char) : Nat × List Char :=
  if (base = 0 ∨ base = 16) ∧ hexMarked cs then (16, cs.drop 2)
  else if base = 0 then
    (if cs.head? = some '0' then 8 else 10, cs)
  else (base, cs)

/- A number out of range is the largest one. -/
def unsignedLong
    (negative : Bool)
    (n : Nat) : Nat :=
  if ulongMax < n then ulongMax
  else if negative then (2 ^ 64 - n) % 2 ^ 64
  else n

/-
  `strtoul(s, &end, base)`: the value, and the text at `end`.
  Without a digit it is the whole text.
-/
def strtoul
    (base : Nat)
    (s : List Char) : Nat × List Char :=
  let body := s.dropWhile isSpace
  let signed := body.head? = some '-' ∨ body.head? = some '+'
  let start :=
    radix base (if signed then body.drop 1 else body)
  if (start.2.head?.bind (digitIn start.1)).isSome then
    let out := number start.1 0 start.2
    (unsignedLong (body.head? = some '-') out.1, out.2)
  else (0, s)

/- A digit is no blank and no sign. -/
theorem of_digitIn
    {base : Nat}
    {c : Char}
    (hDigit : (digitIn base c).isSome) :
    isSpace c = false ∧ c ≠ '-' ∧ c ≠ '+' := by
  have hValue : (digitValue c).isSome := by
    cases hNone : digitValue c with
    | none => simp [digitIn, hNone] at hDigit
    | some d => rfl
  refine ⟨?_, ?_, ?_⟩
  · by_contra hSpace
    rw [Bool.not_eq_false, isSpace, decide_eq_true_eq]
      at hSpace
    rcases hSpace with hBlank | ⟨hTab, hReturn⟩
    · subst hBlank
      exact absurd hValue (by decide)
    · have hSmall : c ≤ '\r' := hReturn
      have hZero : ¬ '0' ≤ c := by
        intro hZero
        exact absurd (Char.le_trans hZero hSmall) (by decide)
      have hLower : ¬ 'a' ≤ c := by
        intro hLower
        exact absurd (Char.le_trans hLower hSmall) (by decide)
      have hUpper : ¬ 'A' ≤ c := by
        intro hUpper
        exact absurd (Char.le_trans hUpper hSmall) (by decide)
      simp [digitValue, hZero, hLower, hUpper] at hValue
  · intro hMinus
    subst hMinus
    exact absurd hValue (by decide)
  · intro hPlus
    subst hPlus
    exact absurd hValue (by decide)

/-
  A text that begins with a digit and whose base is settled
  is read to its end, if only digits of the base follow.
-/
theorem strtoul_of_radix
    {base b : Nat}
    {cs digits : List Char}
    (hFirst : ∃ b', (cs.head?.bind (digitIn b')).isSome)
    (hRadix : radix base cs = (b, digits))
    (hSome : digits ≠ [])
    (hDigits : AllDigits b digits)
    (hRange : (number b 0 digits).1 ≤ ulongMax) :
    strtoul base cs = ((number b 0 digits).1, []) := by
  rcases hFirst with ⟨b', hFirst⟩
  cases cs with
  | nil => exact absurd hFirst (by simp)
  | cons c cs =>
      rcases of_digitIn hFirst with ⟨hSpace, hMinus, hPlus⟩
      have hBody : (c :: cs).dropWhile isSpace = c :: cs :=
        List.dropWhile_cons_of_neg (by simp [hSpace])
      have hHead :
          (digits.head?.bind (digitIn b)).isSome := by
        cases digits with
        | nil => exact absurd rfl hSome
        | cons d digits => exact hDigits d List.mem_cons_self
      have hEnd := number_snd hDigits 0
      have hIn : ¬ ulongMax < (number b 0 digits).1 :=
        Nat.not_lt.mpr hRange
      simp [strtoul, hBody, hMinus, hPlus, hRadix, hHead, hEnd,
        unsignedLong, hIn]

theorem radix_of_ne
    {base : Nat}
    (hZero : base ≠ 0)
    (hHex : base ≠ 16)
    (cs : List Char) :
    radix base cs = (base, cs) := by
  rw [radix, if_neg, if_neg hZero]
  rintro ⟨hBase | hBase, _hMark⟩
  · exact hZero hBase
  · exact hHex hBase

/- The letter of the mark is no hexadecimal digit. -/
theorem hexMarked_of_digits
    {cs : List Char}
    (hDigits : AllDigits 16 cs) :
    hexMarked cs = false := by
  rcases cs with _ | ⟨c, _ | ⟨x, cs⟩⟩
  · rfl
  · simp [hexMarked]
  · have hDigit := hDigits x (by simp)
    have hLower : x ≠ 'x' := by
      intro hMark
      subst hMark
      exact absurd hDigit (by decide)
    have hUpper : x ≠ 'X' := by
      intro hMark
      subst hMark
      exact absurd hDigit (by decide)
    simp [hexMarked, hLower, hUpper]

theorem radix_of_digits
    {cs : List Char}
    (hDigits : AllDigits 16 cs) :
    radix 16 cs = (16, cs) := by
  rw [radix, if_neg, if_neg (by decide)]
  rintro ⟨_hBase, hMark⟩
  rw [hexMarked_of_digits hDigits] at hMark
  exact absurd hMark (by decide)

theorem head_of_digits
    {b : Nat}
    {cs : List Char}
    (hSome : cs ≠ [])
    (hDigits : AllDigits b cs) :
    (cs.head?.bind (digitIn b)).isSome := by
  cases cs with
  | nil => exact absurd rfl hSome
  | cons c cs => exact hDigits c List.mem_cons_self

/- Digits of a base are read in it as they stand. -/
theorem strtoul_of_digits
    {base : Nat}
    (hZero : base ≠ 0)
    {cs : List Char}
    (hSome : cs ≠ [])
    (hDigits : AllDigits base cs)
    (hRange : (number base 0 cs).1 ≤ ulongMax) :
    strtoul base cs = ((number base 0 cs).1, []) := by
  refine
    strtoul_of_radix ⟨base, head_of_digits hSome hDigits⟩ ?_
      hSome hDigits hRange
  by_cases hHex : base = 16
  · subst hHex
    exact radix_of_digits hDigits
  · exact radix_of_ne hZero hHex cs

/- What `printf` prints in hexadecimal, `strtoul` reads. -/
theorem strtoul_upperHex
    {width n : Nat}
    (hRange : n ≤ ulongMax) :
    strtoul 16 (upperHex width n) = (n, []) := by
  rcases upperHex_number width n with ⟨hDigits, hNumber⟩
  have hSome : upperHex width n ≠ [] := by
    rw [upperHex, List.leftpad]
    simp
  have hRead :=
    strtoul_of_digits (by decide) hSome hDigits
      (by rw [hNumber]; exact hRange)
  rw [hRead, hNumber]

end Numerals
