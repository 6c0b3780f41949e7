import Lucax.Files.Records

/-
  Bytes as numbers: what `fileio_num` writes in a base of the
  user's choice, and what `fileio_imm` reads from the command
  line.

  Key definitions include:
    * `itoaSimple`, `fileioNum`
    * `fileioImm`

  Main declarations:
    * `itoaSimple_eq`
    * `immValue_number`
    * `imm_num_roundTrip`
-/

------------------------------------------------------------
-- Writing
------------------------------------------------------------

namespace Lucax

open Numerals

/- The digit `itoa_simple` puts for a remainder. -/
def itoaDigit (rem : Nat) : Char :=
  if 10 ≤ rem then Char.ofNat (rem - 10 + 'a'.toNat)
  else Char.ofNat (rem + '0'.toNat)

/-
  The loop of `itoa_simple`, the last digit first.  The number
  gets smaller, so as many turns as it says are enough.
-/
def itoaLoop
    (base : Nat) :
    Nat → Nat → List Char
| 0, n => [itoaDigit (n % base)]
| fuel + 1, n =>
    itoaDigit (n % base) ::
      if n / base ≠ 0 then itoaLoop base fuel (n / base) else []

def itoaSimple
    (n base : Nat) : List Char :=
  (itoaLoop base n n).reverse

/- The formats of numbers. -/
inductive NumberFormat where
| hex
| dec
| oct
| bin
deriving DecidableEq

def NumberFormat.base : NumberFormat → Nat
| .hex => 16
| .dec => 10
| .oct => 8
| .bin => 2

/- `prefix`, which is a word of the language here. -/
def NumberFormat.mark : NumberFormat → List Char
| .hex => ['0', 'x']
| .dec => []
| .oct => ['0']
| .bin => ['0', 'b']

/- A byte; below 8 an octal number has no mark. -/
def numberText
    (fmt : NumberFormat)
    (b : UInt8) : List Char :=
  (if fmt.mark ≠ [] ∧ ¬ (fmt.base = 8 ∧ b.toNat < 8) then
    fmt.mark
    else []) ++
    itoaSimple b.toNat fmt.base

/- The numbers with commas between them. -/
def numbersText
    (fmt : NumberFormat) :
    List UInt8 → List Char
| [] => []
| [b] => numberText fmt b
| b :: bytes => numberText fmt b ++ ',' :: numbersText fmt bytes

/- `fileio_num` for `FIO_WRITE`: the text and a newline. -/
def fileioNum
    (fmt : NumberFormat)
    (mem : TaggedMem)
    (size : Nat) : Int × List Char :=
  (0, numbersText fmt (Pages.read 0 size mem.buf) ++ ['\n'])

------------------------------------------------------------
-- Reading
------------------------------------------------------------

/- `" ,"` -/
def immDelimits (c : Char) : Bool :=
  c = ' ' ∨ c = ','

/- The value of a token and what stands at `e`. -/
def immValue (p : List Char) : Nat × List Char :=
  if p.take 2 = ['0', 'b'] then strtoul 2 (p.drop 2)
  else strtoul 0 p

/- The loop of `fileio_imm`. -/
def immLoop
    (size : Nat) :
    List (List Char) → Nat → TaggedMem → Int × TaggedMem
| [], loc, mem => ((loc : Int), mem)
| p :: ps, loc, mem =>
    if loc < size then
      if (immValue p).2 ≠ [] then (-1, mem)
      else
        immLoop size ps (loc + 1)
          (mem.setByte loc (UInt8.ofNat (immValue p).1))
    else ((loc : Int), mem)

/- `fileio_imm` for `FIO_READ`. -/
def fileioImm
    (filename : List Char)
    (mem : TaggedMem)
    (size : Nat) : Int × TaggedMem :=
  immLoop size (TextLines.tokens immDelimits filename) 0 mem

------------------------------------------------------------
-- One Number
------------------------------------------------------------

theorem itoaDigit_eq :
    ∀ d < 16, itoaDigit d = d.digitChar := by
  decide

/- `itoa_simple` gives the digits, the first one first. -/
theorem itoaSimple_eq
    {base : Nat}
    (hBase : 1 < base)
    (hMost : base ≤ 16)
    (n : Nat) :
    itoaSimple n base = Nat.toDigits base n := by
  have hLoop :
      ∀ fuel n, n ≤ fuel →
        (itoaLoop base fuel n).reverse =
            Nat.toDigits base n := by
    intro fuel
    induction fuel with
    | zero =>
        intro n hFuel
        have hNone : n = 0 := Nat.le_zero.mp hFuel
        subst hNone
        rw [itoaLoop, Nat.zero_mod, Nat.toDigits_zero]
        rfl
    | succ fuel ih =>
        intro n hFuel
        have hRem := Nat.mod_lt n (show 0 < base by omega)
        rw [itoaLoop, itoaDigit_eq _ (by omega),
          Nat.toDigits_eq_if hBase]
        by_cases hOne : n < base
        · have hQuot : n / base = 0 := Nat.div_eq_of_lt hOne
          rw [if_neg (by simp [hQuot]), if_pos hOne,
            Nat.mod_eq_of_lt hOne]
          rfl
        · have hQuot : n / base ≠ 0 := by
            have hPos :=
              Nat.div_pos (Nat.not_lt.mp hOne)
                (show 0 < base by omega)
            omega
          have hLess : n / base < n :=
            Nat.div_lt_self (by omega) hBase
          rw [if_pos hQuot, if_neg hOne, List.reverse_cons,
            ih _ (by omega)]
  exact hLoop n n (Nat.le_refl n)

/- Only 0 begins with the digit 0. -/
theorem toDigits_head
    {base : Nat}
    (hBase : 1 < base)
    (hMost : base ≤ 16)
    {n : Nat}
    (hZero : (Nat.toDigits base n).head? = some '0') :
    n = 0 := by
  induction n using Nat.strongRecOn with
  | ind n ih =>
      rw [Nat.toDigits_eq_if hBase] at hZero
      by_cases hOne : n < base
      · rw [if_pos hOne, List.head?_cons, Option.some.injEq]
          at hZero
        have hDigit :
            ∀ d < 16, d.digitChar = '0' → d = 0 := by decide
        exact hDigit n (by omega) hZero
      · rw [if_neg hOne] at hZero
        cases hFirst : Nat.toDigits base (n / base) with
        | nil => exact absurd hFirst Nat.toDigits_ne_nil
        | cons c cs =>
            rw [hFirst, List.cons_append, List.head?_cons]
              at hZero
            have hQuot :=
              ih (n / base)
                (Nat.div_lt_self (by omega) hBase)
                (by rw [hFirst, List.head?_cons]; exact hZero)
            have hPos :=
              Nat.div_pos (Nat.not_lt.mp hOne)
                (show 0 < base by omega)
            omega

/- A text whose second character is a digit has no mark. -/
theorem unmarked_of_digits
    {base : Nat}
    (hMost : base ≤ 10)
    {cs : List Char}
    (hDigits : AllDigits base cs) :
    hexMarked cs = false ∧ cs.take 2 ≠ ['0', 'b'] := by
  have hNone :
      ∀ c ∈ ['x', 'X', 'b'],
        (digitIn base c).isSome = false := by
    intro c hMem
    simp only [List.mem_cons, List.not_mem_nil,
      or_false] at hMem
    rcases hMem with hLetter | hLetter | hLetter
    all_goals
      subst hLetter
      simp only [digitIn, Option.isSome_eq_false_iff,
        Option.isNone_iff_eq_none, Option.filter_eq_none_iff]
      intro d hValue
      have hOver : 10 ≤ d := by
        cases hValue
        decide
      simp
      omega
  rcases cs with _ | ⟨c, _ | ⟨x, cs⟩⟩
  · exact ⟨rfl, by simp⟩
  · exact ⟨by simp [hexMarked], by simp⟩
  · have hDigit := hDigits x (by simp)
    have hOther : ∀ c ∈ ['x', 'X', 'b'], x ≠ c := by
      intro c hMem hSame
      rw [hSame, hNone c hMem] at hDigit
      exact absurd hDigit (by decide)
    refine ⟨?_, ?_⟩
    · simp [hexMarked, hOther 'x' (by simp),
        hOther 'X' (by simp)]
    · intro hMark
      simp only [List.take_succ_cons, List.take_zero,
        List.cons.injEq, and_true] at hMark
      exact hOther 'b' (by simp) hMark.2

/- A decimal number is read in base 10, 0 in base 8. -/
theorem immValue_decimal
    {n : Nat}
    (hRange : n ≤ ulongMax) :
    immValue (Nat.toDigits 10 n) = (n, []) := by
  rcases @number_toDigits 10 (by decide) (by decide) n
    with ⟨hDigits, hNumber⟩
  rcases unmarked_of_digits (by decide) hDigits with
    ⟨hMark, hBin⟩
  rw [immValue, if_neg hBin]
  by_cases hZero : n = 0
  · subst hZero
    decide
  · have hHead : (Nat.toDigits 10 n).head? ≠ some '0' := by
      intro hFirst
      exact hZero (toDigits_head (by decide) (by decide) hFirst)
    have hRadix :
        radix 0 (Nat.toDigits 10 n) =
          (10, Nat.toDigits 10 n) := by
      rw [radix, hMark, if_neg (by simp), if_pos rfl,
        if_neg hHead]
    have hRead :=
      strtoul_of_radix
        ⟨10, head_of_digits Nat.toDigits_ne_nil hDigits⟩ hRadix
        Nat.toDigits_ne_nil hDigits
        (by rw [hNumber]; exact hRange)
    rw [hRead, hNumber]

/- A number in octal has a 0 in front of its digits. -/
theorem immValue_octal
    {n : Nat}
    (hRange : n ≤ ulongMax) :
    immValue ('0' :: Nat.toDigits 8 n) = (n, []) := by
  rcases @number_toDigits 8 (by decide) (by decide) n
    with ⟨hDigits, hNumber⟩
  have hAll : AllDigits 8 ('0' :: Nat.toDigits 8 n) := by
    intro c hMem
    rcases List.mem_cons.mp hMem with hHere | hRest
    · rw [hHere]
      decide
    · exact hDigits c hRest
  rcases unmarked_of_digits (by decide) hAll with ⟨hMark, hBin⟩
  have hRadix :
      radix 0 ('0' :: Nat.toDigits 8 n) =
        (8, '0' :: Nat.toDigits 8 n) := by
    rw [radix, hMark, if_neg (by simp), if_pos rfl,
      List.head?_cons, if_pos rfl]
  have hValue :
      (number 8 0 ('0' :: Nat.toDigits 8 n)).1 = n := by
    have hZero :=
      number_replicate_zero 8 1 (by decide) (Nat.toDigits 8 n)
    rw [List.replicate_one, List.singleton_append] at hZero
    rw [hZero, hNumber]
  have hRead :=
    strtoul_of_radix ⟨8, head_of_digits (by simp) hAll⟩ hRadix
      (by simp) hAll (by rw [hValue]; exact hRange)
  rw [immValue, if_neg hBin, hRead, hValue]

theorem immValue_hex
    {n : Nat}
    (hRange : n ≤ ulongMax) :
    immValue ('0' :: 'x' :: Nat.toDigits 16 n) = (n, []) := by
  rcases @number_toDigits 16 (by decide) (by decide) n
    with ⟨hDigits, hNumber⟩
  have hHead :=
    head_of_digits Nat.toDigits_ne_nil hDigits
  have hMark :
      hexMarked ('0' :: 'x' :: Nat.toDigits 16 n) = true := by
    rw [List.head?_eq_getElem?] at hHead
    simp [hexMarked, hHead]
  have hRadix :
      radix 0 ('0' :: 'x' :: Nat.toDigits 16 n) =
        (16, Nat.toDigits 16 n) := by
    rw [radix, hMark, if_pos (by simp)]
    rfl
  have hBin :
      ('0' :: 'x' :: Nat.toDigits 16 n).take 2 ≠
          ['0', 'b'] := by
    simp
  have hRead :=
    strtoul_of_radix
      ⟨16, by rw [List.head?_cons]; decide⟩ hRadix
      Nat.toDigits_ne_nil hDigits
      (by rw [hNumber]; exact hRange)
  rw [immValue, if_neg hBin, hRead, hNumber]

theorem immValue_binary
    {n : Nat}
    (hRange : n ≤ ulongMax) :
    immValue ('0' :: 'b' :: Nat.toDigits 2 n) = (n, []) := by
  rcases @number_toDigits 2 (by decide) (by decide) n
    with ⟨hDigits, hNumber⟩
  have hRead :=
    @strtoul_of_digits 2 (by decide) _ Nat.toDigits_ne_nil
        hDigits (by rw [hNumber]; exact hRange)
  have hBin :
      ('0' :: 'b' :: Nat.toDigits 2 n).take 2 =
        ['0', 'b'] := rfl
  rw [immValue, if_pos hBin]
  exact hRead.trans (by rw [hNumber])

/- A byte in any format is read back. -/
theorem immValue_number
    (fmt : NumberFormat)
    (b : UInt8) :
    immValue (numberText fmt b) = (b.toNat, []) := by
  have hRange : b.toNat ≤ ulongMax := (byte_fits b).2
  rw [numberText,
    itoaSimple_eq (by cases fmt <;> decide)
      (by cases fmt <;> decide)]
  cases fmt with
  | hex => exact immValue_hex hRange
  | dec => exact immValue_decimal hRange
  | oct =>
      by_cases hOne : b.toNat < 8
      · have hSame :
            Nat.toDigits 8 b.toNat =
                Nat.toDigits 10 b.toNat := by
          rw [Nat.toDigits_of_lt_base hOne,
            Nat.toDigits_of_lt_base (by omega)]
        have hPlain : ¬ (NumberFormat.oct.mark ≠ [] ∧
            ¬ (NumberFormat.oct.base = 8 ∧ b.toNat < 8)) := by
          rintro ⟨_hMark, hNot⟩
          exact hNot ⟨rfl, hOne⟩
        rw [if_neg hPlain]
        exact
          (congrArg immValue hSame).trans
            (immValue_decimal hRange)
      · have hMarked : NumberFormat.oct.mark ≠ [] ∧
            ¬ (NumberFormat.oct.base = 8 ∧ b.toNat < 8) :=
          ⟨by decide, fun hSmall => hOne hSmall.2⟩
        rw [if_pos hMarked]
        exact immValue_octal hRange
  | bin => exact immValue_binary hRange

------------------------------------------------------------
-- A Row of Numbers
------------------------------------------------------------

/- A digit or the letter of a mark is no delimiter. -/
theorem numberText_token
    (fmt : NumberFormat)
    (b : UInt8) :
    numberText fmt b ≠ [] ∧
      ∀ c ∈ numberText fmt b, immDelimits c = false := by
  rw [numberText,
    itoaSimple_eq (by cases fmt <;> decide)
      (by cases fmt <;> decide)]
  have hBase : 1 < fmt.base ∧ fmt.base ≤ 16 := by
    cases fmt <;> decide
  refine ⟨by simp, ?_⟩
  intro c hMem
  rcases List.mem_append.mp hMem with hMark | hDigit
  · have hIn : c ∈ fmt.mark := by
      by_cases hMarked : fmt.mark ≠ [] ∧
          ¬ (fmt.base = 8 ∧ b.toNat < 8)
      · rwa [if_pos hMarked] at hMark
      · rw [if_neg hMarked] at hMark
        exact absurd hMark (by simp)
    have hAll :
        ∀ c ∈ fmt.mark, immDelimits c = false := by
      cases fmt <;> simp [NumberFormat.mark, immDelimits]
    exact hAll c hIn
  · have hSome :=
      (number_toDigits hBase.1 hBase.2 b.toNat).1 c hDigit
    rw [immDelimits, decide_eq_false_iff_not]
    rintro (hBlank | hComma)
    · subst hBlank
      have hNone : digitIn fmt.base ' ' = none := by
        rw [digitIn]
        rfl
      rw [hNone] at hSome
      exact absurd hSome (by decide)
    · subst hComma
      have hNone : digitIn fmt.base ',' = none := by
        rw [digitIn]
        rfl
      rw [hNone] at hSome
      exact absurd hSome (by decide)

/- Each number of a row is a token. -/
theorem tokens_numbersText
    (fmt : NumberFormat)
    (bytes : List UInt8) :
    TextLines.tokens immDelimits (numbersText fmt bytes) =
      bytes.map (numberText fmt) := by
  induction bytes with
  | nil => rfl
  | cons b bytes ih =>
      rcases numberText_token fmt b with ⟨hSome, hPlain⟩
      cases bytes with
      | nil => exact TextLines.tokens_last hPlain hSome
      | cons b' bytes =>
          have hText :
              numbersText fmt (b :: b' :: bytes) =
                numberText fmt b ++
                  ',' :: numbersText fmt (b' :: bytes) := rfl
          rw [hText,
            TextLines.tokens_delimited hPlain hSome (by decide),
            ih, List.map_cons, List.map_cons, List.map_cons]

/-
  The loop stores the numbers as long as there is room.  By
  induction on the bytes.
-/
theorem immLoop_numbers
    (fmt : NumberFormat)
    (size : Nat)
    (bytes : List UInt8)
    {loc : Nat}
    (hRoom : loc ≤ size)
    (mem : TaggedMem) :
    immLoop size (bytes.map (numberText fmt)) loc mem =
      (((loc + min (size - loc) bytes.length : Nat) : Int),
        mem.fill loc (bytes.take (size - loc))) := by
  induction bytes generalizing loc mem with
  | nil => simp [immLoop]
  | cons b bytes ih =>
      rw [List.map_cons, immLoop]
      by_cases hMore : loc < size
      · obtain ⟨k, hLeft⟩ : ∃ k, size - loc = k + 1 :=
          ⟨size - loc - 1, by omega⟩
        have hNext : size - (loc + 1) = k := by omega
        have hCount :
            loc + 1 + min k bytes.length =
              loc + min (k + 1) (bytes.length + 1) := by
          omega
        rw [if_pos hMore, immValue_number,
          if_neg (by simp), ih (by omega), hNext, hLeft,
          List.take_succ_cons, TaggedMem.fill_cons,
          List.length_cons, hCount, UInt8.ofNat_toNat]
      · have hNone : size - loc = 0 := by omega
        rw [if_neg hMore, hNone, List.take_zero,
          TaggedMem.fill_nil, Nat.zero_min, Nat.add_zero]

/-
  The numbers that are written for a memory, in any base, are
  read from the command line as the bytes of that memory, as
  many as there is room for, and nothing else changes.
-/
theorem imm_num_roundTrip
    (fmt : NumberFormat)
    (source target : TaggedMem)
    (count size : Nat) :
    ∃ text,
      fileioNum fmt source count = (0, text ++ ['\n']) ∧
        fileioImm text target size =
          (((min size count : Nat) : Int),
            target.fill 0
              (Pages.read 0 (min size count) source.buf)) := by
  refine
    ⟨numbersText fmt (Pages.read 0 count source.buf), rfl, ?_⟩
  rw [fileioImm, tokens_numbersText,
    immLoop_numbers fmt size _ (Nat.zero_le size), Nat.zero_add,
    Nat.sub_zero, Pages.read_length, Pages.read_take]

end Lucax
