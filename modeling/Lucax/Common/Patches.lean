import Lucax.Common.Pages

/-
  Some of the first pages of a memory replaced by others.

  Key definitions include:
    * `Pages.patch`

  The rules used on loops over pages are:
    * `Pages.patch_zero`
    * `Pages.patch_chosen`, `Pages.patch_skipped`
    * `Pages.patch_limit`
    * `Pages.writePage_whole`, `Pages.read_shift`
-/

------------------------------------------------------------
-- Patches
------------------------------------------------------------

namespace Pages

variable {α : Type}

/-
  From `base` on, the chosen ones of the first `count` pages
  show `data`, which begins with the first page.
-/
def patch
    (page base : Nat)
    (chosen : Nat → Bool)
    (data : Nat → α)
    (count : Nat)
    (content : Nat → α) : Nat → α :=
  fun j =>
    if base ≤ j ∧ (j - base) / page < count ∧
        chosen ((j - base) / page) = true then
      data (j - base)
    else content j

/- A whole page written is a list put there. -/
theorem writePage_whole
    {page : Nat}
    (base : Nat)
    (blank : α)
    {xs : List α}
    (hWhole : xs.length = page)
    (content : Nat → α) :
    writePage page base blank xs content =
      put base xs content := by
  funext j
  unfold writePage put
  by_cases hLow : base ≤ j
  · by_cases hHigh : j < base + page
    · have hElement : j - base < xs.length := by
        omega
      rw [if_pos ⟨hLow, hHigh⟩, if_pos hLow,
        List.getElem?_eq_getElem hElement]
      rfl
    · have hNone : xs[j - base]? = none :=
        List.getElem?_eq_none (by omega)
      rw [if_neg fun h => hHigh h.2, if_pos hLow, hNone]
      rfl
  · rw [if_neg fun h => hLow h.1, if_neg hLow]

/- Reading what lies further on. -/
theorem read_shift
    (offset base n : Nat)
    (content : Nat → α) :
    read base n (fun j => content (offset + j)) =
      read (offset + base) n content := by
  rw [read, read]
  have hPlaces :
      List.range' (offset + base) n =
        (List.range' base n).map (offset + ·) := by
    rw [List.map_add_range']
  rw [hPlaces, List.map_map]
  rfl

section Patch

variable {page base : Nat} {chosen : Nat → Bool}
variable {data content : Nat → α}

@[simp] theorem patch_zero :
    patch page base chosen data 0 content = content := by
  funext j
  rw [patch, if_neg]
  rintro ⟨_hBase, hNone, _hChosen⟩
  exact absurd hNone (Nat.not_lt_zero _)

/- A page that is not chosen stays. -/
theorem patch_skipped
    {k : Nat}
    (hSkipped : chosen k = false) :
    patch page base chosen data (k + 1) content =
      patch page base chosen data k content := by
  funext j
  unfold patch
  by_cases hHere : (j - base) / page = k
  · rw [hHere, hSkipped, if_neg (by simp), if_neg (by simp)]
  · have hSame :
        (j - base) / page < k + 1 ↔ (j - base) / page < k := by
      omega
    simp only [hSame]

/- The next page written over the ones before. -/
theorem patch_chosen
    (hPage : 0 < page)
    {k : Nat}
    (hChosen : chosen k = true)
    (blank : α) :
    patch page base chosen data (k + 1) content =
      writePage page (base + k * page) blank
        (read (k * page) page data)
        (patch page base chosen data k content) := by
  funext j
  by_cases hIn :
      base + k * page ≤ j ∧ j < base + k * page + page
  · have hQuot : (j - base) / page = k := by
      apply Nat.div_eq_of_lt_le
      · omega
      · rw [Nat.succ_mul]
        omega
    have hElement :
        (read (k * page) page data)[j - (base + k * page)]? =
          some (data (j - base)) := by
      have hPlace :
          k * page + (j - (base + k * page)) = j - base := by
        omega
      rw [read, List.getElem?_map,
        List.getElem?_range' (by omega), Option.map_some,
        Nat.one_mul, hPlace]
    rw [writePage, if_pos hIn, hElement, Option.getD_some,
      patch, if_pos]
    exact ⟨by omega, by omega, by rw [hQuot]; exact hChosen⟩
  · have hQuot : base ≤ j → (j - base) / page ≠ k := by
      intro hBase hSame
      have hLow := Nat.div_mul_le_self (j - base) page
      have hHigh := Nat.lt_div_mul_add hPage (a := j - base)
      rw [hSame] at hLow hHigh
      omega
    rw [writePage, if_neg hIn, patch, patch]
    by_cases hBase : base ≤ j
    · have hSame :
          (j - base) / page < k + 1 ↔
            (j - base) / page < k := by
        have hOther := hQuot hBase
        omega
      simp only [hSame]
    · rw [if_neg fun h => hBase h.1, if_neg fun h => hBase h.1]

/- Whether a page begins below a limit. -/
theorem patch_limit
    {k limit : Nat}
    (hBelow : ∀ q < k, q * page < limit)
    (hAbove : limit ≤ k * page)
    (j : Nat) :
    patch page base chosen data k content j =
      if base ≤ j ∧ (j - base) / page * page < limit ∧
          chosen ((j - base) / page) = true then
        data (j - base)
      else content j := by
  have hSame :
      (j - base) / page < k ↔
        (j - base) / page * page < limit := by
    constructor
    · intro hLess
      exact hBelow _ hLess
    · intro hLess
      by_contra hMore
      have hLeast :=
        Nat.mul_le_mul_right page (Nat.not_lt.mp hMore)
      omega
  simp only [patch, hSame]

end Patch

end Pages
