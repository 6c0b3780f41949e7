import Lucax.Host.Completeness

/-
  Where `lucax_paged_load` stores, whatever the device sends.

  Key definitions include:
    * `Outcomes`, `scriptedUsb`
    * `Outcomes.Makes`, `Outcomes.Fits`
    * `Stores`, `StoresInside`

  Main declarations:
    * `loadLoop_scripted`
    * `stores_iff`
    * `storesInside_iff_fits`
    * `exists_not_fits`
-/

------------------------------------------------------------
-- Sequences of Results
------------------------------------------------------------

namespace Lucax

/-
  What libusb reports to one call: the code of the control
  transfer, and the code and the bytes stored of every bulk
  transfer.  A bulk transfer stores no more than the 64 bytes
  it is asked for.
-/
structure Outcomes where
  request : Int
  bulkIn : Nat → Int × List UInt8
  bounded : ∀ k, (bulkIn k).2.length ≤ 64

/- The libusb with these results; it counts bulk transfers. -/
def scriptedUsb (o : Outcomes) : Libusb Nat where
  controlOut := fun k _ _ => (o.request, k)
  controlIn := fun k _ => ((o.request, []), k)
  bulkOut := fun k packet => ((0, packet.length), k)
  bulkIn := fun k _ => (o.bulkIn k, k + 1)

namespace Outcomes

variable (o : Outcomes)

/- The bytes stored by the first `k` bulk transfers. -/
def stored (k : Nat) : List UInt8 :=
  moved ((List.range k).map o.bulkIn)

/- A success that moved a byte, so that the loop goes on. -/
def Continues (k : Nat) : Prop :=
  0 ≤ (o.bulkIn k).1 ∧ (o.bulkIn k).2 ≠ []

/- The loop comes to its transfer number `k`. -/
def Begins (n k : Nat) : Prop :=
  (o.stored k).length < n ∧ ∀ i < k, o.Continues i

/-
  No bulk transfer stores more than is missing of the page
  when it begins.
-/
def Fits (n : Nat) : Prop :=
  0 ≤ o.request →
    ∀ k, o.Begins n k → (o.stored (k + 1)).length ≤ n

/- The loop makes `count` transfers and ends. -/
structure Makes (n count : Nat) : Prop where
  begun : ∀ k < count, o.Begins n k
  ends : ¬ o.Begins n count

theorem stored_succ
    (k : Nat) :
    o.stored (k + 1) = o.stored k ++ (o.bulkIn k).2 := by
  simp [stored, moved, List.range_succ]

theorem stored_length_mono
    {k k' : Nat}
    (hLe : k ≤ k') :
    (o.stored k).length ≤ (o.stored k').length := by
  induction hLe with
  | refl => exact Nat.le_refl _
  | step _hLe ih =>
      rw [stored_succ, List.length_append]
      omega

variable {o}

/- What follows a transfer that is not made is not made. -/
theorem Begins.before
    {n k k' : Nat}
    (hBegins : o.Begins n k')
    (hLe : k ≤ k') :
    o.Begins n k := by
  have hStored := o.stored_length_mono hLe
  constructor
  · exact Nat.lt_of_le_of_lt hStored hBegins.1
  · intro i hi
    exact hBegins.2 i (Nat.lt_of_lt_of_le hi hLe)

theorem Makes.begins_iff
    {n count : Nat}
    (hMakes : o.Makes n count)
    (k : Nat) :
    o.Begins n k ↔ k < count := by
  constructor
  · intro hBegins
    by_contra hNot
    exact hMakes.ends (hBegins.before (Nat.not_lt.mp hNot))
  · exact hMakes.begun k

theorem Makes.unique
    {n count count' : Nat}
    (hMakes : o.Makes n count)
    (hMakes' : o.Makes n count') :
    count = count' := by
  apply Nat.le_antisymm
  · by_contra hMore
    exact hMakes'.ends (hMakes.begun count' (by omega))
  · by_contra hMore
    exact hMakes.ends (hMakes'.begun count (by omega))

/- All that is stored fits exactly when each transfer does. -/
theorem Makes.fits_iff
    {n count : Nat}
    (hMakes : o.Makes n count)
    (hSent : 0 ≤ o.request) :
    o.Fits n ↔ (o.stored count).length ≤ n := by
  constructor
  · intro hFits
    cases count with
    | zero => exact Nat.zero_le n
    | succ k =>
        exact hFits hSent k (hMakes.begun k (Nat.lt_succ_self k))
  · intro hAll _hSent k hBegins
    have hMade : k + 1 ≤ count :=
      (hMakes.begins_iff k).mp hBegins
    exact Nat.le_trans (o.stored_length_mono hMade) hAll

end Outcomes

------------------------------------------------------------
-- The Loop
------------------------------------------------------------

section Load

variable (o : Outcomes)

/-
  The loop stores the bytes of the transfers it makes one
  behind the other.  By induction on its turns; `k` of the
  transfers are made.
-/
theorem loadLoop_scripted
    (base n fuel k : Nat)
    (m : AvrMem)
    (hTurns : n ≤ (o.stored k).length + fuel)
    (hBegun : ∀ i < k, o.Begins n i)
    (hGoes : ∀ i < k, o.Continues i) :
    ∃ count,
      o.Makes n count ∧
        (loadLoop (scriptedUsb o) base n fuel
            (o.stored k).length (m.store base (o.stored k))
            k).1.2 =
          m.store base (o.stored count) := by
  induction fuel generalizing k with
  | zero =>
      have hDone : ¬ (o.stored k).length < n := by omega
      refine ⟨k, ⟨hBegun, fun hBegins => hDone hBegins.1⟩, ?_⟩
      rw [loadLoop, if_neg hDone]
  | succ fuel ih =>
      rw [loadLoop]
      by_cases hMore : (o.stored k).length < n
      · have hNow : o.Begins n k := ⟨hMore, hGoes⟩
        have hBegunNow : ∀ i < k + 1, o.Begins n i :=
          fun i hi => hNow.before (Nat.le_of_lt_succ hi)
        have hStored :
            (m.store base (o.stored k)).store
                (base + (o.stored k).length) (o.bulkIn k).2 =
              m.store base (o.stored (k + 1)) := by
          rw [← AvrMem.store_append, ← o.stored_succ]
        have hStops :
            ¬ o.Continues k → o.Makes n (k + 1) := by
          intro hNot
          refine ⟨hBegunNow, ?_⟩
          intro hBegins
          exact hNot (hBegins.2 k (Nat.lt_succ_self k))
        have hBulk :
            (scriptedUsb o).bulkIn k 64 =
              (o.bulkIn k, k + 1) := rfl
        rw [if_pos hMore, hBulk]
        simp only [hStored]
        by_cases hError : (o.bulkIn k).1 < 0
        · rw [if_pos hError]
          refine ⟨k + 1, hStops ?_, rfl⟩
          intro hContinues
          exact Int.not_lt.mpr hContinues.1 hError
        · rw [if_neg hError]
          by_cases hNone : (o.bulkIn k).2.length = 0
          · rw [if_pos hNone]
            refine ⟨k + 1, hStops ?_, rfl⟩
            intro hContinues
            exact hContinues.2
              (List.eq_nil_of_length_eq_zero hNone)
          · rw [if_neg hNone]
            have hContinues : o.Continues k :=
              ⟨Int.not_lt.mp hError,
                fun hNil => hNone (by rw [hNil]; rfl)⟩
            have hLength :
                (o.stored k).length + (o.bulkIn k).2.length =
                  (o.stored (k + 1)).length := by
              rw [o.stored_succ, List.length_append]
            rw [hLength]
            apply ih (k + 1) (by omega) hBegunNow
            intro i hi
            rcases Nat.lt_succ_iff_lt_or_eq.mp hi with
              hBefore | hHere
            · exact hGoes i hBefore
            · rw [hHere]
              exact hContinues
      · refine ⟨k, ⟨hBegun, fun hBegins => hMore hBegins.1⟩, ?_⟩
        rw [if_neg hMore]

/- The memory `lucax_paged_load` leaves. -/
def loaded
    (m : AvrMem)
    (baseaddr nBytes : UInt32) : AvrMem :=
  (lucaxPagedLoad (scriptedUsb o) m baseaddr nBytes 0).1.2

/- Behind a request that fails nothing is stored. -/
theorem loaded_refused
    (m : AvrMem)
    (baseaddr nBytes : UInt32)
    (hRefused : o.request < 0) :
    loaded o m baseaddr nBytes = m := by
  have hSent :
      ∀ r data,
        (scriptedUsb o).controlOut 0 r data = (o.request, 0) :=
    fun _ _ => rfl
  rw [loaded, lucaxPagedLoad, hSent, if_pos hRefused]

/- Else what the transfers bring, from the page's start on. -/
theorem loaded_sent
    (baseaddr nBytes : UInt32)
    (hSent : 0 ≤ o.request) :
    ∃ count,
      o.Makes nBytes.toNat count ∧
        ∀ m : AvrMem,
          loaded o m baseaddr nBytes =
            m.store baseaddr.toNat (o.stored count) := by
  have hEach :
      ∀ m : AvrMem,
        ∃ count,
          o.Makes nBytes.toNat count ∧
            loaded o m baseaddr nBytes =
              m.store baseaddr.toNat (o.stored count) := by
    intro m
    have hCode :
        ∀ r data,
          (scriptedUsb o).controlOut 0 r data =
            (o.request, 0) :=
      fun _ _ => rfl
    rw [loaded, lucaxPagedLoad, hCode,
      if_neg (Int.not_lt.mpr hSent)]
    exact
      loadLoop_scripted o baseaddr.toNat nBytes.toNat
        nBytes.toNat 0 m (Nat.le_add_left _ _)
        (fun i hi => absurd hi (Nat.not_lt_zero i))
        (fun i hi => absurd hi (Nat.not_lt_zero i))
  rcases hEach ⟨[], 0, fun _ => 0⟩ with
    ⟨count, hMakes, _hLoaded⟩
  refine ⟨count, hMakes, ?_⟩
  intro m
  rcases hEach m with ⟨count', hMakes', hLoaded⟩
  rw [hLoaded, hMakes'.unique hMakes]

------------------------------------------------------------
-- Where the Call Stores
------------------------------------------------------------

variable (m : AvrMem) (baseaddr nBytes : UInt32)

/-
  The call stores at `m->buf + j`: over some content of the
  memory it leaves another byte there.
-/
def Stores (j : Nat) : Prop :=
  ∃ buf : Nat → UInt8,
    (loaded o { m with buf := buf } baseaddr nBytes).buf j ≠
      buf j

/-
  The call stores in its page and nowhere else in a memory of
  `size` bytes or behind it.
-/
structure StoresInside (size : Nat) : Prop where
  page :
    ∀ j,
      Stores o m baseaddr nBytes j →
        baseaddr.toNat ≤ j ∧
          j < baseaddr.toNat + nBytes.toNat
  below :
    ∀ j, Stores o m baseaddr nBytes j → j < size
  others :
    ∀ j,
      (j < baseaddr.toNat ∨
          baseaddr.toNat + nBytes.toNat ≤ j) →
        (loaded o m baseaddr nBytes).buf j = m.buf j

/- It stores where the bytes it is sent take it. -/
theorem stores_iff
    {count : Nat}
    (hLoaded :
      ∀ m : AvrMem,
        loaded o m baseaddr nBytes =
          m.store baseaddr.toNat (o.stored count))
    (j : Nat) :
    Stores o m baseaddr nBytes j ↔
      baseaddr.toNat ≤ j ∧
        j < baseaddr.toNat + (o.stored count).length := by
  constructor
  · rintro ⟨buf, hChanged⟩
    by_contra hOutside
    apply hChanged
    rw [hLoaded, AvrMem.store_buf]
    apply Pages.put_outside
    omega
  · rintro ⟨hFrom, hBelow⟩
    have hPlace : j - baseaddr.toNat < (o.stored count).length := by
      omega
    have hByte :=
      List.getElem?_eq_getElem (l := o.stored count) hPlace
    refine
      ⟨fun _ => (o.stored count)[j - baseaddr.toNat] + 1, ?_⟩
    have hThere : baseaddr.toNat + (j - baseaddr.toNat) = j :=
      Nat.add_sub_cancel' hFrom
    have hPut :=
      Pages.put_inside baseaddr.toNat
        (fun _ => (o.stored count)[j - baseaddr.toNat] + 1)
        hByte
    rw [hThere] at hPut
    rw [hLoaded, AvrMem.store_buf, hPut]
    intro hSame
    exact absurd (UInt8.left_eq_add.mp hSame) (by decide)

theorem storesInside_refused
    {size : Nat}
    (hRefused : o.request < 0) :
    StoresInside o m baseaddr nBytes size := by
  have hNothing :
      ∀ j, ¬ Stores o m baseaddr nBytes j := by
    rintro j ⟨buf, hChanged⟩
    rw [loaded_refused o _ baseaddr nBytes hRefused]
      at hChanged
    exact hChanged rfl
  refine ⟨?_, ?_, ?_⟩
  · exact fun j hStores => absurd hStores (hNothing j)
  · exact fun j hStores => absurd hStores (hNothing j)
  · intro j _hOutside
    rw [loaded_refused o m baseaddr nBytes hRefused]

/-
  A load stays inside its page exactly when the device never
  sends more than is missing of it.
-/
theorem storesInside_iff_fits
    (size : Nat)
    (hPage : baseaddr.toNat + nBytes.toNat ≤ size) :
    StoresInside o m baseaddr nBytes size ↔
      o.Fits nBytes.toNat := by
  by_cases hSent : 0 ≤ o.request
  · rcases loaded_sent o baseaddr nBytes hSent with
      ⟨count, hMakes, hLoaded⟩
    have hStores := stores_iff o m baseaddr nBytes hLoaded
    rw [hMakes.fits_iff hSent]
    constructor
    · intro hInside
      by_contra hMore
      have hBehind :
          Stores o m baseaddr nBytes
            (baseaddr.toNat + nBytes.toNat) := by
        rw [hStores]
        omega
      have hBelow := (hInside.page _ hBehind).2
      omega
    · intro hFits
      refine ⟨?_, ?_, ?_⟩
      · intro j hStored
        have hPlace := (hStores j).mp hStored
        omega
      · intro j hStored
        have hPlace := (hStores j).mp hStored
        omega
      · intro j hOutside
        rw [hLoaded, AvrMem.store_buf]
        apply Pages.put_outside
        omega
  · have hRefused : o.request < 0 := Int.not_le.mp hSent
    constructor
    · intro _hInside hNot
      exact absurd hNot hSent
    · intro _hFits
      exact storesInside_refused o m baseaddr nBytes hRefused

end Load

/- Packets of `n` bytes, all alike. -/
def packetsOf
    (n : Nat)
    (hBounded : n ≤ 64) : Outcomes where
  request := 4
  bulkIn := fun _ => (0, List.replicate n 0x55)
  bounded := by
    intro _k
    rw [List.length_replicate]
    exact hBounded

/- A page of the EEPROM, sent as it is. -/
theorem storesInside_iff_fits_eeprom :
    StoresInside (packetsOf 32 (by decide)) eepromPage 32 32
        1024 ↔
      (packetsOf 32 (by decide)).Fits 32 :=
  storesInside_iff_fits (packetsOf 32 (by decide)) eepromPage
    32 32 1024 (by decide)

/- avrdude.conf: the 50 bytes of the production signature. -/
def prodsig : AvrMem where
  desc := ['p', 'r', 'o', 'd', 's', 'i', 'g']
  offset := 0x008E0200
  buf := fun _ => 0xFF

/- A full packet for them reaches 14 bytes behind them. -/
theorem not_storesInside_prodsig :
    ¬ StoresInside (packetsOf 64 (by decide)) prodsig 0 50
      50 := by
  intro hInside
  have hBehind :
      Stores (packetsOf 64 (by decide)) prodsig 0 50 63 :=
    ⟨prodsig.buf, by decide⟩
  exact absurd (hInside.below 63 hBehind) (by decide)

/-
  No page is safe from every device: bytes sent one by one
  take the loop to the last byte of the page.
-/
theorem exists_not_fits
    {n : Nat}
    (hSome : 0 < n) :
    ∃ o : Outcomes, ¬ o.Fits n := by
  let o : Outcomes :=
    { request := 4
      bulkIn := fun k =>
        (0, List.replicate (if k + 1 < n then 1 else 64) 0x55)
      bounded := by
        intro k
        rw [List.length_replicate]
        split
        · decide
        · decide }
  have hLength :
      ∀ k, k + 1 ≤ n → (o.stored k).length = k := by
    intro k hBelow
    induction k with
    | zero => rfl
    | succ k ih =>
        have hOne : k + 1 < n := hBelow
        rw [o.stored_succ, List.length_append,
          ih (Nat.le_of_lt hBelow)]
        simp [o, hOne]
  have hContinues : ∀ k, o.Continues k := by
    intro k
    refine ⟨Int.le_refl 0, ?_⟩
    apply List.ne_nil_of_length_pos
    simp only [o, List.length_replicate]
    split
    · decide
    · decide
  refine ⟨o, ?_⟩
  intro hFits
  have hLast := hLength (n - 1) (by omega)
  have hAll :=
    hFits (show (0 : Int) ≤ 4 by decide) (n - 1)
      ⟨by omega, fun i _hi => hContinues i⟩
  rw [o.stored_succ, List.length_append, hLast] at hAll
  have hFull : ¬ n - 1 + 1 < n := by omega
  simp only [o, if_neg hFull, List.length_replicate] at hAll
  omega

end Lucax
