import Lucax.Host.Exchange
import Lucax.Host.Record

/-
  What a return of 0 from a page transfer says about the
  bytes moved, whatever libusb reports.

  Key definitions include:
    * `NoneEmpty`, `moved`
    * `LoadComplete`, `WriteComplete`

  Main declarations:
    * `loadLoop_ends`, `writeLoop_ends`
    * `complete_iff_noneEmpty`
-/

------------------------------------------------------------
-- Results of Bulk Transfers
------------------------------------------------------------

namespace Lucax

variable {ℓ : Type}

/- The bytes moved, in order. -/
def moved (results : List (Int × List UInt8)) : List UInt8 :=
  results.flatMap Prod.snd

/- No transfer succeeded without moving a byte. -/
def NoneEmpty (results : List (Int × List UInt8)) : Prop :=
  ∀ result ∈ results, 0 ≤ result.1 → result.2 ≠ []

instance : DecidablePred NoneEmpty := fun results => by
  unfold NoneEmpty
  infer_instance

/-
  How a transfer loop ends that has `total` of `n` bytes
  behind it: with all bytes moved, on an error, or on a
  success that moved nothing.
-/
inductive LoopEnds
    (n total : Nat)
    (results : List (Int × List UInt8)) : Int → Prop where
| whole
    (hAll : n ≤ total + (moved results).length)
    (hMoved : NoneEmpty results) :
    LoopEnds n total results 0
| failed
    (hMoved : NoneEmpty results) :
    LoopEnds n total results (-1)
| empty
    (hShort : total + (moved results).length < n)
    (hEmpty : ¬ NoneEmpty results) :
    LoopEnds n total results 0

@[simp] theorem moved_nil :
    moved [] = [] := rfl

@[simp] theorem moved_cons
    (result : Int × List UInt8)
    (results : List (Int × List UInt8)) :
    moved (result :: results) = result.2 ++ moved results := by
  simp [moved]

theorem noneEmpty_nil :
    NoneEmpty [] := by
  intro result hMem
  cases hMem

theorem noneEmpty_cons
    {result : Int × List UInt8}
    {results : List (Int × List UInt8)} :
    NoneEmpty (result :: results) ↔
      (0 ≤ result.1 → result.2 ≠ []) ∧ NoneEmpty results := by
  simp [NoneEmpty]

/- A transfer that moved bytes before the others. -/
theorem LoopEnds.cons
    {n total : Nat}
    {code : Int}
    {result : Int × List UInt8}
    {results : List (Int × List UInt8)}
    (hSome : result.2 ≠ [])
    (hEnds :
      LoopEnds n (total + result.2.length) results code) :
    LoopEnds n total (result :: results) code := by
  have hLength :
      total + (moved (result :: results)).length =
        total + result.2.length + (moved results).length := by
    rw [moved_cons, List.length_append, Nat.add_assoc]
  cases hEnds with
  | whole hAll hMoved =>
      apply LoopEnds.whole
      · rw [hLength]
        exact hAll
      · exact noneEmpty_cons.mpr ⟨fun _hCode => hSome, hMoved⟩
  | failed hMoved =>
      apply LoopEnds.failed
      exact noneEmpty_cons.mpr ⟨fun _hCode => hSome, hMoved⟩
  | empty hShort hEmpty =>
      apply LoopEnds.empty
      · rw [hLength]
        exact hShort
      · intro hMoved
        exact hEmpty (noneEmpty_cons.mp hMoved).2

/- An error ends the loop. -/
theorem LoopEnds.error
    (n total : Nat)
    {result : Int × List UInt8}
    (hError : result.1 < 0) :
    LoopEnds n total [result] (-1) := by
  apply LoopEnds.failed
  apply noneEmpty_cons.mpr
  refine ⟨?_, noneEmpty_nil⟩
  intro hCode
  omega

/- So does a success that moved nothing. -/
theorem LoopEnds.zero
    {n total : Nat}
    {result : Int × List UInt8}
    (hMore : total < n)
    (hCode : ¬ result.1 < 0)
    (hNone : result.2 = []) :
    LoopEnds n total [result] 0 := by
  apply LoopEnds.empty
  · simp [hNone, hMore]
  · intro hMoved
    exact (noneEmpty_cons.mp hMoved).1 (Int.not_lt.mp hCode)
      hNone

/- A loop with nothing left to do. -/
theorem LoopEnds.done
    {n total : Nat}
    (hDone : ¬ total < n) :
    LoopEnds n total [] 0 := by
  apply LoopEnds.whole
  · simpa using Nat.not_lt.mp hDone
  · exact noneEmpty_nil

/-
  A loop is right about its end exactly when no transfer was
  an empty success.
-/
theorem LoopEnds.right_iff
    {n total : Nat}
    {code : Int}
    {results : List (Int × List UInt8)}
    (hEnds : LoopEnds n total results code) :
    ((code = 0 → n ≤ total + (moved results).length) ∧
        (code = 0 ∨ code < 0)) ↔
      NoneEmpty results := by
  cases hEnds with
  | whole hAll hMoved =>
      constructor
      · intro _hRight
        exact hMoved
      · intro _hMoved
        exact ⟨fun _hZero => hAll, Or.inl rfl⟩
  | failed hMoved =>
      constructor
      · intro _hRight
        exact hMoved
      · intro _hMoved
        refine ⟨?_, Or.inr (by decide)⟩
        intro hZero
        cases hZero
  | empty hShort hEmpty =>
      constructor
      · intro hRight
        have hAll := hRight.1 rfl
        omega
      · intro hMoved
        exact absurd hMoved hEmpty

------------------------------------------------------------
-- The Loops
------------------------------------------------------------

section Loops

variable (usb : Libusb ℓ)

/- What arrives is stored in order, from the running place. -/
theorem loadLoop_ends
    (base n fuel total : Nat)
    (m : AvrMem)
    (l : ℓ)
    (record : Record)
    (hTurns : n ≤ total + fuel) :
    ∃ code results after,
      loadLoop usb.recorded base n fuel total m (l, record) =
          ((code, m.store (base + total) (moved results)),
            (after, record.addBulkIn results)) ∧
        LoopEnds n total results code := by
  induction fuel generalizing total m l record with
  | zero =>
      have hDone : ¬ total < n := by omega
      refine ⟨0, [], l, ?_, LoopEnds.done hDone⟩
      simp [loadLoop, hDone, AvrMem.store]
  | succ fuel ih =>
      rw [loadLoop]
      by_cases hMore : total < n
      · rw [if_pos hMore, recorded_bulkIn]
        rcases usb.bulkIn l 64 with ⟨result, l₁⟩
        simp only
        by_cases hError : result.1 < 0
        · refine ⟨-1, [result], l₁, ?_,
            LoopEnds.error n total hError⟩
          simp [hError]
        · by_cases hNone : result.2 = []
          · refine ⟨0, [result], l₁, ?_,
              LoopEnds.zero hMore hError hNone⟩
            simp [hError, hNone]
          · have hPos : result.2.length ≠ 0 := by
              simpa using hNone
            rcases ih (total + result.2.length)
                (m.store (base + total) result.2) l₁
                (record.addBulkIn [result]) (by omega) with
              ⟨code, results, after, hLoop, hEnds⟩
            refine ⟨code, result :: results, after, ?_,
              hEnds.cons hNone⟩
            simp only [hError, hPos, if_false, hLoop]
            rw [moved_cons, AvrMem.store_append,
              Nat.add_assoc base,
              Record.addBulkIn_cons result results]
      · refine ⟨0, [], l, ?_, LoopEnds.done hMore⟩
        simp [hMore, AvrMem.store]

/- What is accepted is the page, from the running place on. -/
theorem writeLoop_ends
    (hBounded : usb.Bounded)
    (m : AvrMem)
    (base n fuel total : Nat)
    (l : ℓ)
    (record : Record)
    (hTurns : n ≤ total + fuel)
    (hBelow : total ≤ n) :
    ∃ code results after,
      writeLoop usb.recorded m base n fuel total (l, record) =
          (code, (after, record.addBulkOut results)) ∧
        moved results =
          m.bytes (base + total) (moved results).length ∧
        total + (moved results).length ≤ n ∧
        LoopEnds n total results code := by
  induction fuel generalizing total l record with
  | zero =>
      have hDone : ¬ total < n := by omega
      refine ⟨0, [], l, ?_, rfl, ?_, LoopEnds.done hDone⟩
      · simp [writeLoop, hDone]
      · simpa using hBelow
  | succ fuel ih =>
      rw [writeLoop]
      by_cases hMore : total < n
      · have hShort :=
          hBounded.bulkOut l
            (m.bytes (base + total) (min (n - total) 64))
        rw [AvrMem.bytes_length] at hShort
        rw [if_pos hMore]
        dsimp only
        rw [recorded_bulkOut]
        generalize
          usb.bulkOut l
            (m.bytes (base + total) (min (n - total) 64)) = out
            at hShort ⊢
        rcases out with ⟨⟨code, count⟩, l₁⟩
        simp only at hShort ⊢
        have hPiece :
            (m.bytes (base + total)
              (min (n - total) 64)).take count =
              m.bytes (base + total) count := by
          have hParts :=
            m.bytes_add (base + total) count
              (min (n - total) 64 - count)
          rw [Nat.add_sub_cancel' hShort] at hParts
          rw [hParts]
          apply List.take_left'
          exact m.bytes_length _ _
        rw [hPiece]
        by_cases hError : code < 0
        · refine ⟨-1, [(code, m.bytes (base + total) count)],
            l₁, ?_, ?_, ?_, LoopEnds.error n total hError⟩
          · simp [hError]
          · simp
          · simp
            omega
        · by_cases hNone : count = 0
          · subst hNone
            refine ⟨0, [(code, m.bytes (base + total) 0)], l₁,
              ?_, rfl, ?_, LoopEnds.zero hMore hError rfl⟩
            · simp [hError]
            · simpa using hBelow
          · have hSome : m.bytes (base + total) count ≠ [] := by
              apply List.ne_nil_of_length_pos
              rw [AvrMem.bytes_length]
              omega
            rcases ih (total + count) l₁
                (record.addBulkOut
                  [(code, m.bytes (base + total) count)])
                (by omega) (by omega) with
              ⟨final, results, after, hLoop, hBytes, hInside,
                hEnds⟩
            refine ⟨final,
              (code, m.bytes (base + total) count) :: results,
              after, ?_, ?_, ?_, ?_⟩
            · simp only [hError, hNone, if_false, hLoop]
              rw [Record.addBulkOut_cons _ results]
            · rw [moved_cons, List.length_append,
                AvrMem.bytes_length, m.bytes_add,
                Nat.add_assoc base, ← hBytes]
            · rw [moved_cons, List.length_append,
                AvrMem.bytes_length]
              omega
            · apply LoopEnds.cons hSome
              rw [AvrMem.bytes_length]
              exact hEnds
      · refine ⟨0, [], l, ?_, rfl, ?_, LoopEnds.done hMore⟩
        · simp [hMore]
        · simpa using hBelow

end Loops

------------------------------------------------------------
-- The Calls
------------------------------------------------------------

/-
  A load that returns 0 has received `n_bytes` bytes and laid
  them down in order; any other returns a negative code.
-/
structure LoadComplete
    (usb : Libusb ℓ)
    (m : AvrMem)
    (baseaddr nBytes : UInt32)
    (l : ℓ) : Prop where
  whole :
    let out :=
      lucaxPagedLoad usb.recorded m baseaddr nBytes
        (l, Record.empty)
    out.1.1 = 0 →
      nBytes.toNat ≤ (moved out.2.2.bulkIn).length ∧
        out.1.2.buf =
          Pages.put baseaddr.toNat (moved out.2.2.bulkIn) m.buf
  negative :
    let out :=
      lucaxPagedLoad usb.recorded m baseaddr nBytes
        (l, Record.empty)
    out.1.1 = 0 ∨ out.1.1 < 0

/-
  A write that returns 0 has had its `n_bytes` bytes accepted
  once each, in order.
-/
structure WriteComplete
    (usb : Libusb ℓ)
    (m : AvrMem)
    (addr nBytes : UInt32)
    (l : ℓ) : Prop where
  whole :
    let out :=
      lucaxPagedWrite usb.recorded m addr nBytes
        (l, Record.empty)
    out.1 = 0 →
      moved out.2.2.bulkOut =
        m.bytes addr.toNat nBytes.toNat
  negative :
    let out :=
      lucaxPagedWrite usb.recorded m addr nBytes
        (l, Record.empty)
    out.1 = 0 ∨ out.1 < 0

section Calls

variable (usb : Libusb ℓ)

/- How a load ends; a request that fails is a loop of none. -/
theorem pagedLoad_ends
    (m : AvrMem)
    (baseaddr nBytes : UInt32)
    (l : ℓ) :
    ∃ code results,
      (lucaxPagedLoad usb.recorded m baseaddr nBytes
          (l, Record.empty)).1 =
          (code, m.store baseaddr.toNat (moved results)) ∧
        (lucaxPagedLoad usb.recorded m baseaddr nBytes
          (l, Record.empty)).2.2.bulkIn = results ∧
        LoopEnds nBytes.toNat 0 results code := by
  rw [lucaxPagedLoad, recorded_controlOut]
  rcases usb.controlOut l
      (outRequest lucaxPdiNvmReadReq 0 nBytes.toUInt16 4)
      (addressBytes (m.address baseaddr)) with
    ⟨sent, l₁⟩
  by_cases hSent : sent < 0
  · refine ⟨-1, [], ?_, ?_, LoopEnds.failed noneEmpty_nil⟩
    · simp [hSent, AvrMem.store]
    · simp [hSent, Record.addControl, Record.empty]
  · rcases loadLoop_ends usb baseaddr.toNat nBytes.toNat
        nBytes.toNat 0 m l₁
        (Record.empty.addControl
          (outRequest lucaxPdiNvmReadReq 0 nBytes.toUInt16 4)
          (addressBytes (m.address baseaddr)))
        (by omega) with
      ⟨code, results, after, hLoop, hEnds⟩
    refine ⟨code, results, ?_, ?_, hEnds⟩
    · simp [hSent, hLoop]
    · simp only [hSent, if_false, hLoop]
      rfl

/- How a write ends. -/
theorem pagedWrite_ends
    (hBounded : usb.Bounded)
    (m : AvrMem)
    (addr nBytes : UInt32)
    (l : ℓ) :
    ∃ code results,
      (lucaxPagedWrite usb.recorded m addr nBytes
          (l, Record.empty)).1 = code ∧
        (lucaxPagedWrite usb.recorded m addr nBytes
          (l, Record.empty)).2.2.bulkOut = results ∧
        moved results =
          m.bytes addr.toNat (moved results).length ∧
        (moved results).length ≤ nBytes.toNat ∧
        LoopEnds nBytes.toNat 0 results code := by
  have hNothing :
      (moved []).length ≤ nBytes.toNat := by
    simp
  rw [lucaxPagedWrite]
  cases m.pagedType with
  | none =>
      exact ⟨-1, [], rfl, rfl, rfl, hNothing,
        LoopEnds.failed noneEmpty_nil⟩
  | some mem =>
      dsimp only
      rw [recorded_controlOut]
      rcases usb.controlOut l
          (outRequest lucaxPdiNvmWritePageReq mem
            nBytes.toUInt16 4)
          (addressBytes (m.address addr)) with
        ⟨sent, l₁⟩
      by_cases hSent : sent < 0
      · refine ⟨-1, [], ?_, ?_, rfl, hNothing,
          LoopEnds.failed noneEmpty_nil⟩
        · simp [hSent]
        · simp [hSent, Record.addControl, Record.empty]
      · rcases writeLoop_ends usb hBounded m addr.toNat
            nBytes.toNat nBytes.toNat 0 l₁
            (Record.empty.addControl
              (outRequest lucaxPdiNvmWritePageReq mem
                nBytes.toUInt16 4)
              (addressBytes (m.address addr)))
            (by omega) (by omega) with
          ⟨code, results, after, hLoop, hBytes, hInside,
            hEnds⟩
        refine ⟨code, results, ?_, ?_, hBytes, ?_, hEnds⟩
        · simp [hSent, hLoop]
        · simp only [hSent, if_false, hLoop]
          rfl
        · omega

theorem loadComplete_iff
    (m : AvrMem)
    (baseaddr nBytes : UInt32)
    (l : ℓ) :
    LoadComplete usb m baseaddr nBytes l ↔
      NoneEmpty
        (lucaxPagedLoad usb.recorded m baseaddr nBytes
          (l, Record.empty)).2.2.bulkIn := by
  rcases pagedLoad_ends usb m baseaddr nBytes l with
    ⟨code, results, hOut, hResults, hEnds⟩
  rw [hResults, ← hEnds.right_iff, Nat.zero_add]
  constructor
  · intro hComplete
    have hWhole := hComplete.whole
    have hNegative := hComplete.negative
    simp only [hOut, hResults] at hWhole hNegative
    exact ⟨fun hZero => (hWhole hZero).1, hNegative⟩
  · rintro ⟨hWhole, hNegative⟩
    constructor
    · simp only [hOut, hResults]
      intro hZero
      exact ⟨hWhole hZero, m.store_buf _ _⟩
    · simp only [hOut]
      exact hNegative

theorem writeComplete_iff
    (hBounded : usb.Bounded)
    (m : AvrMem)
    (addr nBytes : UInt32)
    (l : ℓ) :
    WriteComplete usb m addr nBytes l ↔
      NoneEmpty
        (lucaxPagedWrite usb.recorded m addr nBytes
          (l, Record.empty)).2.2.bulkOut := by
  rcases pagedWrite_ends usb hBounded m addr nBytes l with
    ⟨code, results, hOut, hResults, hBytes, hInside, hEnds⟩
  rw [hResults, ← hEnds.right_iff, Nat.zero_add]
  constructor
  · intro hComplete
    have hWhole := hComplete.whole
    have hNegative := hComplete.negative
    simp only [hOut, hResults] at hWhole hNegative
    refine ⟨?_, hNegative⟩
    intro hZero
    have hLength := congrArg List.length (hWhole hZero)
    rw [AvrMem.bytes_length] at hLength
    omega
  · rintro ⟨hWhole, hNegative⟩
    constructor
    · simp only [hOut, hResults]
      intro hZero
      have hAll := hWhole hZero
      have hExact :
          (moved results).length = nBytes.toNat := by
        omega
      rw [hBytes, hExact]
    · simp only [hOut]
      exact hNegative

/-
  A page transfer is right about its end, whatever libusb
  reports, exactly when no bulk transfer of the call succeeds
  without moving a byte.
-/
theorem complete_iff_noneEmpty
    (hBounded : usb.Bounded)
    (m : AvrMem)
    (addr nBytes : UInt32)
    (l : ℓ) :
    (LoadComplete usb m addr nBytes l ↔
        NoneEmpty
          (lucaxPagedLoad usb.recorded m addr nBytes
            (l, Record.empty)).2.2.bulkIn) ∧
      (WriteComplete usb m addr nBytes l ↔
        NoneEmpty
          (lucaxPagedWrite usb.recorded m addr nBytes
            (l, Record.empty)).2.2.bulkOut) :=
  ⟨loadComplete_iff usb m addr nBytes l,
    writeComplete_iff usb hBounded m addr nBytes l⟩

end Calls

/- A libusb that accepts everything and moves nothing. -/
def emptyUsb : Libusb Unit where
  controlOut := fun l _ data => (data.length, l)
  controlIn := fun l _ => ((0, []), l)
  bulkOut := fun l _ => ((0, 0), l)
  bulkIn := fun l _ => ((0, []), l)

/- A page of two bytes for the start of the EEPROM. -/
def eepromPage : AvrMem where
  desc := eepromDesc
  offset := 0x008C0000
  buf := fun _ => 0x55

/- A libusb that moves packets of two bytes. -/
def pairUsb : Libusb Unit where
  controlOut := fun l _ data => (data.length, l)
  controlIn := fun l _ => ((0, []), l)
  bulkOut := fun l packet => ((0, packet.length), l)
  bulkIn := fun l length => ((0, [0x12, 0x34].take length), l)

theorem pairUsb_bounded : pairUsb.Bounded where
  bulkIn := fun _ length => List.length_take_le length _
  bulkOut := fun _ packet => Nat.le_refl packet.length

theorem complete_iff_noneEmpty_eeprom :
    LoadComplete pairUsb eepromPage 0 2 () ∧
      WriteComplete pairUsb eepromPage 0 2 () := by
  have hIff :=
    complete_iff_noneEmpty pairUsb pairUsb_bounded eepromPage
      0 2 ()
  exact ⟨hIff.1.mpr (by decide), hIff.2.mpr (by decide)⟩

/- Both calls return 0 with no byte of the two moved. -/
theorem not_complete_empty :
    ¬ LoadComplete emptyUsb eepromPage 0 2 () ∧
      ¬ WriteComplete emptyUsb eepromPage 0 2 () := by
  constructor
  · intro hComplete
    have hAll := (hComplete.whole (by decide)).1
    exact absurd hAll (by decide)
  · intro hComplete
    have hAll := hComplete.whole (by decide)
    exact absurd hAll (by decide)

end Lucax
