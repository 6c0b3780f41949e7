import Lucax.Host.Exchange

/-
  The calls of the driver cut at their libusb transfers, so
  that a call can be left waiting for one.

  Key definitions include:
    * `Course`, `Course.run`
    * `HostCall.course`, `HostCall.page`
    * `Course.Within`

  Main declarations:
    * `run_course`
    * `course_within`
-/

------------------------------------------------------------
-- Courses
------------------------------------------------------------

namespace Lucax

/-
  A call under way: the transfer it waits for and, for every
  outcome of that, how it goes on.
-/
inductive Course where
| done (code : Int)
| controlOut
    (r : Request) (data : List UInt8) (next : Int → Course)
| controlIn
    (r : Request) (next : Int → List UInt8 → Course)
| bulkOut
    (packet : List UInt8) (next : Int → Nat → Course)
| bulkIn (length : Nat) (next : Int → List UInt8 → Course)

/- A course whose transfers are made one after the other. -/
def Course.run
    {ℓ : Type}
    (usb : Libusb ℓ) :
    Course → ℓ → Int × ℓ
| .done code, l => (code, l)
| .controlOut r data next, l =>
    let out := usb.controlOut l r data
    (next out.1).run usb out.2
| .controlIn r next, l =>
    let out := usb.controlIn l r
    (next out.1.1 out.1.2).run usb out.2
| .bulkOut packet next, l =>
    let out := usb.bulkOut l packet
    (next out.1.1 out.1.2).run usb out.2
| .bulkIn length next, l =>
    let out := usb.bulkIn l length
    (next out.1.1 out.1.2).run usb out.2

------------------------------------------------------------
-- The Calls of the Driver
------------------------------------------------------------

def initCourse
    (hasPdi : Bool)
    (ioFrequency : Int)
    (info status : UInt8) : Course :=
  .controlIn (inRequest lucaxGetDescriptorReq 0 0)
    fun code bytes =>
      if code < 0 then .done (-1) else
      if hasPdi = false ∨ bytes.headD info &&& 0x01 = 0 then
        .done (-1)
      else
        .controlIn
          (inRequest lucaxPdiInitReq
            (UInt16.ofNat (usedFrequency ioFrequency).toNat) 0)
          fun code bytes =>
            if code < 0 then .done (-1) else
            if bytes.headD status ≠ 0 then .done (-1)
            else .done 0

def readByteCourse (address : UInt32) : Course :=
  if isRawAddress address then
    .controlIn (rawRequest address)
      fun code _ => if code < 0 then .done (-1) else .done 0
  else
    .controlOut byteRequest (addressBytes address) fun code =>
      if code < 0 then .done (-1) else
      .bulkIn 1 fun code bytes =>
        if code < 0 then .done (-1)
        else if bytes.length ≠ 1 then .done (-1)
        else .done 0

/- The loop of `lucax_paged_load`. -/
def loadCourse
    (nBytes : Nat) :
    Nat → Nat → Course
| 0, total =>
    if total < nBytes then .done (-1) else .done 0
| fuel + 1, total =>
    if total < nBytes then
      .bulkIn 64 fun code bytes =>
        if code < 0 then .done (-1)
        else if bytes.length = 0 then .done 0
        else loadCourse nBytes fuel (total + bytes.length)
    else .done 0

/- The loop of `lucax_paged_write`. -/
def writeCourse
    (m : AvrMem)
    (base nBytes : Nat) :
    Nat → Nat → Course
| 0, total =>
    if total < nBytes then .done (-1) else .done 0
| fuel + 1, total =>
    if total < nBytes then
      .bulkOut (m.bytes (base + total) (min (nBytes - total) 64))
        fun code actual =>
          if code < 0 then .done (-1)
          else if actual = 0 then .done 0
          else writeCourse m base nBytes fuel (total + actual)
    else .done 0

namespace HostCall

def course : HostCall → Course
| .init hasPdi ioFrequency info status =>
    initCourse hasPdi ioFrequency info status
| .close =>
    .controlOut (outRequest lucaxReleaseInterfaceReq 0 0 0) []
      fun _ => .done 0
| .chipErase ret =>
    .controlIn (inRequest lucaxPdiChipEraseReq 0 0)
      fun _ bytes =>
        if bytes.headD ret ≠ 0 then .done (-1) else .done 0
| .readByte m addr _ => readByteCourse (m.address addr)
| .pagedLoad m baseaddr nBytes =>
    .controlOut (loadRequest nBytes)
      (addressBytes (m.address baseaddr))
      fun code =>
        if code < 0 then .done (-1)
        else loadCourse nBytes.toNat nBytes.toNat 0
| .pagedWrite m addr nBytes =>
    match m.pagedType with
    | none => .done (-1)
    | some mem =>
        .controlOut (pageRequest mem nBytes)
          (addressBytes (m.address addr))
          fun code =>
            if code < 0 then .done (-1)
            else
              writeCourse m addr.toNat nBytes.toNat
                nBytes.toNat 0
| .writeByte m behind addr value =>
    match m.byteType behind with
    | none => .done (-1)
    | some memType =>
        .controlOut (writeByteRequest memType value)
          (addressBytes (m.address addr))
          fun code =>
            if code < 0 then .done (-1) else .done 0

end HostCall

section Run

variable {ℓ : Type} (usb : Libusb ℓ)

/- A call that returns after a failed transfer. -/
theorem run_failing
    (code : Int)
    (next : Course)
    (l : ℓ) :
    (if code < 0 then Course.done (-1) else next).run usb l =
      if code < 0 then (-1, l) else next.run usb l := by
  split
  · rfl
  · rfl

/- The loop over one libusb.  By induction on its turns. -/
theorem run_loadCourse
    (base nBytes fuel total : Nat)
    (m : AvrMem)
    (l : ℓ) :
    (loadCourse nBytes fuel total).run usb l =
      ((loadLoop usb base nBytes fuel total m l).1.1,
        (loadLoop usb base nBytes fuel total m l).2) := by
  induction fuel generalizing total m l with
  | zero =>
      rw [loadCourse, loadLoop]
      split
      · rfl
      · rfl
  | succ fuel ih =>
      rw [loadCourse, loadLoop]
      split
      · rw [Course.run]
        simp only
        split
        · rfl
        · split
          · rfl
          · exact ih _ _ _
      · rfl

theorem run_writeCourse
    (m : AvrMem)
    (base nBytes fuel total : Nat)
    (l : ℓ) :
    (writeCourse m base nBytes fuel total).run usb l =
      writeLoop usb m base nBytes fuel total l := by
  induction fuel generalizing total l with
  | zero =>
      rw [writeCourse, writeLoop]
      split
      · rfl
      · rfl
  | succ fuel ih =>
      rw [writeCourse, writeLoop]
      split
      · rw [Course.run]
        simp only
        split
        · rfl
        · split
          · rfl
          · exact ih _ _
      · rfl

theorem run_initCourse
    (hasPdi : Bool)
    (ioFrequency : Int)
    (info status : UInt8)
    (l : ℓ) :
    (initCourse hasPdi ioFrequency info status).run usb l =
      lucaxInit usb hasPdi ioFrequency info status l := by
  rw [initCourse, lucaxInit, Course.run]
  simp only
  split
  · rfl
  · split
    · rfl
    · rw [Course.run]
      split
      · rfl
      · split
        · rfl
        · rfl

theorem run_readByteCourse
    (m : AvrMem)
    (addr : UInt32)
    (value : UInt8)
    (l : ℓ) :
    (readByteCourse (m.address addr)).run usb l =
      ((lucaxReadByte usb m addr value l).1.1,
        (lucaxReadByte usb m addr value l).2) := by
  rw [readByteCourse, rawRequest, byteRequest, lucaxReadByte]
  simp only
  split
  · rw [Course.run]
    split
    · rfl
    · rfl
  · rw [Course.run]
    split
    · rfl
    · rw [Course.run]
      split
      · rfl
      · split
        · rfl
        · rfl

/- Run to its end a course is the call. -/
theorem run_course
    (c : HostCall)
    (l : ℓ) :
    c.course.run usb l = c.exec usb l := by
  cases c with
  | init hasPdi ioFrequency info status =>
      exact run_initCourse usb hasPdi ioFrequency info status l
  | close => rfl
  | chipErase ret =>
      simp only [HostCall.course, HostCall.exec, lucaxChipErase,
        Course.run]
      split
      · rfl
      · rfl
  | readByte m addr value =>
      exact run_readByteCourse usb m addr value l
  | pagedLoad m baseaddr nBytes =>
      simp only [HostCall.course, HostCall.exec, lucaxPagedLoad,
        loadRequest, Course.run]
      split
      · rfl
      · exact run_loadCourse usb _ _ _ _ m _
  | pagedWrite m addr nBytes =>
      simp only [HostCall.course, HostCall.exec,
        lucaxPagedWrite]
      cases m.pagedType with
      | none => rfl
      | some mem =>
          simp only [pageRequest, Course.run]
          rw [← run_writeCourse]
          exact run_failing usb _ _ _
  | writeByte m behind addr value =>
      simp only [HostCall.course, HostCall.exec,
        lucaxWriteByte]
      cases m.byteType behind with
      | none => rfl
      | some memType =>
          simp only [writeByteRequest, Course.run]
          exact run_failing usb _ _ _

end Run

------------------------------------------------------------
-- What Belongs to a Call
------------------------------------------------------------

/- libusb: `LIBUSB_ERROR_TIMEOUT` and `_OVERFLOW`. -/
def timedOut : Int := -7
def overflowed : Int := -8

/- The bytes a call is given to send to the OUT endpoint. -/
def HostCall.page : HostCall → List UInt8
| .pagedWrite m addr nBytes => m.bytes addr.toNat nBytes.toNat
| _ => []

/- The course waits for a bulk transfer. -/
def Course.isBulk : Course → Bool
| .bulkOut _ _ => true
| .bulkIn _ _ => true
| _ => false

/-
  The bulk transfers of a course belong to the request `r`
  the call made last, which went through: those of a read
  request are IN, those of a page request send the page from
  byte `sent` on, in packets that are as large as they can
  be.  A page request asks for no more than the page.
-/
def Course.Within
    (c : HostCall) :
    Request → Nat → Course → Prop
| _, _, .done _ => True
| _, _, .controlOut r _ next =>
    (r.kind = some .pdiNvmWritePage →
        (clamp r.wIndex).toNat ≤ c.page.length) ∧
      (next timedOut).isBulk = false ∧
      ∀ code, Course.Within c r 0 (next code)
| _, _, .controlIn r next =>
    r.kind ≠ some .pdiNvmRead ∧
      r.kind ≠ some .pdiNvmWritePage ∧
      ∀ code bytes, Course.Within c r 0 (next code bytes)
| r, sent, .bulkOut packet next =>
    r.kind = some .pdiNvmWritePage ∧
      sent < c.page.length ∧
      packet = (c.page.drop sent).take vendorIoEpsize ∧
      Course.Within c r (sent + packet.length)
        (next 0 packet.length) ∧
      Course.Within c r sent (next timedOut 0)
| r, sent, .bulkIn _ next =>
    r.kind = some .pdiNvmRead ∧
      ∀ code bytes, Course.Within c r sent (next code bytes)

/- A part of the bytes at `m->buf + i`. -/
theorem AvrMem.drop_take_bytes
    (m : AvrMem)
    (i n k size : Nat) :
    ((m.bytes i n).drop k).take size =
      m.bytes (i + k) (min (n - k) size) := by
  rw [AvrMem.bytes, AvrMem.bytes, ← List.map_drop,
    ← List.map_take, List.drop_range', Nat.mul_one]
  by_cases hLast : n - k ≤ size
  · rw [List.take_range'_of_length_le hLast,
      Nat.min_eq_left hLast]
  · have hMore : size ≤ n - k := by omega
    rw [List.take_range'_of_length_ge hMore,
      Nat.min_eq_right hMore]

theorem AvrMem.length_bytes
    (m : AvrMem)
    (i n : Nat) :
    (m.bytes i n).length = n := by
  rw [AvrMem.bytes, List.length_map, List.length_range']

section Within

variable (c : HostCall) {r : Request}

/- By induction on the turns of the loop. -/
theorem loadCourse_within
    (hKind : r.kind = some .pdiNvmRead)
    (nBytes fuel total sent : Nat) :
    (loadCourse nBytes fuel total).Within c r sent := by
  induction fuel generalizing total with
  | zero =>
      rw [loadCourse]
      split
      · trivial
      · trivial
  | succ fuel ih =>
      rw [loadCourse]
      split
      · refine ⟨hKind, ?_⟩
        intro code bytes
        dsimp only
        split
        · trivial
        · split
          · trivial
          · exact ih _
      · trivial

theorem writeCourse_within
    (hKind : r.kind = some .pdiNvmWritePage)
    (m : AvrMem)
    (addr nBytes : UInt32)
    (fuel total : Nat) :
    (writeCourse m addr.toNat nBytes.toNat fuel total).Within
      (.pagedWrite m addr nBytes) r total := by
  induction fuel generalizing total with
  | zero =>
      rw [writeCourse]
      split
      · trivial
      · trivial
  | succ fuel ih =>
      rw [writeCourse]
      split
      · rename_i hMore
        refine ⟨hKind, ?_, ?_, ?_, ?_⟩
        · rw [HostCall.page, AvrMem.length_bytes]
          exact hMore
        · exact (AvrMem.drop_take_bytes m _ _ _ _).symm
        · dsimp only
          split
          · trivial
          · split
            · trivial
            · exact ih _
        · trivial
      · trivial

/- A call that makes one control IN transfer and is done. -/
theorem within_controlIn
    (hKind :
      r.kind ≠ some .pdiNvmRead ∧
        r.kind ≠ some .pdiNvmWritePage)
    (request : Request)
    (sent : Nat)
    {next : Int → List UInt8 → Course}
    (hNext :
      ∀ code bytes, (next code bytes).Within c r 0) :
    (Course.controlIn r next).Within c request sent :=
  ⟨hKind.1, hKind.2, hNext⟩

theorem initCourse_within
    (hasPdi : Bool)
    (ioFrequency : Int)
    (info status : UInt8)
    (request : Request)
    (sent : Nat) :
    (initCourse hasPdi ioFrequency info status).Within c
      request sent := by
  rw [initCourse]
  refine within_controlIn c (by decide) request sent ?_
  intro code bytes
  split
  · trivial
  · split
    · trivial
    · refine within_controlIn c ?_ _ _ ?_
      · have hKind :
            (inRequest lucaxPdiInitReq
              (UInt16.ofNat
                (usedFrequency ioFrequency).toNat) 0).kind =
              some .pdiInit :=
          (show _ = (inRequest lucaxPdiInitReq 0 0).kind
            from rfl).trans (by decide)
        rw [hKind]
        decide
      · intro code bytes
        split
        · trivial
        · split
          · trivial
          · trivial

theorem readByteCourse_within
    (address : UInt32)
    (request : Request)
    (sent : Nat) :
    (readByteCourse address).Within c request sent := by
  rw [readByteCourse]
  split
  · refine within_controlIn c ?_ request sent ?_
    · have hKind :
          (rawRequest address).kind = some .pdiRawRead :=
        (show _ = (inRequest lucaxPdiRawReadReq 0 0).kind
          from rfl).trans (by decide)
      rw [hKind]
      decide
    · intro code bytes
      split
      · trivial
      · trivial
  · refine ⟨fun hPage => absurd hPage (by decide), rfl, ?_⟩
    intro code
    dsimp only
    split
    · trivial
    · refine ⟨by decide, ?_⟩
      intro code bytes
      dsimp only
      split
      · trivial
      · split
        · trivial
        · trivial

end Within

/- Every call keeps to its own requests. -/
theorem course_within
    (c : HostCall)
    (request : Request)
    (sent : Nat) :
    c.course.Within c request sent := by
  cases c with
  | init hasPdi ioFrequency info status =>
      exact initCourse_within _ _ _ _ _ _ _
  | close =>
      exact
        ⟨fun hPage => absurd hPage (by decide), rfl,
          fun _ => trivial⟩
  | chipErase ret =>
      refine within_controlIn _ (by decide) request sent ?_
      intro code bytes
      split
      · trivial
      · trivial
  | readByte m addr value =>
      exact readByteCourse_within _ _ _ _
  | pagedLoad m baseaddr nBytes =>
      have hKind :
          (loadRequest nBytes).kind = some .pdiNvmRead :=
        (outRequest_kind _ _ _ _).trans (by decide)
      refine ⟨?_, rfl, ?_⟩
      · intro hPage
        rw [hKind] at hPage
        cases hPage
      · intro code
        dsimp only
        split
        · trivial
        · exact loadCourse_within _ hKind _ _ _ _
  | pagedWrite m addr nBytes =>
      rw [HostCall.course]
      split
      · trivial
      · rename_i mem hMem
        have hKind :
            (pageRequest mem nBytes).kind =
              some .pdiNvmWritePage :=
          (outRequest_kind _ _ _ _).trans (by decide)
        refine ⟨?_, rfl, ?_⟩
        · intro _hPage
          rw [HostCall.page, AvrMem.length_bytes]
          exact clamp_toUInt16_le nBytes
        · intro code
          dsimp only
          split
          · trivial
          · exact writeCourse_within hKind m addr nBytes _ _
  | writeByte m behind addr value =>
      rw [HostCall.course]
      split
      · trivial
      · rename_i memType hMem
        have hKind :
            (writeByteRequest memType value).kind =
              some .pdiNvmWriteByte :=
          (outRequest_kind _ _ _ _).trans (by decide)
        refine ⟨?_, rfl, ?_⟩
        · intro hPage
          rw [hKind] at hPage
          cases hPage
        · intro code
          dsimp only
          split
          · trivial
          · trivial

end Lucax
