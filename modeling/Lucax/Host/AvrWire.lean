import Lucax.Host.AvrPages
import Lucax.Host.PageTransfer

/-
  Whole memories read and written through the driver, the
  firmware and the PDI.

  Key definitions include:
    * `lucaxPgm`, `wirePgm`
    * `TaggedMem.OnPart`

  Main declarations:
    * `wirePgm_shows`, `wirePgm_stores`
    * `lucaxWrite_unnamed`
-/

------------------------------------------------------------
-- The Driver as a Programmer
------------------------------------------------------------

namespace Lucax

/- lucax.c: `lucax_initpgm`; what it leaves out is missing. -/
def lucaxPgm
    {ℓ : Type}
    (usb : Libusb ℓ)
    (behind : UInt8) : Programmer ℓ where
  pagedLoad :=
    some fun m addr nBytes l =>
      let out :=
        lucaxPagedLoad usb m.toAvrMem (UInt32.ofNat addr)
          (UInt32.ofNat nBytes) l
      ((out.1.1, out.1.2.buf), out.2)
  pagedWrite :=
    some fun m addr nBytes l =>
      lucaxPagedWrite usb m.toAvrMem (UInt32.ofNat addr)
        (UInt32.ofNat nBytes) l
  pageErase := fun _ _ l => (-1, l)
  readByte := fun m addr value l =>
    lucaxReadByte usb m.toAvrMem (UInt32.ofNat addr) value l
  writeByte := fun m addr value l =>
    lucaxWriteByte usb m.toAvrMem behind (UInt32.ofNat addr)
      value l
  writePage := fun _ _ l => (-1, l)
  readSigBytes := none
  writeSetup := none

/- Operations, each with what is still done after it. -/
def Programmer.followed
    {σ : Type}
    (after : σ → σ)
    (pgm : Programmer σ) : Programmer σ where
  pagedLoad :=
    pgm.pagedLoad.map fun load m addr nBytes s =>
      let out := load m addr nBytes s
      (out.1, after out.2)
  pagedWrite :=
    pgm.pagedWrite.map fun write m addr nBytes s =>
      let out := write m addr nBytes s
      (out.1, after out.2)
  pageErase := fun m addr s =>
    let out := pgm.pageErase m addr s
    (out.1, after out.2)
  readByte := fun m addr value s =>
    let out := pgm.readByte m addr value s
    (out.1, after out.2)
  writeByte := fun m addr value s =>
    let out := pgm.writeByte m addr value s
    (out.1, after out.2)
  writePage := fun m addr s =>
    let out := pgm.writePage m addr s
    (out.1, after out.2)
  readSigBytes :=
    pgm.readSigBytes.map fun readSig m s =>
      let out := readSig m s
      (out.1, after out.2)
  writeSetup :=
    pgm.writeSetup.map fun setup m s => after (setup m s)

/- The driver on the cable, with what the firmware does. -/
def wirePgm
    {τ : Type}
    (line : Line τ)
    (behind : UInt8) : Programmer (Device τ) :=
  (lucaxPgm (wireUsb line) behind).followed (settle line)

/-
  A memory inside the flash memory or the EEPROM of the part,
  from the beginning on, with their pages; they have to fit
  the buffer of the firmware.  The name may be another one.
-/
structure TaggedMem.Placed
    (m : TaggedMem)
    (p : Part)
    (mem : PagedMemory) : Prop where
  offset : m.offset.toNat = (p.region mem).offset
  inside : m.size ≤ (p.region mem).size
  pageSize : m.pageSize = (p.region mem).page
  pages : m.pageSize ∣ m.size
  buffer : m.pageSize ≤ 1024
  nvm : m.offset.toNat + m.size < 0x01000000

/- One of the two as the configuration describes it. -/
structure TaggedMem.OnPart
    (m : TaggedMem)
    (p : Part)
    (mem : PagedMemory) : Prop extends
    m.Placed p mem where
  desc : m.desc = mem.desc
  size : m.size = (p.region mem).size

section Placed

variable {p : Part} {mem : PagedMemory} {m : TaggedMem}

theorem TaggedMem.Placed.withBuf
    (hPlaced : m.Placed p mem)
    (buf : Nat → UInt8) :
    (m.withBuf buf).Placed p mem :=
  ⟨hPlaced.offset, hPlaced.inside, hPlaced.pageSize,
    hPlaced.pages, hPlaced.buffer, hPlaced.nvm⟩

theorem TaggedMem.Placed.page_pos
    (hPlaced : m.Placed p mem) :
    0 < m.pageSize := by
  rw [hPlaced.pageSize]
  exact (p.region mem).page_pos

/- Places and lengths the driver is given. -/
theorem TaggedMem.Placed.toNat
    (hPlaced : m.Placed p mem)
    {n : Nat}
    (hSmall : n ≤ m.size) :
    (UInt32.ofNat n).toNat = n := by
  have hNvm := hPlaced.nvm
  rw [UInt32.toNat_ofNat']
  omega

/- A page of the memory lies inside. -/
theorem TaggedMem.Placed.page_inside
    (hPlaced : m.Placed p mem)
    {place : Nat}
    (hAligned : m.pageSize ∣ place)
    (hInside : place < m.size) :
    place + m.pageSize ≤ m.size := by
  rcases hAligned with ⟨k, hPlace⟩
  rcases hPlaced.pages with ⟨n, hSize⟩
  rw [hPlace, hSize] at hInside ⊢
  have hLess : k < n := Nat.lt_of_mul_lt_mul_left hInside
  rw [← Nat.mul_succ]
  exact Nat.mul_le_mul_left _ hLess

theorem TaggedMem.Placed.contains
    (hPlaced : m.Placed p mem)
    {i : Nat}
    (hInside : i < m.size) :
    (p.region mem).Contains (m.offset.toNat + i) := by
  have hWithin := hPlaced.inside
  rw [hPlaced.offset]
  exact ⟨by omega, by omega⟩

theorem TaggedMem.OnPart.describes
    (hPart : m.OnPart p mem) :
    m.toAvrMem.Describes p mem :=
  ⟨hPart.desc, hPart.offset⟩

theorem AvrMem.store_desc
    (desc : List Char)
    (m : AvrMem)
    (i : Nat)
    (bytes : List UInt8) :
    AvrMem.store { m with desc := desc } i bytes =
      { m.store i bytes with desc := desc } := by
  induction bytes generalizing m i with
  | nil => rfl
  | cons b bytes ih =>
      exact
        ih
          { m with
            buf := fun j => if j = i then b else m.buf j }
          (i + 1)

/- A load does not look at the name. -/
theorem loadLoop_desc
    {ℓ : Type}
    (usb : Libusb ℓ)
    (desc : List Char)
    (base nBytes fuel total : Nat)
    (m : AvrMem)
    (l : ℓ) :
    let out := loadLoop usb base nBytes fuel total m l
    loadLoop usb base nBytes fuel total
        { m with desc := desc } l =
      ((out.1.1, { out.1.2 with desc := desc }), out.2) := by
  induction fuel generalizing total m l with
  | zero =>
      simp only [loadLoop]
      split <;> rfl
  | succ fuel ih =>
      simp only [loadLoop, AvrMem.store_desc]
      split
      · split
        · rfl
        · split
          · rfl
          · exact ih _ _ _
      · rfl

theorem lucaxPagedLoad_desc
    {ℓ : Type}
    (usb : Libusb ℓ)
    (desc : List Char)
    (m : AvrMem)
    (baseaddr nBytes : UInt32)
    (l : ℓ) :
    let out := lucaxPagedLoad usb m baseaddr nBytes l
    lucaxPagedLoad usb { m with desc := desc } baseaddr nBytes
        l =
      ((out.1.1, { out.1.2 with desc := desc }), out.2) := by
  have hAddress :
      AvrMem.address { m with desc := desc } baseaddr =
        m.address baseaddr := rfl
  simp only [lucaxPagedLoad, hAddress]
  split
  · rfl
  · exact loadLoop_desc usb desc _ _ _ _ _ _

/- What a session holds: an open one, and the memories. -/
def SessionHolds
    (d : Device (Decoder Chip))
    (content : Nat → UInt8) : Prop :=
  d.Online ∧ d.content = content

/- A byte of the memory is read by the NVM request. -/
theorem readByte_onWire
    (hPlaced : m.Placed p mem)
    (behind : UInt8)
    {i : Nat}
    (hInside : i < m.size)
    (value : UInt8)
    {d : Device (Decoder Chip)}
    (hOnline : d.Online) :
    let out :=
      (wirePgm (Decoder.line p.bus) behind).readByte m i value d
    out.2.Online ∧ out.2.content = d.content ∧
      out.1 = (0, d.content (m.offset.toNat + i)) := by
  have hNvm := hPlaced.nvm
  have hPlace := hPlaced.toNat (Nat.le_of_lt hInside)
  have hNat :
      (UInt32.ofNat (m.offset.toNat + i)).toNat =
        m.offset.toNat + i := by
    rw [UInt32.toNat_ofNat']
    omega
  have hAddress :
      m.toAvrMem.address (UInt32.ofNat i) =
        UInt32.ofNat (m.offset.toNat + i) := by
    apply UInt32.toNat_inj.mp
    rw [AvrMem.address, UInt32.toNat_add, hPlace, hNat]
    exact Nat.mod_eq_of_lt (by omega)
  have hRaw :
      isRawAddress (m.toAvrMem.address (UInt32.ofNat i)) =
        false := by
    rw [hAddress, isRawAddress, decide_eq_false_iff_not,
      UInt32.le_iff_toNat_le, hNat]
    have hLiteral : (0x01000000 : UInt32).toNat = 0x01000000 :=
      rfl
    omega
  rcases
      readByte_wire (Decoder.line p.bus) hOnline.idle
        m.toAvrMem (UInt32.ofNat i) value hRaw with
    ⟨hOut, hAfter⟩
  have hStarted :
      (started byteRequest
        (addressBytes (m.toAvrMem.address (UInt32.ofNat i)))
        d).Online :=
    ⟨started_idle hOnline.idle _ _, hOnline.quiet,
      hOnline.open_, hOnline.boundary, hOnline.ready⟩
  rcases nvmReadByte_chip p hStarted
      (hPlaced.contains hInside) with
    ⟨hValue, hOnline', hContent⟩
  rw [← hAddress] at hValue hOnline' hContent
  simp only [wirePgm, Programmer.followed, lucaxPgm, hOut,
    hAfter]
  refine ⟨hOnline', hContent, ?_⟩
  rw [hValue]
  rfl

/- Reads return what the part holds, whatever the name is. -/
theorem wirePgm_shows
    (hPlaced : m.Placed p mem)
    (behind : UInt8) :
    (wirePgm (Decoder.line p.bus) behind).Shows m
      SessionHolds where
  load := by
    intro load hLoad buf place d content hAligned hInside hHolds
    rcases hHolds with ⟨hOnline, hContent⟩
    have hPage := hPlaced.page_inside hAligned hInside
    have hPlace := hPlaced.toNat (Nat.le_of_lt hInside)
    have hCount := hPlaced.toNat (show m.pageSize ≤ m.size by
      omega)
    have hWithin := hPlaced.inside
    have hDescribes :
        AvrMem.Describes
          { (m.withBuf buf).toAvrMem with desc := mem.desc } p
          mem :=
      ⟨rfl, hPlaced.offset⟩
    have hLoadWithin :
        (Transfer.load mem
          { (m.withBuf buf).toAvrMem with desc := mem.desc }
          (UInt32.ofNat place)
          (UInt32.ofNat m.pageSize)).Within p := by
      refine ⟨hDescribes, ?_, ?_, ?_⟩
      · rw [hCount]
        exact hPlaced.page_pos
      · rw [hCount]
        exact hPlaced.buffer
      · rw [hPlace, hCount]
        omega
    rcases load_onWire hOnline hLoadWithin with
      ⟨hOut, hOnline', hContent'⟩
    simp only [Transfer.onWire, Transfer.exec,
      lucaxPagedLoad_desc] at hOut hOnline' hContent'
    rw [← Option.some.inj hLoad]
    refine ⟨⟨hOnline', hContent'.trans hContent⟩, ?_⟩
    intro _hOk
    have hBytes := congrArg Prod.snd hOut
    simp only [Transfer.onMemory, hPlace, hCount] at hBytes
    rw [← hContent, hPlaced.offset]
    exact hBytes
  byte := by
    intro buf i value d content hInside hHolds
    rcases hHolds with ⟨hOnline, hContent⟩
    rcases readByte_onWire (hPlaced.withBuf buf) behind hInside
        value hOnline with
      ⟨hOnline', hContent', hValue⟩
    refine ⟨⟨hOnline', hContent'.trans hContent⟩, ?_⟩
    intro _hOk
    rw [← hContent]
    exact congrArg Prod.snd hValue

theorem wirePgm_neverFails
    (hPlaced : m.Placed p mem)
    (behind : UInt8) :
    (wirePgm (Decoder.line p.bus) behind).NeverFails m
      SessionHolds := by
  intro buf i value d content hInside hHolds
  rcases readByte_onWire (hPlaced.withBuf buf) behind hInside
      value hHolds.1 with
    ⟨_hOnline, _hContent, hValue⟩
  exact congrArg Prod.fst hValue

/- Page writes replace pages of the part. -/
theorem wirePgm_stores
    (hPart : m.OnPart p mem)
    (behind : UInt8) :
    (wirePgm (Decoder.line p.bus) behind).Stores m
      SessionHolds where
  paged := by
    exact Option.some_ne_none _
  page := by
    intro write hWrite place d content hAligned hInside hHolds
    rcases hHolds with ⟨hOnline, hContent⟩
    have hPage := hPart.page_inside hAligned hInside
    have hPlace := hPart.toNat (Nat.le_of_lt hInside)
    have hCount := hPart.toNat (show m.pageSize ≤ m.size by
      omega)
    have hWithin :
        (Transfer.write mem m.toAvrMem (UInt32.ofNat place)
          (UInt32.ofNat m.pageSize)).Within p := by
      refine ⟨hPart.describes, ?_, ?_, ?_, ?_, ?_⟩
      · rw [← hPart.pageSize]
        exact hPart.buffer
      · rw [hPlace, ← hPart.pageSize]
        exact hAligned
      · rw [hPlace, ← hPart.size]
        exact hInside
      · rw [hCount]
        exact hPart.page_pos
      · rw [hCount]
        exact Nat.le_of_eq hPart.pageSize
    rcases write_onWire hOnline hWithin with
      ⟨hOut, hOnline', hContent'⟩
    rw [← Option.some.inj hWrite]
    have hCode := congrArg Prod.fst hOut
    simp only [Transfer.onMemory] at hCode
    simp only [Transfer.onMemory, hPlace, hCount] at hContent'
    refine ⟨Int.le_of_eq hCode.symm, hOnline', ?_⟩
    rw [← hContent, hPart.offset, hPart.pageSize]
    rw [hPart.pageSize] at hContent'
    exact hContent'

end Placed

/- A session with the small part. -/
def smallSession : Device (Decoder Chip) :=
  ((HostCall.init true 250 0 0).onWire
    (Decoder.line smallPart.bus)
    (World.powerOn (Decoder.initial smallChip) Wire.quiet)).2

theorem smallSession_online : smallSession.Online :=
  (init_online smallPart (World.atRest_powerOn rfl) true 250 0 0
    (by decide +kernel)).1

theorem blankFlash_onPart :
    blankFlash.OnPart smallPart .flash where
  offset := by decide
  inside := by decide
  pageSize := by decide
  pages := by decide
  buffer := by decide
  nvm := by decide
  desc := by decide
  size := by decide

------------------------------------------------------------
-- Memories the Driver does not Write
------------------------------------------------------------

section Unnamed

/-
  Operations that return an error and do nothing: the pages
  are given up, and the bytes are refused one by one.
-/
theorem avrWrite_refused
    {σ : Type}
    {pgm : Programmer σ}
    {m : TaggedMem}
    {s : σ}
    (hPages :
      ∀ write, pgm.pagedWrite = some write →
        ∀ place, write m place m.pageSize s = (-1, s))
    (hSetup : pgm.writeSetup = none)
    (hBytes : ∀ i, (pgm.writeByte m i (m.buf i) s).2 = s)
    (hPage : ∀ i, (pgm.writePage m i s).2 = s)
    (size : Nat) :
    avrWrite pgm m size false s =
      (((min size m.size : Nat) : Int), s) := by
  have hLoop
      (wsize left i : Nat)
      (newpage pageTainted : Bool) :
      (writeBytes pgm m wsize left i newpage pageTainted s).2 =
        s := by
    induction left generalizing i newpage pageTainted with
    | zero => rfl
    | succ left ih =>
        simp only [writeBytes, hBytes, hPage, ite_self]
        exact ih _ _ _
  have hPageLoop
      {write : TaggedMem → Nat → Nat → σ → Int × σ}
      (hWrite : pgm.pagedWrite = some write)
      (wsize fuel pageaddr : Nat) :
      (writePages pgm write false m wsize fuel pageaddr s).2 =
        s := by
    induction fuel generalizing pageaddr with
    | zero => rfl
    | succ fuel ih =>
        rw [writePages]
        split
        · split
          · simp [hPages write hWrite]
          · exact ih _
        · rfl
  refine Prod.ext (avrWrite_code _ _ _ _ _) ?_
  rw [avrWrite]
  cases hFilter :
      pgm.pagedWrite.filter fun _ => m.pageSize ≠ 0 with
  | none =>
      simp only [hSetup, Option.elim_none]
      exact hLoop _ _ _ _ _
  | some write =>
      rcases Option.filter_eq_some_iff.mp hFilter with
        ⟨hWrite, _hPage⟩
      simp only [hSetup, Option.elim_none,
        hPageLoop hWrite (min size m.size)]
      split
      · rfl
      · exact hLoop _ _ _ _ _

variable {ℓ : Type} (usb : Libusb ℓ) {m : TaggedMem}

/-
  A memory under a name the driver does not know, such as
  "application", is written in vain: no transfer is made, and
  the code says that all of it was written.
-/
theorem lucaxWrite_unnamed
    {behind : UInt8}
    (hNoPages : m.pagedType = none)
    (hNoBytes : m.byteType behind = none)
    (size : Nat)
    (l : ℓ) :
    avrWrite (lucaxPgm usb behind) m size false l =
      (((min size m.size : Nat) : Int), l) := by
  apply avrWrite_refused
  · intro write hWrite place
    rw [← Option.some.inj hWrite]
    simp only [lucaxPagedWrite, hNoPages]
  · rfl
  · intro i
    simp only [lucaxPgm, lucaxWriteByte, hNoBytes]
  · intro i
    rfl

theorem lucaxWrite_application :
    let application : TaggedMem :=
      { blankFlash.fill 510 [1, 2, 3] with
        desc := "application".toList }
    let d := World.powerOn (Decoder.initial smallChip) Wire.quiet
    avrWrite (lucaxPgm (wireUsb (Decoder.line smallPart.bus)) 0)
        application 700 false d =
      (700, d) :=
  lucaxWrite_unnamed (wireUsb (Decoder.line smallPart.bus))
    (by decide) (by decide) 700 _

/- The same through the firmware, which is not asked. -/
theorem wireWrite_unnamed
    {τ : Type}
    (line : Line τ)
    {behind : UInt8}
    (hNoPages : m.pagedType = none)
    (hNoBytes : m.byteType behind = none)
    (size : Nat)
    {d : Device τ}
    (hIdle : d.Idle) :
    avrWrite (wirePgm line behind) m size false d =
      (((min size m.size : Nat) : Int), d) := by
  have hSettled := settle_idle line hIdle.setup
  apply avrWrite_refused
  · intro write hWrite place
    rw [← Option.some.inj hWrite]
    simp only [lucaxPagedWrite, hNoPages, hSettled]
  · rfl
  · intro i
    simp only [wirePgm, Programmer.followed, lucaxPgm,
      lucaxWriteByte, hNoBytes, hSettled]
  · intro i
    exact hSettled

end Unnamed

end Lucax
