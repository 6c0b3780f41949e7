import Lucax.Cable.Parties

/-
  What holds of the cable however the two parties interleave.

  Key definitions include:
    * `Setup.Fits`, `OwnBytes`
    * `Cable.Banks`, `Running.Sound`, `Cable.Orderly`

  Main declarations:
    * `goOn_orderly`, `act_orderly`
    * `look_orderly`, `take_orderly`
-/

------------------------------------------------------------
-- The Invariant
------------------------------------------------------------

namespace Lucax

/- The page is as long as the firmware will ask for. -/
def Setup.Fits (s : Setup) : Prop :=
  s.request.kind = some .pdiNvmWritePage →
    (clamp s.request.wIndex).toNat ≤ s.page.length

/- All bytes are of the SETUP packet with this number. -/
def OwnBytes
    (number : Nat)
    (packet : Stamped) : Prop :=
  ∀ b ∈ packet, b.1 = number

/-
  Behind a SETUP packet taken cleanly the bank its data goes
  through has nothing but this data: packets made for it, or
  the part of its page that is next.
-/
structure Cable.Banks (c : Cable) : Prop where
  waiting : ∀ s ∈ c.setup, s.Fits
  serving : c.serving.Fits
  control :
    c.clean = true →
      c.serving.request.kind ≠ some .pdiNvmRead →
        c.serving.request.kind ≠ some .pdiNvmWritePage →
          ∀ packet ∈ c.controlBank,
            OwnBytes c.serving.number packet
  bulkIn :
    c.clean = true →
      c.serving.request.kind = some .pdiNvmRead →
        ∀ packet ∈ c.bankIn,
          OwnBytes c.serving.number packet
  bulkOut :
    c.clean = true →
      c.serving.request.kind = some .pdiNvmWritePage →
        ∀ packet ∈ c.bankOut,
          c.taken < c.serving.page.length ∧
            packet =
              (c.serving.page.drop c.taken).take
                vendorIoEpsize
  returned :
    ∀ e ∈ c.returned,
      e.fresh = true → OwnBytes e.asked.number e.got

/-
  The call under way is the one that is served, it has got
  nothing but what was made for it, and what it has sent has
  been taken or is in the bank.
-/
structure Running.Served
    (c : Cable)
    (h : Running) : Prop where
  placed : c.clean = true → h.asked = c.serving
  own : c.clean = true → OwnBytes h.asked.number h.got
  sent :
    c.clean = true →
      c.serving.request.kind = some .pdiNvmWritePage →
        h.sent = c.taken + (c.bankOut.getD []).length

/- Whose SETUP packet a course waits with. -/
def Course.asking : Course → Option Request
| .controlOut r _ _ => some r
| .controlIn r _ => some r
| _ => none

/-
  A SETUP packet that waits is that of the call under way,
  which makes no bulk transfers before it is taken.
-/
structure Running.Sound
    (c : Cable)
    (h : Running) : Prop where
  last : ∀ s ∈ c.setup, h.asked = s
  asks : ∀ r ∈ h.course.asking, h.asked.request = r
  page : h.asked.page = h.call.page
  within : h.course.Within h.call h.asked.request h.sent
  bulk : h.course.isBulk = true → c.setup = none
  begins : h.course.isBulk = false → h.sent = 0 ∧ h.got = []
  served : c.setup = none → h.Served c

structure Cable.Orderly (c : Cable) : Prop where
  banks : c.Banks
  host : ∀ h ∈ c.host, h.Sound c

theorem plugged_orderly : Cable.plugged.Orderly := by
  refine ⟨⟨?_, ?_, ?_, ?_, ?_, ?_⟩, ?_⟩
  · exact fun s hMem => absurd hMem (Option.not_mem_none s)
  · exact fun hKind => absurd hKind (by decide)
  · exact fun hClean => absurd hClean Bool.false_ne_true
  · exact fun hClean => absurd hClean Bool.false_ne_true
  · exact fun hClean => absurd hClean Bool.false_ne_true
  · exact fun e hMem => absurd hMem List.not_mem_nil
  · exact fun h hMem => absurd hMem (Option.not_mem_none h)

------------------------------------------------------------
-- Bytes
------------------------------------------------------------

section OwnBytes

variable {number : Nat} {packet : Stamped}

@[simp] theorem ownBytes_nil : OwnBytes number [] :=
  fun _ hMem => absurd hMem List.not_mem_nil

theorem OwnBytes.append
    {more : Stamped}
    (hPacket : OwnBytes number packet)
    (hMore : OwnBytes number more) :
    OwnBytes number (packet ++ more) := by
  intro b hMem
  rcases List.mem_append.mp hMem with hFront | hBack
  · exact hPacket b hFront
  · exact hMore b hBack

theorem OwnBytes.take
    (hPacket : OwnBytes number packet)
    (n : Nat) :
    OwnBytes number (packet.take n) :=
  fun b hMem => hPacket b (List.mem_of_mem_take hMem)

theorem stamp_own
    (c : Cable)
    (bytes : List UInt8) :
    OwnBytes c.serving.number (c.stamp bytes) := by
  intro b hMem
  rcases List.mem_map.mp hMem with ⟨value, _hValue, hIs⟩
  rw [← hIs]

/- What a packet leaves in a bank that is not free. -/
theorem collision_own
    (collision : Collision)
    {bank : Option Stamped}
    (hPacket : OwnBytes number packet)
    (hBank : ∀ old ∈ bank, OwnBytes number old) :
    ∀ new ∈ collision.bank packet bank,
      OwnBytes number new := by
  intro new hNew
  cases collision with
  | lost => exact hBank new hNew
  | replaced =>
      rw [← Option.some.inj hNew]
      exact hPacket
  | joined =>
      rw [← Option.some.inj hNew]
      refine OwnBytes.append ?_ hPacket
      cases bank with
      | none => exact ownBytes_nil
      | some old => exact hBank old rfl

end OwnBytes

------------------------------------------------------------
-- A Call that Goes On
------------------------------------------------------------

section Host

variable {c c' : Cable} {h : Running}

theorem Running.Served.congr
    (hServed : h.Served c)
    (hServing : c'.serving = c.serving)
    (hClean : c'.clean = c.clean)
    (hSent :
      c'.taken + (c'.bankOut.getD []).length =
        c.taken + (c.bankOut.getD []).length) :
    h.Served c' := by
  constructor
  · rw [hServing, hClean]
    exact hServed.placed
  · rw [hClean]
    exact hServed.own
  · rw [hServing, hClean, hSent]
    exact hServed.sent

/- A call only looks at these parts of the cable. -/
theorem Running.Sound.congr
    (hSound : h.Sound c)
    (hSetup : c'.setup = c.setup)
    (hServing : c'.serving = c.serving)
    (hClean : c'.clean = c.clean)
    (hSent :
      c'.taken + (c'.bankOut.getD []).length =
        c.taken + (c.bankOut.getD []).length) :
    h.Sound c' := by
  constructor
  · rw [hSetup]
    exact hSound.last
  · exact hSound.asks
  · exact hSound.page
  · exact hSound.within
  · rw [hSetup]
    exact hSound.bulk
  · exact hSound.begins
  · rw [hSetup]
    intro hNone
    exact (hSound.served hNone).congr hServing hClean hSent

/- Bulk transfers belong to the two requests that have them. -/
theorem Course.Within.kind_of_isBulk
    {call : HostCall}
    {r : Request}
    {sent : Nat}
    {course : Course}
    (hWithin : course.Within call r sent)
    (hBulk : course.isBulk = true) :
    r.kind = some .pdiNvmRead ∨
      r.kind = some .pdiNvmWritePage := by
  cases course with
  | done code => cases hBulk
  | controlOut request data next => cases hBulk
  | controlIn request next => cases hBulk
  | bulkOut packet next => exact Or.inr hWithin.1
  | bulkIn length next => exact Or.inl hWithin.1

/- A call has got its own bytes only. -/
theorem Running.Sound.own
    (hSound : h.Sound c)
    (hClean : c.clean = true) :
    OwnBytes h.asked.number h.got := by
  cases hBulk : h.course.isBulk with
  | true =>
      exact (hSound.served (hSound.bulk hBulk)).own hClean
  | false =>
      rw [(hSound.begins hBulk).2]
      exact ownBytes_nil

/- Behind a SETUP packet that waits it is in the transfer. -/
theorem Running.Sound.control
    (hSound : h.Sound c)
    (hSetup : c.setup.isSome = true) :
    h.course.isBulk = false := by
  cases hBulk : h.course.isBulk with
  | false => rfl
  | true =>
      rw [hSound.bulk hBulk] at hSetup
      cases hSetup

/- Nor has it sent anything of its page. -/
theorem Running.Sound.asked
    (hSound : h.Sound c)
    {r : Request}
    (hAsking : h.course.asking = some r) :
    h.asked.request = r ∧ h.sent = 0 := by
  have hControl : h.course.isBulk = false := by
    revert hAsking
    cases h.course with
    | done code => exact fun _ => rfl
    | controlOut request data next => exact fun _ => rfl
    | controlIn request next => exact fun _ => rfl
    | bulkOut packet next => exact fun hNone => by cases hNone
    | bulkIn length next => exact fun hNone => by cases hNone
  exact ⟨hSound.asks r hAsking, (hSound.begins hControl).1⟩

/- A new control transfer. -/
theorem ask_orderly
    (hBanks : c.Banks)
    {r : Request}
    {course : Course}
    (hAsking : course.asking = some r)
    (hControl : course.isBulk = false)
    (hWithin : course.Within h.call r 0)
    (hFits :
      r.kind = some .pdiNvmWritePage →
        (clamp r.wIndex).toNat ≤ h.call.page.length) :
    (c.ask h r course).Orderly := by
  refine ⟨⟨?_, ?_, ?_, ?_, ?_, ?_⟩, ?_⟩
  · intro s hMem
    rw [← Option.some.inj hMem]
    exact hFits
  · exact hBanks.serving
  · intro _hClean _hRead _hPage packet hMem
    cases hMem
  · exact hBanks.bulkIn
  · exact hBanks.bulkOut
  · exact hBanks.returned
  · intro h' hMem
    rw [← Option.some.inj hMem]
    constructor
    · intro s hLast
      exact Option.some.inj hLast
    · intro r' hAsks
      exact Option.some.inj (hAsking.symm.trans hAsks)
    · rfl
    · exact hWithin
    · intro hBulk
      rw [hControl] at hBulk
      cases hBulk
    · exact fun _ => ⟨rfl, rfl⟩
    · intro hNone
      cases hNone

theorem finish_orderly
    (hBanks : c.Banks)
    (hOwn : c.clean = true → OwnBytes h.asked.number h.got)
    (code : Int) :
    (c.finish h code).Orderly := by
  refine ⟨⟨hBanks.waiting, hBanks.serving, hBanks.control,
    hBanks.bulkIn, hBanks.bulkOut, ?_⟩, ?_⟩
  · intro e hMem hFresh
    rcases List.mem_append.mp hMem with hOld | hNew
    · exact hBanks.returned e hOld hFresh
    · rw [List.mem_singleton.mp hNew] at hFresh ⊢
      exact hOwn ((Bool.and_eq_true _ _).mp hFresh).2
  · intro h' hMem
    cases hMem

/-
  Whatever a call does next leaves the cable orderly, a bulk
  transfer if the call is served.
-/
theorem goOn_orderly
    (hBanks : c.Banks)
    {course : Course}
    (hWithin :
      course.Within h.call h.asked.request h.sent)
    (hOwn : c.clean = true → OwnBytes h.asked.number h.got)
    (hBulk :
      course.isBulk = true →
        h.asked.page = h.call.page ∧
          c.setup = none ∧ h.Served c) :
    (c.goOn h course).Orderly := by
  have hGoes :
      ∀ course,
        course.isBulk = true →
          course.asking = none →
            course.Within h.call h.asked.request h.sent →
              h.asked.page = h.call.page ∧
                  c.setup = none ∧ h.Served c →
                Cable.Orderly
                  { c with
                    host :=
                      some { h with course := course } } := by
    intro course hIs hAsks hWithin hServed
    rcases hServed with ⟨hPage, hNone, hServed⟩
    refine ⟨⟨hBanks.waiting, hBanks.serving, hBanks.control,
      hBanks.bulkIn, hBanks.bulkOut, hBanks.returned⟩, ?_⟩
    intro h' hMem
    rw [← Option.some.inj hMem]
    constructor
    · intro s hLast
      rw [show c.setup = some s from hLast] at hNone
      cases hNone
    · intro r hAsking
      rw [show course.asking = some r from hAsking] at hAsks
      cases hAsks
    · exact hPage
    · exact hWithin
    · exact fun _ => hNone
    · intro hControl
      rw [show course.isBulk = false from hControl] at hIs
      cases hIs
    · exact fun _ =>
        ⟨hServed.placed, hServed.own, hServed.sent⟩
  cases course with
  | done code => exact finish_orderly hBanks hOwn code
  | controlOut r data next =>
      exact ask_orderly hBanks rfl rfl hWithin hWithin.1
  | controlIn r next =>
      exact
        ask_orderly hBanks rfl rfl hWithin
          (fun hPage => absurd hPage hWithin.2.1)
  | bulkOut packet next =>
      exact hGoes _ rfl rfl hWithin (hBulk rfl)
  | bulkIn length next =>
      exact hGoes _ rfl rfl hWithin (hBulk rfl)

/- Only the bank of the control endpoint changes. -/
theorem Cable.Banks.free
    (hBanks : c.Banks)
    (answered : Bool) :
    Cable.Banks
      { c with controlBank := none, answered := answered } :=
  ⟨hBanks.waiting, hBanks.serving,
    fun _ _ _ packet hMem =>
      absurd hMem (Option.not_mem_none packet),
    hBanks.bulkIn, hBanks.bulkOut, hBanks.returned⟩

theorem advanceOut_orderly
    (hOrderly : c.Orderly)
    (hHost : c.host = some h)
    {r : Request}
    {data : List UInt8}
    {next : Int → Course}
    (hCourse : h.course = .controlOut r data next) :
    (c.advanceOut h data next).Orderly := by
  have hSound := hOrderly.host h hHost
  rw [Cable.advanceOut]
  split
  · exact hOrderly
  · rename_i hTaken
    have hNone := Option.not_isSome_iff_eq_none.mp hTaken
    split
    · refine ⟨⟨hOrderly.banks.waiting,
        hOrderly.banks.serving, hOrderly.banks.control,
        hOrderly.banks.bulkIn, hOrderly.banks.bulkOut,
        hOrderly.banks.returned⟩, ?_⟩
      intro h' hMem
      rw [← Option.some.inj hMem]
      have hServed := hSound.served hNone
      exact
        ⟨hSound.last, hSound.asks, hSound.page,
          hSound.within, hSound.bulk, hSound.begins,
          fun _ =>
            ⟨hServed.placed, hServed.own, hServed.sent⟩⟩
    · split
      · have hWithin := hSound.within
        rcases hSound.asked (by rw [hCourse]; rfl) with
          ⟨hAsked, hSent⟩
        rw [hCourse] at hWithin
        refine
          goOn_orderly (hOrderly.banks.free c.answered) ?_
            hSound.own ?_
        · rw [hAsked, hSent]
          exact hWithin.2.2 _
        · intro _hBulk
          exact
            ⟨hSound.page, hNone,
              (hSound.served hNone).congr rfl rfl rfl⟩
      · exact hOrderly

theorem advanceIn_orderly
    (hOrderly : c.Orderly)
    (hHost : c.host = some h)
    {r : Request}
    {next : Int → List UInt8 → Course}
    (hCourse : h.course = .controlIn r next) :
    (c.advanceIn h r next).Orderly := by
  have hSound := hOrderly.host h hHost
  have hWithin := hSound.within
  rcases hSound.asked (by rw [hCourse]; rfl) with
    ⟨hAsked, hSent⟩
  rw [hCourse] at hWithin
  rcases hWithin with ⟨hNoRead, hNoPage, hNext⟩
  rw [Cable.advanceIn]
  split
  · exact hOrderly
  · rename_i packet hPacket
    split
    · exact hOrderly
    · rename_i hTaken
      have hNone := Option.not_isSome_iff_eq_none.mp hTaken
      refine
        goOn_orderly (hOrderly.banks.free true) ?_ ?_ ?_
      · rw [hAsked, hSent]
        exact hNext _ _
      · intro hClean
        have hPlaced :=
          (hSound.served hNone).placed hClean
        rw [← hAsked, hPlaced] at hNoRead hNoPage
        have hOwn :=
          hOrderly.banks.control hClean hNoRead hNoPage
            packet hPacket
        rw [← hPlaced] at hOwn
        exact hOwn.take _
      · intro hBulk
        rcases (hNext _ _).kind_of_isBulk hBulk with
          hRead | hPage
        · exact absurd hRead hNoRead
        · exact absurd hPage hNoPage

theorem advanceBulkOut_orderly
    (hOrderly : c.Orderly)
    (hHost : c.host = some h)
    {packet : List UInt8}
    {next : Int → Nat → Course}
    (hCourse : h.course = .bulkOut packet next) :
    (c.advanceBulkOut h packet next).Orderly := by
  have hSound := hOrderly.host h hHost
  have hNone := hSound.bulk (by rw [hCourse]; rfl)
  have hServed := hSound.served hNone
  have hWithin := hSound.within
  rw [hCourse] at hWithin
  rcases hWithin with ⟨hKind, hMore, hPart, hNext, _hFailed⟩
  rw [Cable.advanceBulkOut]
  split
  · exact hOrderly
  · rename_i hFull
    have hFree := Option.not_isSome_iff_eq_none.mp hFull
    have hSent :
        c.clean = true →
          c.serving.request.kind = some .pdiNvmWritePage →
            h.sent = c.taken := by
      intro hClean hPage
      rw [hServed.sent hClean hPage, hFree]
      rfl
    have hBanks :
        Cable.Banks { c with bankOut := some packet } := by
      refine ⟨hOrderly.banks.waiting, hOrderly.banks.serving,
        hOrderly.banks.control, hOrderly.banks.bulkIn, ?_,
        hOrderly.banks.returned⟩
      intro hClean hPage packet' hMem
      have hPlaced := hServed.placed hClean
      rw [← Option.some.inj hMem]
      rw [← hSent hClean hPage, ← hPlaced, hSound.page]
      exact ⟨hMore, hPart⟩
    refine
      goOn_orderly
        (h := { h with sent := h.sent + packet.length })
        hBanks hNext hSound.own ?_
    intro _hBulk
    refine
      ⟨hSound.page, hNone, hServed.placed, hServed.own, ?_⟩
    intro hClean hPage
    have hBefore := hSent hClean hPage
    simp only [hBefore, Option.getD_some]

theorem advanceBulkIn_orderly
    (hOrderly : c.Orderly)
    (hHost : c.host = some h)
    {length : Nat}
    {next : Int → List UInt8 → Course}
    (hCourse : h.course = .bulkIn length next) :
    (c.advanceBulkIn h length next).Orderly := by
  have hSound := hOrderly.host h hHost
  have hNone := hSound.bulk (by rw [hCourse]; rfl)
  have hServed := hSound.served hNone
  have hWithin := hSound.within
  rw [hCourse] at hWithin
  rcases hWithin with ⟨hKind, hNext⟩
  rw [Cable.advanceBulkIn]
  split
  · exact hOrderly
  · rename_i packet hPacket
    have hOwn :
        c.clean = true →
          OwnBytes h.asked.number
            (h.got ++ packet.take length) := by
      intro hClean
      have hPlaced := hServed.placed hClean
      have hPacketOwn :=
        hOrderly.banks.bulkIn hClean
          (by rw [← hPlaced]; exact hKind) packet hPacket
      rw [← hPlaced] at hPacketOwn
      exact (hServed.own hClean).append (hPacketOwn.take _)
    have hBanks : Cable.Banks { c with bankIn := none } :=
      ⟨hOrderly.banks.waiting, hOrderly.banks.serving,
        hOrderly.banks.control,
        fun _ _ packet' hMem =>
          absurd hMem (Option.not_mem_none packet'),
        hOrderly.banks.bulkOut, hOrderly.banks.returned⟩
    refine
      goOn_orderly
        (h := { h with got := h.got ++ packet.take length })
        hBanks (hNext _ _) hOwn ?_
    intro _hBulk
    exact
      ⟨hSound.page, hNone, hServed.placed, hOwn,
        hServed.sent⟩

/- The transfer a call waits for is made. -/
theorem advance_orderly
    (hOrderly : c.Orderly)
    (hHost : c.host = some h) :
    (c.advance h).Orderly := by
  rw [Cable.advance]
  split
  · exact hOrderly
  · rename_i r data next hCourse
    exact advanceOut_orderly hOrderly hHost hCourse
  · rename_i r next hCourse
    exact advanceIn_orderly hOrderly hHost hCourse
  · rename_i packet next hCourse
    exact advanceBulkOut_orderly hOrderly hHost hCourse
  · rename_i length next hCourse
    exact advanceBulkIn_orderly hOrderly hHost hCourse

/- A transfer given up. -/
theorem giveUp_orderly
    (hOrderly : c.Orderly)
    (hHost : c.host = some h) :
    (c.goOn h h.course.givenUp).Orderly := by
  have hSound := hOrderly.host h hHost
  have hWithin := hSound.within
  have hBulk :
      h.course.isBulk = true →
        h.asked.page = h.call.page ∧
          c.setup = none ∧ h.Served c := by
    intro hIs
    have hNone := hSound.bulk hIs
    exact ⟨hSound.page, hNone, hSound.served hNone⟩
  refine goOn_orderly hOrderly.banks ?_ hSound.own ?_
  · cases hCourse : h.course with
    | done code => trivial
    | controlOut r data next =>
        rcases hSound.asked (by rw [hCourse]; rfl) with
          ⟨hAsked, hSent⟩
        rw [hCourse] at hWithin
        rw [hAsked, hSent]
        exact hWithin.2.2 _
    | controlIn r next =>
        rcases hSound.asked (by rw [hCourse]; rfl) with
          ⟨hAsked, hSent⟩
        rw [hCourse] at hWithin
        rw [hAsked, hSent]
        exact hWithin.2.2 _ _
    | bulkOut packet next =>
        rw [hCourse] at hWithin
        exact hWithin.2.2.2.2
    | bulkIn length next =>
        rw [hCourse] at hWithin
        exact hWithin.2 _ _
  · intro hNext
    cases hCourse : h.course with
    | done code =>
        rw [hCourse] at hNext
        cases hNext
    | controlOut r data next =>
        rw [hCourse] at hWithin hNext
        have hNot := hWithin.2.1
        rw [show (next timedOut).isBulk = true from hNext]
          at hNot
        cases hNot
    | controlIn r next =>
        rw [hCourse] at hWithin hNext
        rcases (hWithin.2.2 _ _).kind_of_isBulk hNext with
          hRead | hPage
        · exact absurd hRead hWithin.1
        · exact absurd hPage hWithin.2.1
    | bulkOut packet next =>
        exact hBulk (by rw [hCourse]; rfl)
    | bulkIn length next =>
        exact hBulk (by rw [hCourse]; rfl)

end Host

------------------------------------------------------------
-- The Host's Turn
------------------------------------------------------------

/- No call begins with a bulk transfer. -/
theorem course_isBulk
    (c : HostCall) :
    c.course.isBulk = false := by
  cases c with
  | init hasPdi ioFrequency info status => rfl
  | close => rfl
  | chipErase ret => rfl
  | readByte m addr value =>
      simp only [HostCall.course, readByteCourse]
      split
      · rfl
      · rfl
  | pagedLoad m baseaddr nBytes => rfl
  | pagedWrite m addr nBytes =>
      simp only [HostCall.course]
      split
      · rfl
      · rfl
  | writeByte m behind addr value =>
      simp only [HostCall.course]
      split
      · rfl
      · rfl

section Turn

variable {c : Cable}

theorem act_orderly
    (hOrderly : c.Orderly)
    (a : HostAct) :
    (c.act a).Orderly := by
  cases a with
  | call call =>
      simp only [Cable.act]
      cases hHost : c.host with
      | some h => exact hOrderly
      | none =>
          refine
            goOn_orderly hOrderly.banks
              (course_within call _ _)
              (fun _ => ownBytes_nil) ?_
          intro hBulk
          rw [course_isBulk] at hBulk
          cases hBulk
  | advance =>
      simp only [Cable.act]
      cases hHost : c.host with
      | none => exact hOrderly
      | some h => exact advance_orderly hOrderly hHost
  | giveUp =>
      simp only [Cable.act]
      cases hHost : c.host with
      | none => exact hOrderly
      | some h => exact giveUp_orderly hOrderly hHost
  | kill =>
      refine ⟨⟨hOrderly.banks.waiting,
        hOrderly.banks.serving, hOrderly.banks.control,
        hOrderly.banks.bulkIn, hOrderly.banks.bulkOut,
        hOrderly.banks.returned⟩, ?_⟩
      intro h hMem
      cases hMem

theorem turn_orderly
    (hOrderly : c.Orderly)
    (acts : List HostAct) :
    (c.turn acts).Orderly := by
  induction acts generalizing c with
  | nil => exact hOrderly
  | cons a acts ih => exact ih (act_orderly hOrderly a)

/- The host does not touch what the firmware is at. -/
structure Cable.Kept (c c' : Cable) : Prop where
  serving : c'.serving = c.serving
  clean : c'.clean = c.clean
  taken : c'.taken = c.taken

theorem Cable.Kept.refl (c : Cable) : c.Kept c :=
  ⟨rfl, rfl, rfl⟩

theorem Cable.Kept.trans
    {c' c'' : Cable}
    (hFirst : c.Kept c')
    (hSecond : c'.Kept c'') :
    c.Kept c'' :=
  ⟨hSecond.serving.trans hFirst.serving,
    hSecond.clean.trans hFirst.clean,
    hSecond.taken.trans hFirst.taken⟩

theorem goOn_kept
    (c : Cable)
    (h : Running)
    (course : Course) :
    c.Kept (c.goOn h course) := by
  cases course with
  | done code => exact ⟨rfl, rfl, rfl⟩
  | controlOut r data next => exact ⟨rfl, rfl, rfl⟩
  | controlIn r next => exact ⟨rfl, rfl, rfl⟩
  | bulkOut packet next => exact ⟨rfl, rfl, rfl⟩
  | bulkIn length next => exact ⟨rfl, rfl, rfl⟩

theorem advance_kept
    (c : Cable)
    (h : Running) :
    c.Kept (c.advance h) := by
  have hGoes :
      ∀ c' h' course,
        c.Kept c' → c.Kept (c'.goOn h' course) :=
    fun c' h' course hKept =>
      hKept.trans (goOn_kept c' h' course)
  rw [Cable.advance]
  split
  · exact Cable.Kept.refl c
  · rw [Cable.advanceOut]
    split
    · exact Cable.Kept.refl c
    · split
      · exact ⟨rfl, rfl, rfl⟩
      · split
        · exact hGoes _ _ _ ⟨rfl, rfl, rfl⟩
        · exact Cable.Kept.refl c
  · rw [Cable.advanceIn]
    split
    · exact Cable.Kept.refl c
    · split
      · exact Cable.Kept.refl c
      · exact hGoes _ _ _ ⟨rfl, rfl, rfl⟩
  · rw [Cable.advanceBulkOut]
    split
    · exact Cable.Kept.refl c
    · exact hGoes _ _ _ ⟨rfl, rfl, rfl⟩
  · rw [Cable.advanceBulkIn]
    split
    · exact Cable.Kept.refl c
    · exact hGoes _ _ _ ⟨rfl, rfl, rfl⟩

theorem act_kept
    (c : Cable)
    (a : HostAct) :
    c.Kept (c.act a) := by
  cases a with
  | call call =>
      simp only [Cable.act]
      split
      · exact Cable.Kept.refl c
      · exact goOn_kept _ _ _
  | advance =>
      simp only [Cable.act]
      split
      · exact Cable.Kept.refl c
      · exact advance_kept _ _
  | giveUp =>
      simp only [Cable.act]
      split
      · exact Cable.Kept.refl c
      · exact goOn_kept _ _ _
  | kill => exact ⟨rfl, rfl, rfl⟩

theorem turn_kept
    (c : Cable)
    (acts : List HostAct) :
    c.Kept (c.turn acts) := by
  induction acts generalizing c with
  | nil => exact Cable.Kept.refl c
  | cons a acts ih => exact (act_kept c a).trans (ih _)

/-
  While a SETUP packet waits the OUT endpoint is left alone,
  and a SETUP packet goes on waiting.
-/
structure Cable.Waits (c c' : Cable) : Prop where
  setup : c.setup.isSome = true → c'.setup.isSome = true
  bankOut : c'.bankOut = c.bankOut

theorem goOn_waits
    (c : Cable)
    (h : Running)
    (course : Course) :
    c.Waits (c.goOn h course) := by
  cases course with
  | done code => exact ⟨id, rfl⟩
  | controlOut r data next => exact ⟨fun _ => rfl, rfl⟩
  | controlIn r next => exact ⟨fun _ => rfl, rfl⟩
  | bulkOut packet next => exact ⟨id, rfl⟩
  | bulkIn length next => exact ⟨id, rfl⟩

theorem act_waits
    (hOrderly : c.Orderly)
    (hSetup : c.setup.isSome = true)
    (a : HostAct) :
    c.Waits (c.act a) := by
  have hRefl : c.Waits c := ⟨id, rfl⟩
  cases a with
  | call call =>
      simp only [Cable.act]
      split
      · exact hRefl
      · exact goOn_waits _ _ _
  | advance =>
      simp only [Cable.act]
      split
      · exact hRefl
      · rename_i h hHost
        have hSound := hOrderly.host h hHost
        have hControl := hSound.control hSetup
        rw [Cable.advance]
        split
        · exact hRefl
        · rw [Cable.advanceOut, if_pos hSetup]
          exact hRefl
        · rw [Cable.advanceIn]
          split
          · exact hRefl
          · rw [if_pos hSetup]
            exact hRefl
        · rename_i packet next hCourse
          rw [hCourse] at hControl
          cases hControl
        · rename_i length next hCourse
          rw [hCourse] at hControl
          cases hControl
  | giveUp =>
      simp only [Cable.act]
      split
      · exact hRefl
      · exact goOn_waits _ _ _
  | kill => exact ⟨id, rfl⟩

theorem turn_waits
    (hOrderly : c.Orderly)
    (hSetup : c.setup.isSome = true)
    (acts : List HostAct) :
    c.Waits (c.turn acts) := by
  induction acts generalizing c with
  | nil => exact ⟨id, rfl⟩
  | cons a acts ih =>
      have hFirst := act_waits hOrderly hSetup a
      have hRest :=
        ih (act_orderly hOrderly a) (hFirst.setup hSetup)
      exact
        ⟨fun h => hRest.setup (hFirst.setup h),
          hRest.bankOut.trans hFirst.bankOut⟩

end Turn

------------------------------------------------------------
-- The Firmware's Looks
------------------------------------------------------------

section Looks

variable {c : Cable} (schedule : Schedule)

theorem look_orderly
    (hOrderly : c.Orderly) :
    (c.look schedule).Orderly := by
  refine turn_orderly ?_ _
  exact
    ⟨⟨hOrderly.banks.waiting, hOrderly.banks.serving,
      hOrderly.banks.control, hOrderly.banks.bulkIn,
      hOrderly.banks.bulkOut, hOrderly.banks.returned⟩,
      fun h hMem =>
        (hOrderly.host h hMem).congr rfl rfl rfl rfl⟩

theorem look_kept
    (c : Cable) :
    c.Kept (c.look schedule) := by
  have hCounted : c.Kept { c with now := c.now + 1 } :=
    ⟨rfl, rfl, rfl⟩
  exact hCounted.trans (turn_kept _ _)

theorem freeFor_control
    {r : Request}
    (hFree : c.freeFor r = true)
    (hRead : r.kind ≠ some .pdiNvmRead)
    (hPage : r.kind ≠ some .pdiNvmWritePage) :
    c.controlBank = none := by
  rw [Cable.freeFor] at hFree
  split at hFree
  · rename_i hKind
    exact absurd hKind hRead
  · rename_i hKind
    exact absurd hKind hPage
  · exact Option.isNone_iff_eq_none.mp hFree

theorem freeFor_bulkIn
    {r : Request}
    (hFree : c.freeFor r = true)
    (hRead : r.kind = some .pdiNvmRead) :
    c.bankIn = none := by
  rw [Cable.freeFor, hRead] at hFree
  exact Option.isNone_iff_eq_none.mp hFree

theorem freeFor_bulkOut
    {r : Request}
    (hFree : c.freeFor r = true)
    (hPage : r.kind = some .pdiNvmWritePage) :
    c.bankOut = none := by
  rw [Cable.freeFor, hPage] at hFree
  exact Option.isNone_iff_eq_none.mp hFree

theorem serve_orderly
    (hOrderly : c.Orderly)
    {s : Setup}
    (hSetup : c.setup = some s) :
    (c.serve s).Orderly := by
  refine ⟨⟨hOrderly.banks.waiting,
    hOrderly.banks.waiting s hSetup, ?_, ?_, ?_,
    hOrderly.banks.returned⟩, ?_⟩
  · intro hClean hRead hPage packet hMem
    have hNone := freeFor_control hClean hRead hPage
    rw [show c.controlBank = some packet from hMem] at hNone
    cases hNone
  · intro hClean hRead packet hMem
    have hNone := freeFor_bulkIn hClean hRead
    rw [show c.bankIn = some packet from hMem] at hNone
    cases hNone
  · intro hClean hPage packet hMem
    have hNone := freeFor_bulkOut hClean hPage
    rw [show c.bankOut = some packet from hMem] at hNone
    cases hNone
  · intro h hMem
    have hSound := hOrderly.host h hMem
    refine ⟨hSound.last, hSound.asks, hSound.page,
      hSound.within, hSound.bulk, hSound.begins, ?_⟩
    intro hNone
    rw [show c.setup = none from hNone] at hSetup
    cases hSetup

/- A SETUP packet that is taken. -/
theorem take_orderly
    (hOrderly : c.Orderly)
    {s : Setup}
    (hSetup : c.setup = some s)
    (late : List HostAct) :
    (c.take late s).Orderly := by
  have hServe := serve_orderly hOrderly hSetup
  have hLate := turn_orderly hServe late
  have hKept := turn_kept (c.serve s) late
  have hIsSome : (c.serve s).setup.isSome = true :=
    Option.isSome_iff_exists.mpr ⟨s, hSetup⟩
  have hWaits := turn_waits hServe hIsSome late
  have hStill := hWaits.setup hIsSome
  have hCleans :
      ∀ {clean last : Bool},
        (clean && last) = true → clean = true ∧ last = true :=
    fun hBoth => (Bool.and_eq_true _ _).mp hBoth
  refine ⟨⟨?_, hLate.banks.serving, ?_, ?_, ?_,
    hLate.banks.returned⟩, ?_⟩
  · intro s' hMem
    cases hMem
  · intro hClean
    exact hLate.banks.control (hCleans hClean).1
  · intro hClean
    exact hLate.banks.bulkIn (hCleans hClean).1
  · intro hClean
    exact hLate.banks.bulkOut (hCleans hClean).1
  · intro h hMem
    have hSound := hLate.host h hMem
    have hControl := hSound.control hStill
    refine ⟨?_, hSound.asks, hSound.page, hSound.within,
      fun _ => rfl, hSound.begins, fun _ => ⟨?_, ?_, ?_⟩⟩
    · intro s' hLast
      cases hLast
    · intro hClean
      have hLast := of_decide_eq_true (hCleans hClean).2
      exact (hSound.last s hLast).trans hKept.serving.symm
    · intro hClean
      exact hSound.own (hCleans hClean).1
    · intro hClean hPage
      have hServing : ((c.serve s).turn late).serving = s :=
        hKept.serving
      have hKind : s.request.kind = some .pdiNvmWritePage := by
        rw [← hServing]
        exact hPage
      have hFree : c.bankOut = none :=
        freeFor_bulkOut
          (hKept.clean.symm.trans (hCleans hClean).1) hKind
      have hBank : ((c.serve s).turn late).bankOut = none :=
        hWaits.bankOut.trans hFree
      have hTaken : ((c.serve s).turn late).taken = 0 :=
        hKept.taken
      show
        h.sent =
          ((c.serve s).turn late).taken +
            (((c.serve s).turn late).bankOut.getD []).length
      rw [(hSound.begins hControl).1, hTaken, hBank]
      rfl

theorem take_serving
    (c : Cable)
    (late : List HostAct)
    (s : Setup) :
    (c.take late s).serving = s :=
  (turn_kept (c.serve s) late).serving

theorem take_taken
    (c : Cable)
    (late : List HostAct)
    (s : Setup) :
    (c.take late s).taken = 0 :=
  (turn_kept (c.serve s) late).taken

/- A packet handed over on the control endpoint. -/
theorem handOver_orderly
    (hOrderly : c.Orderly)
    (collision : Collision)
    (packet : List UInt8) :
    (c.handOver collision packet).Orderly := by
  refine ⟨⟨hOrderly.banks.waiting, hOrderly.banks.serving, ?_,
    hOrderly.banks.bulkIn, hOrderly.banks.bulkOut,
    hOrderly.banks.returned⟩,
    fun h hMem => (hOrderly.host h hMem).congr rfl rfl rfl rfl⟩
  intro hClean hRead hPage new hNew
  rw [Cable.handOver] at hNew
  simp only at hNew
  split at hNew
  · rw [← Option.some.inj hNew]
    exact stamp_own c packet
  · exact
      collision_own collision (stamp_own c packet)
        (hOrderly.banks.control hClean hRead hPage) new hNew

/- One handed over on the IN endpoint. -/
theorem queue_orderly
    (hOrderly : c.Orderly)
    (collision : Collision)
    (packet : List UInt8) :
    (c.queue collision packet).Orderly := by
  refine ⟨⟨hOrderly.banks.waiting, hOrderly.banks.serving,
    hOrderly.banks.control, ?_, hOrderly.banks.bulkOut,
    hOrderly.banks.returned⟩,
    fun h hMem => (hOrderly.host h hMem).congr rfl rfl rfl rfl⟩
  intro hClean hRead new hNew
  rw [Cable.queue] at hNew
  simp only at hNew
  split at hNew
  · rw [← Option.some.inj hNew]
    exact stamp_own c packet
  · exact
      collision_own collision (stamp_own c packet)
        (hOrderly.banks.bulkIn hClean hRead) new hNew

/- The data stage is taken. -/
theorem dataTaken_orderly
    (hOrderly : c.Orderly) :
    Cable.Orderly { c with dataBank := none } :=
  ⟨⟨hOrderly.banks.waiting, hOrderly.banks.serving,
    hOrderly.banks.control, hOrderly.banks.bulkIn,
    hOrderly.banks.bulkOut, hOrderly.banks.returned⟩,
    fun h hMem => (hOrderly.host h hMem).congr rfl rfl rfl rfl⟩

/- So is the packet of the OUT endpoint. -/
theorem pageTaken_orderly
    (hOrderly : c.Orderly) :
    Cable.Orderly
      { c with
        bankOut := none
        taken := c.taken + (c.bankOut.getD []).length } :=
  ⟨⟨hOrderly.banks.waiting, hOrderly.banks.serving,
    hOrderly.banks.control, hOrderly.banks.bulkIn,
    fun _ _ packet hMem =>
      absurd hMem (Option.not_mem_none packet),
    hOrderly.banks.returned⟩,
    fun h hMem => (hOrderly.host h hMem).congr rfl rfl rfl rfl⟩

end Looks

end Lucax
