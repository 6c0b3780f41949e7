import Lucax.Cable.Courses

/-
  Driver and firmware as two parties on one cable, each of
  which goes on by itself.

  The driver makes its calls one after the other and may give
  up any of them.  Nothing empties the banks of the endpoints
  but the packets being taken, and a SETUP packet the bank of
  the control endpoint.

  Key definitions include:
    * `Setup`, `Running`, `Returned`, `Cable`
    * `Cable.goOn`, `Cable.advance`, `Cable.act`
    * `Schedule`, `Cable.take`, `cableLink`
-/

------------------------------------------------------------
-- State
------------------------------------------------------------

namespace Lucax

/-
  A packet of the firmware; every byte comes with the number
  of the SETUP packet that was being served.
-/
abbrev Stamped := List (Nat × UInt8)

/-
  A SETUP packet with its number and, beside the request, the
  bytes its call has for the OUT endpoint.
-/
structure Setup where
  number : Nat
  request : Request
  page : List UInt8
deriving DecidableEq, Repr

/- Before the first one. -/
def Setup.blank : Setup := ⟨0, ⟨0, 0, 0, 0, 0⟩, []⟩

/-
  A call under way: how it goes on, the SETUP packet it sent
  last, whether it has sent the data stage, and what it has
  sent and got on the bulk endpoints since.
-/
structure Running where
  call : HostCall
  course : Course
  asked : Setup
  accepted : Bool
  sent : Nat
  got : Stamped

/-
  A call that has returned.  `fresh` is whether the firmware
  was serving its SETUP packet and had taken it cleanly.
-/
structure Returned where
  call : HostCall
  code : Int
  asked : Setup
  got : Stamped
  fresh : Bool

/-
  Both ends of the cable: the SETUP packet that waits, the one
  being served and the banks of the three endpoints.  The OUT
  bank of the control endpoint is `dataBank`; `answered` is
  whether the host has taken an answer since the last SETUP.

  The rest counts and records: the looks of the firmware, the
  SETUP packets sent, whether the last was taken cleanly, the
  bytes of the OUT endpoint taken since, the calls returned.
-/
structure Cable where
  now : Nat
  issued : Nat
  host : Option Running
  setup : Option Setup
  serving : Setup
  clean : Bool
  dataBank : Option (List UInt8)
  controlBank : Option Stamped
  answered : Bool
  bankIn : Option Stamped
  bankOut : Option (List UInt8)
  taken : Nat
  returned : List Returned

/- The cable has been plugged in. -/
def Cable.plugged : Cable where
  now := 0
  issued := 0
  host := none
  setup := none
  serving := Setup.blank
  clean := false
  dataBank := none
  controlBank := none
  answered := false
  bankIn := none
  bankOut := none
  taken := 0
  returned := []

------------------------------------------------------------
-- The Host
------------------------------------------------------------

/- How a course goes on when its transfer is given up. -/
def Course.givenUp : Course → Course
| .done code => .done code
| .controlOut _ _ next => next timedOut
| .controlIn _ next => next timedOut []
| .bulkOut _ next => next timedOut 0
| .bulkIn _ next => next timedOut []

/- What the host does next. -/
inductive HostAct where
| call (c : HostCall)
| advance
| giveUp
| kill

namespace Cable

/-
  The SETUP packet of a control transfer.  It is taken at any
  time and overwrites the bank of the control endpoint.
-/
def ask
    (c : Cable)
    (h : Running)
    (r : Request)
    (course : Course) : Cable :=
  let s : Setup := ⟨c.issued + 1, r, h.call.page⟩
  { c with
    issued := c.issued + 1
    setup := some s
    dataBank := none
    controlBank := none
    host := some ⟨h.call, course, s, false, 0, []⟩ }

/- The call returns. -/
def finish
    (c : Cable)
    (h : Running)
    (code : Int) : Cable :=
  { c with
    host := none
    returned :=
      c.returned ++
        [⟨h.call, code, h.asked, h.got,
          decide (c.serving = h.asked) && c.clean⟩] }

/- The call goes on with `course`. -/
def goOn
    (c : Cable)
    (h : Running) :
    Course → Cable
| .done code => c.finish h code
| .controlOut r data next =>
    c.ask h r (.controlOut r data next)
| .controlIn r next => c.ask h r (.controlIn r next)
| .bulkOut packet next =>
    { c with
      host := some { h with course := .bulkOut packet next } }
| .bulkIn length next =>
    { c with
      host := some { h with course := .bulkIn length next } }

/-
  The data stage of a control transfer, and after it the
  status stage.  While a SETUP packet waits neither gets
  through.
-/
def advanceOut
    (c : Cable)
    (h : Running)
    (data : List UInt8)
    (next : Int → Course) : Cable :=
  if c.setup.isSome then c
  else if h.accepted = false ∧ data ≠ [] then
    { c with
      dataBank := some data
      host := some { h with accepted := true } }
  else
    match c.controlBank with
    | some [] =>
        { c with controlBank := none }.goOn h
          (next data.length)
    | _ => c

/- A packet too long for its transfer fails it. -/
def received
    (length : Nat)
    (packet : Stamped)
    (code : Int) : Int × List UInt8 :=
  (if packet.length ≤ length then code else overflowed,
    (packet.map Prod.snd).take length)

/- The answer of a control transfer. -/
def advanceIn
    (c : Cable)
    (h : Running)
    (r : Request)
    (next : Int → List UInt8 → Course) : Cable :=
  match c.controlBank with
  | none => c
  | some packet =>
      if c.setup.isSome then c
      else
        let out :=
          received r.wLength.toNat packet packet.length
        { c with controlBank := none, answered := true }.goOn
          { h with got := packet.take r.wLength.toNat }
          (next out.1 out.2)

/- A packet for the OUT endpoint. -/
def advanceBulkOut
    (c : Cable)
    (h : Running)
    (packet : List UInt8)
    (next : Int → Nat → Course) : Cable :=
  if c.bankOut.isSome then c
  else
    { c with bankOut := some packet }.goOn
      { h with sent := h.sent + packet.length }
      (next 0 packet.length)

/- One from the IN endpoint. -/
def advanceBulkIn
    (c : Cable)
    (h : Running)
    (length : Nat)
    (next : Int → List UInt8 → Course) : Cable :=
  match c.bankIn with
  | none => c
  | some packet =>
      let out := received length packet 0
      { c with bankIn := none }.goOn
        { h with got := h.got ++ packet.take length }
        (next out.1 out.2)

/- The transfer the call waits for, if it can be made. -/
def advance
    (c : Cable)
    (h : Running) : Cable :=
  match h.course with
  | .done _ => c
  | .controlOut _ data next => c.advanceOut h data next
  | .controlIn r next => c.advanceIn h r next
  | .bulkOut packet next => c.advanceBulkOut h packet next
  | .bulkIn length next => c.advanceBulkIn h length next

/-
  A call is made when the one before has returned or its
  process is gone.
-/
def act
    (c : Cable) :
    HostAct → Cable
| .call call =>
    match c.host with
    | some _ => c
    | none =>
        c.goOn
          ⟨call, call.course, Setup.blank, false, 0, []⟩
          call.course
| .advance =>
    match c.host with
    | none => c
    | some h => c.advance h
| .giveUp =>
    match c.host with
    | none => c
    | some h => c.goOn h h.course.givenUp
| .kill => { c with host := none }

def turn
    (c : Cable)
    (acts : List HostAct) : Cable :=
  acts.foldl act c

end Cable

------------------------------------------------------------
-- The Firmware's End
------------------------------------------------------------

/- What becomes of a packet written into a bank not free. -/
inductive Collision where
| lost
| replaced
| joined

def Collision.bank
    (packet : Stamped) :
    Collision → Option Stamped → Option Stamped
| .lost, bank => bank
| .replaced, _ => some packet
| .joined, bank => some (bank.getD [] ++ packet)

/-
  An interleaving: what the host does before the firmware
  looks at the cable, what it does between a SETUP packet
  being taken and `Endpoint_ClearSETUP`, and what a bank that
  is not free makes of a packet.
-/
structure Schedule where
  acts : Nat → List HostAct
  late : Nat → List HostAct
  collides : Nat → Collision

namespace Cable

/-
  The bank is free that the data of the request goes through:
  the bank of a bulk endpoint or of the control endpoint.
-/
def freeFor
    (c : Cable)
    (r : Request) : Bool :=
  match r.kind with
  | some .pdiNvmRead => c.bankIn.isNone
  | some .pdiNvmWritePage => c.bankOut.isNone
  | _ => c.controlBank.isNone

/- The request is being served but not yet acknowledged. -/
def serve
    (c : Cable)
    (s : Setup) : Cable :=
  { c with
    serving := s
    clean := c.freeFor s.request
    answered := false
    taken := 0 }

/-
  A SETUP packet is taken.  Another that comes before
  `Endpoint_ClearSETUP` is cleared with it, unseen.
-/
def take
    (c : Cable)
    (late : List HostAct)
    (s : Setup) : Cable :=
  let served := (c.serve s).turn late
  { served with
    clean := served.clean && decide (served.setup = some s)
    setup := none }

def stamp
    (c : Cable)
    (packet : List UInt8) : Stamped :=
  packet.map fun b => (c.serving.number, b)

/- A packet handed over on the control endpoint. -/
def handOver
    (c : Cable)
    (collision : Collision)
    (packet : List UInt8) : Cable :=
  { c with
    controlBank :=
      if c.setup.isNone ∧ c.controlBank.isNone then
        some (c.stamp packet)
      else collision.bank (c.stamp packet) c.controlBank }

/- A packet handed over on the IN endpoint. -/
def queue
    (c : Cable)
    (collision : Collision)
    (packet : List UInt8) : Cable :=
  { c with
    bankIn :=
      if c.bankIn.isNone then some (c.stamp packet)
      else collision.bank (c.stamp packet) c.bankIn }

/- The host has had its turn when the firmware looks. -/
def look
    (schedule : Schedule)
    (c : Cable) : Cable :=
  { c with now := c.now + 1 }.turn (schedule.acts c.now)

end Cable

/-
  A status stage towards the host ends with an OUT packet, one
  from the host when the bank is free for it.
-/
def cableLink (schedule : Schedule) : Link Cable where
  setup c :=
    let c := c.look schedule
    match c.setup with
    | none => (none, c)
    | some s => (some s.request, c.take (schedule.late c.now) s)
  controlOut c :=
    let c := c.look schedule
    (c.dataBank, { c with dataBank := none })
  controlReady c :=
    let c := c.look schedule
    if c.serving.request.toHost then
      (c.answered || c.dataBank.isSome || c.setup.isSome, c)
    else (c.controlBank.isNone, c)
  controlWait c :=
    let c := c.look schedule
    if c.serving.request.toHost then
      (c.answered || c.dataBank.isSome,
        { c with dataBank := none })
    else
      (c.controlBank.isNone,
        c.handOver (schedule.collides c.now) [])
  outTurn c :=
    let c := c.look schedule
    if c.setup.isSome then (.stop, c)
    else
      match c.dataBank with
      | none => (.never, c)
      | some bytes => (.packet bytes, { c with dataBank := none })
  inTurn c :=
    let c := c.look schedule
    if c.setup.isSome then (.stop, c)
    else if c.dataBank.isSome then (.out, c)
    else if c.controlBank.isNone then (.ready, c)
    else (.never, c)
  controlIn c packet :=
    let c := c.look schedule
    c.handOver (schedule.collides c.now) packet
  bulkOut c :=
    let c := c.look schedule
    (c.bankOut,
      { c with
        bankOut := none
        taken := c.taken + (c.bankOut.getD []).length })
  bulkInReady c :=
    let c := c.look schedule
    (c.bankIn.isNone, c)
  bulkIn c packet :=
    let c := c.look schedule
    c.queue (schedule.collides c.now) packet

end Lucax
