import Lucax.Common.Pages
import Lucax.Firmware.Handlers

/-
  What a bulk stream moves while no request that acts on the
  chip comes in between.

  Key definitions include:
    * `Fw.storeBytes`, `Fw.storeChunks`
    * `UsbTurn`, `usbTurn`, `Turns`
    * `ChunkEnd`, `arriving`
    * `PageEnd`, `pageArriving`, `pageEnd`

  Main declarations:
    * `storeBytes_ram`, `Ptr.bytes_buffer`
    * `usbTask_turns`
    * `rwStream_write`, `rwStream_arriving`
    * `receiveChunks_arriving`
    * `lucaxPdiNvmWritePage_arriving`
-/

------------------------------------------------------------
-- Stores into the Buffer
------------------------------------------------------------

namespace Lucax

variable {τ η : Type}

/- `buffer[i] = ..; buffer[i + 1] = ..; ..` -/
def Fw.storeBytes
    (s : Fw τ) :
    Nat → List UInt8 → Fw τ
| _, [] => s
| i, b :: bytes => (s.storeByte i b).storeBytes (i + 1) bytes

section StoreBytes

variable (s : Fw τ) (i : Nat) (bytes : List UInt8)

@[simp] theorem storeBytes_pdiOn :
    (s.storeBytes i bytes).pdiOn = s.pdiOn := by
  induction bytes generalizing s i with
  | nil => rfl
  | cons b bytes ih =>
      rw [Fw.storeBytes, ih, storeByte_pdiOn]

@[simp] theorem storeBytes_target :
    (s.storeBytes i bytes).target = s.target := by
  induction bytes generalizing s i with
  | nil => rfl
  | cons b bytes ih =>
      rw [Fw.storeBytes, ih, storeByte_target]

theorem storeBytes_ram :
    (s.storeBytes i bytes).ram = Pages.put i bytes s.ram := by
  induction bytes generalizing s i with
  | nil =>
      rw [Pages.put_nil]
      rfl
  | cons b bytes ih =>
      rw [Fw.storeBytes, ih, Pages.put_cons]
      rfl

theorem storeBytes_append
    (front : List UInt8) :
    s.storeBytes i (front ++ bytes) =
      (s.storeBytes i front).storeBytes
        (i + front.length) bytes := by
  induction front generalizing s i with
  | nil => rfl
  | cons b front ih =>
      rw [List.cons_append, Fw.storeBytes, ih, Fw.storeBytes,
        List.length_cons, Nat.add_right_comm, Nat.add_assoc]

end StoreBytes

/- A pointer into the buffer reaches what stands there. -/
theorem Ptr.bytes_buffer
    (ram : Nat → UInt8)
    (i n : Nat) :
    (Ptr.buffer i).bytes ram n = Pages.read i n ram := by
  induction n generalizing i with
  | zero => rfl
  | succ n ih => rw [Ptr.bytes, ih, Pages.read_succ]

------------------------------------------------------------
-- Streams
------------------------------------------------------------

section Streams

variable (link : Link η) (task : World τ η → World τ η)

/- A stream that fits in the IN bank is written there. -/
theorem rwStream_write
    (fuel data length : Nat)
    (w : World τ η)
    (hFuel : length ≤ fuel)
    (hRoom : w.inBank.length + length ≤ vendorIoEpsize) :
    rwStream (writeDirection link) task fuel data length w =
      { w.withFw
          (w.fw.touch ((Ptr.buffer data).indices length)) with
        inBank :=
          w.inBank ++
            (Ptr.buffer data).bytes w.fw.ram length } := by
  induction length generalizing fuel data w with
  | zero =>
      rw [rwStream, Ptr.indices, Ptr.bytes, touch_nil,
        List.append_nil]
      rfl
  | succ length ih =>
      cases fuel with
      | zero => exact absurd hFuel (Nat.not_succ_le_zero _)
      | succ fuel =>
          have hAllowed :
              (writeDirection link).allowed w = true := by
            simp only [writeDirection, decide_eq_true_eq]
            omega
          rw [rwStream]
          simp only [hAllowed, if_true]
          rw [ih fuel (data + 1) _ (by omega)]
          · simp [writeDirection, World.withFw, Fw.loadByte,
              Ptr.bytes, Ptr.indices]
          · simp only [writeDirection, List.length_append,
              List.length_singleton]
            omega

end Streams

------------------------------------------------------------
-- Requests Taken inside a Stream
------------------------------------------------------------

/-
  A turn of the main loop from inside a stream: it takes a
  request that works on the chip, the buffer or the OUT
  endpoint, it does not end, or it leaves these alone.
-/
inductive UsbTurn (η : Type) where
| acts
| endless
| quiet (taken : List Request) (host : η)

/- A request answered with one packet. -/
def answered
    (link : Link η)
    (r : Request)
    (packet : List UInt8)
    (host : η) : UsbTurn η :=
  match link.controlWait (link.controlIn host packet) with
  | (true, host) => .quiet [r] host
  | (false, _) => .endless

/- The turn while `last_op` is `last`. -/
def usbTurn
    (link : Link η)
    (last : PdiResult)
    (host : η) : UsbTurn η :=
  match link.setup host with
  | (none, host) => .quiet [] host
  | (some r, host) =>
      match r.kind with
      | none => .quiet [r] host
      | some .getDescriptor => answered link r [0x01] host
      | some .reportError =>
          answered link r [last.toByte] host
      | some _ => .acts

/- The device after it has taken `requests`. -/
def World.takes
    (w : World τ η)
    (requests : List Request) : World τ η :=
  { w with
    request := requests.getLastD w.request
    handled := w.handled ++ requests }

@[simp] theorem takes_nil
    (w : World τ η) :
    w.takes [] = w := by
  rw [World.takes, List.append_nil]
  rfl

theorem takes_append
    (w : World τ η)
    (front rest : List Request) :
    w.takes (front ++ rest) = (w.takes front).takes rest := by
  cases rest with
  | nil => rw [List.append_nil, takes_nil]
  | cons r rest =>
      have hLast :
          (front ++ r :: rest).getLastD w.request =
            (r :: rest).getLastD
              (front.getLastD w.request) := by
        simp [List.getLastD_eq_getLast?]
      simp only [World.takes, hLast, List.append_assoc]

/- From `w` a wait without end was entered, nothing done. -/
def World.Stuck (w w' : World τ η) : Prop :=
  w'.hung = true ∧
    w'.calls = w.calls ∧ w'.fw.target = w.fw.target

/- `task` makes these turns. -/
def Turns
    (link : Link η)
    (last : PdiResult)
    (task : World τ η → World τ η) : Prop :=
  ∀ w : World τ η,
    w.lastOp = last →
      w.hung = false →
        match usbTurn link last w.link with
        | .acts => True
        | .endless => w.Stuck (task w)
        | .quiet taken host =>
            task w = (w.withLink host).takes taken

theorem clearStatusStage_answered
    (link : Link η)
    (r : Request)
    (packet : List UInt8)
    (host : η)
    (w : World τ η) :
    match answered link r packet host with
    | .acts => True
    | .endless =>
        w.Stuck
          (endpointClearStatusStage link
            (clearControlIn link packet
              ((w.withLink host).take r)))
    | .quiet taken host' =>
        endpointClearStatusStage link
            (clearControlIn link packet
              ((w.withLink host).take r)) =
          (w.withLink host').takes taken := by
  have hHere :
      (clearControlIn link packet
        ((w.withLink host).take r)).link =
          link.controlIn host packet := rfl
  rw [answered, endpointClearStatusStage, World.await, hHere]
  cases link.controlWait (link.controlIn host packet) with
  | mk ends host' =>
      cases ends with
      | false => exact ⟨rfl, rfl, rfl⟩
      | true => rfl

theorem usbTask_turns
    (line : Line τ)
    (link : Link η)
    (last : PdiResult)
    (fuel depth : Nat) :
    Turns link last (usbTask line link fuel (depth + 1)) := by
  intro w hLast hHung
  rw [usbTurn]
  rcases hSetup : link.setup w.link with ⟨request, host⟩
  cases request with
  | none =>
      simp only
      rw [usbTask_none line link fuel depth w host hSetup,
        takes_nil]
  | some r =>
      have hTask := usbTask_setup line link fuel depth hSetup
      rw [eventUsbDeviceControlRequest] at hTask
      have hKind :
          ((w.withLink host).take r).request.kind = r.kind := rfl
      rw [hKind] at hTask
      simp only
      cases hTaken : r.kind with
      | none =>
          rw [hTaken] at hTask
          exact hTask
      | some kind =>
          rw [hTaken] at hTask
          cases kind with
          | getDescriptor =>
              rw [hTask]
              exact
                clearStatusStage_answered link r [0x01] host w
          | reportError =>
              subst hLast
              rw [hTask]
              exact
                clearStatusStage_answered link r
                  [w.lastOp.toByte] host w
          | _ => trivial

------------------------------------------------------------
-- Pages Taken in by the Firmware
------------------------------------------------------------

/-
  How the stream of one chunk ends: as a turn inside it, or
  it stores `bytes` and the handler clears `rest` with the
  last packet.
-/
inductive ChunkEnd (η : Type) where
| acts
| endless
| ended
    (bytes rest : List UInt8)
    (taken : List Request)
    (host : η)

def ChunkEnd.cons
    (b : UInt8) :
    ChunkEnd η → ChunkEnd η
| .acts => .acts
| .endless => .endless
| .ended bytes rest taken host =>
    .ended (b :: bytes) rest taken host

def ChunkEnd.after
    (first : List Request) :
    ChunkEnd η → ChunkEnd η
| .acts => .acts
| .endless => .endless
| .ended bytes rest taken host =>
    .ended bytes rest (first ++ taken) host

/-
  How the receive loop ends: in a chunk that does not end, at
  a packet that does not arrive in time, or with all chunks.
  A chunk comes with what was cleared behind it.
-/
inductive PageEnd (η : Type) where
| acts
| endless
| givenUp
    (chunks : List (List UInt8 × List UInt8))
    (taken : List Request)
    (host : η)
| complete
    (chunks : List (List UInt8 × List UInt8))
    (taken : List Request)
    (host : η)

def PageEnd.cons
    (chunk : List UInt8 × List UInt8)
    (first : List Request) :
    PageEnd η → PageEnd η
| .acts => .acts
| .endless => .endless
| .givenUp chunks taken host =>
    .givenUp (chunk :: chunks) (first ++ taken) host
| .complete chunks taken host =>
    .complete (chunk :: chunks) (first ++ taken) host

section Arriving

variable (link : Link η) (last : PdiResult)

/-
  What a stream of `length` bytes gets from the host when
  `bank` is in the OUT bank.
-/
def arriving :
    Nat → Nat → List UInt8 → η → ChunkEnd η
| _, 0, bank, host => .ended [] bank [] host
| 0, _ + 1, _, _ => .endless
| fuel + 1, length + 1, b :: bank, host =>
    (arriving fuel length bank host).cons b
| fuel + 1, length + 1, [], host =>
    match usbTurn link last host with
    | .acts => .acts
    | .endless => .endless
    | .quiet taken host =>
        match link.bulkOut host with
        | (none, host) => .ended [] [] taken host
        | (some packet, host) =>
            (arriving fuel (length + 1) packet host).after taken

/- What a receive loop of `count` bytes gets. -/
def pageArriving
    (fuel : Nat) :
    Nat → Nat → η → PageEnd η
| _, 0, host => .complete [] [] host
| 0, _ + 1, _ => .endless
| n + 1, count + 1, host =>
    match link.bulkOut host with
    | (none, host) => .givenUp [] [] host
    | (some packet, host) =>
        match
          arriving link last fuel
            (min (count + 1) vendorIoEpsize) packet host with
        | .acts => .acts
        | .endless => .endless
        | .ended bytes rest taken host =>
            (pageArriving fuel n
              (count + 1 - min (count + 1) vendorIoEpsize)
              host).cons (bytes, rest) taken

/- A chunk that is in the bank already. -/
theorem arriving_within
    (fuel length : Nat)
    (bank : List UInt8)
    (host : η)
    (hFuel : length ≤ fuel)
    (hThere : length ≤ bank.length) :
    arriving link last fuel length bank host =
      .ended (bank.take length) (bank.drop length) []
        host := by
  induction length generalizing fuel bank with
  | zero =>
      rw [arriving]
      rfl
  | succ length ih =>
      cases fuel with
      | zero => exact absurd hFuel (Nat.not_succ_le_zero _)
      | succ fuel =>
          cases bank with
          | nil => exact absurd hThere (Nat.not_succ_le_zero _)
          | cons b bank =>
              rw [arriving,
                ih fuel bank (Nat.le_of_succ_le_succ hFuel)
                  (Nat.le_of_succ_le_succ hThere)]
              rfl

/- A turn of the loop that finds a packet with its chunk. -/
theorem pageArriving_chunk
    (fuel n : Nat)
    {count : Nat}
    {bytes : List UInt8}
    {host filled : η}
    (hSome : 0 < count)
    (hThere : min count vendorIoEpsize ≤ bytes.length)
    (hFuel : vendorIoEpsize ≤ fuel)
    (hPacket :
      link.bulkOut host =
        (some (bytes.take vendorIoEpsize), filled)) :
    pageArriving link last fuel (n + 1) count host =
      (pageArriving link last fuel n
        (count - min count vendorIoEpsize) filled).cons
        (bytes.take (min count vendorIoEpsize),
          (bytes.take vendorIoEpsize).drop
            (min count vendorIoEpsize)) [] := by
  cases count with
  | zero => exact absurd hSome (Nat.lt_irrefl 0)
  | succ count =>
      rw [pageArriving, hPacket]
      simp only
      rw [arriving_within link last fuel _ _ _
        (Nat.le_trans (Nat.min_le_right _ _) hFuel)
        (by
          rw [List.length_take]
          omega)]
      simp only
      rw [List.take_take, Nat.min_eq_left (Nat.min_le_right _ _)]

end Arriving

/- The chunks one behind the other in the buffer. -/
def Fw.storeChunks
    (s : Fw τ) :
    Nat → List (List UInt8 × List UInt8) → Fw τ
| _, [] => s
| done, (bytes, _) :: chunks =>
    (s.storeBytes done bytes).storeChunks
      (done + vendorIoEpsize) chunks

/- A chunk in front of the rest of a page. -/
theorem storeChunks_cons
    (s : Fw τ)
    (done count : Nat)
    (bytes rest : List UInt8)
    (chunks : List (List UInt8 × List UInt8))
    (hThere : count ≤ bytes.length)
    (hStored :
      ∀ s : Fw τ,
        s.storeChunks (done + vendorIoEpsize) chunks =
          s.storeBytes (done + vendorIoEpsize)
            ((bytes.drop vendorIoEpsize).take
              (count - min count vendorIoEpsize))) :
    s.storeChunks done
        ((bytes.take (min count vendorIoEpsize), rest) ::
          chunks) =
      s.storeBytes done (bytes.take count) := by
  rw [Fw.storeChunks, hStored]
  by_cases hLast : count ≤ vendorIoEpsize
  · rw [Nat.min_eq_left hLast, Nat.sub_self, List.take_zero,
      Fw.storeBytes]
  · have hFull : min count vendorIoEpsize = vendorIoEpsize := by
      omega
    have hParts :
        bytes.take count =
          bytes.take vendorIoEpsize ++
            (bytes.drop vendorIoEpsize).take
              (count - vendorIoEpsize) := by
      rw [← List.take_add]
      congr 1
      omega
    rw [hFull, hParts, storeBytes_append,
      List.length_take_of_le (by omega)]

@[simp] theorem storeChunks_pdiOn
    (s : Fw τ)
    (done : Nat)
    (chunks : List (List UInt8 × List UInt8)) :
    (s.storeChunks done chunks).pdiOn = s.pdiOn := by
  induction chunks generalizing s done with
  | nil => rfl
  | cons chunk chunks ih =>
      rw [Fw.storeChunks, ih, storeBytes_pdiOn]

@[simp] theorem storeChunks_target
    (s : Fw τ)
    (done : Nat)
    (chunks : List (List UInt8 × List UInt8)) :
    (s.storeChunks done chunks).target = s.target := by
  induction chunks generalizing s done with
  | nil => rfl
  | cons chunk chunks ih =>
      rw [Fw.storeChunks, ih, storeBytes_target]

section Arriving

variable
  {link : Link η}
  {last : PdiResult}
  {task : World τ η → World τ η}

/- The wait for a packet that does not come in time. -/
theorem waitOutReceived_none
    {w : World τ η}
    {host : η}
    (hBank : w.outBank = none)
    (hPacket : link.bulkOut w.link = (none, host)) :
    waitOutReceived link w = (false, w.withLink host) := by
  simp only [waitOutReceived, hBank, hPacket]

/- The wait for one that does. -/
theorem waitOutReceived_some
    {w : World τ η}
    {packet : List UInt8}
    {host : η}
    (hBank : w.outBank = none)
    (hPacket : link.bulkOut w.link = (some packet, host)) :
    waitOutReceived link w =
      (true,
        { w.withLink host with outBank := some packet }) := by
  simp only [waitOutReceived, hBank, hPacket]

/- What a stream from `w` has made at such an end. -/
def ChunkEnd.Made
    (w : World τ η)
    (data : Nat)
    (after : World τ η) :
    ChunkEnd η → Prop
| .acts => True
| .endless => w.Stuck after
| .ended bytes _ taken host =>
    clearOut after =
      (clearOut
        ((w.withFw (w.fw.storeBytes data bytes)).withLink
          host)).takes taken

/- A byte stored in front. -/
theorem ChunkEnd.Made.cons
    {w after : World τ η}
    {data : Nat}
    {b : UInt8}
    {bank : List UInt8}
    {e : ChunkEnd η}
    (hMade :
      e.Made
        { w.withFw (w.fw.storeByte data b) with
          outBank := some bank }
        (data + 1) after) :
    (e.cons b).Made w data after := by
  cases e with
  | acts => trivial
  | endless => exact hMade
  | ended bytes rest taken host =>
      rw [Made] at hMade
      rw [ChunkEnd.cons, Made, hMade]
      rfl

/- A packet taken in, with the requests before it. -/
theorem ChunkEnd.Made.after
    {w out : World τ η}
    {data : Nat}
    {taken : List Request}
    {host : η}
    {packet : List UInt8}
    {e : ChunkEnd η}
    (hMade :
      e.Made
        { ((clearOut w).withLink host).takes taken with
          outBank := some packet }
        data out) :
    (e.after taken).Made w data out := by
  cases e with
  | acts => trivial
  | endless => exact hMade
  | ended bytes rest later ended =>
      rw [Made] at hMade
      rw [ChunkEnd.after, Made, hMade, takes_append]
      rfl

section Turns

variable {w : World τ η} (fuel data length : Nat)

/- A turn that finds a byte stores it. -/
theorem rwStream_stores
    {b : UInt8}
    {bank : List UInt8}
    (hBank : w.outBank = some (b :: bank)) :
    rwStream (readDirection link) task (fuel + 1) data
        (length + 1) w =
      rwStream (readDirection link) task fuel (data + 1) length
        { w.withFw (w.fw.storeByte data b) with
          outBank := some bank } := by
  have hAllowed : (readDirection link).allowed w = true := by
    simp [readDirection, hBank]
  have hTransfer :
      (readDirection link).transfer data w =
        { w.withFw (w.fw.storeByte data b) with
          outBank := some bank } := by
    simp only [readDirection, hBank]
  rw [rwStream, if_pos hAllowed, hTransfer]

/- One that finds the packet used up goes to the main loop. -/
theorem rwStream_empty
    (hBank : w.outBank = some []) :
    rwStream (readDirection link) task (fuel + 1) data
        (length + 1) w =
      (task (clearOut w)).andThen fun w =>
        match waitOutReceived link w with
        | (false, w) => w
        | (true, w) =>
            rwStream (readDirection link) task fuel data
              (length + 1) w := by
  have hStopped : (readDirection link).allowed w = false := by
    simp [readDirection, hBank]
  rw [rwStream, hStopped]
  rfl

end Turns

/- A stream stores what arrives.  By induction on its turns. -/
theorem rwStream_arriving
    (hTask : Turns link last task)
    (fuel data length : Nat)
    (bank : List UInt8)
    (w : World τ η)
    (hLast : w.lastOp = last)
    (hBank : w.outBank = some bank)
    (hHung : w.hung = false) :
    (arriving link last fuel length bank w.link).Made w data
      (rwStream (readDirection link) task fuel data length
        w) := by
  induction fuel generalizing data length bank w with
  | zero =>
      cases length with
      | zero =>
          rw [arriving, rwStream, ChunkEnd.Made, takes_nil]
          rfl
      | succ length =>
          rw [arriving, rwStream]
          exact ⟨rfl, rfl, rfl⟩
  | succ fuel ih =>
      cases length with
      | zero =>
          rw [arriving, rwStream, ChunkEnd.Made, takes_nil]
          rfl
      | succ length =>
          cases bank with
          | cons b bank =>
              rw [arriving, rwStream_stores fuel data length hBank]
              exact
                ChunkEnd.Made.cons
                  (ih (data + 1) length bank _ hLast rfl hHung)
          | nil =>
              have hTurn := hTask (clearOut w) hLast hHung
              have hHere : (clearOut w).link = w.link := rfl
              rw [hHere] at hTurn
              rw [arriving, rwStream_empty fuel data length hBank]
              cases hTaken : usbTurn link last w.link with
              | acts => trivial
              | endless =>
                  rw [hTaken] at hTurn
                  simp only [World.andThen, hTurn.1, if_true]
                  exact hTurn
              | quiet taken freed =>
                  rw [hTaken] at hTurn
                  simp only at hTurn
                  have hStays :
                      (((clearOut w).withLink freed).takes
                        taken).hung = false := hHung
                  have hBanked :
                      (((clearOut w).withLink freed).takes
                        taken).outBank = none := rfl
                  simp only [hTurn, World.andThen, hStays,
                    Bool.false_eq_true, if_false]
                  rcases hPacket : link.bulkOut freed with
                    ⟨packet, host⟩
                  cases packet with
                  | none =>
                      rw [waitOutReceived_none hBanked hPacket]
                      rfl
                  | some packet =>
                      have hRest :=
                        ih data (length + 1) packet
                          { ((clearOut w).withLink host).takes
                              taken with
                            outBank := some packet }
                          hLast rfl hHung
                      rw [waitOutReceived_some hBanked hPacket]
                      exact ChunkEnd.Made.after hRest

/- What a receive loop from `w` has made at such an end. -/
def PageEnd.Made
    (w : World τ η)
    (done count : Nat)
    (out : Option Nat × World τ η) :
    PageEnd η → Prop
| .acts => True
| .endless => out.1 = none ∧ w.Stuck out.2
| .givenUp chunks taken host =>
    out =
      (none,
        ((w.withFw (w.fw.storeChunks done chunks)).withLink
          host).takes taken)
| .complete chunks taken host =>
    out =
      (some (done + count),
        ((w.withFw (w.fw.storeChunks done chunks)).withLink
          host).takes taken)

/- A full chunk in front. -/
theorem PageEnd.Made.cons
    {w : World τ η}
    {done count : Nat}
    {bytes : List UInt8}
    {taken : List Request}
    {host : η}
    {e : PageEnd η}
    {out : Option Nat × World τ η}
    (rest : List UInt8)
    (hMade :
      e.Made
        (((w.withFw (w.fw.storeBytes done bytes)).withLink
          host).takes taken)
        (done + vendorIoEpsize) count out) :
    (e.cons (bytes, rest) taken).Made w done
      (vendorIoEpsize + count) out := by
  cases e with
  | acts => trivial
  | endless =>
      rcases hMade with ⟨hNone, hEnds, hCalls, hTarget⟩
      refine ⟨hNone, hEnds, hCalls, hTarget.trans ?_⟩
      exact storeBytes_target w.fw done bytes
  | givenUp chunks later ended =>
      rw [Made] at hMade
      rw [PageEnd.cons, Made, hMade, takes_append]
      rfl
  | complete chunks later ended =>
      rw [Made] at hMade
      rw [PageEnd.cons, Made, hMade, takes_append,
        Nat.add_assoc]
      rfl

theorem pageArriving_zero
    (fuel n : Nat)
    (host : η) :
    pageArriving link last fuel n 0 host =
      .complete [] [] host := by
  cases n with
  | zero => rfl
  | succ n => rfl

theorem receiveChunks_zero
    (fuel n done : Nat)
    (w : World τ η) :
    receiveChunks link task fuel n 0 done w =
      (some done, w) := by
  cases n with
  | zero => rfl
  | succ n => rfl

/-
  The receive loop is what arrives.  By induction on its
  turns, each of which is one stream.
-/
theorem receiveChunks_arriving
    (hTask : Turns link last task)
    (fuel n count done : Nat)
    (w : World τ η)
    (hLast : w.lastOp = last)
    (hBank : w.outBank = none)
    (hHung : w.hung = false) :
    (pageArriving link last fuel n count w.link).Made w done
      count (receiveChunks link task fuel n count done w) := by
  induction n generalizing count done w with
  | zero =>
      cases count with
      | zero =>
          rw [pageArriving, receiveChunks, PageEnd.Made,
            takes_nil]
          rfl
      | succ count =>
          rw [pageArriving, receiveChunks]
          exact ⟨rfl, rfl, rfl, rfl⟩
  | succ n ih =>
      cases count with
      | zero =>
          rw [pageArriving, receiveChunks, PageEnd.Made,
            takes_nil]
          rfl
      | succ count =>
          rw [pageArriving, receiveChunks]
          rcases hPacket : link.bulkOut w.link with
            ⟨packet, filled⟩
          cases packet with
          | none =>
              rw [waitOutReceived_none hBank hPacket]
              simp only [PageEnd.Made, takes_nil]
              rfl
          | some packet =>
              have hStream :=
                rwStream_arriving hTask fuel done
                  (min (count + 1) vendorIoEpsize) packet
                  { w.withLink filled with
                    outBank := some packet }
                  hLast rfl hHung
              have hBegun :
                  endpointReadStreamLE link task fuel done
                      (min (count + 1) vendorIoEpsize)
                      { w.withLink filled with
                        outBank := some packet } =
                    rwStream (readDirection link) task fuel done
                      (min (count + 1) vendorIoEpsize)
                      { w.withLink filled with
                        outBank := some packet } := rfl
              rw [waitOutReceived_some hBank hPacket]
              simp only [hBegun]
              generalize
                rwStream (readDirection link) task fuel done
                  (min (count + 1) vendorIoEpsize)
                  { w.withLink filled with
                    outBank := some packet } =
                  after at hStream ⊢
              have hHere :
                  ({ w.withLink filled with
                    outBank := some packet } :
                    World τ η).link = filled := rfl
              rw [hHere] at hStream
              cases hEnd :
                  arriving link last fuel
                    (min (count + 1) vendorIoEpsize) packet
                    filled with
              | acts => trivial
              | endless =>
                  rw [hEnd, ChunkEnd.Made] at hStream
                  simp only [hStream.1, if_true]
                  exact ⟨rfl, hStream⟩
              | ended bytes rest taken host =>
                  rw [hEnd, ChunkEnd.Made] at hStream
                  have hStays : after.hung = false :=
                    (congrArg World.hung hStream).trans hHung
                  have hCleared :
                      clearOut after =
                        ((w.withFw
                          (w.fw.storeBytes done
                            bytes)).withLink host).takes
                          taken := by
                    rw [hStream]
                    simp [clearOut, World.withFw,
                      World.withLink, World.takes, hBank]
                  simp only [hStays, Bool.false_eq_true,
                    if_false, hCleared]
                  by_cases hFinal : count + 1 ≤ vendorIoEpsize
                  · rw [Nat.min_eq_left hFinal, Nat.sub_self,
                      pageArriving_zero, receiveChunks_zero,
                      PageEnd.cons, PageEnd.Made,
                      List.append_nil]
                    rfl
                  · have hMore : vendorIoEpsize ≤ count + 1 :=
                      Nat.le_of_not_le hFinal
                    have hNext :=
                      ih (count + 1 - vendorIoEpsize)
                        (done + vendorIoEpsize)
                        (((w.withFw
                          (w.fw.storeBytes done
                            bytes)).withLink host).takes taken)
                        hLast hBank hHung
                    have hMade := hNext.cons rest
                    rw [Nat.add_sub_cancel' hMore] at hMade
                    rw [Nat.min_eq_right hMore]
                    exact hMade

end Arriving

------------------------------------------------------------
-- The Page Handler
------------------------------------------------------------

/- How the page of the request in `w` is received. -/
def pageEnd
    (link : Link η)
    (fuel : Nat)
    (w : World τ η) : PageEnd η :=
  match link.controlOut w.link with
  | (none, _) => .endless
  | (some _, host) =>
      match link.controlWait host with
      | (false, _) => .endless
      | (true, host) =>
          pageArriving link w.lastOp fuel
            (clamp w.request.wIndex).toNat
            (clamp w.request.wIndex).toNat host

/- The handler writes what arrived, or nothing. -/
theorem lucaxPdiNvmWritePage_arriving
    (line : Line τ)
    {link : Link η}
    {task : World τ η → World τ η}
    (fuel : Nat)
    (w : World τ η)
    (hTask : Turns link w.lastOp task)
    (hBank : w.outBank = none)
    (hHung : w.hung = false) :
    match pageEnd link fuel w with
    | .acts => True
    | .endless =>
        w.Stuck (lucaxPdiNvmWritePage line link task fuel w)
    | .givenUp chunks taken host =>
        lucaxPdiNvmWritePage line link task fuel w =
          ((w.withFw (w.fw.storeChunks 0 chunks)).withLink
            host).takes taken
    | .complete chunks taken host =>
        ∃ packet,
          (link.controlOut w.link).1 = some packet ∧
            lucaxPdiNvmWritePage line link task fuel w =
              (World.call line
                (.nvmPagedWrite (endpointRead32LE packet)
                  (.buffer 0) (clamp w.request.wIndex)
                  (pagedMemory w.request.wValue.toUInt8))
                (((w.withFw
                  (w.fw.storeChunks 0 chunks)).withLink
                  host).takes taken)).2 := by
  rw [pageEnd]
  simp only [lucaxPdiNvmWritePage, receivePage,
    awaitControlOut]
  rcases link.controlOut w.link with ⟨packet, addressed⟩
  cases packet with
  | none => exact ⟨rfl, rfl, rfl⟩
  | some packet =>
      have hHere : (w.withLink addressed).link = addressed :=
        rfl
      simp only [endpointClearStatusStage, World.await, hHere]
      rcases link.controlWait addressed with ⟨ends, host⟩
      cases ends with
      | false => exact ⟨rfl, rfl, rfl⟩
      | true =>
          have hStays :
              ((w.withLink addressed).withLink host).hung =
                false := hHung
          simp only [hStays, Bool.false_eq_true, if_false]
          have hLoop :=
            receiveChunks_arriving hTask fuel
              (clamp w.request.wIndex).toNat
              (clamp w.request.wIndex).toNat 0
              ((w.withLink addressed).withLink host) rfl hBank
              hHung
          have hThere :
              ((w.withLink addressed).withLink host).link =
                host := rfl
          rw [hThere] at hLoop
          cases hEnd :
              pageArriving link w.lastOp fuel
                (clamp w.request.wIndex).toNat
                (clamp w.request.wIndex).toNat host with
          | acts => trivial
          | endless =>
              rw [hEnd, PageEnd.Made] at hLoop
              rcases hReceived :
                  receiveChunks link task fuel
                    (clamp w.request.wIndex).toNat
                    (clamp w.request.wIndex).toNat 0
                    ((w.withLink addressed).withLink host) with
                ⟨done, after⟩
              rw [hReceived] at hLoop
              rcases hLoop with ⟨hNone, hStuck⟩
              simp only at hNone
              subst hNone
              exact hStuck
          | givenUp chunks taken ended =>
              rw [hEnd, PageEnd.Made] at hLoop
              simp only [hLoop]
              rfl
          | complete chunks taken ended =>
              rw [hEnd, PageEnd.Made] at hLoop
              refine ⟨packet, rfl, ?_⟩
              simp only [hLoop, Nat.zero_add,
                UInt16.ofNat_toNat]
              rfl

end Lucax
