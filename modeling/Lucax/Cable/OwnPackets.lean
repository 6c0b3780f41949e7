import Lucax.Cable.Orderly
import Lucax.Firmware.Looks

/-
  Calls get and send their own packets, as long as their SETUP
  packets are taken cleanly.

  Key definitions include:
    * `cableRun`
    * `Cable.Serves`
    * `TurnOwn`

  Main declarations:
    * `cableLink_keeps`
    * `receivePage_own`
    * `ownPackets_of_clean`, `not_ownPackets_leftOver`
-/

------------------------------------------------------------
-- Runs of the Firmware
------------------------------------------------------------

namespace Lucax

variable {τ : Type} (line : Line τ) (schedule : Schedule)

theorem status_orderly
    {c : Cable}
    (hOrderly : c.Orderly) :
    ((cableLink schedule).controlWait c).2.Orderly := by
  have hLook := look_orderly schedule hOrderly
  simp only [cableLink]
  split
  · exact dataTaken_orderly hLook
  · exact handOver_orderly hLook _ _

/- Whatever the firmware looks at, the cable stays orderly. -/
theorem cableLink_keeps :
    (cableLink schedule).Keeps Cable.Orderly := by
  have hLook :
      ∀ c : Cable, c.Orderly → (c.look schedule).Orderly :=
    fun c hOrderly => look_orderly schedule hOrderly
  constructor
  · intro c hOrderly
    simp only [cableLink]
    split
    · exact hLook c hOrderly
    · rename_i s hSetup
      exact take_orderly (hLook c hOrderly) hSetup _
  · intro c hOrderly
    exact dataTaken_orderly (hLook c hOrderly)
  · intro c hOrderly
    simp only [cableLink]
    split
    · exact hLook c hOrderly
    · exact hLook c hOrderly
  · intro c hOrderly
    exact status_orderly schedule hOrderly
  · intro c hOrderly
    simp only [cableLink]
    split
    · exact hLook c hOrderly
    · split
      · exact hLook c hOrderly
      · exact dataTaken_orderly (hLook c hOrderly)
  · intro c hOrderly
    simp only [cableLink]
    split
    · exact hLook c hOrderly
    · split
      · exact hLook c hOrderly
      · split
        · exact hLook c hOrderly
        · exact hLook c hOrderly
  · intro c packet hOrderly
    exact handOver_orderly (hLook c hOrderly) _ _
  · intro c hOrderly
    exact pageTaken_orderly (hLook c hOrderly)
  · intro c hOrderly
    exact hLook c hOrderly
  · intro c packet hOrderly
    exact queue_orderly (hLook c hOrderly) _ _

/- The device after some turns of its main loop. -/
def cableRun
    (fuel depth n : Nat)
    (target : τ) : World τ Cable :=
  mainLoop line (cableLink schedule) fuel depth n
    (World.powerOn target Cable.plugged)

section Run

variable (fuel depth n : Nat) (target : τ)

/- The run lemma. -/
theorem cableRun_orderly :
    (cableRun line schedule fuel depth n
      target).link.Orderly :=
  mainLoop_holds line (cableLink_keeps schedule) fuel depth n
    plugged_orderly

theorem cableRun_rests :
    (cableRun line schedule fuel depth n target).Rests :=
  mainLoop_rests line (cableLink schedule) fuel depth n
    (World.ready_powerOn target Cable.plugged)

end Run

------------------------------------------------------------
-- Pages
------------------------------------------------------------

/-
  A page request taken cleanly is being served, and `taken`
  bytes of the OUT endpoint have been taken for it.
-/
structure Cable.Serves
    (s : Setup)
    (taken : Nat)
    (c : Cable) : Prop where
  orderly : c.Orderly
  serving : c.serving = s
  clean : c.clean = true
  taken : c.taken = taken

section Pages

variable {s : Setup} {taken : Nat} {c : Cable}

theorem look_serves
    (hServes : c.Serves s taken) :
    (c.look schedule).Serves s taken := by
  have hKept := look_kept schedule c
  exact
    ⟨look_orderly schedule hServes.orderly,
      hKept.serving.trans hServes.serving,
      hKept.clean.trans hServes.clean,
      hKept.taken.trans hServes.taken⟩

theorem controlOut_serves
    (hServes : c.Serves s taken) :
    ((cableLink schedule).controlOut c).2.Serves s taken := by
  have hLook := look_serves schedule hServes
  exact
    ⟨dataTaken_orderly hLook.orderly, hLook.serving,
      hLook.clean, hLook.taken⟩

theorem controlWait_serves
    (hServes : c.Serves s taken) :
    ((cableLink schedule).controlWait c).2.Serves s taken := by
  have hOrderly := status_orderly schedule hServes.orderly
  have hLook := look_serves schedule hServes
  simp only [cableLink] at hOrderly ⊢
  split
  · exact
      ⟨dataTaken_orderly hLook.orderly, hLook.serving,
        hLook.clean, hLook.taken⟩
  · exact
      ⟨handOver_orderly hLook.orderly _ _, hLook.serving,
        hLook.clean, hLook.taken⟩

/- A packet of the OUT endpoint is the next of the page. -/
theorem bulkOut_serves
    (hKind : s.request.kind = some .pdiNvmWritePage)
    (hServes : c.Serves s taken)
    {packet : List UInt8}
    {host : Cable}
    (hPacket :
      (cableLink schedule).bulkOut c = (some packet, host)) :
    packet = (s.page.drop taken).take vendorIoEpsize ∧
      host.Serves s (taken + packet.length) := by
  have hLook := look_serves schedule hServes
  rcases Prod.mk.inj hPacket with ⟨hBank, hHost⟩
  have hPage :=
    hLook.orderly.banks.bulkOut hLook.clean
      (by rw [hLook.serving]; exact hKind) packet hBank
  rw [hLook.serving, hLook.taken] at hPage
  refine ⟨hPage.2, ?_⟩
  rw [← hHost]
  refine
    ⟨pageTaken_orderly hLook.orderly, hLook.serving,
      hLook.clean, ?_⟩
  show
    (c.look schedule).taken +
        ((c.look schedule).bankOut.getD []).length =
      taken + packet.length
  rw [hLook.taken,
    show (c.look schedule).bankOut = some packet from hBank]
  rfl

/-
  The receive loop of a page taken cleanly stores the front of
  the page: before every chunk as much has been taken as has
  been stored.
-/
theorem receiveChunks_own
    (hKind : s.request.kind = some .pdiNvmWritePage)
    (task : World τ Cable → World τ Cable)
    (fuel n count done : Nat)
    {w after : World τ Cable}
    {total : Nat}
    (hServes : count ≠ 0 → w.link.Serves s done)
    (hBank : w.outBank = none)
    (hFits : done + count ≤ s.page.length)
    (hStored :
      (Ptr.buffer 0).bytes w.fw.ram done = s.page.take done)
    (hEnds :
      receiveChunks (cableLink schedule) task fuel n count done
        w = (some total, after)) :
    total = done + count ∧
      (Ptr.buffer 0).bytes after.fw.ram total =
        s.page.take total := by
  have hNoMore :
      ∀ {done : Nat} {w : World τ Cable},
        (Ptr.buffer 0).bytes w.fw.ram done =
            s.page.take done →
          (some done, w) = (some total, after) →
            total = done + 0 ∧
              (Ptr.buffer 0).bytes after.fw.ram total =
                s.page.take total := by
    intro done w hStored hSame
    rcases Prod.mk.inj hSame with ⟨hTotal, hAfter⟩
    rw [← Option.some.inj hTotal, ← hAfter]
    exact ⟨rfl, hStored⟩
  induction n generalizing count done w with
  | zero =>
      cases count with
      | zero => exact hNoMore hStored hEnds
      | succ count =>
          exact absurd (Prod.mk.inj hEnds).1 (by simp)
  | succ n ih =>
      cases count with
      | zero => exact hNoMore hStored hEnds
      | succ count =>
          have hHere := hServes (Nat.succ_ne_zero count)
          rw [receiveChunks] at hEnds
          rcases hOut :
              (cableLink schedule).bulkOut w.link with
            ⟨packet, host⟩
          cases packet with
          | none =>
              rw [waitOutReceived_none hBank hOut] at hEnds
              exact absurd (Prod.mk.inj hEnds).1 (by simp)
          | some packet =>
              rcases bulkOut_serves schedule hKind hHere hOut
                with ⟨hPacket, hNext⟩
              have hSize : vendorIoEpsize = 64 := rfl
              have hLength :
                  packet.length =
                    min vendorIoEpsize
                      (s.page.length - done) := by
                rw [hPacket, List.length_take,
                  List.length_drop]
              have hThere :
                  min (count + 1) vendorIoEpsize ≤
                    packet.length := by
                omega
              have hChunk :
                  packet.take (min (count + 1) vendorIoEpsize) =
                    (s.page.drop done).take
                      (min (count + 1) vendorIoEpsize) := by
                rw [hPacket, List.take_take,
                  Nat.min_eq_left (Nat.min_le_right _ _)]
              have hRest :=
                receiveChunks_chunk (cableLink schedule) task
                  fuel n count done hBank hOut hThere hEnds
              have hFront :
                  (packet.take
                    (min (count + 1) vendorIoEpsize)).length =
                    min (count + 1) vendorIoEpsize := by
                rw [List.length_take]
                omega
              have hLater :=
                ih (count + 1 - min (count + 1) vendorIoEpsize)
                  (done + min (count + 1) vendorIoEpsize)
                  ?_ rfl (by omega) ?_ hRest
              · refine ⟨?_, hLater.2⟩
                rw [hLater.1]
                omega
              · intro hMore
                have hFull : packet.length = 64 := by omega
                have hAll :
                    min (count + 1) vendorIoEpsize =
                      packet.length := by
                  omega
                rw [hAll]
                exact hNext
              · have hBytes :=
                  storeBytes_bytes w.fw done
                    (packet.take
                      (min (count + 1) vendorIoEpsize))
                rw [hFront] at hBytes
                refine hBytes.trans ?_
                rw [hStored, hChunk, ← List.take_add]

/- What the handler receives is the front of the page. -/
theorem receivePage_own
    (hKind : s.request.kind = some .pdiNvmWritePage)
    (task : World τ Cable → World τ Cable)
    (fuel : Nat)
    {w after : World τ Cable}
    {address : UInt32}
    {done : Nat}
    (hRequest : w.request = s.request)
    (hServes : w.link.Serves s 0)
    (hBank : w.outBank = none)
    (hEnds :
      receivePage (cableLink schedule) task fuel w =
        (some (address, done), after)) :
    (Ptr.buffer 0).bytes after.fw.ram done =
      s.page.take done := by
  have hFits := hServes.orderly.banks.serving
  rw [hServes.serving] at hFits
  have hAddressed := controlOut_serves schedule hServes
  unfold receivePage awaitControlOut at hEnds
  rcases hOut : (cableLink schedule).controlOut w.link with
    ⟨packet, addressed⟩
  rw [hOut] at hAddressed hEnds
  cases packet with
  | none => exact absurd (Prod.mk.inj hEnds).1 (by simp)
  | some packet =>
      simp only at hEnds
      have hHere :
          (endpointClearStatusStage (cableLink schedule)
            (w.withLink addressed)).link.Serves s 0 := by
        rw [endpointClearStatusStage_link]
        exact controlWait_serves schedule hAddressed
      have hFree :
          (endpointClearStatusStage (cableLink schedule)
            (w.withLink addressed)).outBank = none := by
        rw [endpointClearStatusStage_outBank]
        exact hBank
      split at hEnds
      · exact absurd (Prod.mk.inj hEnds).1 (by simp)
      · split at hEnds
        · exact absurd (Prod.mk.inj hEnds).1 (by simp)
        · rename_i total last hChunks
          rcases Prod.mk.inj hEnds with ⟨hPage, hLast⟩
          have hDone :=
            congrArg Prod.snd (Option.some.inj hPage)
          rw [← hLast, ← show total = done from hDone]
          refine
            (receiveChunks_own schedule hKind task fuel _ _ 0
              (fun _ => hHere) hFree ?_ rfl hChunks).2
          rw [Nat.zero_add, hRequest]
          exact hFits hKind

end Pages

------------------------------------------------------------
-- Own Packets
------------------------------------------------------------

/- The SETUP packet a turn begins with. -/
theorem setup_serves
    {c host : Cable}
    {r : Request}
    (hOrderly : c.Orderly)
    (hSetup :
      (cableLink schedule).setup c = (some r, host))
    (hClean : host.clean = true) :
    host.Serves host.serving 0 ∧ host.serving.request = r := by
  have hAfter := (cableLink_keeps schedule).setup c hOrderly
  rw [hSetup] at hAfter
  simp only [cableLink] at hSetup
  split at hSetup
  · exact absurd (Prod.mk.inj hSetup).1 (by simp)
  · rename_i s hWaits
    rcases Prod.mk.inj hSetup with ⟨hRequest, hHost⟩
    refine ⟨⟨hAfter, rfl, hClean, ?_⟩, ?_⟩
    · rw [← hHost]
      exact take_taken _ _ _
    · rw [← hHost, take_serving]
      exact Option.some.inj hRequest

/-
  The turn that begins in `w` with the request `r`: a page
  taken cleanly is the front of what the call that sent the
  request has to send, and a read request is carried out
  before another is taken, so that the packets handed over
  while it is being served are its own.
-/
structure TurnOwn
    (fuel : Nat)
    (w : World τ Cable)
    (r : Request)
    (host : Cable) : Prop where
  page :
    r.kind = some .pdiNvmWritePage →
      host.clean = true →
        ∀ task address done after,
          receivePage (cableLink schedule) task fuel
              ((w.withLink host).take r) =
                (some (address, done), after) →
            (Ptr.buffer 0).bytes after.fw.ram done =
              host.serving.page.take done
  read :
    ∀ task task',
      lucaxPdiNvmRead line (cableLink schedule) task fuel
          ((w.withLink host).take r) =
        lucaxPdiNvmRead line (cableLink schedule) task' fuel
          ((w.withLink host).take r)

/-
  However the parties interleave, whatever calls the host
  makes and whichever it gives up: a call that returns while
  its request, taken cleanly, is being served has got nothing
  but bytes made for this request, and every turn takes the
  page of its own request, taken cleanly, or makes the packets
  of its own.
-/
theorem ownPackets_of_clean
    (fuel depth n : Nat)
    (target : τ) :
    (∀ e ∈
          (cableRun line schedule fuel depth n
            target).link.returned,
        e.fresh = true → OwnBytes e.asked.number e.got) ∧
      ((cableRun line schedule fuel depth n
            target).hung = false →
        ∀ r host,
          (cableLink schedule).setup
              (cableRun line schedule fuel depth n
                target).link =
                (some r, host) →
            TurnOwn line schedule fuel
              (cableRun line schedule fuel depth n target) r
              host) := by
  have hOrderly :=
    cableRun_orderly line schedule fuel depth n target
  refine ⟨hOrderly.banks.returned, ?_⟩
  intro hGoes r host hSetup
  have hReady :=
    (cableRun_rests line schedule fuel depth n
      target).resolve_left (by rw [hGoes]; decide)
  constructor
  · intro hKind hClean task address done after hEnds
    rcases setup_serves schedule hOrderly hSetup hClean with
      ⟨hServes, hRequest⟩
    refine
      receivePage_own schedule ?_ task fuel hRequest.symm
        hServes ?_ hEnds
    · rw [hRequest]
      exact hKind
    · exact hReady.outBank
  · intro task task'
    exact
      lucaxPdiNvmRead_task line (cableLink schedule) task task'
        fuel hReady.inBank

------------------------------------------------------------
-- Left-Over Packets
------------------------------------------------------------

/- The calls that deliver bytes. -/
def HostCall.isRead : HostCall → Bool
| .readByte _ _ _ => true
| .pagedLoad _ _ _ => true
| _ => false

/- A memory with its bytes counted up from `b`. -/
def countedMem (b : UInt8) : AvrMem :=
  ⟨flashDesc, 0, fun i => b + UInt8.ofNat i⟩

/- A target that never answers. -/
def absentLine : Line Unit :=
  ⟨fun t _ => t, fun t => (none, t), id⟩

/- A byte is read and then a page written, in peace. -/
def readThenPage : Schedule where
  acts
  | 0 => [.call (.readByte (countedMem 0) 0 0)]
  | 1 => [.advance]
  | 3 => [.advance]
  | 4 => [.advance]
  | 5 => [.call (.pagedWrite (countedMem 5) 0 2)]
  | 6 => [.advance]
  | 8 => [.advance, .advance]
  | _ => []
  late _ := []
  collides _ := .lost

/- The run up to the turn that takes the page request. -/
def readThenPageRun : World Unit Cable :=
  cableRun absentLine readThenPage 8 1 2 ()

theorem ownPackets_of_clean_readThenPage :
    let host :=
      ((cableLink readThenPage).setup readThenPageRun.link).2
    let page :=
      receivePage (cableLink readThenPage) id 8
        ((readThenPageRun.withLink host).take (pageRequest 0 2))
    (∃ e ∈ readThenPageRun.link.returned,
        e.call.isRead = true ∧ e.code = 0 ∧
          e.got.length = 1 ∧
            OwnBytes e.asked.number e.got) ∧
      page.1 = some (0, 2) ∧
        (Ptr.buffer 0).bytes page.2.fw.ram 2 =
          host.serving.page.take 2 := by
  intro host page
  have hOwn :=
    ownPackets_of_clean absentLine readThenPage 8 1 2 ()
  have hSetup :
      (cableLink readThenPage).setup readThenPageRun.link =
        (some (pageRequest 0 2), host) :=
    Prod.ext (by decide) rfl
  have hPage : page.1 = some (0, 2) := by decide
  have hEnds :
      receivePage (cableLink readThenPage) id 8
          ((readThenPageRun.withLink host).take
            (pageRequest 0 2)) =
        (some (0, 2), page.2) :=
    Prod.ext hPage rfl
  refine
    ⟨⟨readThenPageRun.link.returned.get ⟨0, by decide⟩,
      List.get_mem _ _, by decide, by decide, by decide, ?_⟩,
      hPage, ?_⟩
  · exact hOwn.1 _ (List.get_mem _ _) (by decide)
  · exact
      (hOwn.2 (by decide) _ _ hSetup).page (by decide)
        (by decide) id 0 2 page.2 hEnds

/-
  A byte read is given up while the firmware reads the byte;
  another is made.
-/
def readBehindRead : Schedule where
  acts
  | 0 => [.call (.readByte (countedMem 0) 0 0)]
  | 1 => [.advance]
  | 3 => [.advance, .giveUp]
  | 4 => [.call (.readByte (countedMem 0) 1 0)]
  | 5 => [.advance]
  | 7 => [.advance, .advance]
  | _ => []
  late _ := []
  collides _ := .lost

/-
  The data of a page comes after the firmware has stopped to
  wait for it; another page is written.
-/
def pageBehindPage : Schedule where
  acts
  | 0 => [.call (.pagedWrite (countedMem 1) 0 2)]
  | 1 => [.advance]
  | 3 => [.advance]
  | 4 => [.advance, .call (.pagedWrite (countedMem 5) 0 2)]
  | 5 => [.advance]
  | 7 => [.advance]
  | _ => []
  late _ := []
  collides _ := .lost

def readBehindReadRun : World Unit Cable :=
  cableRun absentLine readBehindRead 8 1 2 ()

def pageBehindPageRun : World Unit Cable :=
  cableRun absentLine pageBehindPage 8 1 1 ()

/-
  The second read gets the byte made for the first, and the
  second page is that of the first call.
-/
theorem not_ownPackets_leftOver :
    (¬ ∀ e ∈ readBehindReadRun.link.returned,
        e.call.isRead = true → e.code = 0 →
          OwnBytes e.asked.number e.got) ∧
      let host :=
        ((cableLink pageBehindPage).setup
          pageBehindPageRun.link).2
      let page :=
        receivePage (cableLink pageBehindPage) id 8
          ((pageBehindPageRun.withLink host).take
            (pageRequest 0 2))
      ((cableLink pageBehindPage).setup
            pageBehindPageRun.link).1 =
          some (pageRequest 0 2) ∧
        page.1 = some (0, 2) ∧
          host.serving.page = [5, 6] ∧
            (Ptr.buffer 0).bytes page.2.fw.ram 2 = [1, 2] := by
  constructor
  · intro hOwn
    have hByte :=
      hOwn
        (readBehindReadRun.link.returned.get ⟨1, by decide⟩)
        (List.get_mem _ _) (by decide) (by decide)
    have hFirst := hByte (1, 0) (by decide)
    exact absurd hFirst (by decide)
  · exact ⟨by decide, by decide, by decide, by decide⟩

end Lucax
