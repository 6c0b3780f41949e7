import Lucax.Driver.Transmitter
import Lucax.Firmware.Effects

/-
  Frames in flight over whole runs of requests.

  Main declarations:
    * `mainLoop_reaches`
    * `cut_of_busyStart`
    * `safe_of_quietStarts`
-/

------------------------------------------------------------
-- Requests as Moves
------------------------------------------------------------

namespace Lucax

open Relation

variable {τ η : Type}

/- One effect of a request takes the moves of its sequence. -/
theorem FwStep.reaches
    {line : Line τ}
    {R : Request → Prop}
    {s s' : Fw τ}
    (hStep : FwStep line R s s')
    (queue : List UInt8)
    (txc : Bool) :
    ∃ queue' txc',
      Reaches line (fun _ => True) ⟨s, queue, txc, []⟩
        ⟨s', queue', txc', []⟩ := by
  have hFinished :
      ∀ ops : List (UsartOp τ),
        Moves line (fun _ => True) ⟨s, queue, txc, []⟩
            ⟨s, queue, txc, ops⟩ →
          ∃ queue' txc',
            Reaches line (fun _ => True) ⟨s, queue, txc, []⟩
              ⟨runOps line ops s, queue', txc', []⟩ := by
    intro ops hServed
    rcases
        Reaches.finished line (P := fun _ => True) s
          queue txc ops [] with
      ⟨queue', txc', hRest⟩
    rw [List.append_nil] at hRest
    exact ⟨queue', txc', hRest.head hServed⟩
  cases hStep with
  | @load r hRequest i hTouches =>
      exact hFinished _
        (Moves.served s queue txc
          (Served.buffer (fun s => (s.loadByte i).2)
            (fun _ => ⟨rfl, rfl, rfl⟩)))
  | @store r hRequest i hTouches b =>
      exact hFinished _
        (Moves.served s queue txc
          (Served.buffer (fun s => s.storeByte i b)
            (fun _ => ⟨rfl, rfl, rfl⟩)))
  | @call r hRequest c hMakes =>
      rcases c.exists_ops line s with ⟨ops, hPlain, hRun⟩
      rw [← hRun]
      exact hFinished ops
        (Moves.served s queue txc (Served.call c hPlain hRun))
  | @init r hRequest hKind =>
      rw [← runOps_pdiInitOps]
      exact hFinished _
        (Moves.pdiInit s queue txc r.wValue trivial)
  | @exit r hRequest hKind =>
      rw [← runOps_pdiExitOps]
      exact hFinished _ (Moves.pdiExit s queue txc trivial)

/- What the main loop does to the driver is such a run. -/
theorem mainLoop_reaches
    (line : Line τ)
    (link : Link η)
    (fuel depth n : Nat)
    (target : τ)
    (host : η) :
    ∃ queue txc,
      Reaches line (fun _ => True) (Machine.powerOn target)
        ⟨(mainLoop line link fuel depth n
          (World.powerOn target host)).fw, queue, txc, []⟩ := by
  have hEvolves :=
    mainLoop_evolves line link fuel depth n
      (World.powerOn target host)
  refine
    hEvolves.invariant
      (P := fun s =>
        ∃ queue txc,
          Reaches line (fun _ => True)
            (Machine.powerOn target) ⟨s, queue, txc, []⟩)
      ?_ ⟨[], false, ReflTransGen.refl⟩
  intro s s' hStep hReached
  rcases hReached with ⟨queue, txc, hRun⟩
  rcases hStep.reaches queue txc with ⟨queue', txc', hMore⟩
  exact ⟨queue', txc', hRun.trans hMore⟩

------------------------------------------------------------
-- Frames Cut Off
------------------------------------------------------------

/-
  A `pdi_init` or `pdi_exit` that finds a frame in flight may
  cut it off: the first mode change comes at once.
-/
theorem cut_of_busyStart
    (line : Line τ)
    (s : Fw τ)
    {queue : List UInt8}
    (txc : Bool)
    (hBusy : queue ≠ []) :
    (∀ freqKhz,
        ∃ m,
          Reaches line (fun _ => True)
              ⟨s, queue, txc, pdiInitOps line freqKhz s⟩ m ∧
            ¬ m.Safe) ∧
      ∃ m,
        Reaches line (fun _ => True)
            ⟨s, queue, txc, pdiExitOps line⟩ m ∧
          ¬ m.Safe := by
  constructor
  · intro freqKhz
    refine
      ⟨_, ReflTransGen.single
        (.proceeds (.executed s txc _ _ rfl)), ?_⟩
    intro hSafe
    exact hSafe.notCut _ rfl ⟨hBusy, rfl⟩
  · refine
      ⟨_, ReflTransGen.single
        (.proceeds (.executed s txc _ _ rfl)), ?_⟩
    intro hSafe
    exact hSafe.notCut _ rfl ⟨hBusy, rfl⟩

/-
  In every run in which `PDI_INIT` and `RELEASE_INTERFACE` are
  served with nothing in flight no frame is cut off, and one
  in flight shows in `pending`.  Served with a frame in flight
  either may cut it off.
-/
theorem safe_of_quietStarts
    (line : Line τ)
    (target : τ) :
    (∀ m,
        Reaches line Machine.Quiet (Machine.powerOn target) m →
          m.Safe) ∧
      ∀ (s : Fw τ) (queue : List UInt8) (txc : Bool),
        queue ≠ [] →
          (∀ freqKhz,
              ∃ m,
                Reaches line (fun _ => True)
                    ⟨s, queue, txc,
                      pdiInitOps line freqKhz s⟩ m ∧
                  ¬ m.Safe) ∧
            ∃ m,
              Reaches line (fun _ => True)
                  ⟨s, queue, txc, pdiExitOps line⟩ m ∧
                ¬ m.Safe := by
  constructor
  · intro m hRun
    exact ((Machine.guarded_powerOn target).reaches hRun).safe
  · intro s queue txc hBusy
    exact cut_of_busyStart line s txc hBusy

/- A target that lets every session open. -/
def openingLine : Line Unit :=
  ⟨fun t _ => t, fun t => (some 0x02, t), id⟩

/- The driver after `pdi_init`. -/
def opened : Fw Unit :=
  (pdiInit openingLine 1000 (Fw.powerOn ())).2

theorem opened_pdiOn : opened.pdiOn = true := rfl

/- What a raw write of one byte does before it sends it. -/
def rawWriteOps : List (UsartOp Unit) :=
  (streamFrames 0x01000000 1 0x64).map .send ++
    [.other (fun s => s.touch [0])
      (fun _ => ⟨rfl, rfl, rfl⟩)]

/- The driver behind the raw write. -/
def written : Fw Unit :=
  runOps openingLine
    (rawWriteOps ++ [.send (opened.ram 0)]) opened

theorem served_rawWrite :
    Served openingLine opened
      (rawWriteOps ++ [.send (opened.ram 0)]) := by
  refine
    Served.call (.pdiWriteBytes 0x01000000 (.buffer 0) 1)
      ?_ ?_
  · intro op hMem
    rw [rawWriteOps, List.append_assoc] at hMem
    rcases List.mem_append.mp hMem with hHeader | hLast
    · rcases List.mem_map.mp hHeader with ⟨b, _hByte, hOp⟩
      rw [← hOp]
      trivial
    · rcases List.mem_cons.mp hLast with hOp | hOp
      · rw [hOp]
        trivial
      · rw [List.mem_singleton.mp hOp]
        trivial
  · rw [rawWriteOps, List.append_assoc, runOps_append,
      runOps_sends]
    simp only [Call.exec]
    rw [pdiWriteBytes_enabled openingLine opened_pdiOn]
    have hByte :
        (feed openingLine (streamFrames 0x01000000 1 0x64)
          opened).ram 0 = opened.ram 0 := by
      rw [feed_ram]
    rw [← hByte]
    rfl

/- The session opened, with nothing in flight. -/
theorem reaches_opened
    {P : Machine Unit → Prop}
    (hStart : P (Machine.powerOn ())) :
    ∃ txc,
      Reaches openingLine P (Machine.powerOn ())
        ⟨opened, [], txc, []⟩ := by
  rcases
      Reaches.finished openingLine (P := P)
        (Fw.powerOn ()) [] false
        (pdiInitOps openingLine 1000 (Fw.powerOn ())) [] with
    ⟨queue, txc, hFinished⟩
  rw [List.append_nil, runOps_pdiInitOps] at hFinished
  rcases
      Reaches.drained openingLine (P := P) opened
        queue txc [] with
    ⟨txc', hDrained⟩
  exact
    ⟨txc',
      (hFinished.head
        (Moves.pdiInit _ _ _ 1000 hStart)).trans hDrained⟩

/- The raw write done, with its last byte in flight. -/
theorem reaches_rawWrite
    {P : Machine Unit → Prop}
    (txc : Bool) :
    Reaches openingLine P ⟨opened, [], txc, []⟩
      ⟨written, [opened.ram 0], false, []⟩ := by
  rcases
      Reaches.finished openingLine (P := P) opened []
        txc rawWriteOps [.send (opened.ram 0)] with
    ⟨queue, txc', hFinished⟩
  have hLeaves :
      UsartOp.Leaves (.send (opened.ram 0))
        (runOps openingLine rawWriteOps opened) queue
        [opened.ram 0] :=
    ⟨[], List.nil_suffix, Nat.zero_le 1, rfl⟩
  rw [written, runOps_append]
  exact
    (hFinished.head
      (Moves.served opened [] txc served_rawWrite)).tail
      (.proceeds (.executed _ txc' _ [] hLeaves))

/-
  Once the last byte of a raw write is through, the session
  can be closed.
-/
theorem safe_of_quietStarts_afterRawWrite :
    ∃ txc,
      Machine.Safe
        ⟨written, [], txc, pdiExitOps openingLine⟩ := by
  rcases reaches_opened (P := Machine.Quiet) rfl with
    ⟨txc, hOpened⟩
  rcases
      Reaches.drained openingLine
        (P := Machine.Quiet) written [opened.ram 0] false
        [] with
    ⟨txc', hDrained⟩
  refine ⟨txc', ?_⟩
  apply (safe_of_quietStarts openingLine ()).1
  exact
    ((hOpened.trans (reaches_rawWrite txc)).trans
      hDrained).tail (Moves.pdiExit _ _ _ rfl)

/-
  A `RELEASE_INTERFACE` right behind a raw write cuts off the
  byte that was written.
-/
theorem not_safe_rawWrite :
    ¬ ∀ m,
        Reaches openingLine (fun _ => True)
            (Machine.powerOn ()) m →
          m.Safe := by
  intro hSafe
  rcases
      reaches_opened (P := fun _ => True) trivial with
    ⟨txc, hOpened⟩
  rcases
      (cut_of_busyStart openingLine written false
        (List.cons_ne_nil (opened.ram 0) [])).2 with
    ⟨m, hCut, hNot⟩
  have hWritten :=
    (hOpened.trans (reaches_rawWrite txc)).tail
      (Moves.pdiExit _ _ _ trivial)
  exact hNot (hSafe m (hWritten.trans hCut))

end Lucax
