import Mathlib.Logic.Relation
import Lucax.Driver.Nvm

/-
  The driver calls as sequences of `send_byte`, `read_byte`
  and changes of memory, said once for all that is true of
  every such sequence.

  Key definitions include:
    * `PdiStep`, `PdiSteps`

  Main declarations:
    * `Call.exec_steps`
    * `Call.exec_first`
    * `Call.exec_congr`
-/

------------------------------------------------------------
-- Steps
------------------------------------------------------------

namespace Lucax

open Relation

variable {τ : Type}

/- One thing a driver call does. -/
inductive PdiStep
    (line : Line τ) :
    Fw τ → Fw τ → Prop where
| send (s : Fw τ) (b : UInt8) : PdiStep line s (sendByte line b s)
| read (s : Fw τ) : PdiStep line s (readByte line s).2
| memory
    (s : Fw τ) (ram : Nat → UInt8)
    (reads : List (UInt32 × Option UInt8))
    (touched : List Nat) :
    PdiStep line s
      { s with ram := ram, reads := reads, touched := touched }

/- Any number of them. -/
abbrev PdiSteps (line : Line τ) : Fw τ → Fw τ → Prop :=
  ReflTransGen (PdiStep line)

section Steps

variable (line : Line τ) (s : Fw τ)

theorem feed_steps
    (bytes : List UInt8) :
    PdiSteps line s (feed line bytes s) := by
  induction bytes generalizing s with
  | nil => exact ReflTransGen.refl
  | cons b bytes ih =>
      rw [feed_cons]
      exact (ih _).head (PdiStep.send s b)

/- The frames behind the first one. -/
theorem feed_first
    {b : UInt8}
    {bytes rest : List UInt8}
    (hFrames : bytes = b :: rest) :
    PdiSteps line (sendByte line b s) (feed line bytes s) := by
  subst hFrames
  rw [feed_cons]
  exact feed_steps line _ rest

theorem touch_steps
    (indices : List Nat) :
    PdiSteps line s (s.touch indices) :=
  ReflTransGen.single (PdiStep.memory s _ _ _)

theorem logRead_steps
    (address : UInt32)
    (reply : Option UInt8) :
    PdiSteps line s (s.logRead address reply) :=
  ReflTransGen.single (PdiStep.memory s _ _ _)

theorem storeByte_steps
    (i : Nat)
    (b : UInt8) :
    PdiSteps line s (s.storeByte i b) :=
  ReflTransGen.single (PdiStep.memory s _ _ _)

theorem readByte_steps :
    PdiSteps line s (readByte line s).2 :=
  ReflTransGen.single (PdiStep.read s)

theorem pdiWriteRaw_steps
    (data : Ptr)
    (count : Nat) :
    PdiSteps line s (pdiWriteRaw line data count s) := by
  rw [pdiWriteRaw_eq]
  exact (feed_steps line s _).trans (touch_steps line _ _)

/- The receive loop; by induction on the bytes missing. -/
theorem readLoop_steps
    (n : Nat)
    (address : UInt32)
    (data : Nat) :
    PdiSteps line s (readLoop line n address data s).2 := by
  induction n generalizing address data s with
  | zero => exact ReflTransGen.refl
  | succ n ih =>
      have hRead := readByte_steps line s
      rw [readLoop]
      split
      · rename_i after hAnswer
        rw [hAnswer] at hRead
        exact hRead.trans (logRead_steps line _ _ _)
      · rename_i b after hAnswer
        rw [hAnswer] at hRead
        exact ((hRead.trans (logRead_steps line _ _ _)).trans
          (storeByte_steps line _ _ _)).trans (ih _ _ _)

/- What follows the instruction of a direct load. -/
theorem loadAnswer_steps
    (address : UInt32)
    (data : UInt8) :
    PdiSteps line s
      (match readByte line s with
        | (none, s) =>
            (((.timeOut, data), s.logRead address none) :
              (PdiResult × UInt8) × Fw τ)
        | (some b, s) =>
            ((.noError, b), s.logRead address (some b))).2 := by
  have hRead := readByte_steps line s
  split
  all_goals
    rename_i hAnswer
    rw [hAnswer] at hRead
    exact hRead.trans (logRead_steps line _ _ _)

theorem pdiReadByte_steps
    (address : UInt32)
    (data : UInt8) :
    PdiSteps line s (pdiReadByte line address data s).2 := by
  cases hOn : s.pdiOn with
  | false =>
      rw [pdiReadByte_disabled line hOn]
  | true =>
      rw [pdiReadByte_enabled line hOn]
      exact (feed_steps line s _).trans
        (loadAnswer_steps line _ address data)

theorem pdiWriteByte_steps
    (address : UInt32)
    (data : UInt8) :
    PdiSteps line s (pdiWriteByte line address data s).2 := by
  cases hOn : s.pdiOn with
  | false =>
      rw [pdiWriteByte_disabled line hOn]
  | true =>
      rw [pdiWriteByte_enabled line hOn]
      exact feed_steps line s _

theorem pdiReadBytes_steps
    (start : UInt32)
    (data : Nat)
    (count : UInt16) :
    PdiSteps line s
      (pdiReadBytes line start data count s).2 := by
  cases hOn : s.pdiOn with
  | false =>
      rw [pdiReadBytes_disabled line hOn]
  | true =>
      rw [pdiReadBytes_enabled line hOn]
      exact (feed_steps line s _).trans
        (readLoop_steps line _ _ _ _)

theorem pdiWriteBytes_steps
    (start : UInt32)
    (data : Ptr)
    (count : UInt16) :
    PdiSteps line s
      (pdiWriteBytes line start data count s).2 := by
  cases hOn : s.pdiOn with
  | false =>
      rw [pdiWriteBytes_disabled line hOn]
  | true =>
      rw [pdiWriteBytes_enabled line hOn]
      exact (feed_steps line s _).trans
        (pdiWriteRaw_steps line _ _ _)

theorem nvmCmd_steps
    (c : UInt8) :
    PdiSteps line s (nvmCmd line c s) :=
  pdiWriteByte_steps line s _ c

theorem trigCmdex_steps :
    PdiSteps line s (trigCmdex line s) :=
  pdiWriteByte_steps line s _ _

theorem nvmPointer_steps
    (c : UInt32) :
    PdiSteps line s (nvmPointer line c s) := by
  rw [nvmPointer_eq_feed]
  exact feed_steps line s _

/- The polls; by induction on the tries left. -/
theorem waitLoop_steps
    (n : Nat) :
    PdiSteps line s (waitLoop line n s).2 := by
  induction n generalizing s with
  | zero => exact ReflTransGen.refl
  | succ n ih =>
      have hRead := pdiReadByte_steps line s nvmStatusReg 0
      rw [waitLoop]
      split
      · rename_i status after hPoll
        rw [hPoll] at hRead
        split
        · exact hRead
        · exact hRead.trans (ih _)
      · rename_i ret status after hFailed hPoll
        rw [hPoll] at hRead
        exact hRead

theorem waitNvm_steps :
    PdiSteps line s (waitNvm line s).2 := by
  have hLoop := waitLoop_steps line s 0xff
  unfold waitNvm
  split
  · rename_i ret after hEnd
    rw [hEnd] at hLoop
    exact hLoop
  · rename_i wait after hEnd
    rw [hEnd] at hLoop
    split
    · exact hLoop
    · exact hLoop

/- A page write behind its first pointer. -/
theorem nvmPagedWrite_steps
    (address : UInt32)
    (data : Ptr)
    (count : UInt16)
    (mem : PagedMemory) :
    PdiSteps line (nvmPointer line address s)
      (nvmPagedWrite line address data count mem s).2 := by
  have hErased :=
    ((nvmCmd_steps line (nvmPointer line address s)
      mem.eraseBufferCmd).trans (trigCmdex_steps line _)).trans
      (waitNvm_steps line _)
  have hLoaded :=
    (hErased.trans
      (nvmCmd_steps line _ mem.loadBufferCmd)).trans
      (pdiWriteBytes_steps line _ address data count)
  have hTriggered :=
    ((hLoaded.trans
      (nvmCmd_steps line _ mem.eraseWriteCmd)).trans
      (nvmPointer_steps line _ address)).trans
      (pdiWriteRaw_steps line _
        (.array
          [pdiStoreIndirect ||| (ptrDataInc <<< 2), 0x00]) 2)
  exact hTriggered.trans (waitNvm_steps line _)

/- A byte write behind its first command. -/
theorem nvmWriteByte_steps
    (address : UInt32)
    (data : UInt8)
    (mem : ByteMemory) :
    PdiSteps line (nvmCmd line mem.writeCmd s)
      (nvmWriteByte line address data mem s).2 := by
  have hWritten :=
    pdiWriteByte_steps line (nvmCmd line mem.writeCmd s)
      address data
  cases mem with
  | fuse => exact hWritten.trans (waitNvm_steps line _)
  | lock =>
      exact (hWritten.trans (trigCmdex_steps line _)).trans
        (waitNvm_steps line _)

/- Every driver call is such a sequence. -/
theorem Call.exec_steps
    (c : Call) :
    PdiSteps line s (c.exec line s).2 := by
  cases c with
  | pdiReadByte address =>
      exact pdiReadByte_steps line s address 0
  | pdiWriteByte address data =>
      exact pdiWriteByte_steps line s address data
  | pdiReadBytes start data count =>
      exact pdiReadBytes_steps line s start data count
  | pdiWriteBytes start data count =>
      exact pdiWriteBytes_steps line s start data count
  | nvmChipErase =>
      exact ((nvmCmd_steps line s _).trans
        (trigCmdex_steps line _)).trans (waitNvm_steps line _)
  | nvmReadByte address =>
      exact (nvmCmd_steps line s _).trans
        (pdiReadByte_steps line _ address 0)
  | nvmReadBytes address data count =>
      exact (nvmCmd_steps line s _).trans
        (pdiReadBytes_steps line _ address data count)
  | nvmWriteByte address data mem =>
      exact (nvmCmd_steps line s _).trans
        (nvmWriteByte_steps line s address data mem)
  | nvmPagedWrite address data count mem =>
      have hPage :=
        nvmPagedWrite_steps line s address data count mem
      simp only [Call.exec]
      exact (nvmPointer_steps line s address).trans hPage

/- In an open session a call begins with a frame. -/
theorem Call.exec_first
    {s : Fw τ}
    (hOn : s.pdiOn = true)
    (c : Call) :
    ∃ b, PdiSteps line (sendByte line b s) (c.exec line s).2 := by
  have hCmd :
      ∀ command,
        PdiSteps line (sendByte line 0x4C s)
          (nvmCmd line command s) := by
    intro command
    rw [nvmCmd, pdiWriteByte_enabled line hOn]
    exact feed_first line s rfl
  cases c with
  | pdiReadByte address =>
      refine ⟨0x0C, ?_⟩
      have hLoad :
          PdiSteps line (sendByte line 0x0C s)
            (feed line (ldsFrames address) s) :=
        feed_first line s rfl
      simp only [Call.exec]
      rw [pdiReadByte_enabled line hOn]
      exact hLoad.trans (loadAnswer_steps line _ address 0)
  | pdiWriteByte address data =>
      refine ⟨0x4C, ?_⟩
      simp only [Call.exec]
      rw [pdiWriteByte_enabled line hOn]
      exact feed_first line s rfl
  | pdiReadBytes start data count =>
      refine ⟨0x6B, ?_⟩
      have hHeader :
          PdiSteps line (sendByte line 0x6B s)
            (feed line (streamFrames start count 0x24) s) :=
        feed_first line s rfl
      simp only [Call.exec]
      rw [pdiReadBytes_enabled line hOn]
      exact hHeader.trans (readLoop_steps line _ _ _ _)
  | pdiWriteBytes start data count =>
      refine ⟨0x6B, ?_⟩
      have hHeader :
          PdiSteps line (sendByte line 0x6B s)
            (feed line (streamFrames start count 0x64) s) :=
        feed_first line s rfl
      simp only [Call.exec]
      rw [pdiWriteBytes_enabled line hOn]
      exact hHeader.trans (pdiWriteRaw_steps line _ _ _)
  | nvmChipErase =>
      exact ⟨0x4C, ((hCmd _).trans
        (trigCmdex_steps line _)).trans (waitNvm_steps line _)⟩
  | nvmReadByte address =>
      exact ⟨0x4C, (hCmd _).trans
        (pdiReadByte_steps line _ address 0)⟩
  | nvmReadBytes address data count =>
      exact ⟨0x4C, (hCmd _).trans
        (pdiReadBytes_steps line _ address data count)⟩
  | nvmWriteByte address data mem =>
      exact ⟨0x4C, (hCmd _).trans
        (nvmWriteByte_steps line s address data mem)⟩
  | nvmPagedWrite address data count mem =>
      refine ⟨0x6B, ?_⟩
      have hPointer :
          PdiSteps line (sendByte line 0x6B s)
            (nvmPointer line address s) := by
        rw [nvmPointer_eq_feed]
        exact feed_first line s rfl
      have hPage :=
        hPointer.trans
          (nvmPagedWrite_steps line s address data count mem)
      simp only [Call.exec]
      exact hPage

/- Frames are the same if the first one is. -/
theorem feed_congr
    {s s' : Fw τ}
    (hSend : ∀ b, sendByte line b s = sendByte line b s')
    (bytes : List UInt8)
    (hSome : bytes ≠ []) :
    feed line bytes s = feed line bytes s' := by
  cases bytes with
  | nil => contradiction
  | cons b rest => rw [feed_cons, feed_cons, hSend]

/-
  In an open session a call looks at the target with its
  first frame and not before.
-/
theorem Call.exec_congr
    {s s' : Fw τ}
    (hOn : s.pdiOn = true)
    (hOn' : s'.pdiOn = true)
    (hSend : ∀ b, sendByte line b s = sendByte line b s')
    (c : Call) :
    c.exec line s = c.exec line s' := by
  have hCmd :
      ∀ command,
        nvmCmd line command s = nvmCmd line command s' := by
    intro command
    rw [nvmCmd, nvmCmd, pdiWriteByte_enabled line hOn,
      pdiWriteByte_enabled line hOn',
      feed_congr line hSend (stsFrames nvmCmdReg command)
        (List.cons_ne_nil _ _)]
  cases c with
  | pdiReadByte address =>
      simp only [Call.exec]
      rw [pdiReadByte_enabled line hOn,
        pdiReadByte_enabled line hOn',
        feed_congr line hSend (ldsFrames address)
          (List.cons_ne_nil _ _)]
  | pdiWriteByte address data =>
      simp only [Call.exec]
      rw [pdiWriteByte_enabled line hOn,
        pdiWriteByte_enabled line hOn',
        feed_congr line hSend (stsFrames address data)
          (List.cons_ne_nil _ _)]
  | pdiReadBytes start data count =>
      simp only [Call.exec]
      rw [pdiReadBytes_enabled line hOn,
        pdiReadBytes_enabled line hOn',
        feed_congr line hSend (streamFrames start count 0x24)
          (List.cons_ne_nil _ _)]
  | pdiWriteBytes start data count =>
      simp only [Call.exec]
      rw [pdiWriteBytes_enabled line hOn,
        pdiWriteBytes_enabled line hOn',
        feed_congr line hSend (streamFrames start count 0x64)
          (List.cons_ne_nil _ _)]
  | nvmChipErase =>
      simp only [Call.exec, Lucax.nvmChipErase]
      rw [hCmd]
  | nvmReadByte address =>
      simp only [Call.exec, Lucax.nvmReadByte]
      rw [hCmd]
  | nvmReadBytes address data count =>
      simp only [Call.exec, Lucax.nvmReadBytes]
      rw [hCmd]
  | nvmWriteByte address data mem =>
      simp only [Call.exec, Lucax.nvmWriteByte]
      rw [hCmd]
  | nvmPagedWrite address data count mem =>
      have hPointer :
          nvmPointer line address s =
            nvmPointer line address s' := by
        rw [nvmPointer_eq_feed, nvmPointer_eq_feed]
        exact feed_congr line hSend (pointerFrames address)
          (List.cons_ne_nil _ _)
      simp only [Call.exec, Lucax.nvmPagedWrite]
      rw [hPointer]

end Steps

end Lucax
