import Lucax.Host.Programmer

/-
  A record of the transfers a driver call makes, over any
  libusb.

  Key definitions include:
    * `Record`
    * `Libusb.recorded`
-/

------------------------------------------------------------
-- Records
------------------------------------------------------------

namespace Lucax

/-
  The control requests made, with the bytes of their data
  stage, and the code and bytes of every bulk transfer.
-/
structure Record where
  control : List (Request × List UInt8)
  bulkIn : List (Int × List UInt8)
  bulkOut : List (Int × List UInt8)
deriving DecidableEq, Repr

namespace Record

def empty : Record where
  control := []
  bulkIn := []
  bulkOut := []

def addControl
    (r : Request)
    (data : List UInt8)
    (record : Record) : Record :=
  { record with control := record.control ++ [(r, data)] }

def addBulkIn
    (results : List (Int × List UInt8))
    (record : Record) : Record :=
  { record with bulkIn := record.bulkIn ++ results }

def addBulkOut
    (results : List (Int × List UInt8))
    (record : Record) : Record :=
  { record with bulkOut := record.bulkOut ++ results }

@[simp] theorem addBulkIn_nil
    (record : Record) :
    record.addBulkIn [] = record := by
  rw [addBulkIn, List.append_nil]

@[simp] theorem addBulkOut_nil
    (record : Record) :
    record.addBulkOut [] = record := by
  rw [addBulkOut, List.append_nil]

theorem addBulkIn_cons
    (result : Int × List UInt8)
    (results : List (Int × List UInt8))
    (record : Record) :
    record.addBulkIn (result :: results) =
      (record.addBulkIn [result]).addBulkIn results := by
  simp [addBulkIn]

theorem addBulkOut_cons
    (result : Int × List UInt8)
    (results : List (Int × List UInt8))
    (record : Record) :
    record.addBulkOut (result :: results) =
      (record.addBulkOut [result]).addBulkOut results := by
  simp [addBulkOut]

end Record

variable {ℓ : Type}

/- A libusb that writes down what passes through it. -/
def Libusb.recorded
    (usb : Libusb ℓ) : Libusb (ℓ × Record) where
  controlOut l r data :=
    let out := usb.controlOut l.1 r data
    (out.1, (out.2, l.2.addControl r data))
  controlIn l r :=
    let out := usb.controlIn l.1 r
    (out.1, (out.2, l.2.addControl r []))
  bulkOut l packet :=
    let out := usb.bulkOut l.1 packet
    (out.1,
      (out.2,
        l.2.addBulkOut [(out.1.1, packet.take out.1.2)]))
  bulkIn l length :=
    let out := usb.bulkIn l.1 length
    (out.1, (out.2, l.2.addBulkIn [out.1]))

section Recorded

variable (usb : Libusb ℓ) (l : ℓ) (record : Record)

theorem recorded_controlOut
    (r : Request)
    (data : List UInt8) :
    usb.recorded.controlOut (l, record) r data =
      ((usb.controlOut l r data).1,
        ((usb.controlOut l r data).2,
          record.addControl r data)) := rfl

theorem recorded_bulkOut
    (packet : List UInt8) :
    usb.recorded.bulkOut (l, record) packet =
      ((usb.bulkOut l packet).1,
        ((usb.bulkOut l packet).2,
          record.addBulkOut
            [((usb.bulkOut l packet).1.1,
              packet.take (usb.bulkOut l packet).1.2)])) := rfl

theorem recorded_bulkIn
    (length : Nat) :
    usb.recorded.bulkIn (l, record) length =
      ((usb.bulkIn l length).1,
        ((usb.bulkIn l length).2,
          record.addBulkIn [(usb.bulkIn l length).1])) := rfl

end Recorded

/-
  What libusb promises of a bulk transfer: it moves at most
  the length it is given.
-/
structure Libusb.Bounded (usb : Libusb ℓ) : Prop where
  bulkIn : ∀ l length, (usb.bulkIn l length).1.2.length ≤ length
  bulkOut :
    ∀ l packet, (usb.bulkOut l packet).1.2 ≤ packet.length

end Lucax
