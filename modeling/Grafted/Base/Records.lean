import Grafted.Base.Blocks
import Grafted.Base.CLayout

/-! Structures of C at an address.

The fields of a record are written, its padding is not. What was written is read again
(`readRecord_writeRecord`), and a write outside the record leaves it (`Keeps.readRecord`). -/
namespace ByteMemory
open CLayout
open X86 (readBytes length_readBytes readBytes_congr Within)

namespace Memory
variable {fields : List Field} {values : List Nat}

/-- The bytes of the record, over what was there. -/
def recordBytes (m : Memory) (a : Address) (fields : List Field) (values : List Nat) : List Byte :=
  encodeFrom 0 fields values (readBytes m a (endFrom 0 fields))

def writeRecord (m : Memory) (a : Address) (fields : List Field) (values : List Nat) : Memory :=
  m.writeBytes a (m.recordBytes a fields values)

def readRecord (m : Memory) (a : Address) (fields : List Field) : List Nat :=
  decodeFrom 0 fields (readBytes m a (endFrom 0 fields))

theorem length_recordBytes (m : Memory) (a : Address) (fields : List Field) (values : List Nat) :
    (m.recordBytes a fields values).length = endFrom 0 fields := by
  have hlength := length_readBytes m a (endFrom 0 fields)
  exact (length_encodeFrom (Nat.le_of_eq hlength.symm)).trans hlength

theorem readRecord_writeRecord (m : Memory) (a : Address) (hsize : endFrom 0 fields ≤ 2 ^ 64)
    (hfits : Fits fields values) :
    (m.writeRecord a fields values).readRecord a fields = values := by
  have hlength := length_recordBytes m a fields values
  have hread : readBytes (m.writeBytes a (m.recordBytes a fields values)) a
      (m.recordBytes a fields values).length = m.recordBytes a fields values :=
    readBytes_writeBytes m a (by rw [hlength]; exact hsize)
  rw [hlength] at hread
  have hbytes := length_readBytes m a (endFrom 0 fields)
  unfold readRecord writeRecord
  rw [hread]
  exact decodeFrom_encodeFrom (Nat.le_of_eq hbytes.symm) hfits

theorem Keeps.readRecord {m m' : Memory} {b : Block} (h : m.Keeps m' b) (hfits : b.Fits)
    {a : Address} (hlo : b.base.toNat ≤ a.toNat)
    (hhi : a.toNat + endFrom 0 fields ≤ b.base.toNat + b.size) :
    m'.readRecord a fields = m.readRecord a fields := by
  unfold Block.Fits at hfits
  unfold Memory.readRecord
  rw [readBytes_congr fun i hi => h _ ?_ ?_]
  all_goals
    unfold Within at hi
    bv_omega

end Memory

end ByteMemory
