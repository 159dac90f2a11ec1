import Grafted.Base.CStrings
import Grafted.Base.X86

/-! Writing runs of bytes, one after another, and moving them.

A byte after a write is the byte that was written there, or the one that was there
(`writeBytes_apply`), so what was written is read back (`readU32_writeU32`), and a move is the
same with the bytes of another place (`move_apply`). Addresses wrap, and runs may overlap:
writes that all bring one memory back bring it back wherever one of them is
(`writeAll_restores`). -/
namespace ByteMemory
open X86 (readBytes Within length_readBytes readBytes_congr)

theorem getElem?_readBytes (m : Memory) (a : Address) {n k : Nat} (hk : k < n) :
    (readBytes m a n)[k]? = some (m (a + BitVec.ofNat 64 k)) := by
  induction n generalizing a k with
  | zero => exact absurd hk (Nat.not_lt_zero k)
  | succ n ih =>
    cases k with
    | zero => simp [readBytes]
    | succ k =>
      have hnext : a + BitVec.ofNat 64 (k + 1) = a + 1 + BitVec.ofNat 64 k := by
        bv_omega
      rw [readBytes, List.getElem?_cons_succ, ih (a + 1) (by omega), hnext]

theorem add_offset (a x : Address) : a + BitVec.ofNat 64 (x - a).toNat = x := by
  rw [BitVec.ofNat_toNat, BitVec.setWidth_eq, BitVec.add_comm, BitVec.sub_add_cancel]

namespace Memory

/-- The byte that was written, or the one that was there. -/
theorem writeBytes_apply {m : Memory} {a : Address} {bytes : List Byte}
    (h : bytes.length ≤ 2 ^ 64) (x : Address) :
    m.writeBytes a bytes x = (bytes[(x - a).toNat]?).getD (m x) := by
  induction bytes generalizing m a with
  | nil => rfl
  | cons b rest ih =>
    rw [List.length_cons] at h
    rw [writeBytes, ih (by omega)]
    by_cases hx : x = a
    · subst hx
      have hlast : rest.length ≤ (x - (x + 1)).toNat := by
        bv_omega
      have hfirst : (x - x).toNat = 0 := by
        bv_omega
      rw [List.getElem?_eq_none hlast, hfirst]
      exact writeByte_self m x b
    · have hnext : (x - a).toNat = (x - (a + 1)).toNat + 1 := by
        bv_omega
      rw [hnext, List.getElem?_cons_succ, writeByte_of_ne m b hx]

theorem writeBytes_off {m : Memory} {a x : Address} {bytes : List Byte}
    (h : bytes.length ≤ 2 ^ 64) (hx : ¬Within a bytes.length x) : m.writeBytes a bytes x = m x := by
  rw [writeBytes_apply h, List.getElem?_eq_none (Nat.not_lt.mp hx)]
  rfl

theorem readBytes_writeBytes (m : Memory) (a : Address) {bytes : List Byte}
    (h : bytes.length ≤ 2 ^ 64) : readBytes (m.writeBytes a bytes) a bytes.length = bytes := by
  refine List.ext_getElem? fun i => ?_
  by_cases hi : i < bytes.length
  · have hback : (a + BitVec.ofNat 64 i - a).toNat = i := by
      bv_omega
    rw [getElem?_readBytes _ _ hi, writeBytes_apply h, hback, List.getElem?_eq_getElem hi]
    rfl
  · rw [List.getElem?_eq_none (Nat.not_lt.mp hi), List.getElem?_eq_none]
    rw [length_readBytes]
    exact Nat.not_lt.mp hi

/-! ### Numbers of four bytes, and zeroed blocks -/

def readU32 (m : Memory) (a : Address) : BitVec 32 := BitVec.ofNat 32 (fromLE (readBytes m a 4))

def writeU32 (m : Memory) (a : Address) (v : BitVec 32) : Memory :=
  m.writeBytes a (bytesLE v.toNat 4)

theorem readU32_congr {m m' : Memory} {a : Address} (h : ∀ x, Within a 4 x → m' x = m x) :
    m'.readU32 a = m.readU32 a := by
  rw [readU32, readU32, readBytes_congr h]

theorem length_bytesLE_four (n : Nat) : (bytesLE n 4).length = 4 := by
  rw [bytesLE, List.length_map, List.length_range]

@[simp] theorem readU32_writeU32 (m : Memory) (a : Address) (v : BitVec 32) :
    (m.writeU32 a v).readU32 a = v := by
  have hlength := length_bytesLE_four v.toNat
  have hread : readBytes (m.writeBytes a (bytesLE v.toNat 4)) a (bytesLE v.toNat 4).length =
      bytesLE v.toNat 4 := readBytes_writeBytes m a (by omega)
  rw [hlength] at hread
  have hlt : v.toNat % 256 ^ 4 = v.toNat := Nat.mod_eq_of_lt v.isLt
  rw [readU32, writeU32, hread, fromLE_bytesLE, hlt, BitVec.ofNat_toNat, BitVec.setWidth_eq]

theorem writeU32_off {m : Memory} {a x : Address} {v : BitVec 32} (h : ¬Within a 4 x) :
    m.writeU32 a v x = m x := by
  have hlength := length_bytesLE_four v.toNat
  exact writeBytes_off (by omega) (hlength ▸ h)

theorem writeByte_off {m : Memory} {a x : Address} {v : Byte} (h : ¬Within a 1 x) :
    m.writeByte a v x = m x := by
  refine writeByte_of_ne m v ?_
  rintro rfl
  unfold Within at h
  bv_omega

/-- `calloc`, where the allocator picked the address. -/
def calloc (m : Memory) (a : Address) (n : Nat) : Memory := fun x => if Within a n x then 0 else m x

theorem calloc_off {m : Memory} {a x : Address} {n : Nat} (h : ¬Within a n x) :
    m.calloc a n x = m x := if_neg h

/-! ### Moves -/

/-- `memmove`: all bytes are read before one is written. -/
def move (m : Memory) (dst src : Address) (n : Nat) : Memory :=
  m.writeBytes dst (readBytes m src n)

theorem move_apply (m : Memory) (dst src : Address) {n : Nat} (hn : n ≤ 2 ^ 64) (x : Address) :
    m.move dst src n x =
      if Within dst n x then m (src + BitVec.ofNat 64 (x - dst).toNat) else m x := by
  have hlength := length_readBytes m src n
  by_cases hx : Within dst n x
  · rw [if_pos hx, move, writeBytes_apply (by omega), getElem?_readBytes m src hx]
    rfl
  · rw [if_neg hx]
    exact writeBytes_off (by omega) (hlength.symm ▸ hx)

/-! ### Writes in order -/

/-- Bytes and where they go. -/
structure Write where
  addr : Address
  bytes : List Byte

def writeAll (m : Memory) (writes : List Write) : Memory :=
  writes.foldl (fun m w => m.writeBytes w.addr w.bytes) m

/-- A memory on the way: some writes are done, and a part of the next. -/
def OnTheWay (m : Memory) (writes : List Write) (m' : Memory) : Prop :=
  ∃ done w rest k, writes = done ++ w :: rest ∧
    m' = (m.writeAll done).writeBytes w.addr (w.bytes.take k)

theorem writeAll_off {m : Memory} {writes : List Write} {x : Address}
    (hshort : ∀ w ∈ writes, w.bytes.length ≤ 2 ^ 64)
    (hx : ∀ w ∈ writes, ¬Within w.addr w.bytes.length x) : m.writeAll writes x = m x := by
  induction writes generalizing m with
  | nil => rfl
  | cons w rest ih =>
    have hrest := ih (m := m.writeBytes w.addr w.bytes)
      (fun w' hw' => hshort w' (List.mem_cons_of_mem w hw'))
      (fun w' hw' => hx w' (List.mem_cons_of_mem w hw'))
    exact hrest.trans (writeBytes_off (hshort w List.mem_cons_self) (hx w List.mem_cons_self))

/-- What no write touches is never changed. -/
theorem onTheWay_off {m m' : Memory} {writes : List Write} {x : Address}
    (hshort : ∀ w ∈ writes, w.bytes.length ≤ 2 ^ 64)
    (hx : ∀ w ∈ writes, ¬Within w.addr w.bytes.length x) (h : m.OnTheWay writes m') :
    m' x = m x := by
  obtain ⟨done, w, rest, k, rfl, rfl⟩ := h
  have hw : w ∈ done ++ w :: rest := List.mem_append_right done List.mem_cons_self
  have htake : (w.bytes.take k).length ≤ w.bytes.length := List.length_take_le' k w.bytes
  rw [writeBytes_off (Nat.le_trans htake (hshort w hw))
    fun hin => hx w hw (Nat.lt_of_lt_of_le hin htake)]
  exact writeAll_off (fun w' hw' => hshort w' (List.mem_append_left _ hw'))
    fun w' hw' => hx w' (List.mem_append_left _ hw')

/-- Each write has the bytes of one memory. Then that memory is back where one of them is,
however they overlap. -/
theorem writeAll_restores {m m₀ : Memory} {writes : List Write}
    (hshort : ∀ w ∈ writes, w.bytes.length ≤ 2 ^ 64)
    (hsaved : ∀ w ∈ writes, w.bytes = readBytes m₀ w.addr w.bytes.length) {x : Address}
    (hx : m x = m₀ x ∨ ∃ w ∈ writes, Within w.addr w.bytes.length x) :
    m.writeAll writes x = m₀ x := by
  induction writes generalizing m with
  | nil => exact hx.resolve_right fun ⟨_, h, _⟩ => nomatch h
  | cons w rest ih =>
    refine ih (m := m.writeBytes w.addr w.bytes)
      (fun w' hw' => hshort w' (List.mem_cons_of_mem w hw'))
      (fun w' hw' => hsaved w' (List.mem_cons_of_mem w hw')) ?_
    by_cases hw : Within w.addr w.bytes.length x
    · refine .inl ?_
      rw [writeBytes_apply (hshort w List.mem_cons_self), hsaved w List.mem_cons_self,
        getElem?_readBytes m₀ w.addr hw, add_offset]
      rfl
    · rcases hx with hx | ⟨w', hw', hin⟩
      · exact .inl ((writeBytes_off (hshort w List.mem_cons_self) hw).trans hx)
      · rcases List.mem_cons.mp hw' with rfl | hrest
        · exact absurd hin hw
        · exact .inr ⟨w', hrest, hin⟩

end Memory

end ByteMemory
