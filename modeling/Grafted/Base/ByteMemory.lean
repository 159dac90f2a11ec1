import Mathlib.Algebra.Group.Nat.Defs
import Mathlib.Data.List.Basic

/-! Bytes, little-endian numbers, and a flat memory of words.

`fromLE` reads a list of bytes as a number and `byteLE` is a byte of a number;
each undoes the other (`fromLE_bytesLE`). A `Memory` gives every 64-bit address a
byte. Words are eight bytes at any address, aligned or not, and addresses wrap:
two words do not share a byte when their addresses are `Apart`. -/
namespace ByteMemory

abbrev Byte := BitVec 8

/-! ### Little-endian numbers -/

def fromLE : List Byte → Nat
  | [] => 0
  | b :: rest => b.toNat + 256 * fromLE rest

/-- Byte `i` of a number. -/
def byteLE (n i : Nat) : Byte := BitVec.ofNat 8 (n / 256 ^ i)

def bytesLE (n size : Nat) : List Byte := (List.range size).map (byteLE n)

theorem fromLE_append (bytes : List Byte) (b : Byte) :
    fromLE (bytes ++ [b]) = fromLE bytes + 256 ^ bytes.length * b.toNat := by
  induction bytes with
  | nil => simp [fromLE]
  | cons x rest ih =>
    simp only [List.cons_append, fromLE, ih, List.length_cons, Nat.pow_succ, Nat.mul_add]
    rw [Nat.mul_comm (256 ^ rest.length) 256, Nat.mul_assoc, Nat.add_assoc]

theorem fromLE_bytesLE (n size : Nat) : fromLE (bytesLE n size) = n % 256 ^ size := by
  induction size with
  | zero => simp [bytesLE, fromLE, Nat.mod_one]
  | succ size ih =>
    have hsplit : bytesLE n (size + 1) = bytesLE n size ++ [byteLE n size] := by
      simp [bytesLE, List.range_succ]
    have hlen : (bytesLE n size).length = size := by simp [bytesLE]
    have hbyte : (byteLE n size).toNat = n / 256 ^ size % 256 := by simp [byteLE]
    rw [hsplit, fromLE_append, ih, hlen, hbyte, Nat.pow_succ, Nat.mod_mul]

theorem byteLE_fromLE {bytes : List Byte} {i : Nat} (h : i < bytes.length) :
    byteLE (fromLE bytes) i = bytes[i] := by
  induction bytes generalizing i with
  | nil => exact absurd h (Nat.not_lt_zero i)
  | cons b rest ih =>
    have hb := b.isLt
    cases i with
    | zero =>
      apply BitVec.eq_of_toNat_eq
      rw [byteLE, fromLE, BitVec.toNat_ofNat, Nat.pow_zero, Nat.div_one]
      show (b.toNat + 256 * fromLE rest) % 2 ^ 8 = b.toNat
      omega
    | succ i =>
      have hdrop : (b.toNat + 256 * fromLE rest) / 256 = fromLE rest := by omega
      have hrest := ih (Nat.lt_of_succ_lt_succ h)
      rw [byteLE] at hrest ⊢
      rw [fromLE, Nat.pow_succ', ← Nat.div_div_eq_div_mul, hdrop]
      exact hrest

/-- The unsigned number of `size` bytes at an offset of a file, if they are there. -/
def readLE (data : List Byte) (offset size : Nat) : Option Nat :=
  if offset + size ≤ data.length then some (fromLE ((data.drop offset).take size)) else none

theorem fromLE_lt (bytes : List Byte) : fromLE bytes < 256 ^ bytes.length := by
  induction bytes with
  | nil => exact Nat.one_pos
  | cons b rest ih =>
    have hb := b.isLt
    rw [fromLE, List.length_cons, Nat.pow_succ]
    omega

theorem readLE_some {data : List Byte} {offset size n : Nat} :
    readLE data offset size = some n ↔
      offset + size ≤ data.length ∧ fromLE ((data.drop offset).take size) = n := by
  unfold readLE
  split_ifs with h
  · simp [h]
  · simp [h]

theorem readLE_lt {data : List Byte} {offset size n : Nat} (h : readLE data offset size = some n) :
    n < 256 ^ size := by
  obtain ⟨-, rfl⟩ := readLE_some.mp h
  have hlen := List.length_take_le size (data.drop offset)
  exact Nat.lt_of_lt_of_le (fromLE_lt _) (Nat.pow_le_pow_right (by decide) hlen)

/-- A number of a part of a file is a number of the file. -/
theorem readLE_part {data : List Byte} {offset len k size n : Nat} (hsize : 0 < size)
    (h : readLE ((data.drop offset).take len) k size = some n) :
    readLE data (offset + k) size = some n := by
  obtain ⟨hin, hnumber⟩ := readLE_some.mp h
  rw [List.length_take, List.length_drop] at hin
  have hbytes : (((data.drop offset).take len).drop k).take size = (data.drop (offset + k)).take size := by
    rw [List.drop_take, List.take_take, List.drop_drop, Nat.min_eq_left (by omega)]
  rw [hbytes] at hnumber
  exact readLE_some.mpr ⟨by omega, hnumber⟩

/-! ### Memory -/

abbrev Address := BitVec 64
abbrev Word := BitVec 64
def Memory := Address → Byte

namespace Memory

def readWord (m : Memory) (a : Address) : Word :=
  BitVec.ofNat 64 (fromLE ((List.range 8).map fun i => m (a + BitVec.ofNat 64 i)))

def writeWord (m : Memory) (a : Address) (v : Word) : Memory :=
  fun x => if (x - a).toNat < 8 then byteLE v.toNat (x - a).toNat else m x

def writeByte (m : Memory) (a : Address) (b : Byte) : Memory := fun x => if x = a then b else m x

@[simp] theorem writeByte_self (m : Memory) (a : Address) (b : Byte) : m.writeByte a b a = b :=
  if_pos rfl

theorem writeByte_of_ne (m : Memory) {a x : Address} (b : Byte) (h : x ≠ a) :
    m.writeByte a b x = m x := if_neg h

/-- The words at the two addresses share no byte. -/
def Apart (a b : Address) : Prop := 8 ≤ (a - b).toNat ∧ 8 ≤ (b - a).toNat

instance (a b : Address) : Decidable (Apart a b) :=
  inferInstanceAs (Decidable (8 ≤ (a - b).toNat ∧ 8 ≤ (b - a).toNat))

theorem Apart.symm {a b : Address} (h : Apart a b) : Apart b a := ⟨h.2, h.1⟩

theorem offset_sub (a : Address) {i : Nat} (hi : i < 8) : (a + BitVec.ofNat 64 i - a).toNat = i := by
  have hsub : a + BitVec.ofNat 64 i - a = BitVec.ofNat 64 i := by
    rw [BitVec.add_comm, BitVec.add_sub_cancel]
  rw [hsub, BitVec.toNat_ofNat]
  omega

/-- A word depends on its eight bytes. -/
theorem readWord_congr {m m' : Memory} {a : Address}
    (h : ∀ i < 8, m (a + BitVec.ofNat 64 i) = m' (a + BitVec.ofNat 64 i)) :
    m.readWord a = m'.readWord a := by
  unfold readWord
  congr 2
  exact List.map_congr_left fun i hi => h i (List.mem_range.mp hi)

@[simp] theorem readWord_writeWord (m : Memory) (a : Address) (v : Word) :
    (m.writeWord a v).readWord a = v := by
  have hbytes : ((List.range 8).map fun i => m.writeWord a v (a + BitVec.ofNat 64 i)) =
      bytesLE v.toNat 8 := by
    refine List.map_congr_left fun i hi => ?_
    have hi : i < 8 := List.mem_range.mp hi
    simp only [writeWord, offset_sub a hi, hi, if_true]
  have hlt : v.toNat % 256 ^ 8 = v.toNat := Nat.mod_eq_of_lt v.isLt
  rw [readWord, hbytes, fromLE_bytesLE, hlt, BitVec.ofNat_toNat, BitVec.setWidth_eq]

/-- A byte of the word that is read. -/
theorem byteLE_readWord (m : Memory) (a : Address) {i : Nat} (hi : i < 8) :
    byteLE (m.readWord a).toNat i = m (a + BitVec.ofNat 64 i) := by
  have hlength : ((List.range 8).map fun i => m (a + BitVec.ofNat 64 i)).length = 8 := rfl
  have hlt := fromLE_lt ((List.range 8).map fun i => m (a + BitVec.ofNat 64 i))
  rw [hlength, (by decide : 256 ^ 8 = 2 ^ 64)] at hlt
  rw [readWord, BitVec.toNat_ofNat, Nat.mod_eq_of_lt hlt, byteLE_fromLE (hlength ▸ hi)]
  simp only [List.getElem_map, List.getElem_range]

/-- Writing the word that is there. -/
theorem writeWord_readWord (m : Memory) (a : Address) : m.writeWord a (m.readWord a) = m := by
  funext x
  unfold writeWord
  by_cases hx : (x - a).toNat < 8
  · have hat : a + BitVec.ofNat 64 (x - a).toNat = x := by
      rw [BitVec.ofNat_toNat, BitVec.setWidth_eq, BitVec.add_comm, BitVec.sub_add_cancel]
    rw [if_pos hx, byteLE_readWord m a hx, hat]
  · exact if_neg hx

/-- A write leaves the bytes outside its word. -/
theorem writeWord_outside (m : Memory) {a x : Address} (v : Word) (h : 8 ≤ (x - a).toNat) :
    m.writeWord a v x = m x := if_neg (Nat.not_lt.mpr h)

theorem readWord_writeWord_apart (m : Memory) {a b : Address} (v : Word) (h : Apart a b) :
    (m.writeWord a v).readWord b = m.readWord b := by
  obtain ⟨hab, hba⟩ := h
  refine readWord_congr fun i hi => writeWord_outside m v ?_
  bv_omega

/-- Store the words in order. -/
def writeWords (m : Memory) (stores : List (Address × Word)) : Memory :=
  stores.foldl (fun m store => m.writeWord store.1 store.2) m

@[simp] theorem writeWords_cons (m : Memory) (store : Address × Word)
    (rest : List (Address × Word)) :
    m.writeWords (store :: rest) = (m.writeWord store.1 store.2).writeWords rest := rfl

theorem writeWords_append (m : Memory) (stores stores' : List (Address × Word)) :
    m.writeWords (stores ++ stores') = (m.writeWords stores).writeWords stores' :=
  List.foldl_append

theorem writeWords_outside {m : Memory} {x : Address} {stores : List (Address × Word)}
    (h : ∀ store ∈ stores, 8 ≤ (x - store.1).toNat) : m.writeWords stores x = m x := by
  induction stores generalizing m with
  | nil => rfl
  | cons store rest ih =>
    have hfirst := h store List.mem_cons_self
    rw [writeWords_cons, ih fun s hs => h s (List.mem_cons_of_mem store hs),
      writeWord_outside m store.2 hfirst]

theorem readWord_writeWords_apart {m : Memory} {a : Address} {stores : List (Address × Word)}
    (h : ∀ store ∈ stores, Apart store.1 a) : (m.writeWords stores).readWord a = m.readWord a := by
  induction stores generalizing m with
  | nil => rfl
  | cons store rest ih =>
    have hfirst := h store List.mem_cons_self
    rw [writeWords_cons, ih fun s hs => h s (List.mem_cons_of_mem store hs),
      readWord_writeWord_apart m store.2 hfirst]

/-- Words stored apart from each other are all there at the end. -/
theorem readWord_writeWords {m : Memory} {stores : List (Address × Word)}
    (hapart : stores.Pairwise fun s s' => Apart s.1 s'.1) {a : Address} {v : Word}
    (h : (a, v) ∈ stores) : (m.writeWords stores).readWord a = v := by
  induction stores generalizing m with
  | nil => exact nomatch h
  | cons store rest ih =>
    obtain ⟨hfirst, hrest⟩ := List.pairwise_cons.mp hapart
    rw [writeWords_cons]
    rcases List.mem_cons.mp h with rfl | h
    · rw [readWord_writeWords_apart fun s hs => (hfirst s hs).symm, readWord_writeWord]
    · exact ih hrest h

end Memory

end ByteMemory
