import Grafted.Base.ByteRanges

/-! Blocks of memory that have no byte in common.

A write to one block leaves what is in another: its bytes, and so the strings, the words and the
numbers that are read there. -/
namespace ByteMemory
open X86 (Within readBytes length_readBytes readWord_within)

structure Block where
  base : Address
  size : Nat

namespace Block

/-- It ends before the addresses do. -/
def Fits (b : Block) : Prop := b.base.toNat + b.size < 2 ^ 64

instance (b : Block) : Decidable b.Fits := inferInstanceAs (Decidable (_ < _))

/-- No byte is in both. -/
def Off (b b' : Block) : Prop :=
  b.base.toNat + b.size ≤ b'.base.toNat ∨ b'.base.toNat + b'.size ≤ b.base.toNat

instance (b b' : Block) : Decidable (Off b b') := inferInstanceAs (Decidable (_ ∨ _))

theorem Off.symm {b b' : Block} (h : Off b b') : Off b' b := Or.symm h

/-- A part of a block is off what the block is off. -/
theorem Off.part {b b' : Block} (h : Off b b') {a : Address} {n : Nat}
    (hlo : b.base.toNat ≤ a.toNat) (hhi : a.toNat + n ≤ b.base.toNat + b.size) : Off ⟨a, n⟩ b' := by
  unfold Off at h ⊢
  dsimp only
  omega

end Block

namespace Memory
variable {m m' m'' : Memory} {b : Block}

/-- The block holds what it held. -/
def Keeps (m m' : Memory) (b : Block) : Prop := m.SameIn m' b.base.toNat (b.base.toNat + b.size)

theorem Keeps.refl (m : Memory) (b : Block) : m.Keeps m b := fun _ _ _ => rfl

theorem Keeps.trans (h : m.Keeps m' b) (h' : m'.Keeps m'' b) : m.Keeps m'' b :=
  fun x hlo hhi => (h' x hlo hhi).trans (h x hlo hhi)

theorem keeps_writeBytes {a : Address} {bytes : List Byte} (hfits : a.toNat + bytes.length < 2 ^ 64)
    (hoff : Block.Off ⟨a, bytes.length⟩ b) : m.Keeps (m.writeBytes a bytes) b := by
  intro x hlo hhi
  refine writeBytes_outside hfits ?_
  rcases hoff with h | h
  · exact .inr (Nat.le_trans h hlo)
  · exact .inl (Nat.lt_of_lt_of_le hhi h)

theorem keeps_writeByte {a : Address} {v : Byte} (hoff : Block.Off ⟨a, 1⟩ b) :
    m.Keeps (m.writeByte a v) b := by
  intro x hlo hhi
  refine writeByte_of_ne m v ?_
  rintro rfl
  rcases hoff with h | h
  · exact Nat.not_succ_le_self _ (Nat.le_trans h hlo)
  · exact Nat.not_succ_le_self _ (Nat.lt_of_lt_of_le hhi h)

theorem keeps_writeWord {a : Address} {v : Word} (hfits : a.toNat + 8 ≤ 2 ^ 64)
    (hoff : Block.Off ⟨a, 8⟩ b) : m.Keeps (m.writeWord a v) b := by
  intro x hlo hhi
  refine writeWord_outside m v ?_
  simp only [Block.Off] at hoff
  bv_omega

theorem keeps_writeU32 {a : Address} {v : BitVec 32} (hfits : a.toNat + 4 < 2 ^ 64)
    (hoff : Block.Off ⟨a, 4⟩ b) : m.Keeps (m.writeU32 a v) b := by
  have hlength := length_bytesLE_four v.toNat
  refine keeps_writeBytes (by omega) ?_
  rw [hlength]
  exact hoff

/-! ### What is read in a block -/

/-- Part of what was written. -/
theorem readBytes_written (m : Memory) (a : Address) {bytes : List Byte} {k n : Nat}
    (hlength : bytes.length ≤ 2 ^ 64) (h : k + n ≤ bytes.length) :
    readBytes (m.writeBytes a bytes) (a + BitVec.ofNat 64 k) n = (bytes.drop k).take n := by
  refine List.ext_getElem? fun i => ?_
  by_cases hi : i < n
  · have hback : (a + BitVec.ofNat 64 k + BitVec.ofNat 64 i - a).toNat = k + i := by
      bv_omega
    have hin : k + i < bytes.length := by omega
    rw [getElem?_readBytes _ _ hi, writeBytes_apply hlength, hback,
      List.getElem?_take_of_lt hi, List.getElem?_drop, List.getElem?_eq_getElem hin]
    rfl
  · have hread : (readBytes (m.writeBytes a bytes) (a + BitVec.ofNat 64 k) n).length = n :=
      length_readBytes ..
    have htake : ((bytes.drop k).take n).length ≤ n := List.length_take_le ..
    rw [List.getElem?_eq_none (by omega), List.getElem?_eq_none (by omega)]

/-- Of bytes that were written, with a zero byte after them, a string is what is before the first
zero byte. -/
theorem cString_takeWhile (m : Memory) {a : Address} {bytes : List Byte}
    (hfits : a.toNat + bytes.length < 2 ^ 64) :
    ((m.writeBytes a bytes).writeByte (a + BitVec.ofNat 64 bytes.length) 0).CString a
      (bytes.takeWhile (· != 0)) := by
  induction bytes generalizing m a with
  | nil =>
    have hend : a + BitVec.ofNat 64 0 = a := BitVec.add_zero a
    rw [List.length_nil, hend]
    exact writeByte_self m a 0
  | cons b rest ih =>
    rw [List.length_cons] at hfits
    have hnext : (a + 1).toNat = a.toNat + 1 := toNat_add_ofNat (n := 1) (by omega)
    have hend : a + BitVec.ofNat 64 (b :: rest).length = a + 1 + BitVec.ofNat 64 rest.length := by
      rw [List.length_cons, Nat.add_comm, BitVec.ofNat_add, BitVec.add_assoc]
      rfl
    have hne : a ≠ a + 1 + BitVec.ofNat 64 rest.length := by
      intro heq
      have hnat := congrArg BitVec.toNat heq
      rw [toNat_add_ofNat (by omega)] at hnat
      omega
    have hrest := ih (m.writeByte a b) (a := a + 1) (by omega)
    have hfirst : ((m.writeBytes a (b :: rest)).writeByte
        (a + 1 + BitVec.ofNat 64 rest.length) 0) a = b := by
      rw [writeByte_of_ne _ 0 hne, writeBytes, writeBytes_outside (by omega) (by omega),
        writeByte_self]
    rw [hend]
    by_cases hb : b = 0
    · rw [List.takeWhile_cons_of_neg (by simp [hb])]
      exact hfirst.trans hb
    · rw [List.takeWhile_cons_of_pos (by simpa using hb)]
      exact ⟨hb, hfirst, hrest⟩

/-- A string is its bytes and a zero byte, read one after another. -/
theorem cString_iff_readBytes {a : Address} {bytes : List Byte} :
    m.CString a bytes ↔ 0 ∉ bytes ∧ readBytes m a (bytes.length + 1) = bytes ++ [0] := by
  induction bytes generalizing a with
  | nil => simp [CString, readBytes]
  | cons b rest ih =>
    have hread : readBytes m a ((b :: rest).length + 1) =
        m a :: readBytes m (a + 1) (rest.length + 1) := rfl
    rw [CString, ih, hread, List.cons_append, List.cons.injEq, List.mem_cons, not_or]
    constructor
    · rintro ⟨hb, hfirst, hzero, hrest⟩
      exact ⟨⟨Ne.symm hb, hzero⟩, hfirst, hrest⟩
    · rintro ⟨⟨hb, hzero⟩, hfirst, hrest⟩
      exact ⟨Ne.symm hb, hfirst, hzero, hrest⟩

theorem Keeps.cString (h : m.Keeps m' b) (hfits : b.Fits) {a : Address} {bytes : List Byte}
    (hstring : m.CString a bytes) (hlo : b.base.toNat ≤ a.toNat)
    (hhi : a.toNat + bytes.length < b.base.toNat + b.size) : m'.CString a bytes :=
  hstring.congr_in h hlo hhi (Nat.le_of_lt hfits)

theorem Keeps.readWord (h : m.Keeps m' b) (hfits : b.Fits) {a : Address}
    (hlo : b.base.toNat ≤ a.toNat) (hhi : a.toNat + 8 ≤ b.base.toNat + b.size) :
    m'.readWord a = m.readWord a := by
  unfold Block.Fits at hfits
  refine readWord_within fun x hx => h x ?_ ?_ <;>
  · simp only [Within] at hx
    bv_omega

theorem Keeps.readU32 (h : m.Keeps m' b) (hfits : b.Fits) {a : Address}
    (hlo : b.base.toNat ≤ a.toNat) (hhi : a.toNat + 4 ≤ b.base.toNat + b.size) :
    m'.readU32 a = m.readU32 a := by
  unfold Block.Fits at hfits
  refine readU32_congr fun x hx => h x ?_ ?_ <;>
  · simp only [Within] at hx
    bv_omega

theorem Keeps.words (h : m.Keeps m' b) (hfits : b.Fits) {a : Address} {words : List Word}
    (hwords : m.Words a words) (hlo : b.base.toNat ≤ a.toNat)
    (hhi : a.toNat + 8 * words.length ≤ b.base.toNat + b.size) : m'.Words a words := by
  induction words generalizing a with
  | nil => trivial
  | cons w rest ih =>
    rw [List.length_cons] at hhi
    unfold Block.Fits at hfits
    have hnext : (a + 8).toNat = a.toNat + 8 := toNat_add_ofNat (n := 8) (by omega)
    exact ⟨(h.readWord hfits hlo (by omega)).trans hwords.1, ih hwords.2 (by omega) (by omega)⟩

end Memory

end ByteMemory
