import Grafted.Base.ByteMemory

/-! What C reads from memory: strings that end in a zero byte, and arrays of pointers that
end in a null.

`CString` and `Words` say what is there. Reading it back gives the string
(`readCString_eq`), and the pointers up to the null (`readPointers_eq`). Both depend only on
the memory from their address on, so a stack that grows down below them leaves them
alone. -/
namespace ByteMemory

/-- Rounding down to a power of two with a mask. -/
theorem toNat_and_not_mask (a : Address) (k : Nat) :
    (a &&& ~~~BitVec.ofNat 64 (2 ^ k - 1)).toNat = a.toNat / 2 ^ k * 2 ^ k := by
  have hshift : a &&& ~~~BitVec.ofNat 64 (2 ^ k - 1) = (a >>> k) <<< k := by
    apply BitVec.eq_of_getLsbD_eq
    intro i hi
    have hmask : (BitVec.ofNat 64 (2 ^ k - 1)).getLsbD i = decide (i < k) := by
      rw [BitVec.getLsbD_ofNat, Nat.testBit_two_pow_sub_one]
      simp [hi]
    rw [BitVec.getLsbD_and, BitVec.getLsbD_not, hmask, BitVec.getLsbD_shiftLeft,
      BitVec.getLsbD_ushiftRight]
    by_cases hk : i < k
    · simp [hk]
    · simp [hk, hi, Nat.add_sub_cancel' (Nat.not_lt.mp hk)]
  have hle := Nat.div_mul_le_self a.toNat (2 ^ k)
  have hlt := a.isLt
  rw [hshift, BitVec.toNat_shiftLeft, BitVec.toNat_ushiftRight, Nat.shiftRight_eq_div_pow,
    Nat.shiftLeft_eq, Nat.mod_eq_of_lt (by omega)]

theorem toNat_add_ofNat {a : Address} {n : Nat} (h : a.toNat + n < 2 ^ 64) :
    (a + BitVec.ofNat 64 n).toNat = a.toNat + n := by
  rw [BitVec.toNat_add, BitVec.toNat_ofNat]
  omega

theorem toNat_sub_ofNat {a : Address} {n : Nat} (h : n ≤ a.toNat) :
    (a - BitVec.ofNat 64 n).toNat = a.toNat - n := by
  have hlt := a.isLt
  rw [BitVec.toNat_sub, BitVec.toNat_ofNat]
  omega

namespace Memory

/-- The bytes in order, from the address on. -/
def writeBytes (m : Memory) (a : Address) : List Byte → Memory
  | [] => m
  | b :: rest => (m.writeByte a b).writeBytes (a + 1) rest

/-- The two memories are the same from the address on. -/
def SameFrom (m m' : Memory) (lo : Nat) : Prop := ∀ x : Address, lo ≤ x.toNat → m' x = m x

theorem SameFrom.refl (m : Memory) (lo : Nat) : m.SameFrom m lo := fun _ _ => rfl

theorem SameFrom.mono {m m' : Memory} {lo hi : Nat} (h : m.SameFrom m' lo) (hle : lo ≤ hi) :
    m.SameFrom m' hi := fun x hx => h x (Nat.le_trans hle hx)

theorem SameFrom.trans {m m' m'' : Memory} {lo lo' : Nat} (h : m.SameFrom m' lo)
    (h' : m'.SameFrom m'' lo') (hle : lo' ≤ lo) : m.SameFrom m'' lo :=
  fun x hx => (h' x (Nat.le_trans hle hx)).trans (h x hx)

/-- The same from one address to before another. -/
def SameIn (m m' : Memory) (lo hi : Nat) : Prop := ∀ x : Address, lo ≤ x.toNat → x.toNat < hi → m' x = m x

theorem SameFrom.sameIn {m m' : Memory} {lo : Nat} (h : m.SameFrom m' lo) (hi : Nat) :
    m.SameIn m' lo hi := fun x hx _ => h x hx

theorem SameIn.mono {m m' : Memory} {lo lo' hi hi' : Nat} (h : m.SameIn m' lo hi) (hlo : lo ≤ lo')
    (hhi : hi' ≤ hi) : m.SameIn m' lo' hi' :=
  fun x hx hx' => h x (Nat.le_trans hlo hx) (Nat.lt_of_lt_of_le hx' hhi)

theorem writeBytes_outside {m : Memory} {a x : Address} {bytes : List Byte}
    (hfits : a.toNat + bytes.length < 2 ^ 64)
    (hout : x.toNat < a.toNat ∨ a.toNat + bytes.length ≤ x.toNat) : m.writeBytes a bytes x = m x := by
  induction bytes generalizing m a with
  | nil => rfl
  | cons b rest ih =>
    rw [List.length_cons] at hfits hout
    have hnext : (a + 1).toNat = a.toNat + 1 := toNat_add_ofNat (n := 1) (by omega)
    have hne : x ≠ a := by
      intro heq
      rw [heq] at hout
      omega
    have hrest : x.toNat < (a + 1).toNat ∨ (a + 1).toNat + rest.length ≤ x.toNat := by omega
    rw [writeBytes, ih (by omega) hrest, writeByte_of_ne m b hne]

/-! ### Strings -/

/-- The bytes, none of them zero, and a zero byte after them. -/
def CString (m : Memory) (a : Address) : List Byte → Prop
  | [] => m a = 0
  | b :: rest => b ≠ 0 ∧ m a = b ∧ CString m (a + 1) rest

/-- A string is there once its bytes and the zero byte were written. -/
theorem cString_written (m : Memory) {a : Address} {bytes : List Byte} (hnul : 0 ∉ bytes)
    (hfits : a.toNat + bytes.length < 2 ^ 64) :
    ((m.writeBytes a bytes).writeByte (a + BitVec.ofNat 64 bytes.length) 0).CString a bytes := by
  induction bytes generalizing m a with
  | nil =>
    have hend : a + BitVec.ofNat 64 0 = a := BitVec.add_zero a
    rw [List.length_nil, hend]
    exact writeByte_self m a 0
  | cons b rest ih =>
    rw [List.length_cons] at hfits
    have hnext : (a + 1).toNat = a.toNat + 1 := toNat_add_ofNat (n := 1) (by omega)
    have hend : a + BitVec.ofNat 64 (b :: rest).length = a + 1 + BitVec.ofNat 64 rest.length := by
      rw [List.length_cons, Nat.add_comm, BitVec.ofNat_add, BitVec.add_assoc]
      rfl
    have hne : a ≠ a + 1 + BitVec.ofNat 64 rest.length := by
      intro heq
      have hnat := congrArg BitVec.toNat heq
      rw [toNat_add_ofNat (by omega)] at hnat
      omega
    have hrest := ih (m.writeByte a b) (fun hmem => hnul (List.mem_cons_of_mem b hmem))
      (a := a + 1) (by omega)
    rw [hend]
    refine ⟨fun heq => hnul (heq ▸ List.mem_cons_self), ?_, hrest⟩
    rw [writeByte_of_ne _ 0 hne, writeBytes, writeBytes_outside (by omega) (by omega), writeByte_self]

theorem CString.congr_in {m m' : Memory} {lo hi : Nat} {a : Address} {bytes : List Byte}
    (h : m.CString a bytes) (hsame : m.SameIn m' lo hi) (hlo : lo ≤ a.toNat)
    (hhi : a.toNat + bytes.length < hi) (hfits : hi ≤ 2 ^ 64) : m'.CString a bytes := by
  induction bytes generalizing a with
  | nil => exact (hsame a hlo hhi).trans h
  | cons b rest ih =>
    rw [List.length_cons] at hhi
    have hnext : (a + 1).toNat = a.toNat + 1 := toNat_add_ofNat (n := 1) (by omega)
    obtain ⟨hb, hfirst, hrest⟩ := h
    exact ⟨hb, (hsame a hlo (by omega)).trans hfirst, ih hrest (by omega) (by omega)⟩

theorem CString.congr {m m' : Memory} {lo : Nat} {a : Address} {bytes : List Byte}
    (h : m.CString a bytes) (hsame : m.SameFrom m' lo) (hlo : lo ≤ a.toNat)
    (hfits : a.toNat + bytes.length < 2 ^ 64) : m'.CString a bytes :=
  h.congr_in (hsame.sameIn (2 ^ 64)) hlo hfits (Nat.le_refl _)

/-- The string at the address, if it ends before `n` bytes were read. -/
def readCString (m : Memory) : Nat → Address → Option (List Byte)
  | 0, _ => none
  | n + 1, a => if m a = 0 then some [] else (m.readCString n (a + 1)).map (m a :: ·)

theorem readCString_eq {m : Memory} {n : Nat} {a : Address} {bytes : List Byte}
    (h : m.CString a bytes) (hn : bytes.length < n) : m.readCString n a = some bytes := by
  induction bytes generalizing n a with
  | nil =>
    cases n with
    | zero => exact absurd hn (Nat.not_lt_zero _)
    | succ n => exact if_pos h
  | cons b rest ih =>
    cases n with
    | zero => exact absurd hn (Nat.not_lt_zero _)
    | succ n =>
      obtain ⟨hb, hfirst, hrest⟩ := h
      rw [readCString, hfirst, if_neg hb, ih hrest (Nat.lt_of_succ_lt_succ hn)]
      rfl

/-! ### Arrays of pointers -/

/-- The words stand one after another from the address on. -/
def Words (m : Memory) (a : Address) : List Word → Prop
  | [] => True
  | w :: rest => m.readWord a = w ∧ Words m (a + 8) rest

theorem readWord_same {m m' : Memory} {lo : Nat} {a : Address} (hsame : m.SameFrom m' lo)
    (hlo : lo ≤ a.toNat) (hfits : a.toNat + 8 ≤ 2 ^ 64) : m'.readWord a = m.readWord a := by
  apply readWord_congr
  intro i hi
  apply hsame
  rw [toNat_add_ofNat (by omega)]
  omega

theorem Words.congr {m m' : Memory} {lo : Nat} {a : Address} {words : List Word}
    (h : m.Words a words) (hsame : m.SameFrom m' lo) (hlo : lo ≤ a.toNat)
    (hfits : a.toNat + 8 * words.length < 2 ^ 64) : m'.Words a words := by
  induction words generalizing a with
  | nil => trivial
  | cons w rest ih =>
    rw [List.length_cons] at hfits
    have hnext : (a + 8).toNat = a.toNat + 8 := toNat_add_ofNat (n := 8) (by omega)
    obtain ⟨hfirst, hrest⟩ := h
    exact ⟨(readWord_same hsame hlo (by omega)).trans hfirst, ih hrest (by omega) (by omega)⟩

/-- The pointers at the address up to a null, and the address after the null, if it comes
before `n` words were read. -/
def readPointers (m : Memory) : Nat → Address → Option (List Word × Address)
  | 0, _ => none
  | n + 1, a =>
    if m.readWord a = 0 then some ([], a + 8)
    else (m.readPointers n (a + 8)).map fun (pointers, next) => (m.readWord a :: pointers, next)

theorem readPointers_eq {m : Memory} {n : Nat} {a : Address} {pointers rest : List Word}
    (h : m.Words a (pointers ++ 0 :: rest)) (hnull : 0 ∉ pointers) (hn : pointers.length < n) :
    ∃ next, m.readPointers n a = some (pointers, next) ∧ m.Words next rest := by
  induction pointers generalizing n a with
  | nil =>
    cases n with
    | zero => exact absurd hn (Nat.not_lt_zero _)
    | succ n => exact ⟨a + 8, if_pos h.1, h.2⟩
  | cons p others ih =>
    cases n with
    | zero => exact absurd hn (Nat.not_lt_zero _)
    | succ n =>
      obtain ⟨hfirst, hlater⟩ := h
      have hothers : 0 ∉ others := fun hmem => hnull (List.mem_cons_of_mem p hmem)
      obtain ⟨next, hread, hnext⟩ := ih hlater hothers (Nat.lt_of_succ_lt_succ hn)
      have hp : m.readWord a ≠ 0 := by
        rw [hfirst]
        exact fun hzero => hnull (hzero ▸ List.mem_cons_self)
      refine ⟨next, ?_, hnext⟩
      rw [readPointers, if_neg hp, hread, hfirst]
      rfl

end Memory

end ByteMemory
