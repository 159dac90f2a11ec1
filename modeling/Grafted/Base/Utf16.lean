import Grafted.Base.Utf8

/-! UTF-16: the code units of bytes that are UTF-8.

A character is one unit, or two from U+10000 on. There are never more units than bytes
(`length_units_le`), and as many exactly when every byte is ASCII (`length_units_iff`). -/
namespace Utf16
open ByteMemory Utf8

/-- The bits of a first byte that are of the scalar value, when so many bytes follow it. -/
def leading (b : Byte) : Nat → Nat
  | 0 => b.toNat
  | n + 1 => b.toNat % 2 ^ (5 - n)

/-- The scalar value of a character. -/
def scalar (b : Byte) (tail : List Byte) : Nat :=
  tail.foldl (fun value next => value * 64 + next.toNat % 64) (leading b tail.length)

/-- One unit, or a pair of surrogates. -/
def encode (value : Nat) : List (BitVec 16) :=
  if value < 0x10000 then [BitVec.ofNat 16 value]
  else
    [0xd800 + BitVec.ofNat 16 ((value - 0x10000) / 0x400),
      0xdc00 + BitVec.ofNat 16 ((value - 0x10000) % 0x400)]

def unitsUpTo : Nat → List Byte → List (BitVec 16)
  | 0, _ => []
  | _ + 1, [] => []
  | n + 1, b :: rest =>
    encode (scalar b (rest.take (chunk b rest).1)) ++ unitsUpTo n (rest.drop (chunk b rest).1)

/-- The code units of the characters, in order. -/
def units (bytes : List Byte) : List (BitVec 16) := unitsUpTo bytes.length bytes

def Ascii (bytes : List Byte) : Prop := ∀ b ∈ bytes, b ≤ 0x7f

theorem unitsUpTo_congr {n k : Nat} {bytes : List Byte} (hn : bytes.length ≤ n)
    (hk : bytes.length ≤ k) : unitsUpTo n bytes = unitsUpTo k bytes := by
  refine upTo_congr unitsUpTo
    (fun b rest later => encode (scalar b (rest.take (chunk b rest).1)) ++ later)
    (fun n k => ?_) (fun _ _ _ => rfl) hn hk
  cases n <;> cases k <;> rfl

theorem units_cons (b : Byte) (rest : List Byte) : units (b :: rest) =
    encode (scalar b (rest.take (chunk b rest).1)) ++ units (rest.drop (chunk b rest).1) :=
  congrArg _ (unitsUpTo_congr (length_drop_le _ rest (Nat.le_refl _)) (Nat.le_refl _))

/-- `U+20AC` and `U+1F600`: three bytes are one unit, four are two. -/
example : units [0xe2, 0x82, 0xac, 0xf0, 0x9f, 0x98, 0x80] = [0x20ac, 0xd83d, 0xde00] := by decide

/-! ### One character -/

theorem length_encode_le (value : Nat) : (encode value).length ≤ 2 := by
  unfold encode
  split_ifs
  · exact (by decide : 1 ≤ 2)
  · exact Nat.le_refl 2

theorem length_encode_one {value : Nat} (h : value < 0x10000) : (encode value).length = 1 := by
  rw [encode, if_pos h, List.length_singleton]

/-- A byte alone is one unit. -/
theorem length_encode_alone (b : Byte) : (encode (scalar b [])).length = 1 := by
  have hlt := b.isLt
  apply length_encode_one
  show b.toNat < 0x10000
  omega

/-- Two bytes are below U+0800, and more are at most two units. -/
theorem length_encode_tail (b : Byte) {tail : List Byte} (h : tail ≠ []) :
    (encode (scalar b tail)).length ≤ tail.length := by
  match tail with
  | [] => exact absurd rfl h
  | [next] =>
    apply Nat.le_of_eq
    apply length_encode_one
    show b.toNat % 2 ^ 5 * 64 + next.toNat % 64 < 0x10000
    omega
  | next :: next' :: rest =>
    have hle := length_encode_le (scalar b (next :: next' :: rest))
    exact Nat.le_trans hle (Nat.le_add_left 2 rest.length)

/-- A character of one byte is an ASCII byte. -/
theorem chunk_alone {b : Byte} {rest : List Byte} (h : (chunk b rest).2 = true) :
    (chunk b rest).1 = 0 ↔ b ≤ 0x7f := by
  unfold chunk at h ⊢
  cases htails : tails b with
  | none =>
    rw [htails] at h
    cases h
  | some ranges =>
    rw [htails] at h
    cases ranges with
    | nil =>
      refine ⟨fun _ => ?_, fun _ => rfl⟩
      by_contra hb
      rw [tails, if_neg hb] at htails
      split_ifs at htails <;> cases htails
    | cons range more =>
      have hb : ¬b ≤ 0x7f := by
        intro hb
        rw [tails, if_pos hb] at htails
        cases htails
      refine ⟨fun hzero => ?_, fun hle => absurd hle hb⟩
      cases rest with
      | nil => cases h
      | cons next rest =>
        simp only [inRanges] at h hzero
        split_ifs at h hzero

/-! ### All characters -/

theorem length_units_cons (b : Byte) (rest : List Byte) : (units (b :: rest)).length =
    (encode (scalar b (rest.take (chunk b rest).1))).length +
      (units (rest.drop (chunk b rest).1)).length := by
  rw [units_cons, List.length_append]

theorem length_units_le (bytes : List Byte) : (units bytes).length ≤ bytes.length := by
  induction bytes using chunk_induction with
  | nil => exact Nat.le_refl 0
  | cons b rest ih =>
    have hsplit := congrArg List.length (List.take_append_drop (chunk b rest).1 rest)
    rw [List.length_append] at hsplit
    rw [length_units_cons, List.length_cons]
    cases htail : rest.take (chunk b rest).1 with
    | nil =>
      have hone := length_encode_alone b
      omega
    | cons next tail =>
      have hle := length_encode_tail b (List.cons_ne_nil next tail)
      rw [htail] at hsplit
      omega

theorem length_units_iff {bytes : List Byte} (h : valid bytes) :
    (units bytes).length = bytes.length ↔ Ascii bytes := by
  induction bytes using chunk_induction with
  | nil => exact ⟨fun _ b hb => (nomatch hb), fun _ => rfl⟩
  | cons b rest ih =>
    rw [valid_cons, Bool.and_eq_true] at h
    have halone := chunk_alone h.1
    rw [length_units_cons, List.length_cons, Ascii, List.forall_mem_cons]
    by_cases hb : b ≤ 0x7f
    · have hone := length_encode_alone b
      have hrest := ih h.2
      rw [halone.mpr hb, List.drop_zero] at hrest ⊢
      rw [List.take_zero, hone, Nat.add_comm, Nat.add_right_cancel_iff, hrest]
      exact ⟨fun hascii => ⟨hb, hascii⟩, fun hboth => hboth.2⟩
    · refine ⟨fun hlength => ?_, fun hascii => absurd hascii.1 hb⟩
      -- a longer character has fewer units than bytes, and the rest does not make up for it
      have hlater := length_units_le (rest.drop (chunk b rest).1)
      have hsplit := congrArg List.length (List.take_append_drop (chunk b rest).1 rest)
      rw [List.length_append] at hsplit
      have htail : rest.take (chunk b rest).1 ≠ [] := by
        intro hnil
        obtain ⟨-, hin⟩ := chunk_take h.1 []
        have hlen := congrArg List.length hnil
        rw [List.length_take, List.length_nil] at hlen
        exact hb (halone.mp (by omega))
      have hle := length_encode_tail b htail
      omega

end Utf16
