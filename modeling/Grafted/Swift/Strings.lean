import Mathlib.Data.List.TakeDrop
import Mathlib.Tactic.IntervalCases
import Grafted.Base.PackedBytes
import Grafted.Cf.Strings

/-! Strings of Swift: the form Darwin passes, and the form Linux takes.

A small string has its bytes in two words, and its count in the top byte. The translation makes a
small string of whatever it understands. It is idempotent (`toLinuxString_again`), and what
it makes of a bridged string denotes the same bytes exactly when there is room for them
(`toLinuxString_bridged_iff`). -/
namespace Grafted.Swift.Strings
open ByteMemory PackedBytes
open Cf.Strings (Heap CFStringInner K_CF_NULL oneString oneString_isString accent accent_isString)

structure DarwinString where
  word0 : Word
  word1 : Word

structure LinuxString where
  word0 : Word
  word1 : Word

/-! ### Small strings -/

/-- Byte `i` of the 15 of a small string. -/
def contentByte (word0 word1 : Word) (i : Nat) : Byte :=
  if i < 8 then byteAt word0 i else byteAt word1 (i - 8)

def smallCount (word1 : Word) : Nat := ((word1 >>> 56) &&& 0x0F).toNat

/-- Into the Linux small string format. -/
def packSmall (bytes : Nat → Byte) (count : Nat) : LinuxString :=
  ⟨pack bytes count 0 8, pack bytes count 8 7 ||| (0xE0 ||| BitVec.ofNat 64 count) <<< 56⟩

namespace DarwinString

def isSmall (s : DarwinString) : Prop := s.word1 >>> 60 = 0xE

instance (s : DarwinString) : Decidable s.isSmall :=
  inferInstanceAs (Decidable (s.word1 >>> 60 = 0xE))

def isBridged (s : DarwinString) : Prop := (s.word1 >>> 62) &&& 1 = 1

instance (s : DarwinString) : Decidable s.isBridged :=
  inferInstanceAs (Decidable ((s.word1 >>> 62) &&& 1 = 1))

/-- Nothing if the first word of a bridged string points to what is no string. -/
def toLinuxString (h : Heap) (s : DarwinString) : Option LinuxString :=
  if s.isSmall then some (packSmall (contentByte s.word0 s.word1) (smallCount s.word1))
  else if s.isBridged then
    if s.word0 = K_CF_NULL then some (packSmall (fun _ => 0) 0)
    else (h.deref s.word0).map fun inner =>
      packSmall (fun i => inner.bytes.getD i 0) (min inner.bytes.length 15)
  else some ⟨s.word0, s.word1⟩

end DarwinString

namespace LinuxString

/-- The string as it would be passed on. -/
def darwin (s : LinuxString) : DarwinString := ⟨s.word0, s.word1⟩

/-- The bytes that a small string denotes. -/
def utf8 (s : LinuxString) : Option (List Byte) :=
  if s.word1 >>> 60 = 0xE then
    some ((List.range (smallCount s.word1)).map (contentByte s.word0 s.word1))
  else none

end LinuxString

/-! ### Packing -/

theorem toNat_ushiftRight_56 (w : Word) : (byteAt w 7).toNat = w.toNat / 2 ^ 56 := by
  have hshift := congrArg BitVec.toNat (ushiftRight_56 w)
  have hbyte := (byteAt w 7).isLt
  rw [BitVec.toNat_ushiftRight, Nat.shiftRight_eq_div_pow, BitVec.toNat_setWidth] at hshift
  omega

theorem isSmall_iff (w : Word) : w >>> 60 = 0xE ↔ (byteAt w 7).toNat / 16 = 14 := by
  rw [toNat_ushiftRight_56, ← BitVec.toNat_inj, BitVec.toNat_ushiftRight,
    Nat.shiftRight_eq_div_pow]
  show w.toNat / 2 ^ 60 = 14 ↔ _
  omega

theorem smallCount_eq (w : Word) : smallCount w = (byteAt w 7).toNat % 16 := by
  rw [smallCount, toNat_ushiftRight_56, BitVec.toNat_and, BitVec.toNat_ushiftRight,
    Nat.shiftRight_eq_div_pow]
  exact Nat.and_two_pow_sub_one_eq_mod _ 4

theorem smallCount_lt (w : Word) : smallCount w < 16 := by
  rw [smallCount_eq]
  exact Nat.mod_lt _ (by decide)

/-- The mark and the count are in the top byte. -/
theorem byteAt_mark {count j : Nat} (h : count < 16) (hj : j < 8) :
    byteAt ((0xE0 ||| BitVec.ofNat 64 count) <<< 56) j =
      if j = 7 then 0xE0 ||| BitVec.ofNat 8 count else 0 := by
  have hmark : (0xE0 ||| BitVec.ofNat 64 count : Word) =
      (0xE0 ||| BitVec.ofNat 8 count : Byte).setWidth 64 := by
    interval_cases count <;> rfl
  rw [hmark]
  exact byteAt_shiftLeft (i := 7) _ hj

/-- The top byte is the count, under the mark. -/
theorem top_packSmall (bytes : Nat → Byte) {count : Nat} (h : count < 16) :
    byteAt (packSmall bytes count).word1 7 = 0xE0 ||| BitVec.ofNat 8 count := by
  rw [packSmall, byteAt_or, byteAt_pack _ _ _ _ (by decide), byteAt_mark h (by decide),
    if_neg fun h => Nat.lt_irrefl 7 h.1, if_pos rfl]
  exact BitVec.zero_or

theorem toNat_top_packSmall (bytes : Nat → Byte) {count : Nat} (h : count < 16) :
    (byteAt (packSmall bytes count).word1 7).toNat = 224 + count := by
  rw [top_packSmall bytes h]
  interval_cases count <;> rfl

theorem isSmall_packSmall (bytes : Nat → Byte) {count : Nat} (h : count < 16) :
    (packSmall bytes count).word1 >>> 60 = 0xE := by
  rw [isSmall_iff, toNat_top_packSmall bytes h]
  omega

theorem smallCount_packSmall (bytes : Nat → Byte) {count : Nat} (h : count < 16) :
    smallCount (packSmall bytes count).word1 = count := by
  rw [smallCount_eq, toNat_top_packSmall bytes h]
  omega

/-- The bytes that were packed, and zeros after them. -/
theorem contentByte_packSmall (bytes : Nat → Byte) {count i : Nat} (h : count < 16) (hi : i < 15) :
    contentByte (packSmall bytes count).word0 (packSmall bytes count).word1 i =
      if i < count then bytes i else 0 := by
  unfold contentByte
  by_cases hlow : i < 8
  · rw [if_pos hlow]
    show byteAt (pack bytes count 0 8) i = _
    rw [byteAt_pack _ _ _ _ hlow, Nat.zero_add]
    exact if_congr (by omega) rfl rfl
  · obtain ⟨k, rfl⟩ := Nat.exists_eq_add_of_le (Nat.not_lt.mp hlow)
    have hk : k < 7 := by omega
    rw [if_neg hlow, Nat.add_sub_cancel_left]
    rw [packSmall, byteAt_or, byteAt_pack _ _ _ _ (by omega), byteAt_mark h (by omega),
      if_neg (by omega : k ≠ 7)]
    exact BitVec.or_zero.trans (if_congr (by omega) rfl rfl)

theorem packSmall_congr {bytes bytes' : Nat → Byte} {count : Nat}
    (h : ∀ i < count, bytes i = bytes' i) : packSmall bytes count = packSmall bytes' count := by
  rw [packSmall, packSmall, pack_congr h, pack_congr h]

theorem utf8_packSmall (bytes : Nat → Byte) {count : Nat} (h : count < 16) :
    (packSmall bytes count).utf8 = some ((List.range count).map bytes) := by
  rw [LinuxString.utf8, if_pos (isSmall_packSmall bytes h), smallCount_packSmall bytes h]
  refine congrArg some (List.map_congr_left fun i hi => ?_)
  have hi := List.mem_range.mp hi
  rw [contentByte_packSmall bytes h (by omega), if_pos hi]

/-! ### Small strings are translated to themselves -/

theorem toLinuxString_small {h : Heap} {s : DarwinString} (hs : s.isSmall) :
    s.toLinuxString h = some (packSmall (contentByte s.word0 s.word1) (smallCount s.word1)) :=
  if_pos hs

/-- What was packed is not changed. -/
theorem packSmall_again (h : Heap) (bytes : Nat → Byte) {count : Nat} (hcount : count < 16) :
    (packSmall bytes count).darwin.toLinuxString h = some (packSmall bytes count) := by
  have hsmall : (packSmall bytes count).darwin.isSmall := isSmall_packSmall bytes hcount
  have hsame : smallCount (packSmall bytes count).darwin.word1 = count :=
    smallCount_packSmall bytes hcount
  rw [toLinuxString_small hsmall, hsame]
  refine congrArg some (packSmall_congr fun i hi => ?_)
  exact (contentByte_packSmall bytes hcount (by omega)).trans (if_pos hi)

theorem toLinuxString_again (h : Heap) (s : DarwinString) :
    ((s.toLinuxString h).bind fun r => r.darwin.toLinuxString h) = s.toLinuxString h := by
  by_cases hsmall : s.isSmall
  · rw [toLinuxString_small hsmall]
    exact packSmall_again h _ (smallCount_lt s.word1)
  · by_cases hbridged : s.isBridged
    · rw [DarwinString.toLinuxString, if_neg hsmall, if_pos hbridged]
      by_cases hnull : s.word0 = K_CF_NULL
      · rw [if_pos hnull]
        exact packSmall_again h _ (by decide)
      · rw [if_neg hnull]
        cases h.deref s.word0 with
        | none => rfl
        | some inner => exact packSmall_again h _ (by omega)
    · have hsame : s.toLinuxString h = some ⟨s.word0, s.word1⟩ := by
        rw [DarwinString.toLinuxString, if_neg hsmall, if_neg hbridged]
      rw [hsame]
      exact hsame

/-- The same count and content, zeros after it, and nothing else. -/
structure Normalised (s : DarwinString) (r : LinuxString) : Prop where
  count : smallCount r.word1 = smallCount s.word1
  content : ∀ i < smallCount s.word1,
    contentByte r.word0 r.word1 i = contentByte s.word0 s.word1 i
  zeros : ∀ i, smallCount s.word1 ≤ i → i < 15 → contentByte r.word0 r.word1 i = 0
  discriminator : r.word1 >>> 56 = 0xE0 ||| BitVec.ofNat 64 (smallCount s.word1)

theorem normalised_packSmall (s : DarwinString) :
    Normalised s (packSmall (contentByte s.word0 s.word1) (smallCount s.word1)) := by
  have hlt := smallCount_lt s.word1
  refine ⟨smallCount_packSmall _ hlt, fun i hi => ?_, fun i hle hi => ?_, ?_⟩
  · rw [contentByte_packSmall _ hlt (by omega), if_pos hi]
  · rw [contentByte_packSmall _ hlt hi, if_neg (by omega)]
  · rw [ushiftRight_56, top_packSmall _ hlt]
    generalize smallCount s.word1 = count at hlt
    interval_cases count <;> rfl

/-- The translation is idempotent, and on small strings it only clears what is not content. -/
theorem toLinuxString_normalises (h : Heap) (s : DarwinString) :
    ((s.toLinuxString h).bind fun r => r.darwin.toLinuxString h) = s.toLinuxString h ∧
      (s.isSmall → ∃ r, s.toLinuxString h = some r ∧ Normalised s r) :=
  ⟨toLinuxString_again h s, fun hsmall => ⟨_, toLinuxString_small hsmall, normalised_packSmall s⟩⟩

/-! ### Bridged strings -/

theorem map_getD_range (bytes : List Byte) {n : Nat} (hn : n ≤ bytes.length) :
    (List.range n).map (fun i => bytes.getD i 0) = bytes.take n := by
  refine List.ext_getElem (by simp [hn]) fun i hi hi' => ?_
  rw [List.length_map, List.length_range] at hi
  simp [Nat.lt_of_lt_of_le hi hn]

/-- The bytes there is room for. -/
theorem utf8_bridged {h : Heap} {s : DarwinString} {inner : CFStringInner} (hsmall : ¬s.isSmall)
    (hbridged : s.isBridged) (hs : h.IsString s.word0 inner) :
    (s.toLinuxString h).bind LinuxString.utf8 = some (inner.bytes.take 15) := by
  rw [DarwinString.toLinuxString, if_neg hsmall, if_pos hbridged, if_neg hs.nonNull, hs.deref]
  show (packSmall _ _).utf8 = _
  rw [utf8_packSmall _ (by omega), map_getD_range _ (Nat.min_le_left ..), Nat.min_comm,
    ← List.take_eq_take_min]

/-- The Linux string denotes what the string holds exactly when that is at most 15 bytes. -/
theorem toLinuxString_bridged_iff {h : Heap} {s : DarwinString} {inner : CFStringInner}
    (hsmall : ¬s.isSmall) (hbridged : s.isBridged) (hs : h.IsString s.word0 inner) :
    (s.toLinuxString h).bind LinuxString.utf8 = some inner.bytes ↔ inner.bytes.length ≤ 15 := by
  rw [utf8_bridged hsmall hbridged hs, Option.some_inj, List.take_eq_self_iff]

/-- The string at `0x2000`. -/
def bridged : DarwinString := ⟨0x2000, 0x4000000000000000⟩

theorem toLinuxString_bridged_accent :
    (bridged.toLinuxString (oneString 0x2000 accent)).bind LinuxString.utf8 = some accent.bytes :=
  (toLinuxString_bridged_iff (by decide) (by decide) accent_isString).mpr (by decide)

/-- Eight times `"é"`: the last one loses its second byte. -/
def accents : CFStringInner :=
  ⟨[0xc3, 0xa9, 0xc3, 0xa9, 0xc3, 0xa9, 0xc3, 0xa9, 0xc3, 0xa9, 0xc3, 0xa9, 0xc3, 0xa9, 0xc3, 0xa9],
    0x3000, rfl⟩

theorem accents_cut :
    ¬(bridged.toLinuxString (oneString 0x2000 accents)).bind LinuxString.utf8 =
      some accents.bytes := by
  have hs := oneString_isString (by decide : (0x2000 : Cf.Strings.Ref) ≠ K_CF_NULL) accents
  rw [utf8_bridged (by decide) (by decide) hs]
  exact fun h => absurd (congrArg (Option.map List.length) h) (by decide)

end Grafted.Swift.Strings
