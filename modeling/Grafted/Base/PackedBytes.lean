import Grafted.Base.ByteMemory

/-! The bytes of a word.

`byteAt` takes one out. `pack` puts a run of bytes into a word as far as there are any, and what
is taken out again is what was put in (`byteAt_pack`). The top byte is what a shift to the
right leaves (`ushiftRight_56`). -/
namespace PackedBytes
open ByteMemory

def byteAt (w : Word) (i : Nat) : Byte := w.extractLsb' (8 * i) 8

theorem getLsbD_byteAt (w : Word) (i k : Nat) :
    (byteAt w i).getLsbD k = (decide (k < 8) && w.getLsbD (8 * i + k)) :=
  BitVec.getLsbD_extractLsb' ..

theorem byteAt_or (w w' : Word) (i : Nat) : byteAt (w ||| w') i = byteAt w i ||| byteAt w' i :=
  BitVec.extractLsb'_or

theorem byteAt_zero (i : Nat) : byteAt 0 i = 0 := by
  simp [byteAt]

/-- A byte that is moved to its place. -/
theorem byteAt_shiftLeft (b : Byte) {i j : Nat} (hj : j < 8) :
    byteAt (b.setWidth 64 <<< (8 * i)) j = if j = i then b else 0 := by
  apply BitVec.eq_of_getLsbD_eq
  intro k hk
  rw [getLsbD_byteAt, BitVec.getLsbD_shiftLeft, BitVec.getLsbD_setWidth]
  by_cases hij : j = i
  · subst hij
    have hin : 8 * j + k < 64 := by omega
    have hback : 8 * j + k - 8 * j = k := by omega
    have hbyte : k < 64 := by omega
    simp [hk, hin, hback, hbyte]
  · rw [if_neg hij]
    by_cases hlt : 8 * j + k < 8 * i
    · simp [hlt]
    · have hover : b.getLsbD (8 * j + k - 8 * i) = false := BitVec.getLsbD_of_ge _ _ (by omega)
      simp [hover]

/-- What a shift leaves is the top byte. -/
theorem ushiftRight_56 (w : Word) : w >>> 56 = (byteAt w 7).setWidth 64 := by
  apply BitVec.eq_of_getLsbD_eq
  intro k hk
  rw [BitVec.getLsbD_ushiftRight, BitVec.getLsbD_setWidth, getLsbD_byteAt]
  by_cases hbyte : k < 8
  · simp [hk, hbyte]
  · have hover : w.getLsbD (56 + k) = false := BitVec.getLsbD_of_ge _ _ (by omega)
    simp [hbyte, hover]

/-- `for i in start..start + n`, a byte each as long as `i < count`. -/
def pack (bytes : Nat → Byte) (count start : Nat) : Nat → Word
  | 0 => 0
  | n + 1 =>
    if start + n < count then
      pack bytes count start n ||| (bytes (start + n)).setWidth 64 <<< (8 * n)
    else pack bytes count start n

/-- Only the bytes that there are count. -/
theorem pack_congr {bytes bytes' : Nat → Byte} {count : Nat} (h : ∀ i < count, bytes i = bytes' i)
    (start n : Nat) : pack bytes count start n = pack bytes' count start n := by
  induction n with
  | zero => rfl
  | succ n ih =>
    unfold pack
    split_ifs with hn
    · rw [ih, h _ hn]
    · exact ih

/-- A turn of the loop writes one byte. -/
theorem byteAt_pack_succ (bytes : Nat → Byte) (count start n : Nat) {i : Nat} (hi : i < 8) :
    byteAt (pack bytes count start (n + 1)) i =
      if i = n ∧ start + n < count then byteAt (pack bytes count start n) i ||| bytes (start + n)
      else byteAt (pack bytes count start n) i := by
  rw [pack]
  by_cases hcount : start + n < count
  · rw [if_pos hcount, byteAt_or, byteAt_shiftLeft _ hi]
    by_cases hin : i = n
    · rw [if_pos hin, if_pos ⟨hin, hcount⟩]
    · rw [if_neg hin, if_neg fun h => hin h.1]
      exact BitVec.or_zero
  · rw [if_neg hcount, if_neg fun h => hcount h.2]

theorem byteAt_pack (bytes : Nat → Byte) (count start n : Nat) {i : Nat} (hi : i < 8) :
    byteAt (pack bytes count start n) i =
      if i < n ∧ start + i < count then bytes (start + i) else 0 := by
  induction n with
  | zero =>
    rw [if_neg fun h => Nat.not_lt_zero i h.1]
    exact byteAt_zero i
  | succ n ih =>
    rw [byteAt_pack_succ _ _ _ _ hi, ih]
    by_cases hin : i = n
    · subst hin
      have hbefore : ¬(i < i ∧ start + i < count) := fun h => Nat.lt_irrefl i h.1
      rw [if_neg hbefore]
      exact if_congr (by omega) BitVec.zero_or rfl
    · rw [if_neg fun h => hin h.1]
      exact if_congr (by omega) rfl rfl

end PackedBytes
