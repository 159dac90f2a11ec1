import Grafted.Base.ByteMemory

/-! UTF-8: which bytes are well formed, and the nearest bytes that are.

`chunk` is a character, or the longest part of one before bytes that cannot continue it.
`lossy` replaces the parts, and is the identity on what is well formed and on nothing
else (`lossy_eq_iff`). -/
namespace Utf8
open ByteMemory

/-- The ranges of the bytes that follow a first byte. -/
def tails (b : Byte) : Option (List (Byte × Byte)) :=
  if b ≤ 0x7f then some []
  else if 0xc2 ≤ b ∧ b ≤ 0xdf then some [(0x80, 0xbf)]
  else if b = 0xe0 then some [(0xa0, 0xbf), (0x80, 0xbf)]
  else if 0xe1 ≤ b ∧ b ≤ 0xec then some [(0x80, 0xbf), (0x80, 0xbf)]
  else if b = 0xed then some [(0x80, 0x9f), (0x80, 0xbf)]
  else if 0xee ≤ b ∧ b ≤ 0xef then some [(0x80, 0xbf), (0x80, 0xbf)]
  else if b = 0xf0 then some [(0x90, 0xbf), (0x80, 0xbf), (0x80, 0xbf)]
  else if 0xf1 ≤ b ∧ b ≤ 0xf3 then some [(0x80, 0xbf), (0x80, 0xbf), (0x80, 0xbf)]
  else if b = 0xf4 then some [(0x80, 0x8f), (0x80, 0xbf), (0x80, 0xbf)]
  else none

/-- How many bytes are in the ranges, one after another, and whether all ranges were met. -/
def inRanges : List (Byte × Byte) → List Byte → Nat × Bool
  | [], _ => (0, true)
  | _ :: _, [] => (0, false)
  | (lo, hi) :: more, b :: rest =>
    if lo ≤ b ∧ b ≤ hi then ((inRanges more rest).1 + 1, (inRanges more rest).2) else (0, false)

/-- The bytes after the first that belong to it, and whether they make a character. -/
def chunk (b : Byte) (rest : List Byte) : Nat × Bool :=
  match tails b with
  | none => (0, false)
  | some ranges => inRanges ranges rest

/-- U+FFFD. -/
def replacement : List Byte := [0xef, 0xbf, 0xbd]

def lossyUpTo : Nat → List Byte → List Byte
  | 0, _ => []
  | _ + 1, [] => []
  | n + 1, b :: rest =>
    (if (chunk b rest).2 then b :: rest.take (chunk b rest).1 else replacement) ++
      lossyUpTo n (rest.drop (chunk b rest).1)

/-- The bytes with each part of a character replaced. -/
def lossy (bytes : List Byte) : List Byte := lossyUpTo bytes.length bytes

def validUpTo : Nat → List Byte → Bool
  | 0, _ => true
  | _ + 1, [] => true
  | n + 1, b :: rest => (chunk b rest).2 && validUpTo n (rest.drop (chunk b rest).1)

/-- Characters only. -/
def valid (bytes : List Byte) : Bool := validUpTo bytes.length bytes

/-! ### One chunk at a time -/

theorem length_drop_le (t : Nat) (rest : List Byte) {n : Nat} (h : rest.length ≤ n) :
    (rest.drop t).length ≤ n := by
  rw [List.length_drop]
  omega

/-- What goes through the bytes chunk by chunk needs no more turns than there are bytes. -/
theorem upTo_congr {β : Type} (f : Nat → List Byte → β) (step : Byte → List Byte → β → β)
    (hnil : ∀ n k, f n [] = f k [])
    (hcons : ∀ n b rest, f (n + 1) (b :: rest) = step b rest (f n (rest.drop (chunk b rest).1)))
    {n k : Nat} {bytes : List Byte} (hn : bytes.length ≤ n) (hk : bytes.length ≤ k) :
    f n bytes = f k bytes := by
  induction n generalizing k bytes with
  | zero =>
    obtain rfl := List.length_eq_zero_iff.mp (Nat.le_zero.mp hn)
    exact hnil 0 k
  | succ n ih =>
    cases bytes with
    | nil => exact hnil (n + 1) k
    | cons b rest =>
      obtain ⟨k, rfl⟩ := Nat.exists_eq_add_of_le' hk
      have hn' : rest.length ≤ n := Nat.le_of_succ_le_succ hn
      have hk' : rest.length ≤ k + rest.length := Nat.le_add_left ..
      have hlater := ih (length_drop_le (chunk b rest).1 rest hn') (length_drop_le _ rest hk')
      rw [hcons, hlater]
      exact (hcons _ b rest).symm

theorem lossyUpTo_congr {n k : Nat} {bytes : List Byte} (hn : bytes.length ≤ n)
    (hk : bytes.length ≤ k) : lossyUpTo n bytes = lossyUpTo k bytes := by
  refine upTo_congr lossyUpTo (fun b rest later =>
    (if (chunk b rest).2 then b :: rest.take (chunk b rest).1 else replacement) ++ later)
    (fun n k => ?_) (fun _ _ _ => rfl) hn hk
  cases n <;> cases k <;> rfl

theorem validUpTo_congr {n k : Nat} {bytes : List Byte} (hn : bytes.length ≤ n)
    (hk : bytes.length ≤ k) : validUpTo n bytes = validUpTo k bytes := by
  refine upTo_congr validUpTo (fun b rest later => (chunk b rest).2 && later)
    (fun n k => ?_) (fun _ _ _ => rfl) hn hk
  cases n <;> cases k <;> rfl

theorem lossy_cons (b : Byte) (rest : List Byte) : lossy (b :: rest) =
    (if (chunk b rest).2 then b :: rest.take (chunk b rest).1 else replacement) ++
      lossy (rest.drop (chunk b rest).1) :=
  congrArg _ (lossyUpTo_congr (length_drop_le _ rest (Nat.le_refl _)) (Nat.le_refl _))

theorem valid_cons (b : Byte) (rest : List Byte) :
    valid (b :: rest) = ((chunk b rest).2 && valid (rest.drop (chunk b rest).1)) :=
  congrArg _ (validUpTo_congr (length_drop_le _ rest (Nat.le_refl _)) (Nat.le_refl _))

/-- Induction on the characters and what is between them. -/
theorem chunk_induction {P : List Byte → Prop} (nil : P [])
    (cons : ∀ b rest, P (rest.drop (chunk b rest).1) → P (b :: rest)) (bytes : List Byte) :
    P bytes := by
  induction h : bytes.length using Nat.strongRecOn generalizing bytes with
  | _ n ih =>
    cases bytes with
    | nil => exact nil
    | cons b rest =>
      have hlt : (rest.drop (chunk b rest).1).length < n := by
        rw [← h, List.length_cons, List.length_drop]
        omega
      exact cons b rest (ih _ hlt _ rfl)

/-! ### What is replaced -/

theorem lossy_of_valid {bytes : List Byte} (h : valid bytes) : lossy bytes = bytes := by
  induction bytes using chunk_induction with
  | nil => rfl
  | cons b rest ih =>
    rw [valid_cons, Bool.and_eq_true] at h
    rw [lossy_cons, if_pos h.1, ih h.2, List.cons_append, List.take_append_drop]

/-- A replacement is a character, so it stands for something else. -/
theorem chunk_replacement (rest : List Byte) : (chunk 0xef (0xbf :: 0xbd :: rest)).2 = true := rfl

theorem lossy_eq_iff {bytes : List Byte} : lossy bytes = bytes ↔ valid bytes := by
  refine ⟨fun h => ?_, lossy_of_valid⟩
  induction bytes using chunk_induction with
  | nil => rfl
  | cons b rest ih =>
    rw [lossy_cons] at h
    rw [valid_cons, Bool.and_eq_true]
    cases hchunk : (chunk b rest).2 with
    | true =>
      rw [hchunk, if_pos rfl, List.cons_append] at h
      have htail := (List.cons.inj h).2.trans (List.take_append_drop (chunk b rest).1 rest).symm
      exact ⟨rfl, ih (List.append_cancel_left htail)⟩
    | false =>
      rw [hchunk, if_neg (by decide)] at h
      obtain ⟨rfl, hrest⟩ := List.cons.inj h
      rw [← hrest] at hchunk
      cases (chunk_replacement _).symm.trans hchunk

theorem lossy_ne_nil {bytes : List Byte} (h : bytes ≠ []) : lossy bytes ≠ [] := by
  obtain ⟨b, rest, rfl⟩ := List.exists_cons_of_ne_nil h
  rw [lossy_cons]
  split_ifs
  · exact List.cons_ne_nil _ _
  · exact List.cons_ne_nil _ _

theorem zero_notMem_lossy {bytes : List Byte} (h : 0 ∉ bytes) : 0 ∉ lossy bytes := by
  induction bytes using chunk_induction with
  | nil => exact h
  | cons b rest ih =>
    obtain ⟨hb, hrest⟩ : 0 ≠ b ∧ 0 ∉ rest := by simpa using h
    have hdrop : 0 ∉ rest.drop (chunk b rest).1 := fun hmem => hrest (List.mem_of_mem_drop hmem)
    rw [lossy_cons, List.mem_append]
    rintro (hfirst | hlater)
    · split_ifs at hfirst
      · obtain heq | htake := List.mem_cons.mp hfirst
        · exact hb heq
        · exact hrest (List.mem_of_mem_take htake)
      · exact absurd hfirst (by decide)
    · exact ih hdrop hlater

/-- What follows the ranges does not matter once they are met. -/
theorem inRanges_take {ranges : List (Byte × Byte)} {rest more : List Byte}
    (h : (inRanges ranges rest).2 = true) :
    inRanges ranges (rest.take (inRanges ranges rest).1 ++ more) =
      ((inRanges ranges rest).1, true) ∧ (inRanges ranges rest).1 ≤ rest.length := by
  induction ranges generalizing rest with
  | nil => exact ⟨rfl, Nat.zero_le _⟩
  | cons range ranges ih =>
    cases rest with
    | nil => cases h
    | cons b rest =>
      obtain ⟨lo, hi⟩ := range
      simp only [inRanges] at h ⊢
      split_ifs at h ⊢ with hin
      · obtain ⟨heq, hle⟩ := ih h
        refine ⟨?_, Nat.succ_le_succ hle⟩
        simp only [List.take_succ_cons, List.cons_append, inRanges, if_pos hin, heq]

/-- A character is one whatever follows it. -/
theorem chunk_take {b : Byte} {rest : List Byte} (h : (chunk b rest).2 = true) (more : List Byte) :
    chunk b (rest.take (chunk b rest).1 ++ more) = ((chunk b rest).1, true) ∧
      (chunk b rest).1 ≤ rest.length := by
  unfold chunk at h ⊢
  cases htails : tails b with
  | none =>
    rw [htails] at h
    cases h
  | some ranges =>
    rw [htails] at h
    exact inRanges_take h

theorem valid_lossy (bytes : List Byte) : valid (lossy bytes) := by
  induction bytes using chunk_induction with
  | nil => rfl
  | cons b rest ih =>
    rw [lossy_cons]
    split_ifs with hchunk
    · obtain ⟨heq, hle⟩ := chunk_take hchunk (lossy (rest.drop (chunk b rest).1))
      have hlen : (rest.take (chunk b rest).1).length = (chunk b rest).1 := by
        rw [List.length_take]
        omega
      rw [List.cons_append, valid_cons, heq, List.drop_left' hlen]
      exact ih
    · exact (valid_cons _ _).trans ih

end Utf8
