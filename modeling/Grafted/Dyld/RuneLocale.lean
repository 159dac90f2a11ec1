import Grafted.Base.CLayout

/-! Classes of characters.

Darwin code reads the classes of a character from a table, which the shims fill in a loop, or asks
`___maskrune`. The shim for that function asks the C library, one class at a time. The two say the
same of every character the table has, under every mask (`maskrune_eq_table`). -/
namespace Grafted.Dyld.RuneLocale
open ByteMemory CLayout

/-! ### The source -/

def CT_A : BitVec 32 := 0x100
def CT_C : BitVec 32 := 0x200
def CT_D : BitVec 32 := 0x400
def CT_L : BitVec 32 := 0x2000
def CT_S : BitVec 32 := 0x4000
def CT_U : BitVec 32 := 0x8000
def CT_P : BitVec 32 := 0x10000
def CT_B : BitVec 32 := 0x20000
def CT_R : BitVec 32 := 0x40000
def CT_X : BitVec 32 := 0x100000

def between (c : Nat) (first last : Char) : Prop := first.toNat ≤ c ∧ c ≤ last.toNat

instance (c : Nat) (first last : Char) : Decidable (between c first last) :=
  inferInstanceAs (Decidable (_ ∧ _))

/-- The body of the loop: the classes of a character. -/
def runetype (c : Nat) : BitVec 32 :=
  let r : BitVec 32 := 0
  let r := if c < 0x20 ∨ c = 0x7f then r ||| CT_C else r
  let r := if between c '0' '9' then r ||| (CT_D ||| CT_X ||| CT_R) else r
  let r := if between c 'a' 'z' then r ||| (CT_L ||| CT_A ||| CT_R) else r
  let r := if between c 'A' 'Z' then r ||| (CT_U ||| CT_A ||| CT_R) else r
  let r := if between c 'a' 'f' then r ||| CT_X else r
  let r := if between c 'A' 'F' then r ||| CT_X else r
  let r := if c = 0x20 ∨ c = 0x09 then r ||| (CT_S ||| CT_B) else r
  let r := if c = 0x0a ∨ c = 0x0d ∨ c = 0x0b ∨ c = 0x0c then r ||| CT_S else r
  let r := if 0x20 ≤ c ∧ c ≤ 0x7e then r ||| CT_R else r
  if 0x21 ≤ c ∧ c ≤ 0x7e ∧ r &&& (CT_A ||| CT_D) = 0 then r ||| CT_P else r

/-- `_RuneLocale`, of which only the table is filled. -/
def localeSize : Nat := 2048

/-- `__runetype` -/
def runetypeOffset : Nat := 0x3c

def storeRune (buf : List Byte) (c : Nat) : List Byte :=
  store buf (runetypeOffset + c * 4) 4 (runetype c).toNat

def initRuneLocale : List Byte := (List.range 128).foldl storeRune (List.replicate localeSize 0)

/-! The functions of the C library, in the locale of C. -/

def isupper (c : Nat) : Bool := between c 'A' 'Z'
def islower (c : Nat) : Bool := between c 'a' 'z'
def isalpha (c : Nat) : Bool := isupper c || islower c
def isdigit (c : Nat) : Bool := between c '0' '9'
def iscntrl (c : Nat) : Bool := c < 0x20 || c = 0x7f
/-- The space, and tab, newline, vertical tab, form feed and carriage return. -/
def isspace (c : Nat) : Bool := c = 0x20 || (0x09 ≤ c && c ≤ 0x0d)
def isblank (c : Nat) : Bool := c = 0x20 || c = 0x09
def isprint (c : Nat) : Bool := 0x20 ≤ c && c ≤ 0x7e
def ispunct (c : Nat) : Bool := isprint c && c ≠ 0x20 && !isalpha c && !isdigit c
def isxdigit (c : Nat) : Bool := isdigit c || between c 'a' 'f' || between c 'A' 'F'

/-- The tests in the order of the source. -/
def tests : List ((Nat → Bool) × BitVec 64) :=
  [(isalpha, 0x00000100), (iscntrl, 0x00000200), (isdigit, 0x00000400), (islower, 0x00002000),
    (isupper, 0x00008000), (isspace, 0x00004000), (ispunct, 0x00010000), (isxdigit, 0x00100000),
    (isblank, 0x00020000), (isprint, 0x00040000)]

def classes (c : Nat) : BitVec 64 :=
  tests.foldl (fun result test => if test.1 c then result ||| test.2 else result) 0

def shimMaskrune (c : BitVec 32) (mask : BitVec 64) : BitVec 32 :=
  let result := if c.toNat < 128 then classes c.toNat else 0
  (result &&& mask).setWidth 32

/-! ### The table -/

/-- The loop up to a character. -/
def initUpTo (n : Nat) : List Byte := (List.range n).foldl storeRune (List.replicate localeSize 0)

theorem initUpTo_succ (n : Nat) : initUpTo (n + 1) = storeRune (initUpTo n) n := by
  rw [initUpTo, List.range_succ, List.foldl_append]
  rfl

theorem length_initUpTo {n : Nat} (hn : n ≤ 256) : (initUpTo n).length = localeSize := by
  induction n with
  | zero => exact List.length_replicate
  | succ n ih =>
    have hlength := ih (by omega)
    rw [initUpTo_succ, storeRune, length_store]
    · exact hlength
    · rw [hlength]
      unfold runetypeOffset localeSize
      omega

/-- What is in the entry of a character. -/
theorem load_initUpTo {n c : Nat} (hn : n ≤ 256) (hc : c < 256) :
    load (initUpTo n) (runetypeOffset + c * 4) 4 = if c < n then (runetype c).toNat else 0 := by
  induction n with
  | zero =>
    have hzero : load (initUpTo 0) (runetypeOffset + c * 4) 4 = load (List.replicate 4 0) 0 4 := by
      refine congrArg fromLE ?_
      show ((List.replicate localeSize (0 : Byte)).drop _).take 4 = List.replicate 4 0
      rw [List.drop_replicate, List.take_replicate]
      congr 1
      unfold runetypeOffset localeSize
      omega
    rw [hzero, if_neg (Nat.not_lt_zero c)]
    rfl
  | succ n ih =>
    have hlength := length_initUpTo (by omega : n ≤ 256)
    have hinside : runetypeOffset + n * 4 + 4 ≤ (initUpTo n).length := by
      rw [hlength]
      unfold runetypeOffset localeSize
      omega
    rw [initUpTo_succ, storeRune]
    by_cases heq : c = n
    · subst heq
      rw [if_pos (Nat.lt_succ_self c)]
      exact load_store hinside (runetype c).isLt
    · rw [load_store_apart hinside _ (by omega), ih (by omega)]
      exact if_congr (by omega) rfl rfl

theorem classes_eq : ∀ c < 128, classes c = (runetype c).setWidth 64 := by decide

/-- **The function and the table agree**: on every character the table has, and under every mask. -/
theorem maskrune_eq_table (c : BitVec 32) (mask : BitVec 64) (hc : c.toNat < 256) :
    shimMaskrune c mask = (BitVec.ofNat 64
      (load initRuneLocale (runetypeOffset + c.toNat * 4) 4) &&& mask).setWidth 32 := by
  have hload : load initRuneLocale (runetypeOffset + c.toNat * 4) 4 =
      if c.toNat < 128 then (runetype c.toNat).toNat else 0 := load_initUpTo (by decide) hc
  rw [hload]
  unfold shimMaskrune
  dsimp only
  by_cases hascii : c.toNat < 128
  · rw [if_pos hascii, if_pos hascii, classes_eq _ hascii, BitVec.ofNat_toNat]
  · rw [if_neg hascii, if_neg hascii]
    rfl

theorem maskrune_eq_table_tab : shimMaskrune 0x09 0x4000 =
    (BitVec.ofNat 64 (load initRuneLocale (runetypeOffset + (0x09 : BitVec 32).toNat * 4) 4) &&&
      0x4000).setWidth 32 := maskrune_eq_table 0x09 0x4000 (by decide)

end Grafted.Dyld.RuneLocale
