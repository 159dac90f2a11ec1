import Grafted.Base.ByteRanges

/-! Calls of a device: their numbers, and what is copied between a caller and the kernel.

A number says which way a call copies and how much (`directionOf`, `sizeOf`). A copy to the caller
changes bytes of its own range only, also where it stops at one that cannot be written
(`copyToUser_off`). -/
namespace Ioctl
open ByteMemory X86

/-! ### Numbers -/

/-- Two bits of direction, fourteen of size, eight of type, eight of number. -/
def number (direction size type nr : Nat) : BitVec 32 :=
  BitVec.ofNat 32 (direction * 2 ^ 30 + size * 2 ^ 16 + type * 2 ^ 8 + nr)

/-- `_IOC_WRITE`: the call reads what the caller wrote. -/
def WRITE : Nat := 1
/-- `_IOC_READ`: the call writes what the caller reads. -/
def READ : Nat := 2

def io (type nr : Nat) : BitVec 32 := number 0 0 type nr
def ior (type nr size : Nat) : BitVec 32 := number READ size type nr
def iow (type nr size : Nat) : BitVec 32 := number WRITE size type nr
def iowr (type nr size : Nat) : BitVec 32 := number (READ + WRITE) size type nr

def directionOf (cmd : BitVec 32) : Nat := cmd.toNat / 2 ^ 30
def sizeOf (cmd : BitVec 32) : Nat := cmd.toNat / 2 ^ 16 % 2 ^ 14

/-! ### A caller's memory -/

structure UserSpace where
  memory : Memory
  readable : Address → Bool
  writable : Address → Bool

namespace UserSpace

/-- The caller's own store. -/
def write (u : UserSpace) (a : Address) (bytes : List Byte) : UserSpace :=
  {u with memory := u.memory.writeBytes a bytes}

/-- All of a range can be read and written. -/
def Accessible (u : UserSpace) (a : Address) (n : Nat) : Prop :=
  ∀ x, Within a n x → u.readable x = true ∧ u.writable x = true

end UserSpace

/-- `none` is that a byte cannot be read. -/
def copyFromUser (u : UserSpace) (a : Address) (n : Nat) : Option (List Byte) :=
  if (List.range n).all fun i => u.readable (a + BitVec.ofNat 64 i) then
    some (readBytes u.memory a n)
  else none

/-- The bytes up to the first that cannot be written, and whether there was none. -/
def copyToUser (u : UserSpace) (a : Address) : List Byte → UserSpace × Bool
  | [] => (u, true)
  | b :: rest =>
    if u.writable a then copyToUser {u with memory := u.memory.writeByte a b} (a + 1) rest
    else (u, false)

theorem within_ofNat {a : Address} {n i : Nat} (hi : i < n) (hn : n ≤ 2 ^ 64) :
    Within a n (a + BitVec.ofNat 64 i) := by
  unfold Within
  have hsub : (a + BitVec.ofNat 64 i - a).toNat = i := by
    bv_omega
  omega

theorem copyFromUser_accessible {u : UserSpace} {a : Address} {n : Nat} (hn : n ≤ 2 ^ 64)
    (h : u.Accessible a n) : copyFromUser u a n = some (readBytes u.memory a n) := by
  refine if_pos (List.all_eq_true.mpr fun i hi => ?_)
  exact (h _ (within_ofNat (List.mem_range.mp hi) hn)).1

theorem within_succ {a x : Address} {n : Nat} (hn : n + 1 ≤ 2 ^ 64) :
    Within a (n + 1) x ↔ x = a ∨ Within (a + 1) n x := by
  unfold Within
  constructor
  · intro h
    by_cases hx : x = a
    · exact .inl hx
    · right
      bv_omega
  · rintro (rfl | h)
    · bv_omega
    · bv_omega

/-- Nothing is written outside the range. -/
theorem copyToUser_off {u : UserSpace} {a x : Address} {bytes : List Byte}
    (hlength : bytes.length ≤ 2 ^ 64) (hx : ¬Within a bytes.length x) :
    (copyToUser u a bytes).1.memory x = u.memory x := by
  induction bytes generalizing u a with
  | nil => rfl
  | cons b rest ih =>
    rw [List.length_cons, within_succ hlength, not_or] at hx
    rw [List.length_cons] at hlength
    unfold copyToUser
    split_ifs
    · refine (ih (by omega) hx.2).trans ?_
      exact Memory.writeByte_of_ne _ _ hx.1
    · rfl

/-- A copy does not change what can be read or written. -/
theorem copyToUser_accessible {u : UserSpace} {a : Address} {bytes : List Byte}
    (hlength : bytes.length ≤ 2 ^ 64)
    (h : ∀ x, Within a bytes.length x → u.writable x = true) :
    copyToUser u a bytes = (u.write a bytes, true) := by
  induction bytes generalizing u a with
  | nil => rfl
  | cons b rest ih =>
    rw [List.length_cons] at hlength h
    have hfirst : u.writable a = true := h a ((within_succ hlength).mpr (.inl rfl))
    unfold copyToUser
    rw [if_pos hfirst]
    exact ih (by omega) fun x hx => h x ((within_succ hlength).mpr (.inr hx))

end Ioctl
