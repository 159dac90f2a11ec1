import Mathlib.Data.List.Basic
import Grafted.Base.ByteMemory
import Grafted.Base.Traced

/-! System calls: the Darwin numbers, and the Linux calls a thread makes.

A thread makes its calls one after the other (`Linux`), and the kernel answers each.
`Platform` is the kernel and the C library, as far as calls go: an `int` argument of the
C library is passed in a register of 64 bits, and the library promises the upper half
only for what is not negative. -/
namespace Grafted.Kernel
open ByteMemory Traced

/-! ### Darwin numbers -/

def DARWIN_SYSCALL_CLASS_MASK : Word := 0xFF000000
def DARWIN_SYSCALL_CLASS_UNIX : Word := 0x02000000
def DARWIN_SYSCALL_CLASS_MACH : Word := 0x01000000
def DARWIN_SYSCALL_NUMBER_MASK : Word := 0x00FFFFFF

inductive DarwinSyscall where
  | unix (darwinNr : BitVec 32) (linuxNr : Int)
  | machTrap (trapNr : BitVec 32)
  | unknown (raw : Word)

/-- -1 for what is not implemented. -/
def darwinUnixToLinux (darwinNr : BitVec 32) : Int :=
  match darwinNr.toNat with
  | 1 => 60
  | 2 => 57
  | 7 => 61
  | 20 => 39
  | 3 => 0
  | 4 => 1
  | 5 => 2
  | 6 => 3
  | 10 => 87
  | 15 => 90
  | 16 => 93
  | 197 => 9
  | 73 => 11
  | 74 => 10
  | 46 => 13
  | 48 => 62
  | 13 => 13
  | 59 => 84
  | 338 => 59
  | 116 => 96
  | 24 => 102
  | 25 => 104
  | 43 => 103
  | 47 => 107
  | 54 => 16
  | _ => -1

def translate (rawSyscall : Word) : DarwinSyscall :=
  let cls := rawSyscall &&& DARWIN_SYSCALL_CLASS_MASK
  let nr := (rawSyscall &&& DARWIN_SYSCALL_NUMBER_MASK).setWidth 32
  if cls = DARWIN_SYSCALL_CLASS_UNIX then .unix nr (darwinUnixToLinux nr)
  else if cls = DARWIN_SYSCALL_CLASS_MACH then .machTrap nr
  else .unknown rawSyscall

/-- A mask of the lower half does not see the upper half. -/
theorem and_lower (raw mask : Word) (hmask : mask &&& 0xFFFFFFFF = mask) :
    raw &&& mask = (raw.setWidth 32).setWidth 64 &&& mask := by
  have hlower : (raw.setWidth 32).setWidth 64 = raw &&& 0xFFFFFFFF := by
    apply BitVec.eq_of_toNat_eq
    rw [BitVec.toNat_and]
    have hones : (0xFFFFFFFF : Word).toNat = 2 ^ 32 - 1 := rfl
    rw [hones, Nat.and_two_pow_sub_one_eq_mod, BitVec.toNat_setWidth, BitVec.toNat_setWidth]
    omega
  rw [hlower, BitVec.and_assoc, BitVec.and_comm 0xFFFFFFFF mask, hmask]

/-- The class and the number are in the lower half. -/
theorem translate_lower {raw raw' : Word} (h : raw.setWidth 32 = raw'.setWidth 32) :
    translate raw = translate raw' ∨
      translate raw = .unknown raw ∧ translate raw' = .unknown raw' := by
  have hclass : raw &&& DARWIN_SYSCALL_CLASS_MASK = raw' &&& DARWIN_SYSCALL_CLASS_MASK := by
    rw [and_lower raw _ rfl, and_lower raw' _ rfl, h]
  have hnumber : raw &&& DARWIN_SYSCALL_NUMBER_MASK = raw' &&& DARWIN_SYSCALL_NUMBER_MASK := by
    rw [and_lower raw _ rfl, and_lower raw' _ rfl, h]
  unfold translate
  rw [hclass, hnumber]
  dsimp only
  split_ifs
  · exact .inl rfl
  · exact .inl rfl
  · exact .inr ⟨rfl, rfl⟩

/-! ### Registers -/

/-- `as i32` of a register. -/
def asI32 (register : Word) : BitVec 32 := register.setWidth 32

/-- `as u64` of an `i32`. -/
def asU64 (x : BitVec 32) : Word := x.signExtend 64

theorem asU64_low (x : BitVec 32) : (asU64 x).setWidth 32 = x := by
  apply BitVec.eq_of_getLsbD_eq
  intro i hi
  have h64 : i < 64 := by omega
  simp only [asU64, BitVec.getLsbD_setWidth, BitVec.getLsbD_signExtend, hi, h64, decide_true,
    Bool.true_and, if_true]

theorem asU64_injective : Function.Injective asU64 := by
  intro x y h
  rw [← asU64_low x, h, asU64_low]

theorem asU64_nonneg {x : BitVec 32} (h : x.msb = false) : asU64 x = x.setWidth 64 :=
  BitVec.signExtend_eq_setWidth_of_msb_false h

/-! ### Flags -/

/-- `if darwin & bit != 0 { linux |= value; }`. -/
def moveFlag (darwin bit value linux : BitVec 32) : BitVec 32 :=
  if darwin &&& bit ≠ 0 then linux ||| value else linux

theorem moveFlag_unset {darwin bit value linux : BitVec 32} (h : darwin &&& bit = 0) :
    moveFlag darwin bit value linux = linux := if_neg (not_not.mpr h)

/-- A flag moves to the bits of its value, and no others change. -/
theorem moveFlag_getLsbD {darwin bit value linux : BitVec 32} {i : Nat}
    (h : value.getLsbD i = false) :
    (moveFlag darwin bit value linux).getLsbD i = linux.getLsbD i := by
  unfold moveFlag
  split
  · rw [BitVec.getLsbD_or, h, Bool.or_false]
  · rfl

theorem unset_of_getLsbD {darwin bit value linux : BitVec 32} {i : Nat}
    (hvalue : value.getLsbD i = true) (h : (moveFlag darwin bit value linux).getLsbD i = false) :
    darwin &&& bit = 0 := by
  by_contra hset
  rw [moveFlag, if_pos hset, BitVec.getLsbD_or, hvalue, Bool.or_true] at h
  exact nomatch h

/-! ### Linux calls -/

/-- `!0xFFF`. -/
def PAGE_MASK : Word := ~~~0xFFF

inductive SystemCall where
  | linux (nr : Word) (args : List Word)
  /-- The ioctl of the kernel module. -/
  | machTrap (fd trapNumber : BitVec 32) (args : List Word)
  /-- A text written to the standard error. -/
  | message (text : String)
  deriving DecidableEq

structure Platform (σ : Type) where
  answer : SystemCall → σ → Word × σ
  /-- What the module wrote into the record of the last trap. -/
  trapResult : σ → Word
  /-- The register of an `int` argument. -/
  int : BitVec 32 → Word
  int_nonneg : ∀ x, x.msb = false → int x = x.setWidth 64

/-- What a thread sees: the kernel, and the `errno` of the C library, its own. -/
structure ThreadState (σ : Type) where
  kernel : σ
  errno : BitVec 32

abbrev Linux (σ : Type) := Traced (ThreadState σ) SystemCall

section Calls
variable {σ : Type} (platform : Platform σ)

/-- The syscall instruction: the answer is a result, or an error negated. -/
def syscall (call : SystemCall) : Linux σ Word := do
  emit fun _ => call
  let ret ← read fun thread => (platform.answer call thread.kernel).1
  modify fun thread => {thread with kernel := (platform.answer call thread.kernel).2}
  pure ret

/-- The answer stands for an error. -/
def isErr (ret : Word) : Bool := -4095 ≤ ret.toInt && ret.toInt < 0

/-- A call made by the C library: -1, and the error in `errno`. -/
def libc (call : SystemCall) : Linux σ Word := do
  let ret ← syscall platform call
  if isErr ret then do
    modify fun thread => {thread with errno := (-ret).setWidth 32}
    pure (-1)
  else pure ret

/-- `mprotect` of the C library. -/
def mprotect (addr size : Word) (prot : BitVec 32) : Linux σ (BitVec 32) := do
  let ret ← libc platform (.linux 10 [addr, size, platform.int prot])
  pure (ret.setWidth 32)

/-- `mmap` of the C library: an offset that is no page's is EINVAL, without a call. -/
def mmap (addr len : Word) (prot flags fd : BitVec 32) (offset : Word) : Linux σ Word :=
  if offset &&& 0xFFF = 0 then
    libc platform
      (.linux 9 [addr, len, platform.int prot, platform.int flags, platform.int fd, offset])
  else do
    modify fun thread => {thread with errno := 22}
    pure (-1)

def message (text : String) : Linux σ Unit := do
  let _ ← libc platform (.message text)
  pure ()

@[simp] theorem syscall_trace (call : SystemCall) (thread : ThreadState σ) :
    (syscall platform call thread).trace = [call] := rfl

@[simp] theorem libc_trace (call : SystemCall) (thread : ThreadState σ) :
    (libc platform call thread).trace = [call] := by
  simp only [libc, bind_apply, syscall_trace]
  split
  · rfl
  · rfl

@[simp] theorem message_trace (text : String) (thread : ThreadState σ) :
    (message platform text thread).trace = [.message text] := by
  simp only [message, bind_apply, libc_trace, pure_apply, List.append_nil]

@[simp] theorem mprotect_trace (addr size : Word) (prot : BitVec 32) (thread : ThreadState σ) :
    (mprotect platform addr size prot thread).trace =
      [.linux 10 [addr, size, platform.int prot]] := by
  simp only [mprotect, bind_apply, libc_trace, pure_apply, List.append_nil]

@[simp] theorem mmap_trace (addr len : Word) (prot flags fd : BitVec 32) (offset : Word)
    (thread : ThreadState σ) :
    (mmap platform addr len prot flags fd offset thread).trace =
      if offset &&& 0xFFF = 0 then
        [.linux 9 [addr, len, platform.int prot, platform.int flags, platform.int fd, offset]]
      else [] := by
  unfold mmap
  split
  · exact libc_trace platform _ thread
  · rfl

end Calls

end Grafted.Kernel
