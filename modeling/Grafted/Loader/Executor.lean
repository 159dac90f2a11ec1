import Grafted.Kernel.Syscall

/-! What is done with a trapped system call of Darwin code.

A call is translated, perhaps answered without Linux, and else made with its flags
translated. -/
namespace Grafted.Loader
open ByteMemory Traced Kernel

/-- The registers of the arguments. -/
structure Args where
  a0 : Word
  a1 : Word
  a2 : Word
  a3 : Word
  a4 : Word
  a5 : Word
  deriving DecidableEq

def Args.toList (a : Args) : List Word := [a.a0, a.a1, a.a2, a.a3, a.a4, a.a5]

/-- `mmap` flags. -/
def mmapFlags (df : BitVec 32) : BitVec 32 :=
  moveFlag df 0x0040 0x4000 <| moveFlag df 0x1000 0x20 <| df &&& 0x1F

/-- `open` flags. -/
def openFlags (df : BitVec 32) : BitVec 32 :=
  moveFlag df 0x0800 0x0080 <| moveFlag df 0x0400 0x0200 <| moveFlag df 0x0200 0x0040 <|
    moveFlag df 0x0004 0x0800 <| moveFlag df 0x0008 0x0400 <| df &&& 0x3

/-- The arguments as Linux takes them, or an answer without a call. -/
def linuxArgs (darwinNr : BitVec 32) (a : Args) : Word ⊕ Args :=
  if darwinNr = 197 ∨ darwinNr = 199 then
    let lf := mmapFlags (asI32 a.a3)
    -- a guard page
    if a.a2 = 0 ∧ lf &&& 0x30 = 0x30 then .inl (if a.a0 ≠ 0 then a.a0 else 0x7fff0000)
    else .inr {a with a3 := asU64 lf}
  else if darwinNr = 74 then
    if a.a2 = 0 then .inl 0 else .inr a
  else if darwinNr = 5 then .inr {a with a1 := asU64 (openFlags (asI32 a.a1))}
  else .inr a

section Process
variable {σ : Type} (platform : Platform σ)

/-- None if the process ends. -/
def processUnix (darwinNr : BitVec 32) (linuxNr : Int) (args : Args) : Linux σ (Option Word) :=
  if linuxNr = 60 ∨ linuxNr = 231 then do
    let _ ← syscall platform (.linux 231 [args.a0])
    pure none
  else
    match linuxArgs darwinNr args with
    | .inl answer => pure (some answer)
    | .inr a => do
      let ret ← syscall platform (.linux (BitVec.ofInt 64 linuxNr) a.toList)
      pure (some ret)

/-- `mach_vm_protect`. -/
def processVmProtect (args : Args) : Linux σ (Option Word) :=
  let prot := asI32 args.a4
  if prot = 0 then pure (some 0)
  else do
    let addr := args.a1 &&& PAGE_MASK
    let size := ((args.a1 + args.a2 + 0xFFF) &&& PAGE_MASK) - addr
    let ret ← mprotect platform addr size prot
    pure (some (if ret = 0 then 0 else 1))

def processMachTrap (trapNr : BitVec 32) (args : Args) (fd : BitVec 32) : Linux σ (Option Word) :=
  match trapNr.toNat with
  | 26 => pure (some 0x307)
  | 27 => pure (some 0x203)
  | 28 => pure (some 0x103)
  | 14 => processVmProtect platform args
  | _ =>
    if fd.toInt < 0 then pure (some (-38))
    else do
      let res ← libc platform (.machTrap fd trapNr args.toList)
      let result ← read fun thread => platform.trapResult thread.kernel
      pure (some (if res = -1 then -38 else result))

/-- An unknown number that is small is a Linux number. -/
def processUnknown (raw : Word) (args : Args) : Linux σ (Option Word) :=
  if raw < 500 then do
    let ret ← syscall platform (.linux raw args.toList)
    pure (some ret)
  else do
    message platform "grafted: unknown syscall class\n"
    pure (some (-38))

def processSyscall (rawSyscall : Word) (args : Args) (fd : BitVec 32) : Linux σ (Option Word) :=
  match Kernel.translate rawSyscall with
  | .unix darwinNr linuxNr =>
    if 0 ≤ linuxNr then processUnix platform darwinNr linuxNr args else pure (some (-38))
  | .machTrap trapNr => processMachTrap platform trapNr args fd
  | .unknown raw => processUnknown platform raw args

end Process

end Grafted.Loader
