import Grafted.Kernel.Syscall

/-! The library functions that make one system call.

`write`, `read`, `open` and their like make the call themselves and report an error
as the C library does (`syscallRet`), the ones about memory ask the C library. The
selector they write on the way is `Selector`. -/
namespace Grafted.Dyld.Shims
open ByteMemory Traced Kernel

/-! ### Flags -/

def translateOpenFlags (darwin : BitVec 32) : BitVec 32 :=
  moveFlag darwin 0x100000 0x200000 <| moveFlag darwin 0x10000 0x10000 <|
    moveFlag darwin 0x0010 0x0100 <| moveFlag darwin 0x0800 0x0080 <|
    moveFlag darwin 0x0400 0x0200 <| moveFlag darwin 0x0200 0x0040 <|
    moveFlag darwin 0x0004 0x0800 <| moveFlag darwin 0x0008 0x0400 <| darwin &&& 0x3

def translateMmapFlags (darwin : BitVec 32) : BitVec 32 :=
  moveFlag darwin 0x0040 0x4000 <| moveFlag darwin 0x1000 0x20 <| darwin &&& 0x1F

theorem translateMmapFlags_msb (darwin : BitVec 32) : (translateMmapFlags darwin).msb = false := by
  rw [BitVec.msb_eq_getLsbD_last, translateMmapFlags, moveFlag_getLsbD rfl, moveFlag_getLsbD rfl,
    BitVec.getLsbD_and]
  exact Bool.and_false _

section Shims
variable {σ : Type} (platform : Platform σ)

/-! ### One call -/

/-- A raw answer as the C library reports it. -/
def syscallRet (raw : Word) : Linux σ Word :=
  if raw.toInt < 0 then do
    modify fun thread => {thread with errno := (-raw).setWidth 32}
    pure (-1)
  else pure raw

def linuxSyscall (nr : Word) (args : List Word) : Linux σ Word := do
  let raw ← syscall platform (.linux nr args)
  syscallRet raw

def shimWrite (fd : BitVec 32) (buf count : Word) : Linux σ Word :=
  linuxSyscall platform 1 [asU64 fd, buf, count]

def shimRead (fd : BitVec 32) (buf count : Word) : Linux σ Word :=
  linuxSyscall platform 0 [asU64 fd, buf, count]

def shimOpen (path : Word) (flags mode : BitVec 32) : Linux σ Word :=
  linuxSyscall platform 2 [path, asU64 (translateOpenFlags flags), asU64 mode]

def shimClose (fd : BitVec 32) : Linux σ Word := linuxSyscall platform 3 [asU64 fd]

def shimLseek (fd : BitVec 32) (offset : Word) (whence : BitVec 32) : Linux σ Word :=
  linuxSyscall platform 8 [asU64 fd, offset, asU64 whence]

def shimDup (fd : BitVec 32) : Linux σ Word := linuxSyscall platform 32 [asU64 fd]

def shimDup2 (fd fd2 : BitVec 32) : Linux σ Word := linuxSyscall platform 33 [asU64 fd, asU64 fd2]

def shimFcntl (fd cmd : BitVec 32) (arg : Word) : Linux σ Word :=
  linuxSyscall platform 72 [asU64 fd, asU64 cmd, arg]

/-! ### Identity -/

def identity (nr : Word) : Linux σ (BitVec 32) := do
  let ret ← syscall platform (.linux nr [0])
  pure (ret.setWidth 32)

def shimGetuid : Linux σ (BitVec 32) := identity platform 102

def shimGeteuid : Linux σ (BitVec 32) := identity platform 107

def shimGetgid : Linux σ (BitVec 32) := identity platform 104

def shimGetegid : Linux σ (BitVec 32) := identity platform 108

/-! ### Memory -/

/-- `MAP_FIXED` at an address that is no page's. -/
def Straddles (linuxFlags : BitVec 32) (addr : Word) : Prop :=
  linuxFlags &&& 0x10 ≠ 0 ∧ addr &&& 0xFFF ≠ 0

instance (linuxFlags : BitVec 32) (addr : Word) : Decidable (Straddles linuxFlags addr) :=
  inferInstanceAs (Decidable (linuxFlags &&& 0x10 ≠ 0 ∧ addr &&& 0xFFF ≠ 0))

/-- An address that is no page's is aligned down. -/
def actualAddr (linuxFlags : BitVec 32) (addr : Word) : Word :=
  if Straddles linuxFlags addr then addr &&& PAGE_MASK else addr

def actualLen (linuxFlags : BitVec 32) (addr len : Word) : Word :=
  if actualAddr linuxFlags addr ≠ addr then len + (addr - actualAddr linuxFlags addr) else len

/-- The mapping once it is no guard page. The address is given back as it was asked
for. -/
def mmapAligned (addr len : Word) (prot linuxFlags fd : BitVec 32) (offset : Word) :
    Linux σ Word := do
  let ret ← mmap platform (actualAddr linuxFlags addr) (actualLen linuxFlags addr len) prot
    linuxFlags fd offset
  if ret = -1 then pure ret
  else pure (if linuxFlags &&& 0x10 ≠ 0 ∧ addr ≠ actualAddr linuxFlags addr then addr else ret)

def shimMmap (addr len : Word) (prot flags fd : BitVec 32) (offset : Word) : Linux σ Word :=
  let linuxFlags := translateMmapFlags flags
  if prot = 0 ∧ linuxFlags &&& 0x30 = 0x30 then do
    message platform "GUARD_FAKE\n"
    pure (if addr ≠ 0 then addr else 0x7fffdead0000)
  else if prot = 0 then do
    message platform "MMAP_P0_OTHER\n"
    mmapAligned platform addr len prot linuxFlags fd offset
  else mmapAligned platform addr len prot linuxFlags fd offset

def shimMprotect (addr len : Word) (prot : BitVec 32) : Linux σ (BitVec 32) :=
  if prot = 0 then pure 0 else mprotect platform addr len prot

def shimMachVmProtect (_task : BitVec 32) (addr size : Word) (_setMax prot : BitVec 32) :
    Linux σ (BitVec 32) := do
  let alignedAddr := addr &&& PAGE_MASK
  let alignedSize := ((addr + size + 0xFFF) &&& PAGE_MASK) - alignedAddr
  let ret ← mprotect platform alignedAddr alignedSize prot
  pure (if ret = 0 then 0 else 1)

/-! ### What is called -/

@[simp] theorem syscallRet_trace (raw : Word) (thread : ThreadState σ) :
    (syscallRet raw thread).trace = [] := by
  unfold syscallRet
  split
  · rfl
  · rfl

@[simp] theorem linuxSyscall_trace (nr : Word) (args : List Word) (thread : ThreadState σ) :
    (linuxSyscall platform nr args thread).trace = [.linux nr args] := by
  simp only [linuxSyscall, bind_apply, syscall_trace, syscallRet_trace, List.append_nil]

@[simp] theorem mmapAligned_trace (addr len : Word) (prot linuxFlags fd : BitVec 32) (offset : Word)
    (thread : ThreadState σ) :
    (mmapAligned platform addr len prot linuxFlags fd offset thread).trace =
      if offset &&& 0xFFF = 0 then
        [.linux 9 [actualAddr linuxFlags addr, actualLen linuxFlags addr len, platform.int prot,
          platform.int linuxFlags, platform.int fd, offset]]
      else [] := by
  rw [← mmap_trace platform (actualAddr linuxFlags addr) (actualLen linuxFlags addr len) prot linuxFlags
    fd offset thread]
  simp only [mmapAligned, bind_apply]
  split
  · exact List.append_nil _
  · exact List.append_nil _

/-- Aligning down changes the address. -/
theorem actualAddr_eq_iff {linuxFlags : BitVec 32} {addr : Word} :
    actualAddr linuxFlags addr = addr ↔ ¬ Straddles linuxFlags addr := by
  unfold actualAddr
  split
  · rename_i h
    refine iff_of_false (fun heq => h.2 ?_) (not_not.mpr h)
    rw [← heq, BitVec.and_assoc]
    exact BitVec.and_zero
  · rename_i h
    exact iff_of_true rfl h

theorem actualLen_of_not {linuxFlags : BitVec 32} {addr : Word} (h : ¬ Straddles linuxFlags addr)
    (len : Word) : actualLen linuxFlags addr len = len :=
  if_neg (not_not.mpr (actualAddr_eq_iff.mpr h))

end Shims

/-- A platform where every call answers 0. -/
def zeroPlatform : Platform Unit where
  answer := fun _ kernel => (0, kernel)
  trapResult := fun _ => 0
  int := asU64
  int_nonneg := fun _ h => asU64_nonneg h

end Grafted.Dyld.Shims
