import Grafted.Base.ByteMemory
import Grafted.Base.Traced

/-! The dispatch selector of a Darwin thread.

A thread has a selector byte: while it is BLOCK a system call made from outside
the exempt range traps to `sigsysHandler`, while it is ALLOW the call goes to
the kernel. The library functions a thread calls write the byte. What a thread
does is a script: Darwin code, the functions it calls, and the Darwin routines
these call back, to any depth. Every time Darwin code has control is an event. -/
namespace Grafted.Dyld.Selector
open ByteMemory Traced

/-- `SYSCALL_DISPATCH_FILTER_ALLOW` and `SYSCALL_DISPATCH_FILTER_BLOCK`. -/
inductive Filter where
  | allow
  | block
  deriving DecidableEq

/-! ### The range -/

/-- The offset and the length of the range that is never filtered, from the address
of __TEXT: empty for a binary below 4 GiB. -/
def sudRange (textBase : Word) : Word × Word :=
  if 0 < textBase ∧ textBase < 0x100000000 then (0, 0) else (0x1000, 0xFFFFF000)

/-- The test of the kernel. `ip` is the address after the syscall instruction. -/
def exempt (textBase ip : Word) : Bool := ip - (sudRange textBase).1 < (sudRange textBase).2

/-! ### Library functions -/

/-- What a function does with the selector, where it calls Darwin code back, and
how it ends. -/
inductive Op where
  | write (filter : Filter)
  | back
  | ret
  | exit
  deriving DecidableEq

/-- `selector_allow`, the work, `selector_block`. -/
def bracketed : List Op := [.write .allow, .write .block, .ret]

/-- The shims that write the selector. -/
inductive Shim where
  | write | read | open | close | lseek | dup | dup2 | fcntl | isatty
  | getpid | getuid | geteuid | getgid | getegid
  | kqueue | kevent | pthread_cond_timedwait_relative_np | snprintf_chk | sprintf_chk
  | abort | exit
  | pthread_key_create | pthread_setspecific | pthread_getspecific | pthread_create
  | pthread_join | pthread_once
  | getaddrinfo | freeaddrinfo | openat | stat | fstat | lstat | mmap | munmap | mprotect
  | sigaction | puts | tlv_bootstrap | readdir | mach_absolute_time | sysctl | sysctlbyname
  | mach_vm_protect | vm_protect | pthread_setname_np
  | dispatch_semaphore_create | dispatch_semaphore_signal | dispatch_semaphore_wait
  deriving DecidableEq

/-- The ways through a shim. -/
def Shim.paths : Shim → List (List Op)
  | .kevent | .freeaddrinfo | .mprotect | .sysctl | .sysctlbyname
  | .dispatch_semaphore_signal | .dispatch_semaphore_wait => [bracketed, [.ret]]
  -- a mapping without access that is not a guard page is reported before it is made
  | .mmap => [bracketed, [.write .allow, .write .block, .write .allow, .write .block, .ret]]
  | .abort => [[.write .allow, .exit]]
  | .exit => [[.write .allow, .write .block, .write .allow, .exit]]
  -- the host's `pthread_once` calls the routine it is given
  | .pthread_once => [bracketed, [.write .allow, .back, .write .block, .ret]]
  | _ => [bracketed]

/-- `generated` is the code of `gen_trampoline`, around any function. `plain` is a
function that has nothing to do with the selector. -/
inductive Callee where
  | shim (s : Shim)
  | generated
  | plain
  deriving DecidableEq

def NoWrites (path : List Op) : Prop := ∀ f, .write f ∉ path

/-- The generated code calls `grafted_selector_allow` and jumps to its target, which
returns to the caller. -/
def Callee.Takes : Callee → List Op → Prop
  | .shim s, path => path ∈ s.paths
  | .generated, path => ∃ target, path = .write .allow :: target ∧ NoWrites target
  | .plain, path => NoWrites path

/-! ### Scripts -/

mutual
/-- Darwin code until it returns. -/
inductive Darwin where
  | ret
  | syscall (ip nr : Word) (rest : Darwin)
  /-- A system call that ends the process. -/
  | lastSyscall (ip nr : Word)
  | call (callee : Callee) (body : Body) (rest : Darwin)
/-- A function Darwin code calls, until it returns. -/
inductive Body where
  | ret
  | exit
  | write (filter : Filter) (rest : Body)
  | back (routine : Darwin) (rest : Body)
end

def Body.path : Body → List Op
  | .ret => [.ret]
  | .exit => [.exit]
  | .write filter rest => .write filter :: rest.path
  | .back _ rest => .back :: rest.path

mutual
/-- Each function goes one of its ways. -/
def Darwin.Fits : Darwin → Prop
  | .ret => True
  | .syscall _ _ rest => rest.Fits
  | .lastSyscall _ _ => True
  | .call callee body rest => callee.Takes body.path ∧ body.Fits ∧ rest.Fits
def Body.Fits : Body → Prop
  | .ret => True
  | .exit => True
  | .write _ rest => rest.Fits
  | .back routine rest => routine.Fits ∧ rest.Fits
end

inductive Event where
  /-- Darwin code has control. -/
  | darwin (selector : Filter)
  /-- A system call of Darwin code is given to `process_syscall`. -/
  | dispatched (nr : Word)
  /-- A system call of Darwin code is made by the kernel. -/
  | kernel (nr : Word)

/-- `sigsys_handler` and the trampoline it returns through. -/
def sigsysHandler (nr : Word) : Traced Filter Event Unit := do
  modify fun _ => .allow
  emit fun _ => .dispatched nr
  modify fun _ => .block

def syscall (textBase ip nr : Word) : Traced Filter Event Unit := do
  if ← read (fun selector => exempt textBase ip || selector == .allow) then emit fun _ => .kernel nr
  else sigsysHandler nr

section Exec
variable (textBase : Word)

mutual
/-- Whether the code returned. -/
def execDarwin : Darwin → Traced Filter Event Bool
  | .ret => do
    emit .darwin
    pure true
  | .syscall ip nr rest => do
    emit .darwin
    syscall textBase ip nr
    execDarwin rest
  | .lastSyscall ip nr => do
    emit .darwin
    syscall textBase ip nr
    pure false
  | .call _ body rest => do
    emit .darwin
    if ← execBody body then execDarwin rest else pure false
def execBody : Body → Traced Filter Event Bool
  | .ret => pure true
  | .exit => pure false
  | .write filter rest => do
    modify fun _ => filter
    execBody rest
  | .back routine rest => do
    if ← execDarwin routine then execBody rest else pure false
end

/-- A thread: its byte is allocated as ALLOW and set to BLOCK before it enters
Darwin code. -/
def runThread (script : Darwin) : Traced Filter Event Bool := do
  modify fun _ => .allow
  modify fun _ => .block
  execDarwin textBase script

end Exec

end Grafted.Dyld.Selector
