import Grafted.Base.X86
import Grafted.Dyld.Selector
import Grafted.Loader.Executor

/-! From a trapped system call back to Darwin code.

The kernel saves the registers, the handler answers the call and edits what is saved,
the kernel restores it, and the trampoline of the thread runs: three instructions, the
last of which returns to Darwin code over a word that the handler has pushed on the
Darwin stack. Everything but the answer is as it was at the call, except that word
(`sigsys_resumes`), which is where a leaf function may keep its data
(`red_zone_overwritten`). What the kernel and the handler keep on the stack for
themselves is below the 128 bytes of that zone and not here.

`Selector` has the same handler as two writes of a byte; the byte is this one
(`Resumed.refines`). -/
namespace Grafted.Loader.SigsysHandler
open ByteMemory Kernel X86

/-! ### The source -/

def SYSCALL_DISPATCH_FILTER_ALLOW : Byte := 0
def SYSCALL_DISPATCH_FILTER_BLOCK : Byte := 1
def SYS_USER_DISPATCH : BitVec 32 := 2

/-- What the kernel saves of a thread, and restores. -/
structure Ucontext where
  gregs : Reg → Word
  rip : Address
  xmm : Fin 16 → BitVec 128
  flags : Word

def Ucontext.args (ctx : Ucontext) : Args :=
  ⟨ctx.gregs .rdi, ctx.gregs .rsi, ctx.gregs .rdx, ctx.gregs .r10, ctx.gregs .r8, ctx.gregs .r9⟩

/-- `sigreturn`. -/
def Ucontext.restore (ctx : Ucontext) (memory : Memory) : Cpu :=
  ⟨ctx.gregs, ctx.xmm, ctx.flags, ctx.rip, memory⟩

/-- `alloc_trampoline_for`: the bytes of the trampoline of a selector. -/
def trampolineCode (selAddr : Address) : List Byte :=
  [0x49, 0xbb] ++ bytesLE selAddr.toNat 8 ++
    [0x41, 0xc6, 0x03, SYSCALL_DISPATCH_FILTER_BLOCK, 0xc3]

/-- What the bytes are. -/
theorem trampolineCode_eq (selAddr : Address) : trampolineCode selAddr =
    encode (.movImm .r11 selAddr) ++ (encode (.movByte .r11 SYSCALL_DISPATCH_FILTER_BLOCK) ++
      encode .ret) := by
  simp only [trampolineCode, List.append_assoc]
  rfl

theorem trampolineCode_length (selAddr : Address) : (trampolineCode selAddr).length = 15 := by
  simp [trampolineCode, length_bytesLE]

section Handler
variable {κ : Type}

def memoryOf (thread : ThreadState (κ × Memory)) : Memory := thread.kernel.2

def setMemory (thread : ThreadState (κ × Memory)) (memory : Memory) : ThreadState (κ × Memory) :=
  {thread with kernel := (thread.kernel.1, memory)}

/-- `*sel_ptr = filter`. -/
def setSelector (selPtr : Address) (filter : Byte) (thread : ThreadState (κ × Memory)) :
    ThreadState (κ × Memory) :=
  setMemory thread ((memoryOf thread).writeByte selPtr filter)

/-- The kernel's state is the memory of the process, and whatever else it has. The
selector and the trampoline are the thread's. None if the call ends the process. -/
def sigsysHandler (platform : Platform (κ × Memory)) (selPtr trampoline : Address)
    (graftedFd siCode : BitVec 32) (ctx : Ucontext) (thread : ThreadState (κ × Memory)) :
    Option (Ucontext × ThreadState (κ × Memory)) :=
  if selPtr = 0 then some (ctx, thread)
  else
    let allowed := setSelector selPtr SYSCALL_DISPATCH_FILTER_ALLOW thread
    if siCode ≠ SYS_USER_DISPATCH then
      some (ctx, setSelector selPtr SYSCALL_DISPATCH_FILTER_BLOCK allowed)
    else
      let processed := processSyscall platform (ctx.gregs .rax) ctx.args graftedFd allowed
      processed.value.map fun result =>
        let newRsp := ctx.gregs .rsp - 8
        ({ctx with
          gregs := Function.update (Function.update ctx.gregs .rax result) .rsp newRsp
          rip := trampoline },
        setMemory processed.state ((memoryOf processed.state).writeWord newRsp ctx.rip))

end Handler

/-! ### The trampoline -/

/-- The three instructions of the trampoline, from `s`. -/
structure TrampolineRan (selAddr : Address) (s s' : Cpu) : Prop where
  memory : s'.memory = s.memory.writeByte selAddr SYSCALL_DISPATCH_FILTER_BLOCK
  rip : s'.rip = s'.memory.readWord (s.reg .rsp)
  rsp : s'.reg .rsp = s.reg .rsp + 8
  reg : ∀ r, r ≠ .rsp → r ≠ .r11 → s'.reg r = s.reg r
  xmm : s'.xmm = s.xmm
  flags : s'.flags = s.flags

theorem run_trampoline {selAddr : Address} {s : Cpu}
    (hcode : CodeAt s.memory s.rip (trampolineCode selAddr)) (hapart : ¬ Within s.rip 15 selAddr) :
    ∃ s', run 3 s = some s' ∧ TrampolineRan selAddr s s' := by
  rw [trampolineCode_eq] at hcode
  obtain ⟨hmov, hcode⟩ := codeAt_append.mp hcode
  obtain ⟨hstore, hret⟩ := codeAt_append.mp hcode
  rw [length_movImm] at hstore hret
  obtain ⟨s₁, h₁, hrun₁⟩ := run_movImm hmov
  have hstore₁ : CodeAt s₁.memory s₁.rip (encode (.movByte .r11 SYSCALL_DISPATCH_FILTER_BLOCK)) := by
    rw [h₁.memory, h₁.rip]
    exact hstore
  have hbase : (Instr.movByte .r11 SYSCALL_DISPATCH_FILTER_BLOCK).Encodable := by
    unfold Instr.Encodable
    decide
  have hrun₂ := run_movByte hbase hstore₁ 1
  generalize hs₂ : (s₁.storeByte (s₁.reg .r11) SYSCALL_DISPATCH_FILTER_BLOCK).goto _ = s₂ at hrun₂
  have hmemory₂ : s₂.memory = s.memory.writeByte selAddr SYSCALL_DISPATCH_FILTER_BLOCK := by
    rw [← hs₂, Cpu.goto_memory, Cpu.storeByte_memory, h₁.self, h₁.memory]
  have hreg₂ : s₂.reg = s₁.reg := by
    rw [← hs₂, Cpu.goto_reg, Cpu.storeByte_reg]
  have hrip₂ : s₂.rip = s.rip + 10 + 4 := by
    have hlen : (encode (.movByte .r11 SYSCALL_DISPATCH_FILTER_BLOCK)).length = 4 := rfl
    rw [← hs₂, Cpu.goto_rip, h₁.rip, hlen]
    rfl
  -- the selector is not in the code, so the return is still there
  have hret₂ : CodeAt s₂.memory s₂.rip (encode .ret) := by
    rw [hmemory₂, hrip₂]
    refine CodeAt.congr hret fun x hx => Memory.writeByte_of_ne _ _ fun hsel => ?_
    rw [hsel] at hx
    refine hapart (Within.widen (n := 10) (k := 5) ?_ (by decide))
    exact Within.widen (n := 4) hx (by decide)
  refine ⟨_, (hrun₁ 2).trans (hrun₂.trans (run_ret hret₂ 0)), hmemory₂, ?_, ?_, fun r hrsp hr11 => ?_,
    ?_, ?_⟩
  · rw [Cpu.goto_rip, Cpu.goto_memory, Cpu.set_memory, hreg₂, h₁.reg .rsp (by decide)]
  · rw [Cpu.goto_reg, Cpu.set_reg_self, hreg₂, h₁.reg .rsp (by decide)]
  · rw [Cpu.goto_reg, Cpu.set_reg_of_ne _ _ hrsp, hreg₂, h₁.reg r hr11]
  · rw [Cpu.goto_xmm, Cpu.set_xmm, ← hs₂, Cpu.goto_xmm, Cpu.storeByte_xmm, h₁.xmm]
  · rw [Cpu.goto_flags, Cpu.set_flags, ← hs₂, Cpu.goto_flags, Cpu.storeByte_flags, h₁.flags]

/-! ### The whole way -/

/-- What the kernel has saved when a system call at `s.rip` traps. -/
structure Trapped (s : Cpu) (ctx : Ucontext) : Prop where
  rip : ctx.rip = s.rip + 2
  /-- The instruction itself has overwritten the other two. -/
  gregs : ∀ r, r ∉ [Reg.rcx, .r11] → ctx.gregs r = s.reg r
  xmm : ctx.xmm = s.xmm
  flags : ctx.flags = s.flags

/-- The trampoline of the thread is in its memory, and neither it nor the selector is
on the Darwin stack. -/
structure Installed (selPtr trampoline rsp : Address) (m : Memory) : Prop where
  code : CodeAt m trampoline (trampolineCode selPtr)
  selector : ¬ Within trampoline 15 selPtr
  stack : ∀ x, Within (rsp - 8) 8 x → x ≠ selPtr ∧ ¬ Within trampoline 15 x

/-- Darwin code goes on after the call, in memory `m` but for what is `touched`. -/
structure Resumed (touched : Address → Prop) (selPtr : Address) (result : Word) (m : Memory)
    (s s' : Cpu) : Prop where
  rip : s'.rip = s.rip + 2
  rax : s'.reg .rax = result
  reg : ∀ r, r ∉ [Reg.rax, .rcx, .r11] → s'.reg r = s.reg r
  xmm : s'.xmm = s.xmm
  flags : s'.flags = s.flags
  selector : s'.memory selPtr = SYSCALL_DISPATCH_FILTER_BLOCK
  memory : ∀ x, x ≠ selPtr → ¬ touched x → s'.memory x = m x

/-- The word that is pushed on the stack. -/
def UnderRsp (s : Cpu) : Address → Prop := Within (s.reg .rsp - 8) 8

section Way
variable {κ : Type} {platform : Platform (κ × Memory)} {selPtr trampoline : Address}
  {graftedFd : BitVec 32} {ctx : Ucontext} {thread : ThreadState (κ × Memory)} {result : Word}
  {answered : Outcome (ThreadState (κ × Memory)) SystemCall (Option Word)}

/-- What the handler leaves: the context that is restored, and the memory. -/
theorem sigsysHandler_answered (hselPtr : selPtr ≠ 0)
    (hcall : processSyscall platform (ctx.gregs .rax) ctx.args graftedFd
      (setSelector selPtr SYSCALL_DISPATCH_FILTER_ALLOW thread) = answered)
    (hresult : answered.value = some result) :
    ∃ ctx' thread', sigsysHandler platform selPtr trampoline graftedFd SYS_USER_DISPATCH ctx thread =
        some (ctx', thread') ∧
      ctx'.restore (memoryOf thread') =
        ⟨Function.update (Function.update ctx.gregs .rax result) .rsp (ctx.gregs .rsp - 8),
          ctx.xmm, ctx.flags, trampoline,
          (memoryOf answered.state).writeWord (ctx.gregs .rsp - 8) ctx.rip⟩ := by
  have hhandler : sigsysHandler platform selPtr trampoline graftedFd SYS_USER_DISPATCH ctx thread =
      answered.value.map fun result =>
        ({ctx with
          gregs := Function.update (Function.update ctx.gregs .rax result) .rsp (ctx.gregs .rsp - 8)
          rip := trampoline },
        setMemory answered.state
          ((memoryOf answered.state).writeWord (ctx.gregs .rsp - 8) ctx.rip)) := by
    rw [sigsysHandler, if_neg hselPtr, if_neg (not_not.mpr rfl), hcall]
  rw [hhandler, hresult]
  exact ⟨_, _, rfl, rfl⟩

/-- **A trapped call is answered.** Whatever the registers and the memory were and
whatever the answer is, Darwin code goes on after the call with the answer in rax, its
other registers, rsp among them, and its memory, but for the word under rsp: there the
address where it goes on is left. -/
theorem sigsys_resumes {s : Cpu} (htrapped : Trapped s ctx) (hselPtr : selPtr ≠ 0)
    (hcall : processSyscall platform (ctx.gregs .rax) ctx.args graftedFd
      (setSelector selPtr SYSCALL_DISPATCH_FILTER_ALLOW thread) = answered)
    (hresult : answered.value = some result)
    (h : Installed selPtr trampoline (s.reg .rsp) (memoryOf answered.state)) :
    ∃ ctx' thread' s',
      sigsysHandler platform selPtr trampoline graftedFd SYS_USER_DISPATCH ctx thread =
        some (ctx', thread') ∧
      run 3 (ctx'.restore (memoryOf thread')) = some s' ∧
      Resumed (UnderRsp s) selPtr result (memoryOf answered.state) s s' ∧
      s'.memory.readWord (s.reg .rsp - 8) = s.rip + 2 := by
  obtain ⟨ctx', thread', hhandler, hrestore⟩ := sigsysHandler_answered hselPtr hcall hresult
  have hrsp : ctx.gregs .rsp = s.reg .rsp := htrapped.gregs .rsp (by decide)
  rw [hrsp, htrapped.rip] at hrestore
  generalize hstart : ctx'.restore (memoryOf thread') = start at hrestore
  have hmemory : start.memory =
      (memoryOf answered.state).writeWord (s.reg .rsp - 8) (s.rip + 2) := by rw [hrestore]
  have hrip : start.rip = trampoline := by rw [hrestore]
  have hsp : start.reg .rsp = s.reg .rsp - 8 := by
    simp only [hrestore, Function.update_self]
  -- the word that is pushed is not in the trampoline
  have hcode : CodeAt start.memory start.rip (trampolineCode selPtr) := by
    rw [hmemory, hrip]
    refine h.code.congr fun x hx => Memory.writeWord_outside _ _ (Nat.le_of_not_lt fun hin => ?_)
    rw [trampolineCode_length] at hx
    exact (h.stack x hin).2 hx
  obtain ⟨s', hrun, hran⟩ := run_trampoline hcode (by rw [hrip]; exact h.selector)
  have hword : s'.memory.readWord (s.reg .rsp - 8) = s.rip + 2 := by
    have hapart : ∀ x, Within (s.reg .rsp - 8) 8 x → s'.memory x = start.memory x := by
      intro x hx
      rw [hran.memory, Memory.writeByte_of_ne _ _ (h.stack x hx).1]
    rw [readWord_within hapart, hmemory, Memory.readWord_writeWord]
  have hreg : ∀ r, r ≠ .rsp → r ≠ .r11 →
      s'.reg r = Function.update ctx.gregs .rax result r := by
    intro r hrsp' hr11
    rw [hran.reg r hrsp' hr11, hrestore]
    exact Function.update_of_ne hrsp' ..
  refine ⟨ctx', thread', s', hhandler, by rw [hstart]; exact hrun, ?_, hword⟩
  refine ⟨?_, ?_, fun r hr => ?_, ?_, ?_, ?_, fun x hx hpushed => ?_⟩
  · rw [hran.rip, hsp, hword]
  · rw [hreg .rax (by decide) (by decide), Function.update_self]
  · simp only [List.mem_cons, List.not_mem_nil, or_false, not_or] at hr
    obtain ⟨hrax, hrcx, hr11⟩ := hr
    by_cases hstack : r = .rsp
    · rw [hstack, hran.rsp, hsp]
      exact BitVec.sub_add_cancel _ _
    · rw [hreg r hstack hr11, Function.update_of_ne hrax, htrapped.gregs r (by simp [hrcx, hr11])]
  · rw [hran.xmm, hrestore]
    exact htrapped.xmm
  · rw [hran.flags, hrestore]
    exact htrapped.flags
  · rw [hran.memory, Memory.writeByte_self]
  · rw [hran.memory, Memory.writeByte_of_ne _ _ hx, hmemory]
    exact Memory.writeWord_outside _ _ (Nat.le_of_not_lt hpushed)

end Way

/-! ### The selector -/

def filterByte : Dyld.Selector.Filter → Byte
  | .allow => SYSCALL_DISPATCH_FILTER_ALLOW
  | .block => SYSCALL_DISPATCH_FILTER_BLOCK

/-- What is left in the byte is what the handler of `Selector` leaves. -/
theorem Resumed.refines {touched : Address → Prop} {selPtr : Address} {result : Word} {m : Memory}
    {s s' : Cpu} (h : Resumed touched selPtr result m s s') (nr : Word)
    (filter : Dyld.Selector.Filter) :
    s'.memory selPtr = filterByte (Dyld.Selector.sigsysHandler nr filter).state :=
  h.selector

/-! ### A call of getpid -/

/-- Every call is answered with the number of the process. -/
def pidPlatform : Platform (Unit × Memory) where
  answer := fun _ kernel => (1234, kernel)
  trapResult := fun _ => 0
  int := asU64
  int_nonneg := fun _ h => asU64_nonneg h

/-- At the instruction; the trampoline is at 0x1000, for a selector at 0x3000. -/
def atGetpid : Cpu where
  reg := fun r => if r = .rax then 0x2000014 else if r = .rsp then 0x80000000 else 0
  xmm := fun _ => 0
  flags := 0x202
  rip := 0x4000
  memory := fun x => (trampolineCode 0x3000).getD (x - 0x1000).toNat 0

def savedAtGetpid : Ucontext where
  gregs := fun r => if r = .rcx then 0x4002 else if r = .r11 then 0x202 else atGetpid.reg r
  rip := 0x4002
  xmm := fun _ => 0
  flags := 0x202

theorem trapped_atGetpid : Trapped atGetpid savedAtGetpid := by
  refine ⟨by decide, fun r hr => ?_, rfl, rfl⟩
  cases r
  all_goals first | rfl | exact absurd (by decide) hr

/-- What the handler answers the call with, and leaves. -/
def getpidAnswered : Outcome (ThreadState (Unit × Memory)) SystemCall (Option Word) :=
  processSyscall pidPlatform (savedAtGetpid.gregs .rax) savedAtGetpid.args (-1)
    (setSelector 0x3000 SYSCALL_DISPATCH_FILTER_ALLOW ⟨((), atGetpid.memory), 0⟩)

theorem installed_atGetpid :
    Installed 0x3000 0x1000 (atGetpid.reg .rsp) (memoryOf getpidAnswered.state) := by
  refine ⟨rfl, by unfold Within; decide, fun x hx => ?_⟩
  have hrsp : atGetpid.reg .rsp = 0x80000000 := rfl
  simp only [Within, hrsp] at hx ⊢
  constructor
  · intro heq
    subst heq
    exact absurd hx (by decide)
  · bv_omega

theorem sigsys_resumes_getpid : ∃ ctx' thread' s',
    sigsysHandler pidPlatform 0x3000 0x1000 (-1) SYS_USER_DISPATCH savedAtGetpid
      ⟨((), atGetpid.memory), 0⟩ = some (ctx', thread') ∧
    run 3 (ctx'.restore (memoryOf thread')) = some s' ∧
    Resumed (UnderRsp atGetpid) 0x3000 1234 (memoryOf getpidAnswered.state) atGetpid s' ∧
    s'.memory.readWord 0x7ffffff8 = 0x4002 :=
  sigsys_resumes trapped_atGetpid (by decide) (rfl : _ = getpidAnswered) rfl installed_atGetpid

/-- What the function that makes the call keeps under rsp is lost. -/
theorem red_zone_overwritten : ¬ ∀ {κ : Type} {platform : Platform (κ × Memory)}
    {selPtr trampoline : Address} {graftedFd : BitVec 32} {ctx : Ucontext}
    {thread : ThreadState (κ × Memory)} {result : Word}
    {answered : Outcome (ThreadState (κ × Memory)) SystemCall (Option Word)} {s : Cpu},
    Trapped s ctx → selPtr ≠ 0 →
    processSyscall platform (ctx.gregs .rax) ctx.args graftedFd
      (setSelector selPtr SYSCALL_DISPATCH_FILTER_ALLOW thread) = answered →
    answered.value = some result →
    Installed selPtr trampoline (s.reg .rsp) (memoryOf answered.state) →
    ∃ ctx' thread' s',
      sigsysHandler platform selPtr trampoline graftedFd SYS_USER_DISPATCH ctx thread =
        some (ctx', thread') ∧
      run 3 (ctx'.restore (memoryOf thread')) = some s' ∧
      Resumed (fun _ => False) selPtr result (memoryOf answered.state) s s' := by
  intro h
  have hanswered : getpidAnswered.value = some 1234 := rfl
  obtain ⟨ctx', thread', s', hhandler, hrun, hresumed⟩ := h trapped_atGetpid
    (by decide : (0x3000 : Address) ≠ 0) (rfl : _ = getpidAnswered) hanswered installed_atGetpid
  have hafter : ((sigsysHandler pidPlatform 0x3000 0x1000 (-1) SYS_USER_DISPATCH savedAtGetpid
      ⟨((), atGetpid.memory), 0⟩).bind fun back =>
        (run 3 (back.1.restore (memoryOf back.2))).map fun s' => s'.memory 0x7ffffff8) = some 2 := by
    decide
  have hbefore : memoryOf getpidAnswered.state 0x7ffffff8 = 0 := by decide
  rw [hhandler, Option.bind_some, hrun, Option.map_some] at hafter
  have hbyte : s'.memory 0x7ffffff8 = 2 := Option.some.inj hafter
  rw [hresumed.memory 0x7ffffff8 (by decide) not_false, hbefore] at hbyte
  exact absurd hbyte (by decide)

end Grafted.Loader.SigsysHandler
