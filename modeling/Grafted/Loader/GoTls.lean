import Grafted.Base.ByteRanges
import Grafted.Base.X86Syscalls
import Grafted.Loader.SigsysHandler

/-! `runtime.settls` of a Go binary.

The function of Darwin is overwritten with one that makes a call of Linux, by its Linux number.
Darwin code that makes system calls is trapped, and the number is of no class of Darwin's, so the
handler hands it through: a thread that calls the function sets its base of GS and goes on
(`settls_sets_gs`), as it does where its calls are not trapped. -/
namespace Grafted.Loader.GoTls
open ByteMemory Kernel SigsysHandler
open X86 hiding run step exec encode decode Instr
open X86.Syscalls

/-! ### The source -/

structure Symbol where
  name : String
  nValue : Word

def settlsAddr (symbols : List Symbol) : Option Word :=
  (symbols.find? fun sym => (sym.name == "_runtime.settls.abi0" || sym.name == "_runtime.settls") &&
    sym.nValue != 0).map (·.nValue)

/-- `lea rsi, [rdi-0x30]; mov edi, 0x1001; mov eax, 158; syscall; ret` -/
def settlsCode : List Byte :=
  [0x48, 0x8d, 0x77, 0xd0, 0xbf, 0x01, 0x10, 0x00, 0x00, 0xb8, 0x9e, 0x00, 0x00, 0x00, 0x0f, 0x05,
    0xc3]

/-- The slide is not added. -/
def patchGoSettls (symbols : List Symbol) (m : Memory) : Memory :=
  match settlsAddr symbols with
  | none => m
  | some addr => m.writeBytes addr settlsCode

/-- What the bytes are. -/
theorem settlsCode_eq : settlsCode =
    encode (.lea .rsi .rdi 0xd0) ++ (encode (.mov32 .rdi 0x1001) ++ (encode (.mov32 .rax 158) ++
      (encode .syscall ++ encode (.basic .ret)))) := by
  decide

theorem codeAt_patchGoSettls {symbols : List Symbol} {addr : Word}
    (h : settlsAddr symbols = some addr) (m : Memory) :
    CodeAt (patchGoSettls symbols m) addr settlsCode := by
  unfold patchGoSettls
  rw [h]
  exact Memory.readBytes_writeBytes m addr (by decide)

/-! ### A thread -/

/-- What a thread has been set up with. -/
structure Setup where
  textBase : Word
  selPtr : Address
  trampoline : Address
  graftedFd : BitVec 32

/-- What is not in the registers and the memory: the kernel, and what it was asked for. -/
structure Outside (κ : Type) where
  kernel : κ
  errno : BitVec 32
  calls : List SystemCall

/-- The instruction itself overwrites two registers. -/
def saved (s : Cpu) : Ucontext where
  gregs := Function.update (Function.update s.reg .rcx (s.rip + 2)) .r11 s.flags
  rip := s.rip + 2
  xmm := s.xmm
  flags := s.flags

section Thread
variable {κ : Type} (platform : Platform (κ × Memory)) (t : Setup)

def threadOf (s : Cpu × Outside κ) : ThreadState (κ × Memory) :=
  ⟨(s.2.kernel, s.1.memory), s.2.errno⟩

/-- A call goes to Linux, or to the handler, and is answered in the registers that were saved. -/
def call (s : Cpu × Outside κ) : Option (Cpu × Outside κ) :=
  let ctx := saved s.1
  if Dyld.Selector.exempt t.textBase ctx.rip ||
      s.1.memory t.selPtr == SYSCALL_DISPATCH_FILTER_ALLOW then
    let made := Kernel.syscall platform (.linux (ctx.gregs .rax) ctx.args.toList) (threadOf s)
    some ({ctx with gregs := Function.update ctx.gregs .rax made.value}.restore
        (memoryOf made.state),
      ⟨made.state.kernel.1, made.state.errno, s.2.calls ++ made.trace⟩)
  else
    let made := processSyscall platform (ctx.gregs .rax) ctx.args t.graftedFd
      (setSelector t.selPtr SYSCALL_DISPATCH_FILTER_ALLOW (threadOf s))
    (sigsysHandler platform t.selPtr t.trampoline t.graftedFd SYS_USER_DISPATCH ctx
      (threadOf s)).map fun back =>
        (back.1.restore (memoryOf back.2),
          ⟨back.2.kernel.1, back.2.errno, s.2.calls ++ made.trace⟩)

end Thread

section Call
variable {κ : Type} {platform : Platform (κ × Memory)} {t : Setup} {s : Cpu} {o : Outside κ}
  {nr ret : Word} {k : κ}

/-- Linux answers from its own state, and leaves the memory of the process. -/
def Answers (platform : Platform (κ × Memory)) (call : SystemCall) (before : κ) (ret : Word)
    (after : κ) : Prop :=
  ∀ m, platform.answer call (before, m) = (ret, (after, m))

theorem syscall_answers {call : SystemCall} (thread : ThreadState (κ × Memory))
    (h : Answers platform call thread.kernel.1 ret k) :
    Kernel.syscall platform call thread =
      ⟨ret, ⟨(k, memoryOf thread), thread.errno⟩, [call]⟩ := by
  have hanswer : platform.answer call thread.kernel = (ret, (k, memoryOf thread)) :=
    h thread.kernel.2
  simp only [Kernel.syscall, Traced.bind_apply, Traced.emit, Traced.read, Traced.modify, hanswer,
    Traced.pure_apply, List.append_nil]

/-- The handler hands a number of no class through. -/
theorem processSyscall_answers {args : Args} (fd : BitVec 32) (thread : ThreadState (κ × Memory))
    (hclass : Kernel.translate nr = .unknown nr) (hnr : nr < 500)
    (h : Answers platform (.linux nr args.toList) thread.kernel.1 ret k) :
    processSyscall platform nr args fd thread =
      ⟨some ret, ⟨(k, memoryOf thread), thread.errno⟩, [.linux nr args.toList]⟩ := by
  simp only [processSyscall, hclass, processUnknown, if_pos hnr, Traced.bind_apply,
    syscall_answers thread h, Traced.pure_apply, List.append_nil]

theorem trapped_saved (s : Cpu) : Trapped s (saved s) := by
  constructor
  · rfl
  · intro r hr
    simp only [List.mem_cons, List.not_mem_nil, or_false, not_or] at hr
    simp only [saved, Function.update_of_ne hr.2, Function.update_of_ne hr.1]
  · rfl
  · rfl

theorem saved_rax (s : Cpu) : (saved s).gregs .rax = s.reg .rax :=
  (trapped_saved s).gregs .rax (by decide)

theorem args_saved (s : Cpu) : (saved s).args.toList =
    [s.reg .rdi, s.reg .rsi, s.reg .rdx, s.reg .r10, s.reg .r8, s.reg .r9] := by
  have hsaved := (trapped_saved s).gregs
  simp only [Ucontext.args, Args.toList, hsaved .rdi (by decide), hsaved .rsi (by decide),
    hsaved .rdx (by decide), hsaved .r10 (by decide), hsaved .r8 (by decide), hsaved .r9 (by decide)]

/-- The trampoline is still there once the selector has been written. -/
theorem installed_allow {selPtr trampoline rsp : Address} {m : Memory}
    (h : Installed selPtr trampoline rsp m) (filter : Byte) :
    Installed selPtr trampoline rsp (m.writeByte selPtr filter) := by
  refine ⟨h.code.congr fun x hx => ?_, h.selector, h.stack⟩
  rw [trampolineCode_length] at hx
  refine Memory.writeByte_of_ne _ _ fun hsel => h.selector ?_
  rw [← hsel]
  exact hx

/-- A call that is not trapped. -/
theorem call_direct (hrax : s.reg .rax = nr)
    (hdirect : (Dyld.Selector.exempt t.textBase (saved s).rip ||
      s.memory t.selPtr == SYSCALL_DISPATCH_FILTER_ALLOW) = true)
    (h : Answers platform (.linux nr (saved s).args.toList) o.kernel ret k) :
    call platform t (s, o) =
      some (⟨Function.update (saved s).gregs .rax ret, s.xmm, s.flags, s.rip + 2, s.memory⟩,
        ⟨k, o.errno, o.calls ++ [.linux nr (saved s).args.toList]⟩) := by
  have hmade := syscall_answers (threadOf (s, o)) h
  simp only [call, hdirect, if_true, saved_rax, hrax, hmade]
  rfl

/-- What the handler leaves besides the memory. -/
theorem sigsysHandler_outside {ctx ctx' : Ucontext} {thread thread' : ThreadState (κ × Memory)}
    {answered : Outcome (ThreadState (κ × Memory)) SystemCall (Option Word)}
    (hselPtr : t.selPtr ≠ 0)
    (hcall : processSyscall platform (ctx.gregs .rax) ctx.args t.graftedFd
      (setSelector t.selPtr SYSCALL_DISPATCH_FILTER_ALLOW thread) = answered)
    (hhandler : sigsysHandler platform t.selPtr t.trampoline t.graftedFd SYS_USER_DISPATCH ctx
      thread = some (ctx', thread')) :
    thread'.kernel.1 = answered.state.kernel.1 ∧ thread'.errno = answered.state.errno := by
  rw [sigsysHandler, if_neg hselPtr, if_neg (not_not.mpr rfl), hcall] at hhandler
  obtain ⟨result, -, hback⟩ := Option.map_eq_some_iff.mp hhandler
  cases hback
  exact ⟨rfl, rfl⟩

/-- **A call of Linux by its Linux number is one**, trapped or not: the thread goes on behind it
with the answer. -/
theorem call_resumes (hcode : CodeAt s.memory s.rip (encode .syscall)) (hrax : s.reg .rax = nr)
    (hclass : Kernel.translate nr = .unknown nr) (hnr : nr < 500)
    (h : Answers platform (.linux nr (saved s).args.toList) o.kernel ret k)
    (hselPtr : t.selPtr ≠ 0) (hblock : s.memory t.selPtr = SYSCALL_DISPATCH_FILTER_BLOCK)
    (hinstalled : Installed t.selPtr t.trampoline (s.reg .rsp) s.memory) :
    ∃ n s', (∀ more, run (call platform t) (n + more) (s, o) =
        run (call platform t) more
          (s', ⟨k, o.errno, o.calls ++ [.linux nr (saved s).args.toList]⟩)) ∧
      Resumed (UnderRsp s) t.selPtr ret s.memory s s' := by
  by_cases hdirect : (Dyld.Selector.exempt t.textBase (saved s).rip ||
      s.memory t.selPtr == SYSCALL_DISPATCH_FILTER_ALLOW) = true
  · have hcall := call_direct hrax hdirect h
    refine ⟨1, ⟨Function.update (saved s).gregs .rax ret, s.xmm, s.flags, s.rip + 2, s.memory⟩,
      fun more => ?_, ?_⟩
    · rw [Nat.add_comm, run_syscall hcode, hcall]
      rfl
    · have hanswer : Function.update (saved s).gregs .rax ret .rax = ret := Function.update_self ..
      refine ⟨rfl, hanswer, fun r hr => ?_, rfl, rfl, hblock, fun x _ _ => rfl⟩
      simp only [List.mem_cons, List.not_mem_nil, or_false, not_or] at hr
      have hsaved := (trapped_saved s).gregs r (by simp [hr.2.1, hr.2.2])
      exact (Function.update_of_ne hr.1 ..).trans hsaved
  · let thread := setSelector t.selPtr SYSCALL_DISPATCH_FILTER_ALLOW (threadOf (s, o))
    have hprocessed : processSyscall platform ((saved s).gregs .rax) (saved s).args t.graftedFd
        thread = ⟨some ret, ⟨(k, memoryOf thread), thread.errno⟩,
          [.linux nr (saved s).args.toList]⟩ := by
      rw [saved_rax, hrax]
      exact processSyscall_answers t.graftedFd thread hclass hnr h
    obtain ⟨ctx', thread', s', hhandler, hrun, hresumed, -⟩ :=
      sigsys_resumes (trapped_saved s) hselPtr hprocessed rfl (installed_allow hinstalled _)
    obtain ⟨hkernel, herrno⟩ := sigsysHandler_outside hselPtr hprocessed hhandler
    have hcall : call platform t (s, o) = some (ctx'.restore (memoryOf thread'),
        ⟨k, o.errno, o.calls ++ [.linux nr (saved s).args.toList]⟩) := by
      simp only [call, if_neg hdirect, hhandler, Option.map_some, hkernel, herrno]
      rw [hprocessed]
      rfl
    refine ⟨4, s', fun more => ?_, ?_⟩
    · have hsteps : 4 + more = 3 + more + 1 := by omega
      rw [hsteps, run_syscall hcode, hcall]
      exact run_basic hrun more
    · refine ⟨hresumed.rip, hresumed.rax, hresumed.reg, hresumed.xmm, hresumed.flags,
        hresumed.selector, fun x hx htouched => ?_⟩
      rw [hresumed.memory x hx htouched]
      exact Memory.writeByte_of_ne _ _ hx

/-! ### The function -/

/-- At the system call of the function that was entered at `s`. -/
structure AtCall (s s' : Cpu) : Prop where
  rip : s'.rip = s.rip + 14
  rax : s'.reg .rax = 158
  rdi : s'.reg .rdi = 0x1001
  rsi : s'.reg .rsi = s.reg .rdi - 0x30
  reg : ∀ r, r ∉ [Reg.rax, .rdi, .rsi] → s'.reg r = s.reg r
  xmm : s'.xmm = s.xmm
  flags : s'.flags = s.flags
  memory : s'.memory = s.memory

/-- The parts of the function, and where they are. -/
theorem codeAt_settlsCode {m : Memory} {a : Address} (h : CodeAt m a settlsCode) :
    CodeAt m a (encode (.lea .rsi .rdi 0xd0)) ∧ CodeAt m (a + 4) (encode (.mov32 .rdi 0x1001)) ∧
      CodeAt m (a + 9) (encode (.mov32 .rax 158)) ∧ CodeAt m (a + 14) (encode .syscall) ∧
      CodeAt m (a + 16) (encode (.basic .ret)) := by
  rw [settlsCode_eq] at h
  obtain ⟨hlea, h⟩ := codeAt_append.mp h
  obtain ⟨hrdi, h⟩ := codeAt_append.mp h
  obtain ⟨hrax, h⟩ := codeAt_append.mp h
  obtain ⟨hcall, hret⟩ := codeAt_append.mp h
  have h9 : a + 4 + 5 = a + 9 := BitVec.add_assoc ..
  have h14 : a + 4 + 5 + 5 = a + 14 := by rw [h9]; exact BitVec.add_assoc ..
  have h16 : a + 4 + 5 + 5 + 2 = a + 16 := by rw [h14]; exact BitVec.add_assoc ..
  exact ⟨hlea, hrdi, h9 ▸ hrax, h14 ▸ hcall, h16 ▸ hret⟩

theorem run_arguments (call : Cpu × Outside κ → Option (Cpu × Outside κ))
    (hcode : CodeAt s.memory s.rip settlsCode) :
    ∃ s', AtCall s s' ∧ ∀ more, run call (3 + more) (s, o) = run call more (s', o) := by
  obtain ⟨hlea, hrdi, hrax, -, -⟩ := codeAt_settlsCode hcode
  have hdisp : (0xd0 : Byte).signExtend 64 = -(0x30 : Word) := by decide
  let s₁ := (s.set .rsi (s.reg .rdi + (0xd0 : Byte).signExtend 64)).goto (s.rip + 4)
  let s₂ := (s₁.set .rdi ((0x1001 : BitVec 32).setWidth 64)).goto (s₁.rip + 5)
  let s₃ := (s₂.set .rax ((158 : BitVec 32).setWidth 64)).goto (s₂.rip + 5)
  have h9 : s.rip + 4 + 5 = s.rip + 9 := BitVec.add_assoc ..
  have h14 : s.rip + 9 + 5 = s.rip + 14 := BitVec.add_assoc ..
  have hreg₁ {r : Reg} (hr : r ≠ .rsi) : s₁.reg r = s.reg r := Cpu.set_reg_of_ne s _ hr
  have hreg₂ {r : Reg} (hr : r ≠ .rdi) : s₂.reg r = s₁.reg r := Cpu.set_reg_of_ne s₁ _ hr
  have hreg₃ {r : Reg} (hr : r ≠ .rax) : s₃.reg r = s₂.reg r := Cpu.set_reg_of_ne s₂ _ hr
  have hrsi₁ : s₁.reg .rsi = s.reg .rdi - 0x30 := by
    simp only [s₁, Cpu.goto_reg, Cpu.set_reg_self, hdisp, BitVec.sub_eq_add_neg]
  have hrdi₂ : s₂.reg .rdi = 0x1001 := by
    simp only [s₂, Cpu.goto_reg, Cpu.set_reg_self]
    rfl
  have hrax₃ : s₃.reg .rax = 158 := by
    simp only [s₃, Cpu.goto_reg, Cpu.set_reg_self]
    rfl
  refine ⟨s₃, ⟨?_, hrax₃, ?_, ?_, fun r hr => ?_, rfl, rfl, rfl⟩, fun more => ?_⟩
  · rw [← h14, ← h9]
    rfl
  · rw [hreg₃ (by decide), hrdi₂]
  · rw [hreg₃ (by decide), hreg₂ (by decide), hrsi₁]
  · simp only [List.mem_cons, List.not_mem_nil, or_false, not_or] at hr
    rw [hreg₃ hr.1, hreg₂ hr.2.1, hreg₁ hr.2.2]
  · have hsteps : 3 + more = more + 1 + 1 + 1 := by omega
    have hcode₂ : CodeAt s₂.memory s₂.rip (encode (.mov32 .rax 158)) := by
      have hrip : s₂.rip = s.rip + 9 := h9
      rw [hrip]
      exact hrax
    have henc₁ : (Instr.lea .rsi .rdi 0xd0).Encodable := ⟨by decide, by decide, by decide⟩
    have henc₂ : (Instr.mov32 .rdi 0x1001).Encodable := (by decide : Reg.rdi.number < 8)
    have henc₃ : (Instr.mov32 .rax 158).Encodable := (by decide : Reg.rax.number < 8)
    rw [hsteps, run_lea henc₁ hlea, run_mov32 (s := s₁) henc₂ hrdi,
      run_mov32 (s := s₂) henc₃ hcode₂]

/-- The number of Linux's call is of no class. -/
theorem translate_prctl : Kernel.translate 158 = .unknown 158 := by
  unfold Kernel.translate
  rw [if_neg (by decide), if_neg (by decide)]

/-- The registers that the function uses. -/
def scratch : List Reg := [.rax, .rcx, .rdi, .rsi, .r11, .rsp]

/-- The last instruction, on what the call left. -/
theorem ret_returns {s₄ : Cpu} (call : Cpu × Outside κ → Option (Cpu × Outside κ))
    (o' : Outside κ)
    (hret : CodeAt s₄.memory s₄.rip (X86.encode .ret)) (hrsp : s₄.reg .rsp = s.reg .rsp)
    (hmemory : ∀ x, ¬ UnderRsp s x → s₄.memory x = s.memory x)
    (hreg : ∀ r, r ∉ scratch → s₄.reg r = s.reg r) :
    ∃ s₅, run call 1 (s₄, o') = some (s₅, o') ∧ Returned (fun x => ¬ UnderRsp s x) s s₅ ∧
      s₅.reg .rax = s₄.reg .rax ∧ ∀ r, r ∉ scratch → s₅.reg r = s.reg r := by
  let s₅ := (s₄.set .rsp (s₄.reg .rsp + 8)).goto (s₄.memory.readWord (s₄.reg .rsp))
  have hlast : run call 1 (s₄, o') = some (s₅, o') := run_basic (run_ret hret 0) 0
  have hreg₅ (r : Reg) (hr : r ≠ .rsp) : s₅.reg r = s₄.reg r := by
    rw [Cpu.goto_reg, Cpu.set_reg_of_ne _ _ hr]
  have hkept (r : Reg) (hr : r ∉ scratch) : s₅.reg r = s.reg r := by
    have hstack : r ≠ .rsp := by
      rintro rfl
      exact hr (by decide)
    rw [hreg₅ r hstack, hreg r hr]
  have hword : s₄.memory.readWord (s.reg .rsp) = s.memory.readWord (s.reg .rsp) := by
    refine readWord_within fun x hx => hmemory x fun hin => ?_
    simp only [UnderRsp, Within] at hx hin
    bv_omega
  refine ⟨s₅, hlast, ⟨?_, ?_, fun r hr => ?_, fun x hx => ?_⟩, hreg₅ .rax (by decide), hkept⟩
  · rw [Cpu.goto_rip, hrsp, hword]
  · rw [Cpu.goto_reg, Cpu.set_reg_self, hrsp]
  · have hsaved : r ∉ scratch := by
      unfold Reg.CalleeSaved at hr
      cases r <;> first | decide | exact absurd hr (by decide)
    exact hkept r hsaved
  · rw [Cpu.goto_memory, Cpu.set_memory]
    exact hmemory x hx

/-- **A thread that calls `runtime.settls` sets its base of GS.** Linux gets this one call, with
the address `0x30` below the argument, and the thread returns to where the function was called from,
with its registers and its memory but for the word under the return address. -/
theorem settls_sets_gs {symbols : List Symbol} {m : Memory}
    (hsettls : settlsAddr symbols = some s.rip)
    (hkept : ∀ x, Within s.rip 17 x → s.memory x = patchGoSettls symbols m x)
    (happart : ∀ x, Within s.rip 17 x → ¬ UnderRsp s x)
    (h : Answers platform (.linux 158 [0x1001, s.reg .rdi - 0x30, s.reg .rdx, s.reg .r10, s.reg .r8,
      s.reg .r9]) o.kernel ret k)
    (hselPtr : t.selPtr ≠ 0) (hblock : s.memory t.selPtr = SYSCALL_DISPATCH_FILTER_BLOCK)
    (hinstalled : Installed t.selPtr t.trampoline (s.reg .rsp) s.memory) :
    ∃ n s', run (call platform t) n (s, o) = some (s', ⟨k, o.errno, o.calls ++
        [.linux 158 [0x1001, s.reg .rdi - 0x30, s.reg .rdx, s.reg .r10, s.reg .r8, s.reg .r9]]⟩) ∧
      Returned (fun x => ¬ UnderRsp s x) s s' ∧ s'.reg .rax = ret ∧
      ∀ r, r ∉ scratch → s'.reg r = s.reg r := by
  have hcode : CodeAt s.memory s.rip settlsCode := (codeAt_patchGoSettls hsettls m).congr hkept
  obtain ⟨-, -, -, hsyscall, hret⟩ := codeAt_settlsCode hcode
  obtain ⟨s₃, hat, hargs⟩ := run_arguments (o := o) (call platform t) hcode
  have hrsp : s₃.reg .rsp = s.reg .rsp := hat.reg .rsp (by decide)
  have hunder : UnderRsp s₃ = UnderRsp s := by rw [UnderRsp, UnderRsp, hrsp]
  have hlist : (saved s₃).args.toList = [0x1001, s.reg .rdi - 0x30, s.reg .rdx, s.reg .r10,
      s.reg .r8, s.reg .r9] := by
    rw [args_saved, hat.rdi, hat.rsi, hat.reg .rdx (by decide), hat.reg .r10 (by decide),
      hat.reg .r8 (by decide), hat.reg .r9 (by decide)]
  have hanswers : Answers platform (.linux 158 (saved s₃).args.toList) o.kernel ret k := by
    rw [hlist]
    exact h
  obtain ⟨n, s₄, hrun, hresumed⟩ := call_resumes (by rw [hat.memory, hat.rip]; exact hsyscall)
    hat.rax translate_prctl (by decide) hanswers hselPtr (by rw [hat.memory]; exact hblock)
    (by rw [hrsp, hat.memory]; exact hinstalled)
  rw [hunder] at hresumed
  have hmemory (x : Address) (hx : ¬ UnderRsp s x) : s₄.memory x = s.memory x := by
    by_cases hsel : x = t.selPtr
    · rw [hsel, hresumed.selector, hblock]
    · rw [hresumed.memory x hsel hx, hat.memory]
  have hrip : s₄.rip = s.rip + 16 := by
    rw [hresumed.rip, hat.rip]
    exact BitVec.add_assoc ..
  have hrsp₄ : s₄.reg .rsp = s.reg .rsp := (hresumed.reg .rsp (by decide)).trans hrsp
  have hret₄ : CodeAt s₄.memory s₄.rip (X86.encode .ret) := by
    rw [hrip]
    refine hret.congr fun x hx => hmemory x (happart x ?_)
    exact Within.widen (n := 16) (k := 1) hx (by decide)
  have hreg (r : Reg) (hr : r ∉ scratch) : s₄.reg r = s.reg r := by
    simp only [scratch, List.mem_cons, List.not_mem_nil, or_false, not_or] at hr
    obtain ⟨hrax, hrcx, hrdi, hrsi, hr11, -⟩ := hr
    rw [hresumed.reg r (by simp [hrax, hrcx, hr11]), hat.reg r (by simp [hrax, hrdi, hrsi])]
  obtain ⟨s₅, hlast, hreturned, hrax, hkept'⟩ := ret_returns (call platform t)
    ⟨k, o.errno, o.calls ++ [.linux 158 (saved s₃).args.toList]⟩ hret₄ hrsp₄ hmemory hreg
  refine ⟨3 + (n + 1), s₅, ?_, hreturned, hrax.trans hresumed.rax, hkept'⟩
  rw [hargs, hrun, hlast, ← hlist]

end Call

/-! ### A Go binary -/

/-- The kernel's state is the base of GS. -/
def gsPlatform : Platform (Word × Memory) where
  answer call kernel :=
    match call with
    | .linux 158 (0x1001 :: base :: _) => (0, (base, kernel.2))
    | _ => (-38, kernel)
  trapResult _ := 0
  int := asU64
  int_nonneg _ h := asU64_nonneg h

def goSymbols : List Symbol :=
  [⟨"_runtime.settls", 0⟩, ⟨"_main", 0x5000⟩, ⟨"_runtime.settls.abi0", 0x4000⟩]

/-- The selector is at 0x3000, the trampoline at 0x1000. -/
def goMemory : Memory := fun x =>
  if x = 0x3000 then SYSCALL_DISPATCH_FILTER_BLOCK
  else (trampolineCode 0x3000).getD (x - 0x1000).toNat 0

/-- Where the function is entered, with the address in the register of the argument. -/
def atSettls : Cpu where
  reg r := if r = .rdi then 0x70030 else if r = .rsp then 0x80000000 else 0
  xmm _ := 0
  flags := 0x202
  rip := 0x4000
  memory := patchGoSettls goSymbols goMemory

def goSetup : Setup := ⟨0x400000, 0x3000, 0x1000, -1⟩

theorem installed_atSettls : Installed 0x3000 0x1000 (atSettls.reg .rsp) atSettls.memory := by
  refine ⟨by unfold CodeAt; decide, by unfold Within; decide, fun x hx => ?_⟩
  have hrsp : atSettls.reg .rsp = 0x80000000 := rfl
  simp only [Within, hrsp] at hx ⊢
  constructor
  · intro heq
    subst heq
    exact absurd hx (by decide)
  · bv_omega

theorem settls_sets_gs_paged : ∃ n s',
    run (call gsPlatform goSetup) n (atSettls, ⟨0, 0, []⟩) =
      some (s', ⟨0x70000, 0, [.linux 158 [0x1001, 0x70000, 0, 0, 0, 0]]⟩) ∧
    Returned (fun x => ¬ UnderRsp atSettls x) atSettls s' ∧ s'.reg .rax = 0 ∧
    ∀ r, r ∉ scratch → s'.reg r = atSettls.reg r := by
  have happart (x : Address) (hx : Within atSettls.rip 17 x) : ¬ UnderRsp atSettls x := by
    have hrsp : atSettls.reg .rsp = 0x80000000 := rfl
    have hrip : atSettls.rip = 0x4000 := rfl
    simp only [UnderRsp, Within, hrsp, hrip] at hx ⊢
    bv_omega
  have hsettls : settlsAddr goSymbols = some atSettls.rip := rfl
  have hkept (x : Address) (_ : Within atSettls.rip 17 x) :
      atSettls.memory x = patchGoSettls goSymbols goMemory x := rfl
  exact settls_sets_gs hsettls hkept happart (fun _ => rfl) (by decide) (by decide)
    installed_atSettls

end Grafted.Loader.GoTls
