import Grafted.Base.X86Asm

/-! Sending a message.

`objc_msgSend` saves the arguments, asks `grafted_lookup_method` for the method, restores
them and jumps there. Whatever that function does within the ABI, the method finds the
arguments and the stack as they were (`dispatched_method`). A null method leaves by the
exit of a null receiver, which is for a stack that nothing was saved on (`msgSend_iff`). -/
namespace Grafted.Objc.MsgSend
open ByteMemory X86

/-! ### The source -/

/-- The number of the instruction at `.Lnil_receiver`. -/
def nilReceiver : Nat := 39

def objcMsgSend : List Asm := [
  .op (.test .rdi .rdi),
  .jz nilReceiver,
  .op (.push .rbp),
  .op (.mov .rbp .rsp),
  .op (.push .rdi),
  .op (.push .rsi),
  .op (.push .rdx),
  .op (.push .rcx),
  .op (.push .r8),
  .op (.push .r9),
  .op (.sub .rsp 128),
  .op (.storeXmm .rsp 0x00 0),
  .op (.storeXmm .rsp 0x10 1),
  .op (.storeXmm .rsp 0x20 2),
  .op (.storeXmm .rsp 0x30 3),
  .op (.storeXmm .rsp 0x40 4),
  .op (.storeXmm .rsp 0x50 5),
  .op (.storeXmm .rsp 0x60 6),
  .op (.storeXmm .rsp 0x70 7),
  .call,
  .op (.test .rax .rax),
  .jz nilReceiver,
  .op (.loadXmm 0 .rsp 0x00),
  .op (.loadXmm 1 .rsp 0x10),
  .op (.loadXmm 2 .rsp 0x20),
  .op (.loadXmm 3 .rsp 0x30),
  .op (.loadXmm 4 .rsp 0x40),
  .op (.loadXmm 5 .rsp 0x50),
  .op (.loadXmm 6 .rsp 0x60),
  .op (.loadXmm 7 .rsp 0x70),
  .op (.add .rsp 128),
  .op (.pop .r9),
  .op (.pop .r8),
  .op (.pop .rcx),
  .op (.pop .rdx),
  .op (.pop .rsi),
  .op (.pop .rdi),
  .op (.pop .rbp),
  .jmp .rax,
  .op (.xor .rax .rax),
  .op (.xor .rdx .rdx),
  .ret]

/-- In the order they are pushed. -/
def arguments : List Reg := [.rdi, .rsi, .rdx, .rcx, .r8, .r9]

def vectors : List (Fin 16) := [0, 1, 2, 3, 4, 5, 6, 7]

def prologue : List Op :=
  [.push .rbp, .mov .rbp .rsp] ++ (pushAll arguments ++ (.sub .rsp 128 :: saveXmms 0 vectors))

def epilogue : List Op :=
  loadXmms 0 vectors ++ (.add .rsp 128 :: popAll (arguments.reverse ++ [.rbp]))

def clearAnswer : List Op := [.xor .rax .rax, .xor .rdx .rdx]

/-- What the instructions are. -/
theorem objcMsgSend_eq : objcMsgSend =
    [Asm.op (.test .rdi .rdi), Asm.jz nilReceiver] ++ (prologue.map Asm.op ++
      ([Asm.call, Asm.op (.test .rax .rax), Asm.jz nilReceiver] ++ (epilogue.map Asm.op ++
        ([Asm.jmp .rax] ++ (clearAnswer.map Asm.op ++ [Asm.ret]))))) := rfl

/-! ### What is asked of it -/

/-- At the method: the arguments, the frame and the return address of the call. -/
structure Dispatched (method : Word) (s s' : Cpu) : Prop where
  rip : s'.rip = method
  rsp : s'.reg .rsp = s.reg .rsp
  rbp : s'.reg .rbp = s.reg .rbp
  args : ∀ r ∈ arguments, s'.reg r = s.reg r
  xmm : ∀ x ∈ vectors, s'.xmm x = s.xmm x
  back : s'.memory.readWord (s'.reg .rsp) = s.memory.readWord (s.reg .rsp)

/-- Back at the caller, with 0. -/
structure Answered (s s' : Cpu) : Prop where
  rip : s'.rip = s.memory.readWord (s.reg .rsp)
  rsp : s'.reg .rsp = s.reg .rsp + 8
  rbp : s'.reg .rbp = s.reg .rbp
  rax : s'.reg .rax = 0
  rdx : s'.reg .rdx = 0

/-- The function that is called keeps what the ABI has it keep, the frame of its caller and the
return address above it among that. -/
def Abi (lookup : Cpu → Cpu) : Prop :=
  ∀ c, Returned (fun x => Within (c.reg .rsp + 8) 192 x) c (lookup c)

/-- The state where `grafted_lookup_method` is entered. -/
def atLookup (layout : Nat → Address) (s : Cpu) : Cpu :=
  entered layout 19 (execAll prologue ((Op.test .rdi .rdi).exec s))

/-- It ends at the method that was looked up or at the caller, and calls with the stack aligned. -/
def Sends (lookup : Cpu → Cpu) (layout : Nat → Address) (s : Cpu) : Prop :=
  ∃ calls exit, runAsm objcMsgSend layout lookup 42 0 s = some (calls, exit) ∧
    (∀ c ∈ calls, AlignedEntry s → AlignedEntry c) ∧
    match exit with
    | .jumped s' => ∃ c ∈ calls, Dispatched ((lookup c).reg .rax) s s'
    | .returned s' => Answered s s'

/-! ### Around the call -/

/-- What is on the stack at the call, the return address behind it. -/
def savedWords (s : Cpu) : List Word :=
  xmmWords s.xmm vectors ++ ((arguments.reverse ++ [Reg.rbp]).map s.reg ++
    [s.memory.readWord (s.reg .rsp)])

theorem length_savedWords (s : Cpu) : (savedWords s).length = 24 := by
  rw [savedWords, List.length_append, length_xmmWords, List.length_append, List.length_map]
  rfl

theorem prologue_rsp (s : Cpu) : (execAll prologue s).reg .rsp = s.reg .rsp - 184 := by
  rw [prologue, execAll_append, execAll_append, execAll_cons, (saveXmms_rest ..).1]
  simp only [Op.exec, Cpu.setZf_reg, Cpu.set_reg_self, (pushAll_rest ..).2.1, execAll_cons,
    execAll_nil, Cpu.storeWord_reg]
  rw [Cpu.set_reg_of_ne _ _ (by decide), Cpu.storeWord_reg, Cpu.set_reg_self]
  have hlen : arguments.length = 6 := rfl
  rw [hlen]
  bv_omega

theorem prologue_stack (s : Cpu) : OnStack (execAll prologue s) (savedWords s) := by
  generalize hback : s.memory.readWord (s.reg .rsp) = back
  have hreturn : OnStack s [back] := ⟨hback, trivial⟩
  -- the frame pointer, the arguments, room for the vectors and the vectors
  have hframe := onStack_push hreturn (by simp) .rbp
  have hmoved : OnStack ((Op.mov .rbp .rsp).exec ((Op.push .rbp).exec s)) [s.reg .rbp, back] :=
    hframe.congr (mov_reg _ _ (by decide)) rfl
  have hpushed := @onStack_pushAll arguments (by decide) _ _ hmoved (by simp [arguments])
  have hargs : arguments.reverse.map ((Op.mov .rbp .rsp).exec ((Op.push .rbp).exec s)).reg =
      arguments.reverse.map s.reg := by
    apply List.map_congr_left
    intro r hr
    have hne : r ≠ .rbp ∧ r ≠ .rsp := by
      revert r
      decide
    rw [mov_reg _ _ hne.1, push_reg .rbp s hne.2]
  rw [hargs] at hpushed
  generalize hs₁ : execAll (pushAll arguments) ((Op.mov .rbp .rsp).exec ((Op.push .rbp).exec s)) = s₁
    at hpushed
  have hxmm : s₁.xmm = s.xmm := by
    rw [← hs₁, (pushAll_rest ..).2.2]
    rfl
  have hroom : ((Op.sub .rsp 128).exec s₁).memory.Words
      (((Op.sub .rsp 128).exec s₁).reg .rsp + BitVec.ofNat 64 (0 + 16 * vectors.length))
      (arguments.reverse.map s.reg ++ [s.reg .rbp, back]) := by
    have hsize : BitVec.ofNat 64 (0 + 16 * vectors.length) = (128 : Word) := rfl
    rw [hsize, sub_self, BitVec.sub_add_cancel]
    exact hpushed
  have hsaved := @saveXmms_words 0 vectors _ [] _ rfl (by simp [vectors, arguments]) trivial hroom
  have hsub : ((Op.sub .rsp 128).exec s₁).xmm = s.xmm := hxmm
  rw [hsub] at hsaved
  have hprologue : execAll prologue s = execAll (saveXmms 0 vectors) ((Op.sub .rsp 128).exec s₁) := by
    rw [← hs₁, prologue, execAll_append, execAll_append, execAll_cons, execAll_cons, execAll_cons,
      execAll_nil]
  rw [hprologue, OnStack, (saveXmms_rest ..).1, savedWords, hback, List.map_append, List.append_assoc]
  exact hsaved

/-- What the epilogue makes of the words that were saved. -/
structure Restored (s t u : Cpu) : Prop where
  rsp : u.reg .rsp = t.reg .rsp + 184
  rax : u.reg .rax = t.reg .rax
  saved : ∀ r ∈ arguments.reverse ++ [Reg.rbp], u.reg r = s.reg r
  xmm : ∀ x ∈ vectors, u.xmm x = s.xmm x
  back : u.memory.readWord (u.reg .rsp) = s.memory.readWord (s.reg .rsp)

theorem epilogue_restores {s t : Cpu} (h : OnStack t (savedWords s)) :
    Restored s t (execAll epilogue t) := by
  have hvectors : t.memory.Words (t.reg .rsp + BitVec.ofNat 64 0) (savedWords s) := by
    rw [BitVec.add_zero]
    exact h
  obtain ⟨hloaded, -, hreg, hmemory⟩ := execAll_loadXmms (by decide : vectors.Nodup) hvectors
  obtain ⟨-, hbehind⟩ := words_append.mp h
  rw [length_xmmWords] at hbehind
  have hsize : BitVec.ofNat 64 (8 * (2 * vectors.length)) = (128 : Word) := rfl
  generalize ht₁ : (Op.add .rsp 128).exec (execAll (loadXmms 0 vectors) t) = t₁
  have hrsp : t₁.reg .rsp = t.reg .rsp + 128 := by
    rw [← ht₁, add_self, hreg]
  have hmemory₁ : t₁.memory = t.memory := by
    rw [← ht₁]
    exact hmemory
  have hstack : OnStack t₁ ((arguments.reverse ++ [Reg.rbp]).map s.reg ++
      [s.memory.readWord (s.reg .rsp)]) := by
    rw [OnStack, hrsp, hmemory₁, ← hsize]
    exact hbehind
  obtain ⟨hpopped, hkept, hrsp₂, hxmm, hmemory₂⟩ := execAll_popAll (by decide) (by decide) hstack
  have hepilogue : execAll epilogue t = execAll (popAll (arguments.reverse ++ [.rbp])) t₁ := by
    rw [← ht₁, epilogue, execAll_append, execAll_cons]
  rw [hepilogue]
  refine ⟨?_, ?_, hpopped, ?_, ?_⟩
  · have hlen : (arguments.reverse ++ [Reg.rbp]).length = 7 := rfl
    rw [hrsp₂, hrsp, hlen]
    bv_omega
  · rw [hkept .rax (by decide) (by decide), ← ht₁, add_reg _ _ _ (by decide), hreg]
  · intro x hx
    rw [hxmm, ← ht₁]
    exact hloaded x hx
  · obtain ⟨-, hback, -⟩ := words_append.mp hstack
    rw [hmemory₂, hrsp₂, ← hback, List.length_map]

section Sends
variable {lookup : Cpu → Cpu} {layout : Nat → Address}

theorem atLookup_rsp (layout : Nat → Address) (s : Cpu) :
    (atLookup layout s).reg .rsp = s.reg .rsp - 192 := by
  rw [atLookup, entered, Cpu.storeWord_reg, Cpu.set_reg_self, prologue_rsp, test_reg]
  bv_omega

/-- What the function that was called has left on the stack. -/
theorem lookup_stack (habi : Abi lookup) (layout : Nat → Address) (s : Cpu) :
    OnStack (lookup (atLookup layout s)) (savedWords s) := by
  have hreturned := habi (atLookup layout s)
  have hrsp : (lookup (atLookup layout s)).reg .rsp = s.reg .rsp - 184 := by
    rw [hreturned.rsp, atLookup_rsp]
    bv_omega
  have hsaved := prologue_stack ((Op.test .rdi .rdi).exec s)
  rw [OnStack, prologue_rsp, test_reg] at hsaved
  rw [OnStack, hrsp]
  refine words_congr hsaved ?_ fun x hx => ?_
  · rw [length_savedWords]
    decide
  · rw [length_savedWords, Within] at hx
    have hkept : Within ((atLookup layout s).reg .rsp + 8) 192 x := by
      rw [atLookup_rsp, Within]
      bv_omega
    rw [hreturned.memory x hkept, atLookup, entered, Cpu.storeWord_memory, prologue_rsp, test_reg,
      Cpu.set_memory]
    refine Memory.writeWord_outside _ _ ?_
    bv_omega

/-! ### The two exits -/

/-- From `.Lnil_receiver` on. -/
def leave (s : Cpu) : Cpu :=
  let cleared := execAll clearAnswer s
  (cleared.set .rsp (cleared.reg .rsp + 8)).goto (cleared.memory.readWord (cleared.reg .rsp))

theorem run_nilReceiver (fuel : Nat) (s : Cpu) :
    runAsm objcMsgSend layout lookup (fuel + 3) nilReceiver s = some ([], .returned (leave s)) := by
  rw [runAsm_op rfl, runAsm_op rfl, runAsm_ret rfl]
  rfl

theorem answered_leave (s : Cpu) : Answered s (leave s) := by
  have hreg : ∀ r, r ≠ .rax → r ≠ .rdx → (execAll clearAnswer s).reg r = s.reg r := by
    intro r hrax hrdx
    simp [clearAnswer, Op.exec, Cpu.set_reg_of_ne, hrax, hrdx]
  have hrax : (execAll clearAnswer s).reg .rax = 0 := by
    simp [clearAnswer, Op.exec, Cpu.set_reg_of_ne]
  have hrdx : (execAll clearAnswer s).reg .rdx = 0 := by
    simp [clearAnswer, Op.exec, Cpu.set_reg_of_ne]
  have hset : ∀ r, r ≠ .rsp → (leave s).reg r = (execAll clearAnswer s).reg r := by
    intro r hr
    rw [leave, Cpu.goto_reg, Cpu.set_reg_of_ne _ _ hr]
  refine ⟨?_, ?_, ?_, ?_, ?_⟩
  · have hmemory : (execAll clearAnswer s).memory = s.memory := rfl
    rw [leave, Cpu.goto_rip, hmemory, hreg .rsp (by decide) (by decide)]
  · rw [leave, Cpu.goto_reg, Cpu.set_reg_self, hreg .rsp (by decide) (by decide)]
  · rw [hset .rbp (by decide), hreg .rbp (by decide) (by decide)]
  · rw [hset .rax (by decide), hrax]
  · rw [hset .rdx (by decide), hrdx]

/-- A null receiver is answered without a call. -/
theorem run_nil {s : Cpu} (hnil : s.reg .rdi = 0) : runAsm objcMsgSend layout lookup 42 0 s =
    some ([], .returned (leave ((Op.test .rdi .rdi).exec s))) := by
  rw [runAsm_op rfl, runAsm_jz rfl, test_zf, if_pos (by simpa using hnil)]
  exact run_nilReceiver 37 _

/-- The state after the method is tested. -/
def tested (lookup : Cpu → Cpu) (layout : Nat → Address) (s : Cpu) : Cpu :=
  (Op.test .rax .rax).exec (lookup (atLookup layout s))

/-- Up to that state. -/
theorem run_tested {s : Cpu} (hsome : s.reg .rdi ≠ 0) : runAsm objcMsgSend layout lookup 42 0 s =
    (runAsm objcMsgSend layout lookup 21 21 (tested lookup layout s)).map
      fun (calls, exit) => (atLookup layout s :: calls, exit) := by
  have hprologue : runAsm objcMsgSend layout lookup (prologue.length + 23) 2 _ = _ :=
    runAsm_ops objcMsgSend_eq 23 ((Op.test .rdi .rdi).exec s)
  rw [runAsm_op rfl, runAsm_jz rfl, test_zf, if_neg (by simpa using hsome)]
  refine hprologue.trans ?_
  refine (runAsm_call rfl 22 _).trans ?_
  rw [runAsm_op rfl]
  rfl

theorem run_null {s : Cpu} (hsome : s.reg .rdi ≠ 0)
    (hnull : (lookup (atLookup layout s)).reg .rax = 0) : runAsm objcMsgSend layout lookup 42 0 s =
      some ([atLookup layout s], .returned (leave (tested lookup layout s))) := by
  rw [run_tested hsome, runAsm_jz rfl, tested, test_zf, if_pos (by simpa using hnull),
    run_nilReceiver 17]
  rfl

theorem run_method {s : Cpu} (hsome : s.reg .rdi ≠ 0)
    (hmethod : (lookup (atLookup layout s)).reg .rax ≠ 0) : runAsm objcMsgSend layout lookup 42 0 s =
      some ([atLookup layout s], .jumped ((execAll epilogue (tested lookup layout s)).goto
        ((execAll epilogue (tested lookup layout s)).reg .rax))) := by
  have hcode : objcMsgSend = objcMsgSend.take 22 ++ (epilogue.map .op ++ objcMsgSend.drop 38) := rfl
  have hepilogue : runAsm objcMsgSend layout lookup (epilogue.length + 4) 22 _ = _ :=
    runAsm_ops hcode 4 (tested lookup layout s)
  rw [run_tested hsome, runAsm_jz rfl, tested, test_zf, if_neg (by simpa using hmethod)]
  have hrun := hepilogue.trans (runAsm_jmp rfl 3 _)
  exact congrArg (Option.map _) hrun

theorem answered_nil (s : Cpu) : Answered s (leave ((Op.test .rdi .rdi).exec s)) := by
  obtain ⟨hrip, hrsp, hrbp, hrax, hrdx⟩ := answered_leave ((Op.test .rdi .rdi).exec s)
  rw [test_reg] at hrip hrsp hrbp
  exact ⟨hrip, hrsp, hrbp, hrax, hrdx⟩

theorem dispatched_method (habi : Abi lookup) (s : Cpu) :
    Dispatched ((lookup (atLookup layout s)).reg .rax) s
      ((execAll epilogue (tested lookup layout s)).goto
        ((execAll epilogue (tested lookup layout s)).reg .rax)) := by
  have hstack : OnStack (tested lookup layout s) (savedWords s) := lookup_stack habi layout s
  have hrestored := epilogue_restores hstack
  have hrsp : (tested lookup layout s).reg .rsp + 184 = s.reg .rsp := by
    rw [tested, test_reg, (habi _).rsp, atLookup_rsp]
    bv_omega
  generalize execAll epilogue (tested lookup layout s) = u at hrestored
  refine ⟨?_, ?_, ?_, ?_, hrestored.xmm, hrestored.back⟩
  · rw [Cpu.goto_rip, hrestored.rax, tested, test_reg]
  · rw [Cpu.goto_reg, hrestored.rsp, hrsp]
  · exact hrestored.saved .rbp (by decide)
  · intro r hr
    exact hrestored.saved r (List.mem_append_left _ (List.mem_reverse.mpr hr))

/-- A null method leaves with the frame still on the stack. -/
theorem leave_tested_rsp (habi : Abi lookup) (s : Cpu) :
    (leave (tested lookup layout s)).reg .rsp = s.reg .rsp - 176 := by
  rw [(answered_leave _).rsp, tested, test_reg, (habi _).rsp, atLookup_rsp]
  bv_omega

theorem aligned_atLookup (layout : Nat → Address) {s : Cpu} (h : AlignedEntry s) :
    AlignedEntry (atLookup layout s) := by
  rw [AlignedEntry] at h ⊢
  rw [atLookup_rsp]
  bv_omega

/-- **When a message is sent.** Exactly for a null receiver and a method that is not null. -/
theorem msgSend_iff (habi : Abi lookup) (layout : Nat → Address) (s : Cpu) :
    Sends lookup layout s ↔ s.reg .rdi = 0 ∨ (lookup (atLookup layout s)).reg .rax ≠ 0 := by
  by_cases hnil : s.reg .rdi = 0
  · refine iff_of_true ⟨[], _, run_nil hnil, ?_, answered_nil s⟩ (.inl hnil)
    simp
  by_cases hmethod : (lookup (atLookup layout s)).reg .rax = 0
  · refine iff_of_false ?_ fun h => h.elim hnil fun hne => hne hmethod
    rintro ⟨calls, exit, hrun, -, hexit⟩
    cases (run_null hnil hmethod).symm.trans hrun
    have hrsp := hexit.rsp
    rw [leave_tested_rsp habi] at hrsp
    bv_omega
  · refine iff_of_true ⟨_, _, run_method hnil hmethod, ?_, ?_⟩ (.inr hmethod)
    · simp only [List.mem_singleton, forall_eq]
      exact aligned_atLookup layout
    · exact ⟨_, List.mem_singleton_self _, dispatched_method habi s⟩

end Sends

/-- A function that only answers. -/
def answering (method : Word) (c : Cpu) : Cpu :=
  ((c.set .rsp (c.reg .rsp + 8)).set .rax method).goto (c.memory.readWord (c.reg .rsp))

theorem answering_abi (method : Word) : Abi (answering method) := by
  intro c
  refine ⟨rfl, ?_, fun r hr => ?_, fun _ _ => rfl⟩
  · rw [answering, Cpu.goto_reg, Cpu.set_reg_of_ne _ _ (by decide), Cpu.set_reg_self]
  · have hne : r ≠ .rax ∧ r ≠ .rsp := by
      refine ⟨?_, ?_⟩ <;> rintro rfl <;> revert hr <;> unfold Reg.CalleeSaved <;> decide
    rw [answering, Cpu.goto_reg, Cpu.set_reg_of_ne _ _ hne.1, Cpu.set_reg_of_ne _ _ hne.2]

/-- A receiver and a selector. -/
def message : Cpu where
  reg := fun r => if r = .rsp then 0x7ffffff8 else 0x5000
  xmm := fun _ => 0
  flags := 0
  rip := 0x1000
  memory := fun _ => 0

theorem msgSend_method : Abi (answering 0x7000) ∧ Sends (answering 0x7000) (fun _ => 0x1000) message := by
  have hmethod : (answering 0x7000 (atLookup (fun _ => 0x1000) message)).reg .rax ≠ 0 := by
    rw [answering, Cpu.goto_reg, Cpu.set_reg_self]
    decide
  exact ⟨answering_abi _, (msgSend_iff (answering_abi _) _ message).mpr (.inr hmethod)⟩

/-- A method that was registered null. -/
theorem null_method_unbalanced : ¬ ∀ {lookup : Cpu → Cpu}, Abi lookup →
    ∀ (layout : Nat → Address) (s : Cpu), Sends lookup layout s := by
  intro h
  obtain ⟨calls, exit, hrun, -, hexit⟩ := h (answering_abi 0) (fun _ => 0x1000) message
  have hsome : message.reg .rdi ≠ 0 := by decide
  have hnull : (answering 0 (atLookup (fun _ => 0x1000) message)).reg .rax = 0 := by
    rw [answering, Cpu.goto_reg, Cpu.set_reg_self]
  cases (run_null hsome hnull).symm.trans hrun
  have hrsp := hexit.rsp
  rw [leave_tested_rsp (answering_abi 0)] at hrsp
  exact absurd hrsp (by decide)

end Grafted.Objc.MsgSend
