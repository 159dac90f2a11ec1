import Grafted.Base.CStrings
import Grafted.Base.X86

/-! Assembly: code that jumps to labels and calls one function.

Where the instructions are is up to the assembler, and a function that is called is any
that comes back. What matters is the stack: `OnStack` is the words from the stack pointer
up, a push puts one more there and a pop takes it (`onStack_pushAll`, `popAll`), and the
vector registers go there two words each (`onStack_saveXmms`, `loadXmms`). -/
namespace X86
open ByteMemory

/-! ### Operations -/

/-- What goes on to the next instruction. -/
inductive Op where
  | push (r : Reg)
  | pop (r : Reg)
  | mov (dst src : Reg)
  | add (r : Reg) (n : Word)
  | sub (r : Reg) (n : Word)
  | xor (dst src : Reg)
  | test (a b : Reg)
  | storeXmm (base : Reg) (disp : Nat) (x : Fin 16)
  | loadXmm (x : Fin 16) (base : Reg) (disp : Nat)

namespace Cpu

/-- The zero flag; no other is read. -/
def zf (s : Cpu) : Bool := s.flags.getLsbD 6

def setZf (s : Cpu) (v : Word) : Cpu :=
  {s with flags := if v = 0 then s.flags ||| 0x40 else s.flags &&& ~~~0x40}

/-- Sixteen bytes. -/
def storeXmm (s : Cpu) (a : Address) (v : BitVec 128) : Cpu :=
  (s.storeWord a (v.setWidth 64)).storeWord (a + 8) ((v >>> 64).setWidth 64)

def setXmm (s : Cpu) (x : Fin 16) (v : BitVec 128) : Cpu := {s with xmm := Function.update s.xmm x v}

theorem zf_setZf (s : Cpu) (v : Word) : (s.setZf v).zf = decide (v = 0) := by
  unfold zf setZf
  by_cases hv : v = 0
  · rw [if_pos hv, decide_eq_true hv]
    simp
  · rw [if_neg hv, decide_eq_false hv]
    simp

section Fields
variable (s : Cpu) (v : Word) (w : BitVec 128) (a : Address) (x : Fin 16)

@[simp] theorem setZf_reg : (s.setZf v).reg = s.reg := rfl
@[simp] theorem setZf_xmm : (s.setZf v).xmm = s.xmm := rfl
@[simp] theorem setZf_memory : (s.setZf v).memory = s.memory := rfl

@[simp] theorem storeXmm_reg : (s.storeXmm a w).reg = s.reg := rfl
@[simp] theorem storeXmm_xmm : (s.storeXmm a w).xmm = s.xmm := rfl
@[simp] theorem storeXmm_memory : (s.storeXmm a w).memory =
  (s.memory.writeWord a (w.setWidth 64)).writeWord (a + 8) ((w >>> 64).setWidth 64) := rfl

@[simp] theorem setXmm_reg : (s.setXmm x w).reg = s.reg := rfl
@[simp] theorem setXmm_memory : (s.setXmm x w).memory = s.memory := rfl

end Fields

end Cpu

/-- Two words as a vector, the low one first. -/
def joinXmm (low high : Word) : BitVec 128 := high ++ low

def Op.exec : Op → Cpu → Cpu
  | .push r, s => (s.set .rsp (s.reg .rsp - 8)).storeWord (s.reg .rsp - 8) (s.reg r)
  | .pop r, s => (s.set .rsp (s.reg .rsp + 8)).set r (s.memory.readWord (s.reg .rsp))
  | .mov dst src, s => s.set dst (s.reg src)
  | .add r n, s => (s.set r (s.reg r + n)).setZf (s.reg r + n)
  | .sub r n, s => (s.set r (s.reg r - n)).setZf (s.reg r - n)
  | .xor dst src, s => (s.set dst (s.reg dst ^^^ s.reg src)).setZf (s.reg dst ^^^ s.reg src)
  | .test a b, s => s.setZf (s.reg a &&& s.reg b)
  | .storeXmm base disp x, s => s.storeXmm (s.reg base + BitVec.ofNat 64 disp) (s.xmm x)
  | .loadXmm x base disp, s =>
    let a := s.reg base + BitVec.ofNat 64 disp
    s.setXmm x (joinXmm (s.memory.readWord a) (s.memory.readWord (a + 8)))

def execAll (ops : List Op) (s : Cpu) : Cpu := ops.foldl (fun s op => op.exec s) s

@[simp] theorem execAll_nil (s : Cpu) : execAll [] s = s := rfl

@[simp] theorem execAll_cons (op : Op) (ops : List Op) (s : Cpu) :
    execAll (op :: ops) s = execAll ops (op.exec s) := rfl

theorem execAll_append (ops ops' : List Op) (s : Cpu) :
    execAll (ops ++ ops') s = execAll ops' (execAll ops s) := List.foldl_append

section Exec
variable (s : Cpu) (r : Reg) (n : Word)

theorem mov_reg {dst r : Reg} (src : Reg) (h : r ≠ dst) :
    ((Op.mov dst src).exec s).reg r = s.reg r := Cpu.set_reg_of_ne _ _ h

@[simp] theorem sub_self : ((Op.sub r n).exec s).reg r = s.reg r - n := Cpu.set_reg_self ..

@[simp] theorem add_self : ((Op.add r n).exec s).reg r = s.reg r + n := Cpu.set_reg_self ..

theorem add_reg {r' : Reg} (h : r' ≠ r) : ((Op.add r n).exec s).reg r' = s.reg r' :=
  Cpu.set_reg_of_ne _ _ h

@[simp] theorem test_reg (a b : Reg) : ((Op.test a b).exec s).reg = s.reg := rfl

theorem test_zf : ((Op.test r r).exec s).zf = decide (s.reg r = 0) := by
  rw [Op.exec, Cpu.zf_setZf, BitVec.and_self]

end Exec

/-! ### Code -/

inductive Asm where
  | op (op : Op)
  /-- To the instruction of that number, if the last result was 0. -/
  | jz (target : Nat)
  | call
  | jmp (r : Reg)
  | ret

/-- How code is left, and with what. -/
inductive Exit where
  | jumped (s : Cpu)
  | returned (s : Cpu)

/-- The state a call at an instruction enters. `layout` is where the instructions are. -/
def entered (layout : Nat → Address) (pc : Nat) (s : Cpu) : Cpu :=
  (s.set .rsp (s.reg .rsp - 8)).storeWord (s.reg .rsp - 8) (layout (pc + 1))

section Run
variable (code : List Asm) (layout : Nat → Address) (callee : Cpu → Cpu)

/-- The states at the calls, and the exit. A callee comes back to the instruction after. -/
def runAsm : Nat → Nat → Cpu → Option (List Cpu × Exit)
  | 0, _, _ => none
  | fuel + 1, pc, s =>
    match code[pc]? with
    | none => none
    | some (.op op) => runAsm fuel (pc + 1) (op.exec s)
    | some (.jz target) => runAsm fuel (if s.zf then target else pc + 1) s
    | some .call =>
      (runAsm fuel (pc + 1) (callee (entered layout pc s))).map fun (calls, exit) =>
        (entered layout pc s :: calls, exit)
    | some (.jmp r) => some ([], .jumped (s.goto (s.reg r)))
    | some .ret =>
      some ([], .returned ((s.set .rsp (s.reg .rsp + 8)).goto (s.memory.readWord (s.reg .rsp))))

variable {code layout callee}

theorem runAsm_op {op : Op} {pc : Nat} (hat : code[pc]? = some (.op op)) (fuel : Nat) (s : Cpu) :
    runAsm code layout callee (fuel + 1) pc s =
      runAsm code layout callee fuel (pc + 1) (op.exec s) := by
  rw [runAsm, hat]

theorem runAsm_jz {target pc : Nat} (hat : code[pc]? = some (.jz target)) (fuel : Nat) (s : Cpu) :
    runAsm code layout callee (fuel + 1) pc s =
      runAsm code layout callee fuel (if s.zf then target else pc + 1) s := by
  rw [runAsm, hat]

theorem runAsm_call {pc : Nat} (hat : code[pc]? = some .call) (fuel : Nat) (s : Cpu) :
    runAsm code layout callee (fuel + 1) pc s =
      (runAsm code layout callee fuel (pc + 1) (callee (entered layout pc s))).map
        fun (calls, exit) => (entered layout pc s :: calls, exit) := by
  rw [runAsm, hat]

theorem runAsm_jmp {r : Reg} {pc : Nat} (hat : code[pc]? = some (.jmp r)) (fuel : Nat) (s : Cpu) :
    runAsm code layout callee (fuel + 1) pc s = some ([], .jumped (s.goto (s.reg r))) := by
  rw [runAsm, hat]

theorem runAsm_ret {pc : Nat} (hat : code[pc]? = some .ret) (fuel : Nat) (s : Cpu) :
    runAsm code layout callee (fuel + 1) pc s = some ([], .returned
      ((s.set .rsp (s.reg .rsp + 8)).goto (s.memory.readWord (s.reg .rsp)))) := by
  rw [runAsm, hat]

/-- Operations one after another. -/
theorem runAsm_ops {ops : List Op} {before after : List Asm} (hcode : code = before ++ (ops.map .op ++ after))
    (fuel : Nat) (s : Cpu) : runAsm code layout callee (ops.length + fuel) before.length s =
      runAsm code layout callee fuel (before.length + ops.length) (execAll ops s) := by
  induction ops generalizing before s with
  | nil => rw [List.length_nil, Nat.zero_add]; rfl
  | cons op rest ih =>
    have hat : code[before.length]? = some (.op op) := by
      rw [hcode]
      simp
    have hnext : code = (before ++ [.op op]) ++ (rest.map .op ++ after) := by
      rw [hcode]
      simp
    have hrest := ih hnext (op.exec s)
    rw [List.length_append, List.length_singleton] at hrest
    rw [List.length_cons, Nat.succ_add, runAsm, hat, execAll_cons, ← Nat.add_assoc, Nat.add_right_comm,
      ← hrest]

end Run

/-! ### Words on the stack -/

theorem words_congr {m m' : Memory} {a : Address} {words : List Word} (h : m.Words a words)
    (hshort : words.length < 2 ^ 60) (hsame : ∀ x, Within a (8 * words.length) x → m' x = m x) :
    m'.Words a words := by
  induction words generalizing a with
  | nil => trivial
  | cons w rest ih =>
    obtain ⟨hfirst, hrest⟩ := h
    have hshort' : rest.length + 1 < 2 ^ 60 := hshort
    refine ⟨?_, ih hrest (by omega) fun x hx => hsame x ?_⟩
    · rw [← hfirst]
      refine readWord_within fun x hx => hsame x (hx.mono ?_)
      rw [List.length_cons]
      omega
    · refine Within.widen (n := 8) hx ?_
      rw [List.length_cons]
      omega

theorem words_append {m : Memory} {a : Address} {words words' : List Word} :
    m.Words a (words ++ words') ↔
      m.Words a words ∧ m.Words (a + BitVec.ofNat 64 (8 * words.length)) words' := by
  induction words generalizing a with
  | nil => simp [Memory.Words]
  | cons w rest ih =>
    have hnext : a + 8 + BitVec.ofNat 64 (8 * rest.length) =
        a + BitVec.ofNat 64 (8 * (w :: rest).length) := by
      rw [List.length_cons]
      bv_omega
    rw [List.cons_append, Memory.Words, Memory.Words, ih, hnext, and_assoc]

/-- A word written apart from the words. -/
theorem words_writeWord {m : Memory} {a b : Address} {words : List Word} (h : m.Words a words)
    (hshort : words.length < 2 ^ 60) (v : Word)
    (hapart : ∀ x, Within a (8 * words.length) x → 8 ≤ (x - b).toNat) :
    (m.writeWord b v).Words a words :=
  words_congr h hshort fun x hx => Memory.writeWord_outside m v (hapart x hx)

/-- The words from the stack pointer up. -/
def OnStack (s : Cpu) (words : List Word) : Prop := s.memory.Words (s.reg .rsp) words

theorem OnStack.congr {s s' : Cpu} {words : List Word} (h : OnStack s words)
    (hrsp : s'.reg .rsp = s.reg .rsp) (hmemory : s'.memory = s.memory) : OnStack s' words := by
  rw [OnStack, hrsp, hmemory]
  exact h

theorem onStack_push {s : Cpu} {words : List Word} (h : OnStack s words)
    (hshort : words.length < 2 ^ 60) (r : Reg) : OnStack ((Op.push r).exec s) (s.reg r :: words) := by
  have hrsp : ((Op.push r).exec s).reg .rsp = s.reg .rsp - 8 := by
    simp [Op.exec]
  have hup : s.reg .rsp - 8 + 8 = s.reg .rsp := BitVec.sub_add_cancel ..
  rw [OnStack, hrsp]
  refine ⟨Memory.readWord_writeWord .., ?_⟩
  rw [hup]
  refine words_writeWord h hshort _ fun x hx => ?_
  simp only [Within] at hx
  bv_omega

/-! ### Blocks -/

def pushAll (regs : List Reg) : List Op := regs.map .push

def popAll (regs : List Reg) : List Op := regs.map .pop

theorem push_reg (r : Reg) (s : Cpu) {r' : Reg} (h : r' ≠ .rsp) :
    ((Op.push r).exec s).reg r' = s.reg r' := by
  simp [Op.exec, Cpu.set_reg_of_ne, h]

/-- What pushing registers leaves alone. -/
theorem pushAll_rest (regs : List Reg) (s : Cpu) :
    (∀ r, r ≠ .rsp → (execAll (pushAll regs) s).reg r = s.reg r) ∧
      (execAll (pushAll regs) s).reg .rsp = s.reg .rsp - BitVec.ofNat 64 (8 * regs.length) ∧
      (execAll (pushAll regs) s).xmm = s.xmm := by
  induction regs generalizing s with
  | nil => simp [pushAll]
  | cons r rest ih =>
    obtain ⟨hreg, hrsp, hxmm⟩ := ih ((Op.push r).exec s)
    have hfirst : ((Op.push r).exec s).reg .rsp = s.reg .rsp - 8 := by
      simp [Op.exec]
    refine ⟨fun r' hr' => (hreg r' hr').trans (push_reg r s hr'), ?_, hxmm⟩
    rw [pushAll, List.map_cons, execAll_cons, ← pushAll, hrsp, hfirst, List.length_cons]
    bv_omega

theorem onStack_pushAll {regs : List Reg} (hregs : .rsp ∉ regs) {s : Cpu} {words : List Word}
    (h : OnStack s words) (hshort : words.length + regs.length < 2 ^ 60) :
    OnStack (execAll (pushAll regs) s) (regs.reverse.map s.reg ++ words) := by
  induction regs generalizing s words with
  | nil => exact h
  | cons r rest ih =>
    rw [List.length_cons] at hshort
    obtain ⟨-, hrest⟩ : .rsp ≠ r ∧ .rsp ∉ rest := by simpa using hregs
    have hsame : rest.reverse.map ((Op.push r).exec s).reg = rest.reverse.map s.reg := by
      refine List.map_congr_left fun r' hr' => push_reg r s ?_
      rintro rfl
      exact hrest (List.mem_reverse.mp hr')
    have hlater := ih hrest (onStack_push h (by omega) r) (by rw [List.length_cons]; omega)
    rw [hsame] at hlater
    rw [List.reverse_cons, List.map_append, List.append_assoc]
    exact hlater

/-- What popping them does. -/
theorem execAll_popAll {regs : List Reg} (hregs : .rsp ∉ regs) (hnodup : regs.Nodup) {s : Cpu}
    {value : Reg → Word} {words : List Word} (h : OnStack s (regs.map value ++ words)) :
    (∀ r ∈ regs, (execAll (popAll regs) s).reg r = value r) ∧
      (∀ r, r ≠ .rsp → r ∉ regs → (execAll (popAll regs) s).reg r = s.reg r) ∧
      (execAll (popAll regs) s).reg .rsp = s.reg .rsp + BitVec.ofNat 64 (8 * regs.length) ∧
      (execAll (popAll regs) s).xmm = s.xmm ∧ (execAll (popAll regs) s).memory = s.memory := by
  induction regs generalizing s with
  | nil => simp [popAll]
  | cons r rest ih =>
    obtain ⟨hr, hrest⟩ : .rsp ≠ r ∧ .rsp ∉ rest := by simpa using hregs
    obtain ⟨hnot, hnodup⟩ := List.nodup_cons.mp hnodup
    obtain ⟨hword, hwords⟩ := h
    have hrsp₁ : ((Op.pop r).exec s).reg .rsp = s.reg .rsp + 8 := by
      simp [Op.exec, Cpu.set_reg_of_ne, hr]
    have hself : ((Op.pop r).exec s).reg r = value r := by
      simp only [Op.exec, Cpu.set_reg_self]
      exact hword
    have hother : ∀ r', r' ≠ .rsp → r' ≠ r → ((Op.pop r).exec s).reg r' = s.reg r' := by
      intro r' hrsp' hne
      simp [Op.exec, Cpu.set_reg_of_ne, hrsp', hne]
    have hstack : OnStack ((Op.pop r).exec s) (rest.map value ++ words) := by
      rw [OnStack, hrsp₁]
      exact hwords
    obtain ⟨hpopped, hkept, hrsp, hxmm, hmemory⟩ := ih hrest hnodup hstack
    rw [popAll, List.map_cons, execAll_cons, ← popAll]
    refine ⟨?_, ?_, ?_, hxmm, hmemory⟩
    · intro r' hr'
      obtain rfl | hr'' := List.mem_cons.mp hr'
      · rw [hkept r' (Ne.symm hr) hnot, hself]
      · exact hpopped r' hr''
    · intro r' hne hnot'
      obtain ⟨hne', hnot''⟩ : r' ≠ r ∧ r' ∉ rest := by simpa using hnot'
      rw [hkept r' hne hnot'', hother r' hne hne']
    · rw [hrsp, hrsp₁, List.length_cons]
      bv_omega

def saveXmms (disp : Nat) : List (Fin 16) → List Op
  | [] => []
  | x :: rest => .storeXmm .rsp disp x :: saveXmms (disp + 16) rest

def loadXmms (disp : Nat) : List (Fin 16) → List Op
  | [] => []
  | x :: rest => .loadXmm x .rsp disp :: loadXmms (disp + 16) rest

/-- Two words each. -/
def xmmWords (value : Fin 16 → BitVec 128) (xs : List (Fin 16)) : List Word :=
  xs.flatMap fun x => [(value x).setWidth 64, (value x >>> 64).setWidth 64]

theorem length_xmmWords (value : Fin 16 → BitVec 128) (xs : List (Fin 16)) :
    (xmmWords value xs).length = 2 * xs.length := by
  induction xs with
  | nil => rfl
  | cons x rest ih =>
    rw [xmmWords, List.flatMap_cons, List.length_append, ← xmmWords, ih, List.length_cons]
    simp only [List.length_cons, List.length_nil]
    omega

theorem joinXmm_split (v : BitVec 128) :
    joinXmm (v.setWidth 64) ((v >>> 64).setWidth 64) = v := by
  apply BitVec.eq_of_getLsbD_eq
  intro i hi
  rw [joinXmm, BitVec.getLsbD_append]
  by_cases hlow : i < 64
  · simp [hlow]
  · have hhigh : i - 64 < 64 := by omega
    have hsum : 64 + (i - 64) = i := by omega
    simp [hlow, hhigh, hsum]

/-- What saving vectors leaves alone. -/
theorem saveXmms_rest (disp : Nat) (xs : List (Fin 16)) (s : Cpu) :
    (execAll (saveXmms disp xs) s).reg = s.reg ∧ (execAll (saveXmms disp xs) s).xmm = s.xmm := by
  induction xs generalizing disp s with
  | nil => exact ⟨rfl, rfl⟩
  | cons x rest ih => exact ih (disp + 16) ((Op.storeXmm .rsp disp x).exec s)

/-- Vectors saved between the words before them and the words behind. -/
theorem saveXmms_words {disp : Nat} {xs : List (Fin 16)} {s : Cpu} {before after : List Word}
    (hdisp : disp = 8 * before.length)
    (hshort : before.length + 2 * xs.length + after.length < 2 ^ 60)
    (hbefore : s.memory.Words (s.reg .rsp) before)
    (hafter : s.memory.Words (s.reg .rsp + BitVec.ofNat 64 (disp + 16 * xs.length)) after) :
    (execAll (saveXmms disp xs) s).memory.Words (s.reg .rsp)
      (before ++ (xmmWords s.xmm xs ++ after)) := by
  induction xs generalizing disp s before with
  | nil =>
    subst hdisp
    exact words_append.mpr ⟨hbefore, hafter⟩
  | cons x rest ih =>
    rw [List.length_cons] at hshort hafter
    have hb : BitVec.ofNat 64 disp = BitVec.ofNat 64 (8 * before.length) := by rw [hdisp]
    generalize hlow : (s.xmm x).setWidth 64 = low
    generalize hhigh : (s.xmm x >>> 64).setWidth 64 = high
    have hmemory : ((Op.storeXmm .rsp disp x).exec s).memory =
        (s.memory.writeWord (s.reg .rsp + BitVec.ofNat 64 disp) low).writeWord
          (s.reg .rsp + BitVec.ofNat 64 disp + 8) high := by
      rw [← hlow, ← hhigh]
      rfl
    -- the words before are apart from the vector, and so are those behind
    have hbefore' : ((Op.storeXmm .rsp disp x).exec s).memory.Words (s.reg .rsp) (before ++ [low, high]) := by
      rw [hmemory, words_append, ← hb]
      refine ⟨?_, ?_, Memory.readWord_writeWord .., trivial⟩
      · refine words_writeWord (words_writeWord hbefore (by omega) low fun y hy => ?_) (by omega) high
          fun y hy => ?_
        · simp only [Within] at hy
          bv_omega
        · simp only [Within] at hy
          bv_omega
      · rw [Memory.readWord_writeWord_apart, Memory.readWord_writeWord]
        refine ⟨?_, ?_⟩ <;> bv_omega
    have hafter' : ((Op.storeXmm .rsp disp x).exec s).memory.Words
        (s.reg .rsp + BitVec.ofNat 64 (disp + 16 + 16 * rest.length)) after := by
      have hat : disp + 16 + 16 * rest.length = disp + 16 * (rest.length + 1) := by omega
      rw [hmemory, hat]
      refine words_writeWord (words_writeWord hafter (by omega) low fun y hy => ?_) (by omega) high
        fun y hy => ?_
      · simp only [Within] at hy
        bv_omega
      · simp only [Within] at hy
        bv_omega
    have hdisp' : disp + 16 = 8 * (before ++ [low, high]).length := by
      rw [List.length_append, hdisp]
      rfl
    have hshort' : (before ++ [low, high]).length + 2 * rest.length + after.length < 2 ^ 60 := by
      rw [List.length_append]
      simp only [List.length_cons, List.length_nil]
      omega
    have hrest := ih hdisp' hshort' hbefore' hafter'
    have hsplit : before ++ (xmmWords s.xmm (x :: rest) ++ after) =
        before ++ [low, high] ++ (xmmWords s.xmm rest ++ after) := by
      simp [xmmWords, hlow, hhigh]
    rw [hsplit]
    exact hrest

/-- Vectors loaded from their words. -/
theorem execAll_loadXmms {disp : Nat} {xs : List (Fin 16)} (hnodup : xs.Nodup) {s : Cpu}
    {value : Fin 16 → BitVec 128} {words : List Word}
    (h : s.memory.Words (s.reg .rsp + BitVec.ofNat 64 disp) (xmmWords value xs ++ words)) :
    (∀ x ∈ xs, (execAll (loadXmms disp xs) s).xmm x = value x) ∧
      (∀ x, x ∉ xs → (execAll (loadXmms disp xs) s).xmm x = s.xmm x) ∧
      (execAll (loadXmms disp xs) s).reg = s.reg ∧
      (execAll (loadXmms disp xs) s).memory = s.memory := by
  induction xs generalizing disp s with
  | nil => simp [loadXmms]
  | cons x rest ih =>
    obtain ⟨hnot, hnodup⟩ := List.nodup_cons.mp hnodup
    obtain ⟨hlow, hhigh, hwords⟩ := h
    have hnext : s.reg .rsp + BitVec.ofNat 64 disp + 8 + 8 =
        s.reg .rsp + BitVec.ofNat 64 (disp + 16) := by
      bv_omega
    rw [hnext] at hwords
    obtain ⟨hloaded, hkept, hreg, hmemory⟩ := ih (s := (Op.loadXmm x .rsp disp).exec s) hnodup hwords
    have hself : ((Op.loadXmm x .rsp disp).exec s).xmm x = value x := by
      simp only [Op.exec, Cpu.setXmm, Function.update_self, hlow, hhigh]
      exact joinXmm_split _
    rw [loadXmms, execAll_cons]
    refine ⟨?_, ?_, hreg, hmemory⟩
    · intro y hy
      obtain rfl | hy' := List.mem_cons.mp hy
      · rw [hkept y hnot, hself]
      · exact hloaded y hy'
    · intro y hy
      obtain ⟨hne, hnot'⟩ : y ≠ x ∧ y ∉ rest := by simpa using hy
      rw [hkept y hnot']
      exact Function.update_of_ne hne ..

end X86
