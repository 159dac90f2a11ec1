import Mathlib.Logic.Function.Basic
import Mathlib.Data.List.Basic
import Grafted.Base.ByteMemory

/-! A part of x86-64: the instructions that save registers, call and jump.

Code is bytes in memory. An instruction has one encoding here, and what was encoded
is what is decoded, whatever follows (`decode_encode`), so code in memory runs as it
was written (`step_code`). Registers that are pushed are on the stack in reverse
(`run_pushes`), and popping them gives them back wherever the stack kept its bytes
(`run_pops`). Memory is flat: the code can be written, and that a write is apart from
it is always a hypothesis. -/
namespace X86
open ByteMemory

/-! ### Registers -/

inductive Reg where
  | rax | rcx | rdx | rbx | rsp | rbp | rsi | rdi
  | r8 | r9 | r10 | r11 | r12 | r13 | r14 | r15
  deriving DecidableEq

namespace Reg

/-- As it is encoded. -/
def number : Reg → Nat
  | rax => 0 | rcx => 1 | rdx => 2 | rbx => 3 | rsp => 4 | rbp => 5 | rsi => 6 | rdi => 7
  | r8 => 8 | r9 => 9 | r10 => 10 | r11 => 11 | r12 => 12 | r13 => 13 | r14 => 14 | r15 => 15

def ofNumber : Nat → Reg
  | 0 => rax | 1 => rcx | 2 => rdx | 3 => rbx | 4 => rsp | 5 => rbp | 6 => rsi | 7 => rdi
  | 8 => r8 | 9 => r9 | 10 => r10 | 11 => r11 | 12 => r12 | 13 => r13 | 14 => r14 | _ => r15

/-- What a function leaves as it finds it, besides the stack pointer. -/
def CalleeSaved (r : Reg) : Prop := r ∈ [rbx, rbp, r12, r13, r14, r15]

end Reg

structure Cpu where
  reg : Reg → Word
  xmm : Fin 16 → BitVec 128
  flags : Word
  rip : Address
  memory : Memory

namespace Cpu

def set (s : Cpu) (r : Reg) (v : Word) : Cpu := {s with reg := Function.update s.reg r v}

@[simp] theorem set_reg_self (s : Cpu) (r : Reg) (v : Word) : (s.set r v).reg r = v := by
  unfold set
  exact Function.update_self ..

theorem set_reg_of_ne (s : Cpu) {r r' : Reg} (v : Word) (h : r' ≠ r) :
    (s.set r v).reg r' = s.reg r' := by
  unfold set
  exact Function.update_of_ne h ..

def goto (s : Cpu) (rip : Address) : Cpu := {s with rip := rip}

def storeWord (s : Cpu) (a : Address) (v : Word) : Cpu := {s with memory := s.memory.writeWord a v}

def storeByte (s : Cpu) (a : Address) (b : Byte) : Cpu := {s with memory := s.memory.writeByte a b}

section Fields
variable (s : Cpu) (r : Reg) (v : Word) (a : Address) (b : Byte)

@[simp] theorem set_xmm : (s.set r v).xmm = s.xmm := rfl
@[simp] theorem set_flags : (s.set r v).flags = s.flags := rfl
@[simp] theorem set_rip : (s.set r v).rip = s.rip := rfl
@[simp] theorem set_memory : (s.set r v).memory = s.memory := rfl

@[simp] theorem goto_reg : (s.goto a).reg = s.reg := rfl
@[simp] theorem goto_xmm : (s.goto a).xmm = s.xmm := rfl
@[simp] theorem goto_flags : (s.goto a).flags = s.flags := rfl
@[simp] theorem goto_rip : (s.goto a).rip = a := rfl
@[simp] theorem goto_memory : (s.goto a).memory = s.memory := rfl

@[simp] theorem storeWord_reg : (s.storeWord a v).reg = s.reg := rfl
@[simp] theorem storeWord_xmm : (s.storeWord a v).xmm = s.xmm := rfl
@[simp] theorem storeWord_flags : (s.storeWord a v).flags = s.flags := rfl
@[simp] theorem storeWord_rip : (s.storeWord a v).rip = s.rip := rfl
@[simp] theorem storeWord_memory : (s.storeWord a v).memory = s.memory.writeWord a v := rfl

@[simp] theorem storeByte_reg : (s.storeByte a b).reg = s.reg := rfl
@[simp] theorem storeByte_xmm : (s.storeByte a b).xmm = s.xmm := rfl
@[simp] theorem storeByte_flags : (s.storeByte a b).flags = s.flags := rfl
@[simp] theorem storeByte_rip : (s.storeByte a b).rip = s.rip := rfl
@[simp] theorem storeByte_memory : (s.storeByte a b).memory = s.memory.writeByte a b := rfl

end Fields

end Cpu

/-! ### Instructions -/

inductive Instr where
  | push (r : Reg)
  | pop (r : Reg)
  | movImm (r : Reg) (v : Word)
  /-- A byte stored where the register points. -/
  | movByte (base : Reg) (b : Byte)
  | call (r : Reg)
  | jmp (r : Reg)
  | ret

/-- The bases that need no more bytes. -/
def Instr.Encodable : Instr → Prop
  | .movByte base _ => base ∉ [Reg.rsp, .rbp, .r12, .r13]
  | _ => True

def rexB (r : Reg) : List Byte := if 8 ≤ r.number then [0x41] else []

def low (r : Reg) : Byte := BitVec.ofNat 8 (r.number % 8)

def encode : Instr → List Byte
  | .push r => rexB r ++ [0x50 + low r]
  | .pop r => rexB r ++ [0x58 + low r]
  | .movImm r v => [if 8 ≤ r.number then 0x49 else 0x48, 0xb8 + low r] ++ bytesLE v.toNat 8
  | .movByte base b => rexB base ++ [0xc6, low base, b]
  | .call r => rexB r ++ [0xff, 0xd0 + low r]
  | .jmp r => rexB r ++ [0xff, 0xe0 + low r]
  | .ret => [0xc3]

/-- The register in the low bits of a byte. -/
def field (high : Bool) (b : Byte) : Reg :=
  Reg.ofNumber ((b &&& 7).toNat + if high then 8 else 0)

/-- An instruction after its prefix, and its length. -/
def decodeOp (wide high : Bool) : List Byte → Option (Instr × Nat)
  | [] => none
  | op :: rest =>
    if op &&& 0xf8 = 0x50 then some (.push (field high op), 1)
    else if op &&& 0xf8 = 0x58 then some (.pop (field high op), 1)
    else if op &&& 0xf8 = 0xb8 ∧ wide then
      if 8 ≤ rest.length then
        some (.movImm (field high op) (BitVec.ofNat 64 (fromLE (rest.take 8))), 9)
      else none
    else if op = 0xc3 then some (.ret, 1)
    else
      match rest with
      | [] => none
      | modrm :: rest =>
        if op = 0xff ∧ modrm &&& 0xf8 = 0xd0 then some (.call (field high modrm), 2)
        else if op = 0xff ∧ modrm &&& 0xf8 = 0xe0 then some (.jmp (field high modrm), 2)
        else if op = 0xc6 ∧ modrm &&& 0xf8 = 0 ∧ modrm &&& 6 ≠ 4 then
          rest.head?.map fun b => (.movByte (field high modrm) b, 3)
        else none

def decode : List Byte → Option (Instr × Nat)
  | [] => none
  | b :: rest =>
    if b &&& 0xf6 = 0x40 then
      (decodeOp (b &&& 8 ≠ 0) (b &&& 1 ≠ 0) rest).map fun (i, n) => (i, n + 1)
    else decodeOp false false (b :: rest)

theorem length_bytesLE (n size : Nat) : (bytesLE n size).length = size := by
  rw [bytesLE, List.length_map, List.length_range]

theorem decode_encode {i : Instr} (hi : i.Encodable) (tail : List Byte) :
    decode (encode i ++ tail) = some (i, (encode i).length) := by
  cases i with
  | push r => cases r <;> rfl
  | pop r => cases r <;> rfl
  | movImm r v =>
    have hdecode : decode (encode (.movImm r v) ++ tail) =
        (if 8 ≤ (bytesLE v.toNat 8 ++ tail).length then
          some (.movImm r (BitVec.ofNat 64 (fromLE ((bytesLE v.toNat 8 ++ tail).take 8))), 9)
        else none).map fun (i, n) => (i, n + 1) := by
      cases r <;> rfl
    have hlen : 8 ≤ (bytesLE v.toNat 8 ++ tail).length := by
      rw [List.length_append, length_bytesLE]
      omega
    have htake : (bytesLE v.toNat 8 ++ tail).take 8 = bytesLE v.toNat 8 :=
      List.take_left' (length_bytesLE ..)
    have hvalue : BitVec.ofNat 64 (fromLE (bytesLE v.toNat 8)) = v := by
      have hlt : v.toNat % 256 ^ 8 = v.toNat := Nat.mod_eq_of_lt v.isLt
      rw [fromLE_bytesLE, hlt, BitVec.ofNat_toNat, BitVec.setWidth_eq]
    rw [hdecode, if_pos hlen, htake, hvalue]
    rfl
  | movByte base b =>
    have hbase : base ∉ [Reg.rsp, .rbp, .r12, .r13] := hi
    cases base
    all_goals first | rfl | exact absurd (by decide) hbase
  | call r => cases r <;> rfl
  | jmp r => cases r <;> rfl
  | ret => rfl

theorem encode_length (i : Instr) : 0 < (encode i).length ∧ (encode i).length ≤ 10 := by
  cases i with
  | push r => cases r <;> decide
  | pop r => cases r <;> decide
  | movImm r v => simp [encode, length_bytesLE]
  | movByte base b => cases base <;> simp [encode, rexB, Reg.number]
  | call r => cases r <;> decide
  | jmp r => cases r <;> decide
  | ret => decide

/-! ### Execution -/

/-- The bytes from an address on. -/
def readBytes (m : Memory) (a : Address) : Nat → List Byte
  | 0 => []
  | n + 1 => m a :: readBytes m (a + 1) n

/-- The memory holds the bytes at the address. -/
def CodeAt (m : Memory) (a : Address) (bytes : List Byte) : Prop :=
  readBytes m a bytes.length = bytes

/-- `n` bytes from `a` on. -/
def Within (a : Address) (n : Nat) (x : Address) : Prop := (x - a).toNat < n

instance (a : Address) (n : Nat) (x : Address) : Decidable (Within a n x) :=
  inferInstanceAs (Decidable (_ < _))

theorem readBytes_append (m : Memory) (a : Address) (n k : Nat) :
    readBytes m a (n + k) = readBytes m a n ++ readBytes m (a + BitVec.ofNat 64 n) k := by
  induction n generalizing a with
  | zero => simp [readBytes]
  | succ n ih =>
    have hnext : a + 1 + BitVec.ofNat 64 n = a + BitVec.ofNat 64 (n + 1) := by
      bv_omega
    rw [Nat.succ_add, readBytes, ih, hnext]
    rfl

theorem length_readBytes (m : Memory) (a : Address) (n : Nat) : (readBytes m a n).length = n := by
  induction n generalizing a with
  | zero => rfl
  | succ n ih => rw [readBytes, List.length_cons, ih]

theorem codeAt_append {m : Memory} {a : Address} {bytes bytes' : List Byte} :
    CodeAt m a (bytes ++ bytes') ↔
      CodeAt m a bytes ∧ CodeAt m (a + BitVec.ofNat 64 bytes.length) bytes' := by
  rw [CodeAt, List.length_append, readBytes_append]
  constructor
  · intro h
    exact List.append_inj h (length_readBytes ..)
  · intro hparts
    obtain ⟨h, h'⟩ := hparts
    rw [h, h']

/-- A part of a range is in the range. -/
theorem Within.widen {a x : Address} {n k m : Nat} (h : Within (a + BitVec.ofNat 64 n) k x)
    (hle : n + k ≤ m) : Within a m x := by
  simp only [Within] at h ⊢
  bv_omega

theorem Within.mono {a x : Address} {n m : Nat} (h : Within a n x) (hle : n ≤ m) : Within a m x :=
  Nat.lt_of_lt_of_le h hle

theorem readBytes_congr {m m' : Memory} {a : Address} {n : Nat}
    (h : ∀ x, Within a n x → m' x = m x) : readBytes m' a n = readBytes m a n := by
  induction n generalizing a with
  | zero => rfl
  | succ n ih =>
    have hfirst : m' a = m a := h a (by simp [Within])
    have hrest : ∀ x, Within (a + 1) n x → m' x = m x :=
      fun x hx => h x (Within.widen (n := 1) hx (by omega))
    rw [readBytes, readBytes, hfirst, ih hrest]

/-- Code depends on its own bytes. -/
theorem CodeAt.congr {m m' : Memory} {a : Address} {bytes : List Byte} (h : CodeAt m a bytes)
    (hsame : ∀ x, Within a bytes.length x → m' x = m x) : CodeAt m' a bytes :=
  (readBytes_congr hsame).trans h

def exec (i : Instr) (size : Nat) (s : Cpu) : Cpu :=
  let next := s.rip + BitVec.ofNat 64 size
  let sp := s.reg .rsp
  match i with
  | .push r => ((s.set .rsp (sp - 8)).storeWord (sp - 8) (s.reg r)).goto next
  | .pop r => ((s.set .rsp (sp + 8)).set r (s.memory.readWord sp)).goto next
  | .movImm r v => (s.set r v).goto next
  | .movByte base b => (s.storeByte (s.reg base) b).goto next
  | .call r => ((s.set .rsp (sp - 8)).storeWord (sp - 8) next).goto (s.reg r)
  | .jmp r => s.goto (s.reg r)
  | .ret => (s.set .rsp (sp + 8)).goto (s.memory.readWord sp)

theorem exec_push_rsp (r : Reg) (size : Nat) (s : Cpu) :
    (exec (.push r) size s).reg .rsp = s.reg .rsp - 8 := by
  simp [exec]

theorem exec_push_reg (r : Reg) (size : Nat) (s : Cpu) {r' : Reg} (h : r' ≠ .rsp) :
    (exec (.push r) size s).reg r' = s.reg r' := by
  simp [exec, Cpu.set_reg_of_ne, h]

theorem exec_push_memory (r : Reg) (size : Nat) (s : Cpu) :
    (exec (.push r) size s).memory = s.memory.writeWord (s.reg .rsp - 8) (s.reg r) := rfl

theorem exec_pop_rsp {r : Reg} (h : .rsp ≠ r) (size : Nat) (s : Cpu) :
    (exec (.pop r) size s).reg .rsp = s.reg .rsp + 8 := by
  simp [exec, Cpu.set_reg_of_ne, h]

theorem exec_pop_self (r : Reg) (size : Nat) (s : Cpu) :
    (exec (.pop r) size s).reg r = s.memory.readWord (s.reg .rsp) := by
  simp [exec]

theorem exec_pop_reg {r r' : Reg} (hr : r' ≠ r) (hrsp : r' ≠ .rsp) (size : Nat) (s : Cpu) :
    (exec (.pop r) size s).reg r' = s.reg r' := by
  simp [exec, Cpu.set_reg_of_ne, hr, hrsp]

/-- No instruction is longer than 15 bytes. -/
def step (s : Cpu) : Option Cpu :=
  (decode (readBytes s.memory s.rip 15)).map fun (i, size) => exec i size s

def run : Nat → Cpu → Option Cpu
  | 0, s => some s
  | n + 1, s => (step s).bind (run n)

theorem run_add (n k : Nat) (s : Cpu) : run (n + k) s = (run n s).bind (run k) := by
  induction n generalizing s with
  | zero => rw [Nat.zero_add]; rfl
  | succ n ih =>
    rw [Nat.succ_add, run, run, Option.bind_assoc]
    exact congrArg _ (funext ih)

/-- An instruction in memory is executed. -/
theorem step_code {s : Cpu} {i : Instr} (hi : i.Encodable) (h : CodeAt s.memory s.rip (encode i)) :
    step s = some (exec i (encode i).length s) := by
  obtain ⟨k, hk⟩ := Nat.exists_eq_add_of_le (Nat.le_trans (encode_length i).2 (by decide : 10 ≤ 15))
  have hbytes : readBytes s.memory s.rip 15 = encode i ++
      readBytes s.memory (s.rip + BitVec.ofNat 64 (encode i).length) k := by
    rw [hk, readBytes_append, h]
  rw [step, hbytes, decode_encode hi]
  rfl

theorem run_code {s : Cpu} {i : Instr} (hi : i.Encodable) (h : CodeAt s.memory s.rip (encode i))
    (n : Nat) : run (n + 1) s = run n (exec i (encode i).length s) := by
  rw [run, step_code hi h]
  rfl

/-- What moving a constant into a register does. -/
structure Moved (r : Reg) (v : Word) (s s' : Cpu) : Prop where
  rip : s'.rip = s.rip + 10
  self : s'.reg r = v
  reg : ∀ r', r' ≠ r → s'.reg r' = s.reg r'
  xmm : s'.xmm = s.xmm
  flags : s'.flags = s.flags
  memory : s'.memory = s.memory

theorem length_movImm (r : Reg) (v : Word) : (encode (.movImm r v)).length = 10 := by
  rw [encode, List.length_append, length_bytesLE]
  rfl

theorem run_movImm {s : Cpu} {r : Reg} {v : Word}
    (h : CodeAt s.memory s.rip (encode (.movImm r v))) :
    ∃ s', Moved r v s s' ∧ ∀ n, run (n + 1) s = run n s' := by
  refine ⟨exec (.movImm r v) 10 s, ?_, fun n => ?_⟩
  · exact ⟨rfl, by simp [exec], fun r' hr' => by simp [exec, Cpu.set_reg_of_ne, hr'], rfl, rfl, rfl⟩
  · rw [run_code (i := .movImm r v) trivial h, length_movImm]

theorem run_movByte {s : Cpu} {base : Reg} {b : Byte} (hbase : (Instr.movByte base b).Encodable)
    (h : CodeAt s.memory s.rip (encode (.movByte base b))) (n : Nat) :
    run (n + 1) s = run n ((s.storeByte (s.reg base) b).goto
      (s.rip + BitVec.ofNat 64 (encode (.movByte base b)).length)) :=
  run_code hbase h n

/-- What a call does, `next` being the instruction after it. -/
structure Called (r : Reg) (next : Address) (s s' : Cpu) : Prop where
  rip : s'.rip = s.reg r
  rsp : s'.reg .rsp = s.reg .rsp - 8
  reg : ∀ r', r' ≠ .rsp → s'.reg r' = s.reg r'
  xmm : s'.xmm = s.xmm
  flags : s'.flags = s.flags
  memory : s'.memory = s.memory.writeWord (s.reg .rsp - 8) next

theorem run_call {s : Cpu} {r : Reg} (h : CodeAt s.memory s.rip (encode (.call r))) :
    ∃ s', Called r (s.rip + BitVec.ofNat 64 (encode (.call r)).length) s s' ∧
      ∀ n, run (n + 1) s = run n s' := by
  refine ⟨exec (.call r) (encode (.call r)).length s, ?_, run_code (i := .call r) trivial h⟩
  exact ⟨rfl, by simp [exec], fun r' hr' => by simp [exec, Cpu.set_reg_of_ne, hr'], rfl, rfl, rfl⟩

theorem run_jmp {s : Cpu} {r : Reg} (h : CodeAt s.memory s.rip (encode (.jmp r))) (n : Nat) :
    run (n + 1) s = run n (s.goto (s.reg r)) :=
  run_code (i := .jmp r) trivial h n

theorem run_ret {s : Cpu} (h : CodeAt s.memory s.rip (encode .ret)) (n : Nat) :
    run (n + 1) s =
      run n ((s.set .rsp (s.reg .rsp + 8)).goto (s.memory.readWord (s.reg .rsp))) :=
  run_code (i := .ret) trivial h n

/-! ### Saving registers -/

def pushes (regs : List Reg) : List Byte := (regs.map Instr.push).flatMap encode

/-- In the other order. -/
def pops (regs : List Reg) : List Byte := (regs.reverse.map Instr.pop).flatMap encode

/-- The registers as they were pushed, one after the other from `a` down. -/
def Stacked (reg : Reg → Word) (m : Memory) : List Reg → Address → Prop
  | [], _ => True
  | r :: rest, a => m.readWord (a - 8) = reg r ∧ Stacked reg m rest (a - 8)

theorem readWord_within {m m' : Memory} {a : Address} (h : ∀ x, Within a 8 x → m' x = m x) :
    m'.readWord a = m.readWord a := by
  refine Memory.readWord_congr fun i hi => h _ ?_
  rw [Within, Memory.offset_sub a hi]
  exact hi

/-- The words depend on their bytes. -/
theorem Stacked.congr {reg reg' : Reg → Word} {m m' : Memory} {regs : List Reg} {a : Address}
    (h : Stacked reg m regs a) (hshort : regs.length < 2 ^ 60) (hreg : ∀ r ∈ regs, reg' r = reg r)
    (hmemory : ∀ x, Within (a - BitVec.ofNat 64 (8 * regs.length)) (8 * regs.length) x →
      m' x = m x) : Stacked reg' m' regs a := by
  induction regs generalizing a with
  | nil => trivial
  | cons r rest ih =>
    obtain ⟨hword, hrest⟩ := h
    have hshort' : rest.length + 1 < 2 ^ 60 := hshort
    have hfirst : a - 8 = a - BitVec.ofNat 64 (8 * (rest.length + 1)) +
        BitVec.ofNat 64 (8 * rest.length) := by
      bv_omega
    have hwindow : a - 8 - BitVec.ofNat 64 (8 * rest.length) =
        a - BitVec.ofNat 64 (8 * (rest.length + 1)) := by
      bv_omega
    refine ⟨?_, ih hrest (by omega) (fun r' hr' => hreg r' (List.mem_cons_of_mem r hr')) ?_⟩
    · rw [hreg r List.mem_cons_self, ← hword]
      refine readWord_within fun x hx => hmemory x ?_
      rw [hfirst] at hx
      exact Within.widen hx (by simp only [List.length_cons]; omega)
    · intro x hx
      rw [hwindow] at hx
      exact hmemory x (hx.mono (by simp only [List.length_cons]; omega))

/-- What pushing registers does. -/
structure Pushed (regs : List Reg) (s s' : Cpu) : Prop where
  rsp : s'.reg .rsp = s.reg .rsp - BitVec.ofNat 64 (8 * regs.length)
  reg : ∀ r, r ≠ .rsp → s'.reg r = s.reg r
  xmm : s'.xmm = s.xmm
  flags : s'.flags = s.flags
  rip : s'.rip = s.rip + BitVec.ofNat 64 (pushes regs).length
  memory : ∀ x, ¬ Within (s'.reg .rsp) (8 * regs.length) x → s'.memory x = s.memory x
  stacked : Stacked s.reg s'.memory regs (s.reg .rsp)

theorem pushed_one (r : Reg) (s : Cpu) : Pushed [r] s (exec (.push r) (encode (.push r)).length s) := by
  refine ⟨exec_push_rsp r _ s, fun r' hr' => exec_push_reg r _ s hr', rfl, rfl, ?_, fun x hx => ?_, ?_⟩
  · rw [pushes, List.map_singleton, List.flatMap_singleton]
    rfl
  · rw [exec_push_rsp] at hx
    rw [exec_push_memory]
    exact Memory.writeWord_outside _ _ (Nat.le_of_not_lt hx)
  · refine ⟨?_, trivial⟩
    rw [exec_push_memory, Memory.readWord_writeWord]

/-- The word of the first is the highest, the others are below it. -/
theorem Pushed.cons {r : Reg} {rest : List Reg} (hrsp : .rsp ∉ rest)
    (hshort : rest.length + 1 < 2 ^ 60) {s s₁ s' : Cpu} (h₁ : Pushed [r] s s₁)
    (h : Pushed rest s₁ s') : Pushed (r :: rest) s s' := by
  have hrsp₁ : s₁.reg .rsp = s.reg .rsp - 8 := h₁.rsp
  have hrsp' : s'.reg .rsp = s.reg .rsp - BitVec.ofNat 64 (8 * (rest.length + 1)) := by
    rw [h.rsp, hrsp₁]
    bv_omega
  refine ⟨hrsp', fun r' hr' => (h.reg r' hr').trans (h₁.reg r' hr'), h.xmm.trans h₁.xmm,
    h.flags.trans h₁.flags, ?_, fun x hx => ?_, ?_, ?_⟩
  · have hlen : (pushes (r :: rest)).length = (pushes [r]).length + (pushes rest).length := by
      simp [pushes]
    rw [h.rip, h₁.rip, hlen]
    bv_omega
  · rw [h.memory x fun hin => hx (hin.mono (by simp only [List.length_cons]; omega)), h₁.memory x ?_]
    intro hin
    refine hx ?_
    rw [hrsp₁] at hin
    rw [hrsp']
    simp only [Within, List.length_cons, List.length_nil] at hin ⊢
    bv_omega
  · rw [← h₁.stacked.1]
    refine readWord_within fun x hx => h.memory x fun hin => ?_
    rw [hrsp'] at hin
    simp only [Within] at hx hin
    bv_omega
  · rw [← hrsp₁]
    exact h.stacked.congr (by omega)
      (fun r' hr' => (h₁.reg r' fun heq => hrsp (heq ▸ hr')).symm) fun _ _ => rfl

theorem run_pushes {regs : List Reg} (hrsp : .rsp ∉ regs) (hshort : regs.length < 2 ^ 60) {s : Cpu}
    (hcode : CodeAt s.memory s.rip (pushes regs))
    (hapart : ∀ x, Within s.rip (pushes regs).length x →
      ¬ Within (s.reg .rsp - BitVec.ofNat 64 (8 * regs.length)) (8 * regs.length) x) :
    ∃ s', run regs.length s = some s' ∧ Pushed regs s s' := by
  induction regs generalizing s with
  | nil =>
    refine ⟨s, rfl, ?_, fun _ _ => rfl, rfl, rfl, ?_, fun _ _ => rfl, trivial⟩
    · simp
    · simp [pushes]
  | cons r rest ih =>
    obtain ⟨-, hrest⟩ : .rsp ≠ r ∧ .rsp ∉ rest := by simpa using hrsp
    have hshort' : rest.length + 1 < 2 ^ 60 := hshort
    have hlen : (pushes (r :: rest)).length = (encode (.push r)).length + (pushes rest).length :=
      List.length_append
    obtain ⟨hfirst, hcode'⟩ := codeAt_append.mp
      (show CodeAt _ _ (encode (.push r) ++ pushes rest) from hcode)
    have h₁ := pushed_one r s
    have hrip₁ : (exec (.push r) (encode (.push r)).length s).rip =
        s.rip + BitVec.ofNat 64 (encode (.push r)).length := rfl
    generalize hs₁ : exec (.push r) (encode (.push r)).length s = s₁ at h₁ hrip₁
    have hrsp₁ : s₁.reg .rsp = s.reg .rsp - 8 := h₁.rsp
    -- what is left of the code, and of the stack that is written
    have hleft : ∀ x, Within s₁.rip (pushes rest).length x →
        Within s.rip (pushes (r :: rest)).length x := by
      intro x hx
      rw [hlen]
      rw [hrip₁] at hx
      exact Within.widen hx (Nat.le_refl _)
    have hbelow : ∀ x, Within (s₁.reg .rsp) 8 x ∨
        Within (s₁.reg .rsp - BitVec.ofNat 64 (8 * rest.length)) (8 * rest.length) x →
        Within (s.reg .rsp - BitVec.ofNat 64 (8 * (rest.length + 1))) (8 * (rest.length + 1)) x := by
      intro x hx
      rw [hrsp₁] at hx
      simp only [Within] at hx ⊢
      bv_omega
    have hcode₁ : CodeAt s₁.memory s₁.rip (pushes rest) := by
      rw [hrip₁]
      refine hcode'.congr fun x hx => h₁.memory x fun hin => ?_
      exact hapart x (hleft x (hrip₁ ▸ hx)) (hbelow x (.inl hin))
    obtain ⟨s', hrun, h⟩ := ih hrest (by omega) hcode₁
      fun x hx hin => hapart x (hleft x hx) (hbelow x (.inr hin))
    refine ⟨s', ?_, h₁.cons hrest hshort' h⟩
    rw [List.length_cons, run_code (i := .push r) trivial hfirst, hs₁, hrun]

/-- What popping them does. -/
structure Popped (regs : List Reg) (value : Reg → Word) (s s' : Cpu) : Prop where
  rsp : s'.reg .rsp = s.reg .rsp + BitVec.ofNat 64 (8 * regs.length)
  popped : ∀ r ∈ regs, s'.reg r = value r
  reg : ∀ r, r ≠ .rsp → r ∉ regs → s'.reg r = s.reg r
  xmm : s'.xmm = s.xmm
  flags : s'.flags = s.flags
  rip : s'.rip = s.rip + BitVec.ofNat 64 (pops regs).length
  memory : s'.memory = s.memory

theorem run_pops {regs : List Reg} (hrsp : .rsp ∉ regs) (hshort : regs.length < 2 ^ 60) {s : Cpu}
    {value : Reg → Word} (hcode : CodeAt s.memory s.rip (pops regs))
    (hstacked : Stacked value s.memory regs (s.reg .rsp + BitVec.ofNat 64 (8 * regs.length))) :
    ∃ s', run regs.length s = some s' ∧ Popped regs value s s' := by
  induction regs with
  | nil =>
    refine ⟨s, rfl, ?_, fun _ h => (nomatch h), fun _ _ _ => rfl, rfl, rfl, ?_, rfl⟩
    · simp
    · simp [pops]
  | cons r rest ih =>
    obtain ⟨hr, hrest⟩ : .rsp ≠ r ∧ .rsp ∉ rest := by simpa using hrsp
    have hshort' : rest.length + 1 < 2 ^ 60 := hshort
    have hpops : pops (r :: rest) = pops rest ++ encode (.pop r) := by
      simp [pops]
    rw [hpops] at hcode
    obtain ⟨hcode', hlast⟩ := codeAt_append.mp hcode
    obtain ⟨hword, hstacked'⟩ := hstacked
    have htop : s.reg .rsp + BitVec.ofNat 64 (8 * (rest.length + 1)) - 8 =
        s.reg .rsp + BitVec.ofNat 64 (8 * rest.length) := by
      bv_omega
    rw [List.length_cons, htop] at hword hstacked'
    obtain ⟨s', hrun, h⟩ := ih hrest (by omega) hcode' hstacked'
    have hlast' : CodeAt s'.memory s'.rip (encode (.pop r)) := by
      rw [h.memory, h.rip]
      exact hlast
    refine ⟨exec (.pop r) (encode (.pop r)).length s', ?_, ?_, ?_, ?_, h.xmm, h.flags, ?_, h.memory⟩
    · rw [List.length_cons, run_add, hrun]
      exact run_code (i := .pop r) trivial hlast' 0
    · rw [exec_pop_rsp hr, h.rsp, List.length_cons]
      bv_omega
    · intro r' hr'
      by_cases hsame : r' = r
      · rw [hsame, exec_pop_self, h.memory, h.rsp, hword]
      · have hmem : r' ∈ rest := (List.mem_cons.mp hr').resolve_left hsame
        rw [exec_pop_reg hsame (fun heq => hrest (heq ▸ hmem)), h.popped r' hmem]
    · intro r' hne hnot
      obtain ⟨hr', hnot'⟩ : r' ≠ r ∧ r' ∉ rest := by simpa using hnot
      rw [exec_pop_reg hr' hne, h.reg r' hne hnot']
    · show s'.rip + _ = _
      rw [h.rip, hpops, List.length_append]
      bv_omega

/-! ### Functions -/

/-- A function that was called and has returned, as the ABI has it: it may change any
register that is not saved, and any memory but `kept`. -/
structure Returned (kept : Address → Prop) (s s' : Cpu) : Prop where
  rip : s'.rip = s.memory.readWord (s.reg .rsp)
  rsp : s'.reg .rsp = s.reg .rsp + 8
  saved : ∀ r, r.CalleeSaved → s'.reg r = s.reg r
  memory : ∀ x, kept x → s'.memory x = s.memory x

/-- The stack is aligned as it must be where a function is entered. -/
def AlignedEntry (s : Cpu) : Prop := (s.reg .rsp + 8).toNat % 16 = 0

end X86
