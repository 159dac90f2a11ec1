import Grafted.Base.X86

/-! Code that makes system calls.

Three more instructions, and a machine that runs code with them: what a system call does is a
parameter, a function of the registers, the memory and a state of its own. An instruction has one
encoding, and code in memory runs as it was written (`step_code`). -/
namespace X86.Syscalls
open ByteMemory

/-! ### Instructions -/

inductive Instr where
  | basic (i : X86.Instr)
  /-- The address `base + disp`, the displacement being a signed byte. -/
  | lea (dst base : Reg) (disp : Byte)
  /-- A constant of 32 bits; the upper half is cleared. -/
  | mov32 (r : Reg) (v : BitVec 32)
  | syscall

/-- The registers that need no more bytes. -/
def Instr.Encodable : Instr → Prop
  | .basic i => i.Encodable
  | .lea dst base _ => dst.number < 8 ∧ base.number < 8 ∧ base ≠ .rsp
  | .mov32 r _ => r.number < 8
  | .syscall => True

def encode : Instr → List Byte
  | .basic i => X86.encode i
  | .lea dst base disp =>
    [0x48, 0x8d, 0x40 + BitVec.ofNat 8 (8 * dst.number + base.number), disp]
  | .mov32 r v => [0xb8 + low r] ++ bytesLE v.toNat 4
  | .syscall => [0x0f, 0x05]

/-- The instructions that the other decoder does not know. -/
def decodeMore : List Byte → Option (Instr × Nat)
  | op :: rest =>
    if op &&& 0xf8 = 0xb8 then
      if 4 ≤ rest.length then
        some (.mov32 (field false op) (BitVec.ofNat 32 (fromLE (rest.take 4))), 5)
      else none
    else
      match op, rest with
      | 0x0f, 0x05 :: _ => some (.syscall, 2)
      | 0x48, 0x8d :: modrm :: disp :: _ =>
        if modrm &&& 0xc0 = 0x40 ∧ modrm &&& 7 ≠ 4 then
          some (.lea (field false (modrm >>> 3)) (field false modrm) disp, 4)
        else none
      | _, _ => none
  | [] => none

def decode (bytes : List Byte) : Option (Instr × Nat) :=
  match X86.decode bytes with
  | some (i, size) => some (.basic i, size)
  | none => decodeMore bytes

theorem decode_encode {i : Instr} (hi : i.Encodable) (tail : List Byte) :
    decode (encode i ++ tail) = some (i, (encode i).length) := by
  cases i with
  | basic i =>
    have hdecode : X86.decode (encode (.basic i) ++ tail) = some (i, (X86.encode i).length) :=
      X86.decode_encode hi tail
    rw [decode, hdecode]
    rfl
  | lea dst base disp =>
    obtain ⟨hdst, hbase, hrsp⟩ := hi
    cases dst
    all_goals first | exact absurd hdst (by decide) | skip
    all_goals
      cases base
      all_goals first
        | rfl
        | exact absurd hbase (by decide)
        | exact absurd rfl hrsp
  | mov32 r v =>
    have hlow : r.number < 8 := hi
    have hlen : 4 ≤ (bytesLE v.toNat 4 ++ tail).length := by
      rw [List.length_append, length_bytesLE]
      omega
    have htake : (bytesLE v.toNat 4 ++ tail).take 4 = bytesLE v.toNat 4 :=
      List.take_left' (length_bytesLE ..)
    have hvalue : BitVec.ofNat 32 (fromLE (bytesLE v.toNat 4)) = v := by
      have hlt : v.toNat % 256 ^ 4 = v.toNat := Nat.mod_eq_of_lt v.isLt
      rw [fromLE_bytesLE, hlt, BitVec.ofNat_toNat, BitVec.setWidth_eq]
    have hdecode : decode (encode (.mov32 r v) ++ tail) =
        if 4 ≤ (bytesLE v.toNat 4 ++ tail).length then
          some (.mov32 r (BitVec.ofNat 32 (fromLE ((bytesLE v.toNat 4 ++ tail).take 4))), 5)
        else none := by
      cases r
      all_goals first | rfl | exact absurd hlow (by decide)
    rw [hdecode, if_pos hlen, htake, hvalue]
    rfl
  | syscall => rfl

theorem encode_length_le (i : Instr) : (encode i).length ≤ 15 := by
  cases i with
  | basic i => exact Nat.le_trans (X86.encode_length i).2 (by decide)
  | lea dst base disp => exact (by decide : 4 ≤ 15)
  | mov32 r v => simp [encode, length_bytesLE]
  | syscall => exact (by decide : 2 ≤ 15)

/-! ### The machine -/

section Machine
variable {κ : Type}

/-- All but a system call. -/
def exec (i : Instr) (size : Nat) (s : Cpu) : Cpu :=
  let next := s.rip + BitVec.ofNat 64 size
  match i with
  | .basic i => X86.exec i size s
  | .lea dst base disp => (s.set dst (s.reg base + disp.signExtend 64)).goto next
  | .mov32 r v => (s.set r (v.setWidth 64)).goto next
  | .syscall => s.goto next

def step (call : Cpu × κ → Option (Cpu × κ)) (s : Cpu × κ) : Option (Cpu × κ) :=
  match decode (readBytes s.1.memory s.1.rip 15) with
  | none => none
  | some (.syscall, _) => call s
  | some (i, size) => some (exec i size s.1, s.2)

def run (call : Cpu × κ → Option (Cpu × κ)) : Nat → Cpu × κ → Option (Cpu × κ)
  | 0, s => some s
  | n + 1, s => (step call s).bind (run call n)

variable {call : Cpu × κ → Option (Cpu × κ)} {s : Cpu} {k : κ}

theorem run_add (n more : Nat) (s : Cpu × κ) :
    run call (n + more) s = (run call n s).bind (run call more) := by
  induction n generalizing s with
  | zero => rw [Nat.zero_add]; rfl
  | succ n ih =>
    rw [Nat.succ_add, run, run, Option.bind_assoc]
    exact congrArg _ (funext ih)

theorem decode_code {i : Instr} (hi : i.Encodable) (h : CodeAt s.memory s.rip (encode i)) :
    decode (readBytes s.memory s.rip 15) = some (i, (encode i).length) := by
  obtain ⟨rest, hrest⟩ := Nat.exists_eq_add_of_le (encode_length_le i)
  rw [hrest, readBytes_append, h]
  exact decode_encode hi _

theorem run_syscall (h : CodeAt s.memory s.rip (encode .syscall)) (n : Nat) :
    run call (n + 1) (s, k) = (call (s, k)).bind (run call n) := by
  have hdecode := decode_code (i := .syscall) trivial h
  simp only [run, step, hdecode]

theorem run_lea {dst base : Reg} {disp : Byte} (hi : (Instr.lea dst base disp).Encodable)
    (h : CodeAt s.memory s.rip (encode (.lea dst base disp))) (n : Nat) :
    run call (n + 1) (s, k) =
      run call n ((s.set dst (s.reg base + disp.signExtend 64)).goto (s.rip + 4), k) := by
  have hdecode := decode_code hi h
  simp only [run, step, hdecode]
  rfl

theorem run_mov32 {r : Reg} {v : BitVec 32} (hi : (Instr.mov32 r v).Encodable)
    (h : CodeAt s.memory s.rip (encode (.mov32 r v))) (n : Nat) :
    run call (n + 1) (s, k) = run call n ((s.set r (v.setWidth 64)).goto (s.rip + 5), k) := by
  have hdecode := decode_code hi h
  simp only [run, step, hdecode]
  rfl

/-- Code without system calls runs as it does alone. -/
theorem run_basic {n : Nat} {s' : Cpu} (h : X86.run n s = some s') (more : Nat) :
    run call (n + more) (s, k) = run call more (s', k) := by
  induction n generalizing s with
  | zero =>
    cases h
    rw [Nat.zero_add]
  | succ n ih =>
    obtain ⟨s₁, hstep, hrun⟩ := Option.bind_eq_some_iff.mp h
    obtain ⟨⟨i, size⟩, hdecode, hexec⟩ := Option.map_eq_some_iff.mp hstep
    have hfirst : step call (s, k) = some (s₁, k) := by
      simp only [step, decode, hdecode, exec]
      rw [← hexec]
    rw [Nat.succ_add, run, hfirst]
    exact ih hrun

end Machine

end X86.Syscalls
