import Grafted.Base.X86Operands
import Grafted.Loader.SigsysHandler

/-! Decoding the instruction of the binary that faulted.

During the lifecycle calls the handler of SIGSEGV decodes the instruction at fault with
`decode_binary_insn`, which knows some opcodes. Where it answers a length it is that of the
instruction but for three kinds (`decoded_length_iff`). What the handler prints is not here. -/
namespace Grafted.Loader.CrashSkip
open ByteMemory X86 SigsysHandler

/-! ### The source -/

/-- What the `match` on the opcode gives: how far it moves `off`, `imm_size` and
`has_dest_reg`. -/
def opcodeForm (opcode op2 : Byte) : Option (Nat × Nat × Bool) :=
  if opcode ∈ [0x8b, 0x8a, 0x63, 0x03, 0x0b, 0x23, 0x2b, 0x33, 0x3b, 0x3a] then some (0, 0, true)
  else if opcode ∈ [0x89, 0x88, 0x39, 0x38, 0x85, 0x84, 0x01, 0x09, 0x21, 0x29, 0x31] then
    some (0, 0, false)
  else if opcode = 0xff then some (0, 0, false)
  else if opcode ∈ [0x83, 0x80, 0xc6, 0xc7, 0xf6] then some (0, 1, false)
  else if opcode = 0x81 then some (0, 4, false)
  else if opcode = 0x0f then
    if op2 ∈ [0xb6, 0xb7, 0xbe, 0xbf, 0xaf] then some (1, 0, true) else none
  else none

/-- The length and the register that is written, -1 for none. -/
def decodeBinaryInsn (m : Memory) (rip : Address) : Nat × Int :=
  let b := fun i : Nat => m (rip + BitVec.ofNat 64 i)
  let rex : Byte := if b 0 &&& 0xf0 = 0x40 then b 0 else 0
  let off := if b 0 &&& 0xf0 = 0x40 then 1 else 0
  let opcode := b off
  match opcodeForm opcode (b (off + 1)) with
  | none => (0, -1)
  | some (moved, immSize, hasDestReg) =>
    let off := off + moved
    let modrm := b (off + 1)
    let modf := (modrm >>> 6) &&& 3
    let reg := ((modrm >>> 3) &&& 7) ||| (if rex &&& 4 ≠ 0 then 8 else 0)
    let rm := modrm &&& 7
    if modf = 3 then
      let ext := (modrm >>> 3) &&& 7
      if opcode = 0xff ∧ (ext = 2 ∨ ext = 4) then (off + 2, -1) else (0, -1)
    else
      let hasSib := rm = 4
      let dispSize :=
        if modf = 0 then if rm = 5 then 4 else 0
        else if modf = 1 then 1
        else if modf = 2 then 4
        else 0
      (off + 2 + (if hasSib then 1 else 0) + dispSize + immSize,
        if hasDestReg then (reg.toNat : Int) else -1)

structure CrashSite where
  addr : Word
  len : Byte

/-- The statics of the handler. -/
structure Recovery where
  inHandler : Bool
  recoveryActive : Bool
  lifecycleSkipMode : Bool
  lifecycleSkipCount : BitVec 32
  crashSites : Fin 256 → CrashSite
  crashSiteCount : BitVec 32

inductive Outcome where
  /-- The handler returns, and the kernel restores what is saved. -/
  | resumed (ctx : Ucontext) (s : Recovery)
  /-- `siglongjmp` to the call that is being tried. -/
  | recovered (s : Recovery)
  /-- `_exit(139)`. -/
  | exited

def SIGABRT : BitVec 32 := 6

/-- The register that is cleared. -/
def gregOf (destReg : Int) : Option Reg :=
  if 0 ≤ destReg ∧ destReg ≤ 15 then some (Reg.ofNumber destReg.toNat) else none

/-- The site is saved for the NOPs, if there is room. -/
def saveCrashSite (s : Recovery) (site : CrashSite) : Recovery :=
  {s with
    crashSites := fun i => if i.val = s.crashSiteCount.toNat then site else s.crashSites i
    crashSiteCount := s.crashSiteCount + 1 }

/-- Past an instruction of `insnLen` bytes. -/
def skipInsn (insnLen : Nat) (destReg : Int) (ctx : Ucontext) (s : Recovery) : Outcome :=
  let cleared := match gregOf destReg with
    | some r => Function.update ctx.gregs r 0
    | none => ctx.gregs
  .resumed {ctx with gregs := cleared, rip := ctx.rip + BitVec.ofNat 64 insnLen}
    {saveCrashSite s ⟨ctx.rip, BitVec.ofNat 8 insnLen⟩ with inHandler := false}

/-- A call through a null pointer returns 0. -/
def skipNullCall (m : Memory) (ctx : Ucontext) (s : Recovery) : Outcome :=
  let rsp := ctx.gregs .rsp
  let gregs := Function.update (Function.update (Function.update ctx.gregs .rsp (rsp + 8)) .rax 0)
    .rdx 0xe000000000000000
  .resumed {ctx with gregs, rip := m.readWord rsp} {s with inHandler := false}

def sigsegvHandler (m : Memory) (sig : BitVec 32) (ctx : Ucontext) (s : Recovery) : Outcome :=
  -- the handler itself crashed
  if s.inHandler then if s.recoveryActive then .recovered s else .exited
  else if s.recoveryActive then
    if sig ≠ SIGABRT ∧ s.lifecycleSkipMode then
      let skipN := s.lifecycleSkipCount
      let counted := {s with inHandler := true, lifecycleSkipCount := skipN + 1}
      if skipN < 500 ∧ ctx.rip = 0 ∧ 0x1000 < ctx.gregs .rsp ∧ ctx.gregs .rsp < 0x800000000000 then
        skipNullCall m ctx counted
      else if skipN < 500 ∧ 0x100000000 ≤ ctx.rip ∧ ctx.rip < 0x100200000 ∧
          0 < (decodeBinaryInsn m ctx.rip).1 then
        skipInsn (decodeBinaryInsn m ctx.rip).1 (decodeBinaryInsn m ctx.rip).2 ctx counted
      else .recovered {counted with inHandler := false}
    else .recovered s
  else .exited

/-- One site of `grafted_nop_saved_crash_sites`; `writable` is that `mprotect` succeeds. -/
def nopSite (writable : Bool) (m : Memory) (site : CrashSite) : Memory :=
  if site.addr = 0 ∨ site.len = 0 ∨ ¬ writable then m
  else (List.range site.len.toNat).foldl (fun m k => m.writeByte (site.addr + BitVec.ofNat 64 k) 0x90) m

/-- `grafted_nop_saved_crash_sites`, less the number it returns: `writable i` for the call
of `mprotect` for site `i`. -/
def nopSavedCrashSites (writable : Fin 256 → Bool) (m : Memory) (s : Recovery) : Memory × Recovery :=
  (((List.finRange 256).take (min s.crashSiteCount.toNat 256)).foldl
      (fun m i => nopSite (writable i) m (s.crashSites i)) m,
    {s with crashSiteCount := 0})

/-! ### What is decoded -/

/-- The size of the immediate that is believed, and whether a register is. -/
def formOf : Opcode → Option (Nat × Bool)
  | .one b => (opcodeForm b 0).map fun form => form.2
  | .two b => (opcodeForm 0x0f b).map fun form => form.2

/-- What is decoded where an instruction is: its displacement as if no base were in the SIB. -/
def decoded (i : MemoryInsn) : Nat × Int :=
  match formOf i.opcode with
  | none => (0, -1)
  | some (immSize, hasDestReg) =>
    (i.rex.toList.length + i.opcode.bytes.length + 1 + i.sib.toList.length +
        dispSize i.modrm none + immSize,
      if hasDestReg then (((ext i.modrm).toNat + i.rexR : Nat) : Int) else -1)

/-- The second byte matters after `0f` only, which moves the offset. -/
theorem opcodeForm_one {b : Byte} (hb : b ≠ 0x0f) (op2 : Byte) :
    opcodeForm b op2 = (formOf (.one b)).map fun form => (0, form) := by
  simp only [formOf, opcodeForm, if_neg hb]
  split_ifs <;> rfl

theorem opcodeForm_0f (b : Byte) : opcodeForm 0x0f b =
    if b ∈ [0xb6, 0xb7, 0xbe, 0xbf, 0xaf] then some (1, 0, true) else none := rfl

theorem opcodeForm_two (b : Byte) :
    opcodeForm 0x0f b = (formOf (.two b)).map fun form => (1, form) := by
  rw [formOf, opcodeForm_0f]
  split_ifs <;> rfl

/-- The opcodes that are believed to load a register. -/
def loads : List Byte := [0x8b, 0x8a, 0x63, 0x03, 0x0b, 0x23, 0x2b, 0x33, 0x3b, 0x3a]

/-- The others, by their immediate. -/
def others : List (Byte × Nat) :=
  [0x89, 0x88, 0x39, 0x38, 0x85, 0x84, 0x01, 0x09, 0x21, 0x29, 0x31].map (fun b => (b, 0)) ++
    ([0x83, 0x80, 0xc6, 0xc7, 0xf6].map (fun b => (b, 1)) ++ [(0xff, 0), (0x81, 4)])

theorem formOf_one {b : Byte} {form : Nat × Bool} (h : formOf (.one b) = some form) :
    b ∈ loads ∧ form = (0, true) ∨ (b, form.1) ∈ others ∧ form.2 = false := by
  simp only [formOf, opcodeForm] at h
  split_ifs at h with hload hstore hff himm h81 h0f hzero
  · cases h
    exact .inl ⟨hload, rfl⟩
  · cases h
    exact .inr ⟨List.mem_append_left _ (List.mem_map_of_mem hstore), rfl⟩
  · cases h
    subst hff
    exact .inr ⟨by decide, rfl⟩
  · cases h
    exact .inr ⟨List.mem_append_right _ (List.mem_append_left _ (List.mem_map_of_mem himm)), rfl⟩
  · cases h
    subst h81
    exact .inr ⟨by decide, rfl⟩
  · exact absurd hzero (by decide)
  · cases h
  · cases h

theorem formOf_two {b : Byte} {form : Nat × Bool} (h : formOf (.two b) = some form) :
    b ∈ [0xb6, 0xb7, 0xbe, 0xbf, 0xaf] ∧ form = (0, true) := by
  rw [formOf, opcodeForm_0f] at h
  split_ifs at h with htwo
  · cases h
    exact ⟨htwo, rfl⟩
  · cases h

theorem hasModRM_of_form {o : Opcode} {form : Nat × Bool} (h : formOf o = some form) :
    o.HasModRM := by
  have hloads : loads.all fun b => decide (Opcode.one b).HasModRM := by decide
  have hothers : others.all fun other => decide (Opcode.one other.1).HasModRM := by decide
  cases o with
  | one b =>
    obtain ⟨hb, -⟩ | ⟨hb, -⟩ := formOf_one h
    · exact of_decide_eq_true (List.all_eq_true.mp hloads b hb)
    · exact of_decide_eq_true (List.all_eq_true.mp hothers (b, form.1) hb)
  | two b =>
    obtain ⟨hb, -⟩ := formOf_two h
    simp only [List.mem_cons, List.not_mem_nil, or_false] at hb
    obtain rfl | rfl | rfl | rfl | rfl := hb
    all_goals decide

theorem mode_eq (modrm : Byte) : (modrm >>> 6) &&& 3 = mode modrm := by
  revert modrm
  decide

theorem reg_toNat (modrm : Byte) (high : Bool) :
    ((modrm >>> 3) &&& 7 ||| (if high then 8 else 0 : Byte)).toNat =
      (ext modrm).toNat + if high then 8 else 0 := by
  revert modrm high
  decide

/-- The prefix. -/
theorem decode_rex (m : Memory) (rip : Address) :
    (if m rip &&& 0xf0 = 0x40 then 1 else 0) = (rexAt m rip).toList.length ∧
      ((if m rip &&& 0xf0 = 0x40 then m rip else 0) &&& 4 ≠ 0 ↔
        (rexAt m rip).any (fun b => b &&& 4 ≠ 0)) := by
  rw [rexAt]
  split_ifs
  · simp
  · simp

/-- After the prefix. -/
theorem decode_opcode (m : Memory) (rip : Address) :
    let off := (rexAt m rip).toList.length
    let opcode := opcodeAt m (after rip (rexAt m rip).toList)
    ∃ moved, opcodeForm (m (rip + BitVec.ofNat 64 off)) (m (rip + BitVec.ofNat 64 (off + 1))) =
        (formOf opcode).map (fun form => (moved, form)) ∧
      opcode.bytes.length = moved + 1 := by
  have hat : rip + BitVec.ofNat 64 ((rexAt m rip).toList.length + 1) =
      after rip (rexAt m rip).toList + 1 := by
    rw [after]
    bv_omega
  simp only [opcodeAt, hat]
  split_ifs with htwo
  · refine ⟨1, ?_, rfl⟩
    rw [after] at htwo
    rw [htwo]
    exact opcodeForm_two _
  · exact ⟨0, opcodeForm_one htwo _, rfl⟩

theorem decode_modrm {m : Memory} {rip : Address} {i : MemoryInsn} (h : CodeAt m rip i.bytes)
    {moved : Nat} (hlen : i.opcode.bytes.length = moved + 1) :
    m (rip + BitVec.ofNat 64 (i.rex.toList.length + moved + 1)) = i.modrm := by
  have hat : after (after rip i.rex.toList) i.opcode.bytes =
      rip + BitVec.ofNat 64 (i.rex.toList.length + moved + 1) := by
    rw [after, after, hlen]
    bv_omega
  rw [← hat, (MemoryInsn.partsAt h).modrm]

/-- One byte where there is a SIB. -/
theorem length_sib (i : MemoryInsn) : i.sib.toList.length = if rm i.modrm = 4 then 1 else 0 := by
  have hsome := i.sib_isSome
  cases hs : i.sib with
  | none =>
    rw [hs] at hsome
    rw [if_neg (of_decide_eq_false hsome.symm)]
    rfl
  | some b =>
    rw [hs] at hsome
    rw [if_pos (of_decide_eq_true hsome.symm)]
    rfl

theorem decode_eq {m : Memory} {rip : Address} {i : MemoryInsn} (h : CodeAt m rip i.bytes) :
    decodeBinaryInsn m rip = decoded i := by
  have hparts := MemoryInsn.partsAt h
  obtain ⟨moved, hform, hlen⟩ := decode_opcode m rip
  obtain ⟨hoff, hrexR⟩ := decode_rex m rip
  rw [hparts.rex] at hoff hrexR hform hlen
  rw [hparts.opcode] at hform hlen
  have hmodrm := decode_modrm h hlen
  have hzero : rip + BitVec.ofNat 64 0 = rip := BitVec.add_zero rip
  simp only [decodeBinaryInsn, hzero, hoff, hform, decoded]
  cases formOf i.opcode with
  | none => rfl
  | some form =>
    obtain ⟨immSize, hasDestReg⟩ := form
    have hreg : (ext i.modrm).toNat + i.rexR = ((i.modrm >>> 3) &&& 7 |||
        (if i.rex.any fun b => b &&& 4 ≠ 0 then 8 else 0 : Byte)).toNat := by
      rw [reg_toNat]
      rfl
    simp only [Option.map_some, hmodrm, mode_eq, if_neg i.memory, hreg, hrexR, hlen, length_sib]
    congr 1
    have hrm : i.modrm &&& 7 = rm i.modrm := rfl
    simp only [dispSize, Option.map_none, hrm, reduceCtorEq, or_false]
    omega

/-- What is decoded takes an operand, and reads as one in memory if it is. -/
theorem read_of_decoded {m : Memory} {rip : Address} (h : 0 < (decodeBinaryInsn m rip).1)
    (hmode : mode (m (after (after rip (rexAt m rip).toList)
      (opcodeAt m (after rip (rexAt m rip).toList)).bytes)) ≠ 3) :
    ∃ i, MemoryInsn.read m rip = some i := by
  have hform : formOf (opcodeAt m (after rip (rexAt m rip).toList)) ≠ none := by
    intro hnone
    obtain ⟨moved, hform, -⟩ := decode_opcode m rip
    have hzero : rip + BitVec.ofNat 64 0 = rip := BitVec.add_zero rip
    rw [hnone] at hform
    simp only [decodeBinaryInsn, hzero, (decode_rex m rip).1, hform] at h
    exact Nat.lt_irrefl 0 h
  obtain ⟨form, hform⟩ := Option.ne_none_iff_exists'.mp hform
  have hknown := hasModRM_of_form hform
  simp only [MemoryInsn.read]
  rw [dif_pos ⟨hknown, hmode⟩]
  exact ⟨_, rfl⟩

/-! ### The length -/

/-- An instruction whose length is decoded: no base in a SIB without mode, not a move of four
bytes, and an immediate where one is believed. -/
def LengthKnown (i : MemoryInsn) : Prop :=
  ¬ (mode i.modrm = 0 ∧ i.sib.map sibBase = some 5) ∧ i.opcode ≠ .one 0xc7 ∧
    (i.opcode = .one 0xf6 → ext i.modrm < 2)

instance : DecidablePred LengthKnown := fun _ => inferInstanceAs (Decidable (_ ∧ _))

/-- The displacement that is missed. -/
theorem dispSize_base (modrm : Byte) (sib : Option Byte) (hrm : rm modrm = 5 → sib = none) :
    dispSize modrm sib =
      dispSize modrm none + if mode modrm = 0 ∧ sib.map sibBase = some 5 then 4 else 0 := by
  unfold dispSize
  by_cases hmode : mode modrm = 0
  · by_cases hbase : sib.map sibBase = some 5
    · have hne : rm modrm ≠ 5 := by
        intro heq
        rw [hrm heq] at hbase
        cases hbase
      simp only [hmode, hbase, hne, Option.map_none, reduceCtorEq, or_true, or_self, and_self,
        if_true, if_false]
    · simp only [hmode, hbase, Option.map_none, reduceCtorEq, or_false, and_false, if_true, if_false,
        Nat.add_zero]
  · simp only [hmode, false_and, if_false, Nat.add_zero]

/-- The immediate depends on the middle bits for two opcodes. -/
theorem immSize_eq {b : Byte} (hf6 : b ≠ 0xf6) (hf7 : b ≠ 0xf7) (middle : Byte) :
    (Opcode.one b).immSize middle = (Opcode.one b).immSize 0 := by
  simp only [Opcode.immSize, hf6, hf7, false_and]

theorem loads_immSize : loads.all fun b =>
    b ≠ 0xf6 ∧ b ≠ 0xf7 ∧ b ≠ 0xc7 ∧ (Opcode.one b).immSize 0 = 0 := by
  decide

theorem others_immSize : others.all fun other => other.1 ≠ 0xf7 ∧
    (Opcode.one other.1).immSize 0 = other.2 + (if other.1 = 0xc7 then 3 else 0) := by
  decide

/-- How far the size of the immediate that is believed is from what it is. -/
theorem formOf_immSize {o : Opcode} {immSize : Nat} {hasDestReg : Bool}
    (h : formOf o = some (immSize, hasDestReg)) (middle : Byte) :
    o.immSize middle + (if o = .one 0xf6 ∧ ¬ middle < 2 then 1 else 0) =
      immSize + (if o = .one 0xc7 then 3 else 0) := by
  cases o with
  | two b =>
    obtain ⟨-, hform⟩ := formOf_two h
    cases hform
    rw [if_neg (by simp), if_neg (by simp)]
    rfl
  | one b =>
    simp only [Opcode.one.injEq]
    obtain ⟨hb, hform⟩ | ⟨hb, -⟩ := formOf_one h
    · obtain ⟨hf6, hf7, hc7, himm⟩ := of_decide_eq_true (List.all_eq_true.mp loads_immSize b hb)
      cases hform
      rw [immSize_eq hf6 hf7, himm, if_neg (fun heq => hf6 heq.1), if_neg hc7]
    · obtain ⟨hf7, himm⟩ := of_decide_eq_true (List.all_eq_true.mp others_immSize (b, immSize) hb)
      by_cases hf6 : b = 0xf6
      · subst hf6
        cases h
        by_cases hext : middle < 2
        · simp only [Opcode.immSize, hext, not_true_eq_false, and_false, and_true, if_true, if_false]
          rfl
        · simp only [Opcode.immSize, hext, not_false_eq_true, and_false, and_true, if_true, if_false]
          rfl
      · rw [immSize_eq hf6 hf7, if_neg (fun heq => hf6 heq.1), Nat.add_zero]
        exact himm

/-- What is missed cannot make up for what is counted too often. -/
theorem no_cancel {base move unary : Prop} [Decidable base] [Decidable move] [Decidable unary]
    {rest believed imm : Nat}
    (h : imm + (if unary then 1 else 0) = believed + (if move then 3 else 0)) :
    rest + believed = rest + (if base then 4 else 0) + imm ↔ ¬ base ∧ ¬ move ∧ ¬ unary := by
  by_cases hbase : base
  · by_cases hunary : unary
    all_goals simp only [hbase, hunary, if_true, if_false] at h ⊢
    all_goals split_ifs at h
    all_goals simp only [not_true_eq_false, false_and, iff_false]
    all_goals omega
  · by_cases hmove : move
    · simp only [hbase, hmove, if_true, if_false, not_true_eq_false, false_and, and_false,
        iff_false] at h ⊢
      split_ifs at h
      all_goals omega
    · simp only [hbase, hmove, if_false, not_false_eq_true, true_and] at h ⊢
      split_ifs at h with hunary
      · simp only [hunary, not_true_eq_false, iff_false]
        omega
      · simp only [hunary, not_false_eq_true, iff_true]
        omega

theorem decoded_length_iff {i : MemoryInsn} (h : 0 < (decoded i).1) :
    (decoded i).1 = i.bytes.length ↔ LengthKnown i := by
  cases hform : formOf i.opcode with
  | none => simp [decoded, hform] at h
  | some form =>
    obtain ⟨immSize, hasDestReg⟩ := form
    have hnone : rm i.modrm = 5 → i.sib = none := by
      intro hrm
      have hsome := i.sib_isSome
      rw [hrm] at hsome
      exact Option.not_isSome_iff_eq_none.mp (by rw [hsome]; decide)
    have hreal := i.length_bytes
    have himm := formOf_immSize hform (ext i.modrm)
    rw [dispSize_base _ _ hnone, ← Nat.add_assoc] at hreal
    rw [hreal, LengthKnown, ← not_and_not_right]
    simp only [decoded, hform]
    exact no_cancel himm

end Grafted.Loader.CrashSkip
