import Grafted.Base.X86

/-! Instructions of x86-64 that take an operand in memory: their bytes and what they write.

`MemoryInsn` is such an instruction as its bytes are laid out: prefix, opcode, ModRM,
SIB, displacement, immediate. The lengths of the parts are fields of it, so what is
built is well formed. Memory holds at most one of them at an address, and `read` is the
one (`read_eq_some`). `written` is the registers an instruction changes, beside the flags.
Of the opcodes of two bytes only moves with extension and a product are here. -/
namespace X86
open ByteMemory

/-- For the tests whether an opcode is in a list. -/
instance : LawfulBEq Byte := inferInstance

/-! ### Opcodes -/

/-- One byte, or two of which the first is `0f`. -/
inductive Opcode where
  | one (b : Byte)
  | two (b : Byte)
  deriving DecidableEq

/-- The sums, differences and bit operations of the first quarter of the map. -/
def isArith (b : Byte) : Bool := b < 0x40 && b &&& 4 = 0

/-- Comparing, of those. -/
def isCompare (b : Byte) : Bool := b &&& 0xf8 = 0x38

namespace Opcode

def bytes : Opcode → List Byte
  | one b => [b]
  | two b => [0x0f, b]

/-- The opcodes that a ModRM byte follows. -/
def HasModRM : Opcode → Prop
  | one b => isArith b ∨
      b ∈ [0x63, 0x69, 0x6b, 0x80, 0x81, 0x83, 0x84, 0x85, 0x86, 0x87, 0x88, 0x89, 0x8a, 0x8b,
        0x8d, 0x8f, 0xc0, 0xc1, 0xc6, 0xc7, 0xd0, 0xd1, 0xd2, 0xd3, 0xf6, 0xf7, 0xfe, 0xff]
  | two b => b ∈ [0xaf, 0xb6, 0xb7, 0xbe, 0xbf]

instance : DecidablePred HasModRM
  | one _ => inferInstanceAs (Decidable (_ ∨ _))
  | two _ => inferInstanceAs (Decidable (_ ∈ _))

/-- The bytes of the immediate, `ext` being the middle bits of the ModRM byte. -/
def immSize (ext : Byte) : Opcode → Nat
  | one b =>
    if b ∈ [0x6b, 0x80, 0x83, 0xc0, 0xc1, 0xc6] then 1
    else if b ∈ [0x69, 0x81, 0xc7] then 4
    else if b = 0xf6 ∧ ext < 2 then 1
    else if b = 0xf7 ∧ ext < 2 then 4
    else 0
  | two _ => 0

end Opcode

/-! ### ModRM -/

def mode (modrm : Byte) : Byte := modrm >>> 6

/-- A register, or more of the opcode. -/
def ext (modrm : Byte) : Byte := (modrm >>> 3) &&& 7

def rm (modrm : Byte) : Byte := modrm &&& 7

def sibBase (sib : Byte) : Byte := sib &&& 7

def dispSize (modrm : Byte) (sib : Option Byte) : Nat :=
  if mode modrm = 0 then
    if rm modrm = 5 ∨ sib.map sibBase = some 5 then 4 else 0
  else if mode modrm = 1 then 1
  else if mode modrm = 2 then 4
  else 0

/-! ### The instruction -/

structure MemoryInsn where
  rex : Option Byte
  opcode : Opcode
  modrm : Byte
  sib : Option Byte
  disp : List Byte
  imm : List Byte
  rex_high : ∀ b, rex = some b → b &&& 0xf0 = 0x40
  hasModRM : opcode.HasModRM
  memory : mode modrm ≠ 3
  sib_isSome : sib.isSome = decide (rm modrm = 4)
  disp_length : disp.length = dispSize modrm sib
  imm_length : imm.length = opcode.immSize (ext modrm)

namespace MemoryInsn

def bytes (i : MemoryInsn) : List Byte :=
  i.rex.toList ++ (i.opcode.bytes ++ ([i.modrm] ++ (i.sib.toList ++ (i.disp ++ i.imm))))

/-- The bit of the prefix that extends the register. -/
def rexR (i : MemoryInsn) : Nat := if i.rex.any fun b => b &&& 4 ≠ 0 then 8 else 0

/-- The register of the middle bits. -/
def register (i : MemoryInsn) : Reg := Reg.ofNumber ((ext i.modrm).toNat + i.rexR)

/-- The register that the middle bits have a byte of: without a prefix the last four of the
eight are the second bytes of the first four. -/
def byteRegister (i : MemoryInsn) : Reg :=
  if i.rex.isNone ∧ 4 ≤ ext i.modrm then Reg.ofNumber ((ext i.modrm).toNat - 4) else i.register

/-- The registers it changes, all or some of their bits. -/
def written (i : MemoryInsn) : List Reg :=
  match i.opcode with
  | .two _ => [i.register]
  | .one b =>
    if isArith b then
      if isCompare b then []
      else if b &&& 3 = 3 then [i.register]
      else if b &&& 3 = 2 then [i.byteRegister]
      else []
    else if b ∈ [0x63, 0x69, 0x6b, 0x87, 0x8b, 0x8d] then [i.register]
    else if b ∈ [0x86, 0x8a] then [i.byteRegister]
    else if b = 0x8f then [.rsp]
    else if b = 0xf6 ∧ 4 ≤ ext i.modrm then [.rax]
    else if b = 0xf7 ∧ 4 ≤ ext i.modrm then [.rax, .rdx]
    else if b = 0xff ∧ ext i.modrm ∈ [2, 3, 6] then [.rsp]
    else []

end MemoryInsn

/-! ### Reading it -/

def rexAt (m : Memory) (a : Address) : Option Byte :=
  if m a &&& 0xf0 = 0x40 then some (m a) else none

def opcodeAt (m : Memory) (a : Address) : Opcode :=
  if m a = 0x0f then .two (m (a + 1)) else .one (m a)

def sibAt (m : Memory) (a : Address) (modrm : Byte) : Option Byte :=
  if rm modrm = 4 then some (m a) else none

/-- Where the bytes that follow are. -/
def after (a : Address) (bytes : List Byte) : Address := a + BitVec.ofNat 64 bytes.length

theorem rexAt_high {m : Memory} {a : Address} {b : Byte} (h : rexAt m a = some b) :
    b &&& 0xf0 = 0x40 := by
  unfold rexAt at h
  split_ifs at h with hrex
  cases h
  exact hrex

theorem sibAt_isSome (m : Memory) (a : Address) (modrm : Byte) :
    (sibAt m a modrm).isSome = decide (rm modrm = 4) := by
  unfold sibAt
  split_ifs with hrm
  · exact (decide_eq_true hrm).symm
  · exact (decide_eq_false hrm).symm

namespace MemoryInsn

/-- The instruction at an address, if it is one of these. -/
def read (m : Memory) (a : Address) : Option MemoryInsn :=
  let rex := rexAt m a
  let atOpcode := after a rex.toList
  let opcode := opcodeAt m atOpcode
  let atModrm := after atOpcode opcode.bytes
  let modrm := m atModrm
  let sib := sibAt m (atModrm + 1) modrm
  let atDisp := after (atModrm + 1) sib.toList
  let disp := readBytes m atDisp (dispSize modrm sib)
  let imm := readBytes m (after atDisp disp) (opcode.immSize (ext modrm))
  if h : opcode.HasModRM ∧ mode modrm ≠ 3 then
    some {
      rex, opcode, modrm, sib, disp, imm
      rex_high := fun _ => rexAt_high
      hasModRM := h.1
      memory := h.2
      sib_isSome := sibAt_isSome ..
      disp_length := length_readBytes ..
      imm_length := length_readBytes .. }
  else none

end MemoryInsn

/-! ### What is read is what is there -/

theorem codeAt_nil (m : Memory) (a : Address) : CodeAt m a [] := rfl

theorem codeAt_singleton {m : Memory} {a : Address} {b : Byte} : CodeAt m a [b] ↔ m a = b := by
  simp [CodeAt, readBytes]

theorem codeAt_readBytes (m : Memory) (a : Address) (n : Nat) : CodeAt m a (readBytes m a n) := by
  rw [CodeAt, length_readBytes]

theorem codeAt_rexAt (m : Memory) (a : Address) : CodeAt m a (rexAt m a).toList := by
  unfold rexAt
  split_ifs
  · exact codeAt_singleton.mpr rfl
  · exact codeAt_nil m a

theorem codeAt_opcodeAt (m : Memory) (a : Address) : CodeAt m a (opcodeAt m a).bytes := by
  unfold opcodeAt
  split_ifs with h
  · simp [CodeAt, Opcode.bytes, readBytes, h]
  · exact codeAt_singleton.mpr rfl

theorem codeAt_sibAt (m : Memory) (a : Address) (modrm : Byte) :
    CodeAt m a (sibAt m a modrm).toList := by
  unfold sibAt
  split_ifs
  · exact codeAt_singleton.mpr rfl
  · exact codeAt_nil m a

/-- The first byte of an opcode that is known is no prefix. -/
theorem Opcode.HasModRM.no_rex {o : Opcode} (h : o.HasModRM) {m : Memory} {a : Address}
    (hcode : CodeAt m a o.bytes) : rexAt m a = none := by
  have hall : ∀ b : Byte, (Opcode.one b).HasModRM → b &&& 0xf0 ≠ 0x40 := by decide +kernel
  cases o with
  | one b =>
    rw [rexAt, codeAt_singleton.mp hcode, if_neg (hall b h)]
  | two b =>
    have hfirst : m a = 0x0f := (List.cons.inj hcode).1
    rw [rexAt, hfirst, if_neg (by decide)]

theorem Opcode.HasModRM.opcodeAt {o : Opcode} (h : o.HasModRM) {m : Memory} {a : Address}
    (hcode : CodeAt m a o.bytes) : opcodeAt m a = o := by
  have hall : ¬ (Opcode.one 0x0f).HasModRM := by decide
  cases o with
  | one b =>
    have hfirst : m a = b := codeAt_singleton.mp hcode
    have hne : b ≠ 0x0f := by
      intro hb
      exact hall (hb ▸ h)
    rw [X86.opcodeAt, hfirst, if_neg hne]
  | two b =>
    obtain ⟨hfirst, hrest⟩ := List.cons.inj hcode
    have hsecond : m (a + 1) = b := (List.cons.inj hrest).1
    rw [X86.opcodeAt, if_pos hfirst, hsecond]

namespace MemoryInsn

/-- Where the parts of an instruction are. -/
structure PartsAt (m : Memory) (a : Address) (i : MemoryInsn) : Prop where
  rex : rexAt m a = i.rex
  opcode : opcodeAt m (after a i.rex.toList) = i.opcode
  modrm : m (after (after a i.rex.toList) i.opcode.bytes) = i.modrm
  sib : sibAt m (after (after a i.rex.toList) i.opcode.bytes + 1) i.modrm = i.sib
  disp : readBytes m (after (after (after a i.rex.toList) i.opcode.bytes + 1) i.sib.toList)
    (dispSize i.modrm i.sib) = i.disp
  imm : readBytes m (after (after (after (after a i.rex.toList) i.opcode.bytes + 1) i.sib.toList)
    i.disp) (i.opcode.immSize (ext i.modrm)) = i.imm

theorem partsAt {m : Memory} {a : Address} {i : MemoryInsn} (h : CodeAt m a i.bytes) :
    PartsAt m a i := by
  obtain ⟨hrex, h⟩ := codeAt_append.mp h
  obtain ⟨hopcode, h⟩ := codeAt_append.mp h
  obtain ⟨hmodrm, h⟩ := codeAt_append.mp h
  obtain ⟨hsib, h⟩ := codeAt_append.mp h
  obtain ⟨hdisp, himm⟩ := codeAt_append.mp h
  rw [CodeAt, i.disp_length] at hdisp
  rw [CodeAt, i.imm_length] at himm
  refine ⟨?_, i.hasModRM.opcodeAt hopcode, codeAt_singleton.mp hmodrm, ?_, hdisp, himm⟩
  · cases hr : i.rex with
    | none =>
      rw [hr] at hopcode
      exact i.hasModRM.no_rex (by simpa using hopcode)
    | some b =>
      rw [hr] at hrex
      have hb : m a = b := codeAt_singleton.mp hrex
      rw [rexAt, hb, if_pos (i.rex_high b hr)]
  · have hsome := i.sib_isSome
    cases hs : i.sib with
    | none =>
      rw [hs] at hsome
      rw [sibAt, if_neg (of_decide_eq_false hsome.symm)]
    | some b =>
      rw [hs] at hsome hsib
      rw [sibAt, if_pos (of_decide_eq_true hsome.symm)]
      exact congrArg some (codeAt_singleton.mp hsib)

/-- Memory holds an instruction at an address exactly where it is read there. -/
theorem read_eq_some {m : Memory} {a : Address} {i : MemoryInsn} :
    read m a = some i ↔ CodeAt m a i.bytes := by
  constructor
  · intro h
    simp only [read] at h
    split_ifs at h
    cases h
    refine codeAt_append.mpr ⟨codeAt_rexAt .., codeAt_append.mpr ⟨codeAt_opcodeAt ..,
      codeAt_append.mpr ⟨codeAt_singleton.mpr rfl, codeAt_append.mpr ⟨codeAt_sibAt ..,
        codeAt_append.mpr ⟨codeAt_readBytes .., codeAt_readBytes ..⟩⟩⟩⟩⟩
  · intro h
    have hparts := partsAt h
    obtain ⟨rex, opcode, modrm, sib, disp, imm, _, hopcode, hmemory, _, _, _⟩ := i
    have hrexAt : rexAt m a = rex := hparts.rex
    have hopcodeAt : opcodeAt m (after a rex.toList) = opcode := hparts.opcode
    have hmodrmAt : m (after (after a rex.toList) opcode.bytes) = modrm := hparts.modrm
    have hsibAt : sibAt m (after (after a rex.toList) opcode.bytes + 1) modrm = sib := hparts.sib
    have hdispAt : readBytes m (after (after (after a rex.toList) opcode.bytes + 1) sib.toList)
        (dispSize modrm sib) = disp := hparts.disp
    have himmAt : readBytes m (after (after (after (after a rex.toList) opcode.bytes + 1) sib.toList)
        disp) (opcode.immSize (ext modrm)) = imm := hparts.imm
    simp only [read, hrexAt, hopcodeAt, hmodrmAt, hsibAt, hdispAt, himmAt]
    rw [dif_pos ⟨hopcode, hmemory⟩]

theorem length_bytes (i : MemoryInsn) : i.bytes.length =
    i.rex.toList.length + i.opcode.bytes.length + 1 + i.sib.toList.length +
      dispSize i.modrm i.sib + i.opcode.immSize (ext i.modrm) := by
  simp only [bytes, List.length_append, List.length_singleton, i.disp_length, i.imm_length]
  omega

theorem length_toList_le {α : Type} (o : Option α) : o.toList.length ≤ 1 := by
  cases o <;> simp

theorem length_bytes_le (i : MemoryInsn) : i.bytes.length ≤ 13 := by
  have hrex := length_toList_le i.rex
  have hsib := length_toList_le i.sib
  have hopcode : i.opcode.bytes.length ≤ 2 := by
    cases i.opcode <;> simp [Opcode.bytes]
  have hdisp : dispSize i.modrm i.sib ≤ 4 := by
    unfold dispSize
    split_ifs <;> decide
  have himm : i.opcode.immSize (ext i.modrm) ≤ 4 := by
    unfold Opcode.immSize
    split
    · split_ifs <;> decide
    · decide
  rw [length_bytes]
  omega

end MemoryInsn
end X86
