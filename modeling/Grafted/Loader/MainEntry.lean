import Grafted.Base.X86Asm
import Grafted.Loader.StackBounds

/-! How a process is started: `execute` goes to the entry point with the registers set from
the stack.

`build_stack` lays the vectors out one after another, so where each begins depends on the
lengths of those before it. The instructions get the count from the stack and reckon the
addresses of the first two vectors from it (`Ran.reached`). For the third they copy the
second: `apple` is never passed (`apple_not_passed`). -/
namespace Grafted.Loader.ProcessStack
open ByteMemory X86

/-! ### The instructions -/

/-- Instructions with an operand in memory, and the others. -/
inductive Insn where
  | storeByte (base : Reg) (b : Byte)
  | load (dst base : Reg) (disp : Word)
  | lea (dst base : Reg) (disp : Word)
  /-- The index is scaled by 8. -/
  | leaIndex (dst base index : Reg) (disp : Word)
  | op (op : Op)

def Insn.exec : Insn → Cpu → Cpu
  | storeByte base b, s => s.storeByte (s.reg base) b
  | load dst base disp, s => s.set dst (s.memory.readWord (s.reg base + disp))
  | lea dst base disp, s => s.set dst (s.reg base + disp)
  | leaIndex dst base index disp, s => s.set dst (s.reg base + s.reg index * 8 + disp)
  | op o, s => o.exec s

def execInsns (code : List Insn) (s : Cpu) : Cpu := code.foldl (fun s i => i.exec s) s

/-- `SYSCALL_DISPATCH_FILTER_BLOCK`. -/
def filterBlock : Byte := 1

def clear (r : Reg) : Insn := .op (.xor r r)

/-- For LC_MAIN the arguments are in registers and a return address is on the stack. -/
def entryCode (isLcMain : Bool) : List Insn :=
  let arguments : List Insn :=
    if isLcMain then
      [.load .rdi .rsp 8, .lea .rsi .rsp 16, .leaIndex .rdx .rsp .rdi (16 + 8), .op (.mov .rcx .rdx)]
    else [.load .rdi .rsp 0, .lea .rsi .rsp 8]
  [.storeByte .r10 filterBlock, .op (.mov .rsp .r11)] ++ arguments ++
    [clear .rbp, clear .rbx, clear .r12, clear .r13, clear .r14, clear .r15]

/-- `mov edi, eax; mov eax, 231; syscall`, and traps. -/
def exitCode : List Byte :=
  [0x89, 0xc7, 0xb8, 0xe7, 0x00, 0x00, 0x00, 0x0f, 0x05, 0xcc, 0xcc, 0xcc]

/-! ### Entry -/

def Mapping.top (mapping : Mapping) : Address := (mapping.base + BitVec.ofNat 64 STACK_SIZE) &&& ~~~0xF

theorem allocStack_ok (mapping : Mapping) :
    allocStack (.ok mapping) = .ok (mapping.base, mapping.top) := rfl

/-- What `execute` is called with, and what the kernel and the compiler give it. What is mapped is
apart from what was mapped before. -/
structure Launch where
  mapping : Mapping
  memory : Memory
  argv : List String
  binaryPath : String
  vars : List (String × String)
  entryPoint : Word
  selector : Address
  exitPage : Address
  /-- The registers that the code does not set. -/
  cpu : Cpu
  exitPage_fits : exitPage.toNat + 4096 ≤ 2 ^ 64
  exitPage_apart : exitPage.toNat + 4096 ≤ mapping.base.toNat ∨
    mapping.base.toNat + STACK_SIZE ≤ exitPage.toNat
  selector_apart : selector.toNat < mapping.base.toNat ∨ mapping.base.toNat + STACK_SIZE ≤ selector.toNat
  selector_page : selector.toNat < exitPage.toNat ∨ exitPage.toNat + 4096 ≤ selector.toNat

namespace Launch

def stack (l : Launch) : Stack := buildStack l.memory l.mapping.top l.argv l.binaryPath l.vars

/-- With the code that a return goes to. -/
def withExit (l : Launch) : Stack := {l.stack with memory := l.stack.memory.writeBytes l.exitPage exitCode}

def finalStack (l : Launch) (isLcMain : Bool) : Stack :=
  if isLcMain then pushU64 l.withExit l.exitPage else l.stack

/-- The operands of the assembly. -/
def operands (l : Launch) (st : Stack) : Cpu :=
  (({l.cpu with memory := st.memory}.set .r10 l.selector).set .r11 st.sp).set .rax l.entryPoint

/-- Up to the jump, and with it. -/
def execute (l : Launch) (isLcMain : Bool) : Cpu :=
  let s := execInsns (entryCode isLcMain) (l.operands (l.finalStack isLcMain))
  s.goto (s.reg .rax)

def envp (l : Launch) : List String := envpOf l.vars

def apple (l : Launch) : List String := appleOf l.binaryPath

/-- Where the vectors are: behind the count, each behind the null of the one before. -/
def argvAt (l : Launch) : Address := l.stack.sp + 8

def envpAt (l : Launch) : Address := l.argvAt + BitVec.ofNat 64 (8 * (l.argv.length + 1))

def appleAt (l : Launch) : Address := l.envpAt + BitVec.ofNat 64 (8 * (l.envp.length + 1))

/-- The image with the return address is not larger than the stack. -/
def Fits (l : Launch) : Prop := imageSize l.argv l.envp l.apple true ≤ STACK_SIZE

instance (l : Launch) : Decidable l.Fits := inferInstanceAs (Decidable (_ ≤ _))

def AllNulFree (l : Launch) : Prop := ∀ s ∈ l.argv ++ l.envp ++ l.apple, NulFree s

/-- A vector of the strings: pointers, and a null. -/
def VectorAt (l : Launch) (m : Memory) (a : Address) (strings : List String) : Prop :=
  ∃ ptrs : List Word, ptrs.length = strings.length ∧ m.Words a (ptrs ++ [0]) ∧
    (l.AllNulFree → List.Forall₂ (fun ptr s => m.CString ptr (asBytes s)) ptrs strings)

/-- The entry point is reached, and the stack is as it has to be. -/
structure Reached (l : Launch) (s : Cpu) : Prop where
  rip : s.rip = l.entryPoint
  argc : (s.reg .rdi).toNat = l.argv.length
  argv : s.reg .rsi = l.argvAt
  envp : s.reg .rdx = l.envpAt
  argvVector : l.VectorAt s.memory l.argvAt l.argv
  envpVector : l.VectorAt s.memory l.envpAt l.envp
  appleVector : l.VectorAt s.memory l.appleAt l.apple
  return_exits : s.memory.readWord (s.reg .rsp) = l.exitPage ∧ CodeAt s.memory l.exitPage exitCode
  aligned : (s.reg .rsp).toNat % 16 = 8

/-- And the fourth argument is there. -/
structure Entered (l : Launch) (s : Cpu) : Prop extends Reached l s where
  apple : s.reg .rcx = l.appleAt

end Launch

/-! ### What is on the stack -/

/-- Aligned to 8 bytes, the stack pointer goes down by whole words. -/
theorem foldl_below {sp : Int} (hsp : sp % 8 = 0) (strings : List String) :
    strings.foldl below sp = sp - stringsSize strings := by
  induction strings generalizing sp with
  | nil => exact (Int.sub_zero sp).symm
  | cons s rest ih =>
    have hfirst : below sp s = sp - padded s := by
      unfold below padded
      omega
    rw [List.foldl_cons, hfirst, ih (by unfold padded; omega), stringsSize]
    omega

section Stack
variable {top : Address} (htop : top.toNat % 16 = 0)
include htop

theorem fits_of_imageSize {argv envp apple : List String}
    (h : imageSize argv envp apple false ≤ top.toNat) : Fits top argv envp apple := by
  have haligned : (top.toNat : Int) % 8 = 0 := by omega
  have hbelow := foldl_below haligned (apple ++ envp ++ argv)
  unfold Fits
  rw [hbelow]
  unfold imageSize at h
  simp only [Bool.false_eq_true, if_false] at h
  omega

theorem buildStack_sp (memory : Memory) (argv : List String) (binaryPath : String)
    (vars : List (String × String)) :
    (buildStack memory top argv binaryPath vars).sp =
      top - BitVec.ofNat 64 (imageSize argv (envpOf vars) (appleOf binaryPath) false) := by
  rw [(buildStack_pushes htop memory argv binaryPath vars).2, total_imagePushes]

/-- The words are there, whatever the strings are. -/
theorem buildStack_words (memory : Memory) {argv : List String} {binaryPath : String}
    {vars : List (String × String)}
    (h : imageSize argv (envpOf vars) (appleOf binaryPath) false ≤ top.toNat) :
    ∃ argvPtrs envpPtrs applePtrs : List Word, argvPtrs.length = argv.length ∧
      envpPtrs.length = (envpOf vars).length ∧ applePtrs.length = (appleOf binaryPath).length ∧
      (buildStack memory top argv binaryPath vars).memory.Words
        (buildStack memory top argv binaryPath vars).sp
        (blockWords argv.length argvPtrs envpPtrs applePtrs) := by
  unfold buildStack
  generalize envpOf vars = envp at *
  generalize appleOf binaryPath = apple at *
  have hstart : (⟨memory, top⟩ : Stack).sp = top - BitVec.ofNat 64 0 := (BitVec.sub_zero top).symm
  obtain ⟨-, happleSp⟩ := stringWrites_eq htop (Nat.zero_mod 8) hstart apple
  have happleMod : (0 + stringsSize apple) % 8 = 0 := by
    rw [Nat.zero_add, stringsSize_mod]
  obtain ⟨-, henvpSp⟩ := stringWrites_eq htop happleMod happleSp envp
  have henvpMod : (0 + stringsSize apple + stringsSize envp) % 8 = 0 := by
    rw [Nat.add_mod, happleMod, stringsSize_mod]
  obtain ⟨-, hargvSp⟩ := stringWrites_eq htop henvpMod henvpSp argv
  have happleLength := pushStrings_length ⟨memory, top⟩ apple
  have henvpLength := pushStrings_length (pushStrings ⟨memory, top⟩ apple).1 envp
  have hargvLength := pushStrings_length (pushStrings (pushStrings ⟨memory, top⟩ apple).1 envp).1 argv
  have hdepth : 0 + stringsSize apple + stringsSize envp + stringsSize argv =
      stringsSize (apple ++ envp ++ argv) := by
    rw [stringsSize_append, stringsSize_append, Nat.zero_add]
  rw [hdepth] at hargvSp
  have hblock := alignBlock_depth htop hargvSp (totalEntries argv envp apple)
  refine ⟨_, _, _, hargvLength, henvpLength, happleLength, (block_pushed argv.length ?_).words⟩
  rw [hblock, hargvLength, henvpLength, happleLength]
  unfold imageSize at h
  simp only [Bool.false_eq_true, if_false] at h
  have hup : stringsSize (apple ++ envp ++ argv) + blockPad (stringsSize (apple ++ envp ++ argv))
      (totalEntries argv envp apple) = (stringsSize (apple ++ envp ++ argv) + 15) / 16 * 16 +
        8 * (totalEntries argv envp apple % 2) := by
    unfold blockPad
    omega
  rw [hup, toNat_sub_ofNat (by omega)]
  unfold totalEntries at h ⊢
  omega

end Stack

/-- Bytes that were written are there. -/
theorem codeAt_writeBytes {m : Memory} {a : Address} {bytes : List Byte}
    (hfits : a.toNat + bytes.length < 2 ^ 64) : CodeAt (m.writeBytes a bytes) a bytes := by
  induction bytes generalizing m a with
  | nil => rfl
  | cons b rest ih =>
    rw [List.length_cons] at hfits
    have hnext : (a + 1).toNat = a.toNat + 1 := toNat_add_ofNat (n := 1) (by omega)
    have hrest := ih (m := m.writeByte a b) (a := a + 1) (by omega)
    have hfirst : (m.writeByte a b).writeBytes (a + 1) rest a = b := by
      rw [Memory.writeBytes_outside (by omega) (by omega), Memory.writeByte_self]
    unfold CodeAt at hrest ⊢
    rw [List.length_cons, readBytes, Memory.writeBytes, hfirst, hrest]

/-! ### What the instructions do -/

namespace Launch
variable (l : Launch)

/-- The registers that matter, and the memory, at the entry point. -/
structure Ran (s : Cpu) : Prop where
  memory : s.memory = (l.finalStack true).memory.writeByte l.selector filterBlock
  rip : s.rip = l.entryPoint
  rsp : s.reg .rsp = (l.finalStack true).sp
  rdi : s.reg .rdi = s.memory.readWord (s.reg .rsp + 8)
  rsi : s.reg .rsi = s.reg .rsp + 16
  rdx : s.reg .rdx = s.reg .rsp + s.reg .rdi * 8 + 24
  rcx : s.reg .rcx = s.reg .rdx

theorem execute_ran : l.Ran (l.execute true) := by
  constructor <;> simp [execute, execInsns, entryCode, operands, clear, Insn.exec, Op.exec, Cpu.set,
    Cpu.storeByte, Cpu.goto, Cpu.setZf, Function.update]

/-- For LC_UNIXTHREAD the count is where the stack pointer is. -/
theorem execute_unixThread :
    (l.execute false).rip = l.entryPoint ∧ (l.execute false).reg .rsp = l.stack.sp ∧
      (l.execute false).reg .rdi = (l.execute false).memory.readWord l.stack.sp ∧
      (l.execute false).reg .rsi = l.argvAt := by
  refine ⟨?_, ?_, ?_, ?_⟩ <;> simp [execute, execInsns, entryCode, operands, finalStack, argvAt, clear,
    Insn.exec, Op.exec, Cpu.set, Cpu.storeByte, Cpu.goto, Cpu.setZf, Function.update]

/-! ### Where the stack is -/

theorem top_toNat (mapping : Mapping) : mapping.top.toNat = mapping.base.toNat + STACK_SIZE ∧
    mapping.top.toNat % 16 = 0 := by
  have hmask : mapping.top.toNat = (mapping.base + BitVec.ofNat 64 STACK_SIZE).toNat / 16 * 16 :=
    toNat_and_not_mask _ 4
  have haligned := mapping.aligned
  have hfits := mapping.fits
  rw [toNat_add_ofNat hfits] at hmask
  unfold STACK_SIZE at *
  omega

/-- There is a word below the block, and the block is below the top. -/
structure Room : Prop where
  below : l.mapping.base.toNat + 8 ≤ l.stack.sp.toNat
  block : l.stack.sp.toNat + 8 * totalEntries l.argv l.envp l.apple ≤ l.mapping.top.toNat
  aligned : l.stack.sp.toNat % 16 = 0

theorem imageSize_lcMain (argv envp apple : List String) :
    imageSize argv envp apple true = imageSize argv envp apple false + 8 := rfl

variable {l}

theorem Fits.le_top (hfits : l.Fits) : imageSize l.argv l.envp l.apple false ≤ l.mapping.top.toNat := by
  obtain ⟨htop, -⟩ := top_toNat l.mapping
  unfold Fits at hfits
  rw [imageSize_lcMain] at hfits
  omega

theorem Fits.room (hfits : l.Fits) : l.Room := by
  obtain ⟨htop, haligned⟩ := top_toNat l.mapping
  have hle := hfits.le_top
  have hsp : l.stack.sp.toNat = l.mapping.top.toNat - imageSize l.argv l.envp l.apple false := by
    rw [stack, buildStack_sp haligned]
    exact toNat_sub_ofNat hle
  unfold Fits at hfits
  rw [imageSize_lcMain] at hfits
  have hentries : 8 * totalEntries l.argv l.envp l.apple ≤ imageSize l.argv l.envp l.apple false := by
    unfold imageSize
    omega
  have hsize : imageSize l.argv l.envp l.apple false % 16 = 0 := by
    unfold imageSize
    simp only [Bool.false_eq_true, if_false]
    omega
  exact ⟨by omega, by omega, by omega⟩

/-! ### What stays -/

theorem finalStack_sp : (l.finalStack true).sp = l.stack.sp - 8 := rfl

theorem finalStack_memory :
    (l.finalStack true).memory = l.withExit.memory.writeWord (l.stack.sp - 8) l.exitPage := rfl

/-- Nothing that is written after the stack was built is on it, but the return address. -/
theorem Ran.same {s : Cpu} (h : l.Ran s) (hroom : l.Room) :
    l.stack.memory.SameIn s.memory l.stack.sp.toNat l.mapping.top.toNat := by
  obtain ⟨htop, -⟩ := top_toNat l.mapping
  have hbelow := hroom.below
  have hsp : (l.stack.sp - 8).toNat = l.stack.sp.toNat - 8 := toNat_sub_ofNat (n := 8) (by omega)
  intro x hlo hhi
  have hselector : x ≠ l.selector := by
    have hapart := l.selector_apart
    rintro rfl
    omega
  have hword : 8 ≤ (x - (l.stack.sp - 8)).toNat := by bv_omega
  have hexit : exitCode.length = 12 := rfl
  have hpage := l.exitPage_apart
  have hpageFits := l.exitPage_fits
  rw [h.memory, Memory.writeByte_of_ne _ _ hselector, finalStack_memory,
    Memory.writeWord_outside _ _ hword, withExit]
  exact Memory.writeBytes_outside (by omega) (by omega)

/-- The words of the block, and the strings, in the memory of a state. -/
def BlockIn (l : Launch) (m : Memory) (argvPtrs envpPtrs applePtrs : List Word) : Prop :=
  argvPtrs.length = l.argv.length ∧ envpPtrs.length = l.envp.length ∧
    applePtrs.length = l.apple.length ∧
    m.Words l.stack.sp (blockWords l.argv.length argvPtrs envpPtrs applePtrs) ∧
    (l.AllNulFree → List.Forall₂ (fun ptr s => m.CString ptr (asBytes s)) argvPtrs l.argv ∧
      List.Forall₂ (fun ptr s => m.CString ptr (asBytes s)) envpPtrs l.envp ∧
      List.Forall₂ (fun ptr s => m.CString ptr (asBytes s)) applePtrs l.apple)

theorem Ran.words {s : Cpu} (h : l.Ran s) (hroom : l.Room) {argvPtrs envpPtrs applePtrs : List Word}
    (hargv : argvPtrs.length = l.argv.length) (henvp : envpPtrs.length = l.envp.length)
    (happle : applePtrs.length = l.apple.length)
    (hwords : l.stack.memory.Words l.stack.sp (blockWords l.argv.length argvPtrs envpPtrs applePtrs)) :
    s.memory.Words l.stack.sp (blockWords l.argv.length argvPtrs envpPtrs applePtrs) := by
  have hbelow := hroom.below
  have hblock := hroom.block
  obtain ⟨htop, -⟩ := top_toNat l.mapping
  have hlength := blockWords_length l.argv.length argvPtrs envpPtrs applePtrs
  rw [hargv, henvp, happle] at hlength
  unfold totalEntries at hblock
  unfold STACK_SIZE at htop
  refine words_congr hwords (by omega) ?_
  intro x hx
  unfold Within at hx
  apply h.same hroom <;> bv_omega

theorem Ran.blockIn {s : Cpu} (h : l.Ran s) (hfits : l.Fits) :
    ∃ argvPtrs envpPtrs applePtrs, l.BlockIn s.memory argvPtrs envpPtrs applePtrs := by
  have hroom := hfits.room
  obtain ⟨-, haligned⟩ := top_toNat l.mapping
  by_cases hnul : l.AllNulFree
  · obtain ⟨argvPtrs, envpPtrs, applePtrs, argvLo, envpLo, appleLo, hbuilt⟩ :=
      buildStack_built l.memory (fun s hs => hnul s (by simp [hs]))
        (fun s hs => hnul s (by simp [envp, hs])) (fun s hs => hnul s (by simp [apple, hs]))
        (fits_of_imageSize haligned hfits.le_top)
    have hargvRoom := hbuilt.argv.le
    have henvpRoom := hbuilt.envp.le
    have happleRoom := hbuilt.apple.le
    have hblock : l.stack.sp.toNat + 8 * totalEntries l.argv l.envp l.apple ≤ argvLo := hbuilt.room
    have htop := Nat.le_of_lt l.mapping.top.isLt
    have hsame := h.same hroom
    have hargv := hbuilt.argv.congr_in (hsame.mono (by omega) (Nat.le_refl _)) (Nat.le_refl _) (by omega) htop
    have henvp := hbuilt.envp.congr_in (hsame.mono (by omega) (Nat.le_refl _)) (Nat.le_refl _) (by omega) htop
    have happle := hbuilt.apple.congr_in (hsame.mono (by omega) (Nat.le_refl _)) (Nat.le_refl _) (by omega) htop
    exact ⟨argvPtrs, envpPtrs, applePtrs, hargv.length, henvp.length, happle.length,
      h.words hroom hargv.length henvp.length happle.length hbuilt.words,
      fun _ => ⟨hargv.copies, henvp.copies, happle.copies⟩⟩
  · obtain ⟨argvPtrs, envpPtrs, applePtrs, hargv, henvp, happle, hwords⟩ :=
      buildStack_words haligned l.memory hfits.le_top
    exact ⟨argvPtrs, envpPtrs, applePtrs, hargv, henvp, happle, h.words hroom hargv henvp happle hwords,
      fun hall => absurd hall hnul⟩

/-! ### The registers at the entry point -/

section Registers
variable {s : Cpu}

theorem Ran.argvAt (h : l.Ran s) : s.reg .rsi = l.argvAt := by
  rw [h.rsi, h.rsp, finalStack_sp, Launch.argvAt]
  bv_omega

theorem Ran.argc (h : l.Ran s) {argvPtrs envpPtrs applePtrs : List Word} (hroom : l.Room)
    (hblock : l.BlockIn s.memory argvPtrs envpPtrs applePtrs) : (s.reg .rdi).toNat = l.argv.length := by
  obtain ⟨-, -, -, hwords, -⟩ := hblock
  have hat : (l.finalStack true).sp + 8 = l.stack.sp := BitVec.sub_add_cancel l.stack.sp 8
  have hentries := hroom.block
  have htop := l.mapping.top.isLt
  unfold totalEntries at hentries
  rw [h.rdi, h.rsp, hat, hwords.1, BitVec.toNat_ofNat]
  omega

theorem Ran.envpAt (h : l.Ran s) (hargc : (s.reg .rdi).toNat = l.argv.length) :
    s.reg .rdx = l.envpAt := by
  rw [h.rdx, h.rsp, finalStack_sp, Launch.envpAt, Launch.argvAt]
  bv_omega

/-- The last two vectors are in different places. -/
theorem Room.appleAt_ne (hroom : l.Room) : l.appleAt ≠ l.envpAt := by
  have hentries := hroom.block
  have htop := l.mapping.top.isLt
  unfold totalEntries at hentries
  unfold appleAt
  generalize l.envpAt = a
  bv_omega

theorem BlockIn.vectors {m : Memory} {argvPtrs envpPtrs applePtrs : List Word}
    (h : l.BlockIn m argvPtrs envpPtrs applePtrs) :
    l.VectorAt m l.argvAt l.argv ∧ l.VectorAt m l.envpAt l.envp ∧ l.VectorAt m l.appleAt l.apple := by
  obtain ⟨hargv, henvp, happle, hwords, hstrings⟩ := h
  have hvectors := hwords.2
  have hsplit : argvPtrs ++ 0 :: (envpPtrs ++ 0 :: (applePtrs ++ [0])) =
      (argvPtrs ++ [0]) ++ ((envpPtrs ++ [0]) ++ (applePtrs ++ [0])) := by
    simp only [List.append_assoc, List.singleton_append]
  rw [hsplit] at hvectors
  obtain ⟨hargvWords, hbehind⟩ := words_append.mp hvectors
  obtain ⟨henvpWords, happleWords⟩ := words_append.mp hbehind
  simp only [List.length_append, List.length_singleton, hargv, henvp] at henvpWords happleWords
  exact ⟨⟨argvPtrs, hargv, hargvWords, fun hnul => (hstrings hnul).1⟩,
    ⟨envpPtrs, henvp, henvpWords, fun hnul => (hstrings hnul).2.1⟩,
    ⟨applePtrs, happle, happleWords, fun hnul => (hstrings hnul).2.2⟩⟩

theorem Ran.returns (h : l.Ran s) (hroom : l.Room) :
    s.memory.readWord (s.reg .rsp) = l.exitPage := by
  have hbelow := hroom.below
  have hselector := l.selector_apart
  obtain ⟨htop, -⟩ := top_toNat l.mapping
  have hsp := hroom.block
  have hkept : s.memory.readWord (l.stack.sp - 8) = (l.finalStack true).memory.readWord (l.stack.sp - 8) := by
    rw [h.memory]
    apply readWord_within
    intro x hx
    apply Memory.writeByte_of_ne
    rintro rfl
    unfold Within at hx
    bv_omega
  rw [h.rsp, finalStack_sp, hkept, finalStack_memory, Memory.readWord_writeWord]

/-- The exit page is written once. -/
theorem Ran.exits (h : l.Ran s) (hroom : l.Room) : CodeAt s.memory l.exitPage exitCode := by
  have hbelow := hroom.below
  have hblock := hroom.block
  have hpage := l.exitPage_apart
  have hfits := l.exitPage_fits
  have hselector := l.selector_page
  obtain ⟨htop, -⟩ := top_toNat l.mapping
  have hlength : exitCode.length = 12 := rfl
  have hwritten : CodeAt l.withExit.memory l.exitPage exitCode := codeAt_writeBytes (by omega)
  refine hwritten.congr ?_
  intro x hx
  unfold Within at hx
  have hne : x ≠ l.selector := by
    rintro rfl
    bv_omega
  rw [h.memory, Memory.writeByte_of_ne _ _ hne, finalStack_memory]
  apply Memory.writeWord_outside
  bv_omega

theorem Ran.reached (h : l.Ran s) (hfits : l.Fits) : Reached l s := by
  have hroom := hfits.room
  obtain ⟨argvPtrs, envpPtrs, applePtrs, hblock⟩ := h.blockIn hfits
  obtain ⟨hargvVector, henvpVector, happleVector⟩ := hblock.vectors
  have hargc := h.argc hroom hblock
  have haligned : (s.reg .rsp).toNat % 16 = 8 := by
    have hbelow := hroom.below
    have hsp := hroom.aligned
    rw [h.rsp, finalStack_sp]
    bv_omega
  exact ⟨h.rip, hargc, h.argvAt, h.envpAt hargc, hargvVector, henvpVector, happleVector,
    ⟨h.returns hroom, h.exits hroom⟩, haligned⟩

theorem Ran.rcx_envpAt (h : l.Ran s) (hfits : l.Fits) : s.reg .rcx = l.envpAt := by
  rw [h.rcx, (h.reached hfits).envp]

end Registers

/-- **The start of an LC_MAIN binary.** Whenever the image fits on the stack, the entry point is
reached with the count and the addresses of the argument and the environment vectors in their
registers, and with a return address that exits; the fourth register has the address of the
environment again, and that is never the address of the apple vector. -/
theorem apple_not_passed (l : Launch) (hfits : l.Fits) :
    Reached l (l.execute true) ∧ (l.execute true).reg .rcx = l.envpAt ∧
      ¬ Entered l (l.execute true) := by
  have hran := l.execute_ran
  have hrcx := hran.rcx_envpAt hfits
  refine ⟨hran.reached hfits, hrcx, ?_⟩
  intro hentered
  exact hfits.room.appleAt_ne (hentered.apple.symm.trans hrcx)

theorem echo_exitPage_fits : (0x7f2000000000 : Address).toNat + 4096 ≤ 2 ^ 64 := by decide

theorem echo_exitPage_apart :
    (0x7f2000000000 : Address).toNat + 4096 ≤ mapped.base.toNat ∨
      mapped.base.toNat + STACK_SIZE ≤ (0x7f2000000000 : Address).toNat := by decide

theorem echo_selector_apart : (0x7f1000000000 : Address).toNat < mapped.base.toNat ∨
    mapped.base.toNat + STACK_SIZE ≤ (0x7f1000000000 : Address).toNat := by decide

theorem echo_selector_page : (0x7f1000000000 : Address).toNat < (0x7f2000000000 : Address).toNat ∨
    (0x7f2000000000 : Address).toNat + 4096 ≤ (0x7f1000000000 : Address).toNat := by decide

/-- One argument and one variable. -/
def echo : Launch where
  mapping := mapped
  memory := fun _ => 0
  argv := ["echo"]
  binaryPath := "/bin/echo"
  vars := [("A", "b")]
  entryPoint := 0x100003f00
  selector := 0x7f1000000000
  exitPage := 0x7f2000000000
  cpu := ⟨fun _ => 0, fun _ => 0, 0, 0, fun _ => 0⟩
  exitPage_fits := echo_exitPage_fits
  exitPage_apart := echo_exitPage_apart
  selector_apart := echo_selector_apart
  selector_page := echo_selector_page

theorem apple_not_passed_echo : Reached echo (echo.execute true) ∧
    (echo.execute true).reg .rcx = echo.envpAt ∧ ¬ Entered echo (echo.execute true) :=
  apple_not_passed echo (by decide)

/-- It fits, and does not get `executable_path=`. -/
theorem echo_without_apple : echo.Fits ∧ ¬ Entered echo (echo.execute true) := by
  have hfits : echo.Fits := by decide
  refine ⟨hfits, ?_⟩
  intro hentered
  have hrcx := echo.execute_ran.rcx_envpAt hfits
  exact hfits.room.appleAt_ne (hentered.apple.symm.trans hrcx)

end Launch

end Grafted.Loader.ProcessStack
