import Grafted.Base.Descent
import Grafted.Loader.Macho
import Grafted.Loader.ProcessStack

/-! Whether the first stack of a process is written inside its allocation.

`execute` maps `STACK_SIZE` bytes and pushes the strings and the pointers down from the end,
with nothing that compares the stack pointer with the beginning. What is pushed has a size
that depends on the strings alone (`imageSize`). The writes are inside exactly if it is not
larger than the stack (`contained_iff`). -/
namespace Grafted.Loader.ProcessStack
open ByteMemory Descent

/-! ### The source -/

def STACK_SIZE : Nat := 8 * 1024 * 1024

/-- The mapping that the kernel answers. -/
structure Mapping where
  base : Address
  aligned : base.toNat % 4096 = 0
  fits : base.toNat + STACK_SIZE < 2 ^ 64

/-- Base and top. -/
def allocStack (mmap : Except String Mapping) : Except LoaderError (Address × Address) :=
  match mmap with
  | .error e => .error (.mmap ("stack alloc: " ++ e))
  | .ok mapping => .ok (mapping.base, (mapping.base + BitVec.ofNat 64 STACK_SIZE) &&& ~~~0xF)

/-- What pushing strings writes: each with its terminator. -/
def stringWrites (st : Stack) : List String → List (Address × Nat)
  | [] => []
  | s :: rest => ((pushString st s).2, (asBytes s).length + 1) :: stringWrites (pushString st s).1 rest

def wordWrites (st : Stack) : List Word → List (Address × Nat)
  | [] => []
  | w :: rest => ((pushU64 st w).sp, 8) :: wordWrites (pushU64 st w) rest

/-- The words below the strings, in the order they are pushed. -/
def pushedWords (argc : Nat) (argvPtrs envpPtrs applePtrs : List Word) : List Word :=
  0 :: applePtrs.reverse ++ (0 :: envpPtrs.reverse ++ (0 :: argvPtrs.reverse ++ [BitVec.ofNat 64 argc]))

/-- What `build_stack` writes, in order. -/
def buildWrites (memory : Memory) (stackTop : Address) (argv : List String) (binaryPath : String)
    (vars : List (String × String)) : List (Address × Nat) :=
  let envp := envpOf vars
  let apple := appleOf binaryPath
  let (appleSt, applePtrs) := pushStrings ⟨memory, stackTop⟩ apple
  let (envpSt, envpPtrs) := pushStrings appleSt envp
  let (argvSt, argvPtrs) := pushStrings envpSt argv
  let block := alignBlock argvSt (totalEntries argv envp apple)
  stringWrites ⟨memory, stackTop⟩ apple ++ (stringWrites appleSt envp ++ (stringWrites envpSt argv ++
    wordWrites block (pushedWords argv.length argvPtrs envpPtrs applePtrs)))

/-- The stack and its writes. For LC_MAIN a return address is pushed, that of code that exits. -/
def constructStack (mmap : Except String Mapping) (memory : Memory) (argv : List String)
    (binaryPath : String) (vars : List (String × String)) (isLcMain : Bool) (exitAddr : Word) :
    Except LoaderError (Stack × List (Address × Nat)) := do
  let (_, stackTop) ← allocStack mmap
  let st := buildStack memory stackTop argv binaryPath vars
  let writes := buildWrites memory stackTop argv binaryPath vars
  if isLcMain then pure (pushU64 st exitAddr, writes ++ wordWrites st [exitAddr])
  else pure (st, writes)

/-- It fails, or writes in the allocation only. -/
def Contained (mmap : Except String Mapping) (memory : Memory) (argv : List String)
    (binaryPath : String) (vars : List (String × String)) (isLcMain : Bool) (exitAddr : Word) : Prop :=
  ∀ mapping st writes, mmap = .ok mapping →
    constructStack mmap memory argv binaryPath vars isLcMain exitAddr = .ok (st, writes) →
    ∀ w ∈ writes, Inside mapping.base STACK_SIZE w

/-! ### The size -/

/-- A string with its terminator, aligned to 8 bytes. -/
def padded (s : String) : Nat := ((asBytes s).length + 8) / 8 * 8

def stringsSize : List String → Nat
  | [] => 0
  | s :: rest => padded s + stringsSize rest

/-- What aligning the block moves the stack pointer. -/
def blockPad (depth entries : Nat) : Nat := (depth + 15) / 16 * 16 - depth + 8 * (entries % 2)

/-- Strings, block and return address. -/
def imageSize (argv envp apple : List String) (isLcMain : Bool) : Nat :=
  (stringsSize (apple ++ envp ++ argv) + 15) / 16 * 16 +
    8 * (totalEntries argv envp apple + totalEntries argv envp apple % 2) + (if isLcMain then 8 else 0)

/-! ### Nothing else is written -/

/-- No write has the byte. -/
def Missed (writes : List (Address × Nat)) (x : Address) : Prop := ∀ w ∈ writes, w.2 ≤ (x - w.1).toNat

theorem missed_append {writes writes' : List (Address × Nat)} {x : Address} :
    Missed (writes ++ writes') x ↔ Missed writes x ∧ Missed writes' x := List.forall_mem_append

theorem writeBytes_missed {m : Memory} {a x : Address} {bytes : List Byte}
    (h : bytes.length ≤ (x - a).toNat) : m.writeBytes a bytes x = m x := by
  induction bytes generalizing m a with
  | nil => rfl
  | cons b rest ih =>
    rw [List.length_cons] at h
    have hne : x ≠ a := by
      rintro rfl
      simp at h
    rw [Memory.writeBytes, ih (by bv_omega), Memory.writeByte_of_ne _ _ hne]

theorem pushString_missed {st : Stack} {s : String} {x : Address}
    (h : (asBytes s).length + 1 ≤ (x - (pushString st s).2).toNat) :
    (pushString st s).1.memory x = st.memory x := by
  unfold pushString at h ⊢
  dsimp only at h ⊢
  generalize (st.sp - BitVec.ofNat 64 ((asBytes s).length + 1)) &&& ~~~0x7 = sp at h ⊢
  have hne : x ≠ sp + BitVec.ofNat 64 (asBytes s).length := by
    rintro rfl
    bv_omega
  rw [Memory.writeByte_of_ne _ _ hne, writeBytes_missed (by omega)]

theorem pushStrings_missed {st : Stack} {strings : List String} {x : Address}
    (h : Missed (stringWrites st strings) x) : (pushStrings st strings).1.memory x = st.memory x := by
  induction strings generalizing st with
  | nil => rfl
  | cons s rest ih =>
    obtain ⟨hfirst, hrest⟩ := List.forall_mem_cons.mp h
    rw [pushStrings_cons, ih hrest, pushString_missed hfirst]

theorem pushWords_missed {st : Stack} {words : List Word} {x : Address}
    (h : Missed (wordWrites st words) x) : (words.foldl pushU64 st).memory x = st.memory x := by
  induction words generalizing st with
  | nil => rfl
  | cons w rest ih =>
    obtain ⟨hfirst, hrest⟩ := List.forall_mem_cons.mp h
    rw [List.foldl_cons, ih hrest]
    exact Memory.writeWord_outside _ _ hfirst

/-- The block is these words. -/
theorem foldl_pushedWords (st : Stack) (argc : Nat) (argvPtrs envpPtrs applePtrs : List Word) :
    (pushedWords argc argvPtrs envpPtrs applePtrs).foldl pushU64 st =
      pushU64 (pushPointers (pushU64 (pushPointers (pushU64 (pushPointers (pushU64 st 0) applePtrs) 0)
        envpPtrs) 0) argvPtrs) (BitVec.ofNat 64 argc) := by
  simp only [pushedWords, pushPointers, List.cons_append, List.foldl_cons, List.foldl_append,
    List.foldl_nil]

theorem buildStack_missed {memory : Memory} {stackTop : Address} {argv : List String}
    {binaryPath : String} {vars : List (String × String)} {x : Address}
    (h : Missed (buildWrites memory stackTop argv binaryPath vars) x) :
    (buildStack memory stackTop argv binaryPath vars).memory x = memory x := by
  unfold buildWrites at h
  simp only [missed_append] at h
  obtain ⟨happle, henvp, hargv, hwords⟩ := h
  unfold buildStack
  dsimp only
  rw [← foldl_pushedWords, pushWords_missed hwords, alignBlock_memory, pushStrings_missed hargv,
    pushStrings_missed henvp, pushStrings_missed happle]

/-! ### The pushes -/

theorem le_padded (s : String) : (asBytes s).length + 1 ≤ padded s := by
  unfold padded
  omega

theorem padded_le (s : String) : padded s ≤ (asBytes s).length + 1 + 23 := by
  unfold padded
  omega

def stringPush (s : String) : Push := ⟨padded s, (asBytes s).length + 1, Nat.succ_pos _, le_padded s, padded_le s⟩

def wordPush : Push := ⟨8, 8, Nat.succ_pos 7, Nat.le_refl 8, Nat.le_add_right 8 23⟩

theorem blockPad_le (depth entries : Nat) : 8 + blockPad depth entries ≤ 8 + 23 := by
  unfold blockPad
  omega

/-- The first word of the block, with what aligns it. -/
def blockPush (depth entries : Nat) : Push :=
  ⟨8 + blockPad depth entries, 8, Nat.succ_pos 7, Nat.le_add_right 8 _, blockPad_le depth entries⟩

theorem total_stringPush (strings : List String) : total (strings.map stringPush) = stringsSize strings := by
  induction strings with
  | nil => rfl
  | cons s rest ih => rw [List.map_cons, total, stringsSize, ih, stringPush]

theorem total_wordPush (n : Nat) : total (List.replicate n wordPush) = 8 * n := by
  induction n with
  | zero => rfl
  | succ n ih =>
    have hstep : wordPush.step = 8 := rfl
    rw [List.replicate_succ, total, ih, hstep]
    omega

theorem pushStrings_length (st : Stack) (strings : List String) :
    (pushStrings st strings).2.length = strings.length := by
  induction strings generalizing st with
  | nil => rfl
  | cons s rest ih => rw [pushStrings_cons, List.length_cons, List.length_cons, ih]

theorem stringsSize_mod (strings : List String) : stringsSize strings % 8 = 0 := by
  induction strings with
  | nil => rfl
  | cons s rest ih =>
    rw [stringsSize, padded]
    omega

/-- The pushes of an image, with or without the return address. -/
def imagePushes (argv envp apple : List String) (isLcMain : Bool) : List Push :=
  (apple ++ envp ++ argv).map stringPush ++
    (blockPush (stringsSize (apple ++ envp ++ argv)) (totalEntries argv envp apple) ::
      List.replicate (totalEntries argv envp apple - 1 + if isLcMain then 1 else 0) wordPush)

theorem total_imagePushes (argv envp apple : List String) (isLcMain : Bool) :
    total (imagePushes argv envp apple isLcMain) = imageSize argv envp apple isLcMain := by
  have hwords := total_wordPush (totalEntries argv envp apple - 1 + if isLcMain then 1 else 0)
  rw [imagePushes, total_append, total_stringPush, total, hwords]
  unfold blockPush blockPad imageSize totalEntries
  cases isLcMain <;> simp <;> omega

theorem stringsSize_append (strings strings' : List String) :
    stringsSize (strings ++ strings') = stringsSize strings + stringsSize strings' := by
  induction strings with
  | nil => exact (Nat.zero_add _).symm
  | cons s rest ih => rw [List.cons_append, stringsSize, stringsSize, ih, Nat.add_assoc]

section Depth
variable {top : Address} (htop : top.toNat % 16 = 0)
include htop

theorem pushString_sp {st : Stack} {depth : Nat} (hdepth : depth % 8 = 0)
    (hst : st.sp = top - BitVec.ofNat 64 depth) (s : String) :
    (pushString st s).2 = top - BitVec.ofNat 64 (depth + padded s) := by
  have hsp : (pushString st s).2 = (st.sp - BitVec.ofNat 64 ((asBytes s).length + 1)) &&& ~~~0x7 := rfl
  have hmask : ((st.sp - BitVec.ofNat 64 ((asBytes s).length + 1)) &&& ~~~0x7).toNat =
      (st.sp - BitVec.ofNat 64 ((asBytes s).length + 1)).toNat / 8 * 8 := toNat_and_not_mask _ 3
  have hlt := top.isLt
  apply BitVec.eq_of_toNat_eq
  rw [hsp, hmask, hst]
  simp only [BitVec.toNat_sub, BitVec.toNat_ofNat, padded]
  omega

theorem stringWrites_eq {st : Stack} {depth : Nat} (hdepth : depth % 8 = 0)
    (hst : st.sp = top - BitVec.ofNat 64 depth) (strings : List String) :
    stringWrites st strings = writes top depth (strings.map stringPush) ∧
      (pushStrings st strings).1.sp = top - BitVec.ofNat 64 (depth + stringsSize strings) := by
  induction strings generalizing st depth with
  | nil => exact ⟨rfl, hst⟩
  | cons s rest ih =>
    have hfirst : (pushString st s).1.sp = top - BitVec.ofNat 64 (depth + padded s) :=
      pushString_sp htop hdepth hst s
    have hdepth' : (depth + padded s) % 8 = 0 := by
      unfold padded
      omega
    obtain ⟨hwrites, hsp⟩ := ih hdepth' hfirst
    refine ⟨?_, ?_⟩
    · rw [stringWrites, hwrites, pushString_sp htop hdepth hst s]
      rfl
    · rw [pushStrings_cons, hsp, stringsSize, Nat.add_assoc]

omit htop in
theorem wordWrites_eq {st : Stack} {depth : Nat} (hst : st.sp = top - BitVec.ofNat 64 depth)
    (words : List Word) :
    wordWrites st words = writes top depth (List.replicate words.length wordPush) ∧
      (words.foldl pushU64 st).sp = top - BitVec.ofNat 64 (depth + 8 * words.length) := by
  induction words generalizing st depth with
  | nil => exact ⟨rfl, hst⟩
  | cons w rest ih =>
    have hfirst : (pushU64 st w).sp = top - BitVec.ofNat 64 (depth + 8) := by
      show st.sp - 8 = _
      rw [hst]
      bv_omega
    obtain ⟨hwrites, hsp⟩ := ih hfirst
    refine ⟨?_, ?_⟩
    · rw [wordWrites, hwrites, hfirst]
      rfl
    · rw [List.foldl_cons, hsp, List.length_cons]
      congr 2
      omega

theorem alignBlock_depth {st : Stack} {depth : Nat} (hst : st.sp = top - BitVec.ofNat 64 depth)
    (entries : Nat) :
    (alignBlock st entries).sp = top - BitVec.ofNat 64 (depth + blockPad depth entries) := by
  have hmask : (st.sp &&& ~~~0xF).toNat = st.sp.toNat / 16 * 16 := toNat_and_not_mask st.sp 4
  have haligned : st.sp &&& ~~~0xF = top - BitVec.ofNat 64 ((depth + 15) / 16 * 16) := by
    have hlt := top.isLt
    apply BitVec.eq_of_toNat_eq
    rw [hmask, hst]
    simp only [BitVec.toNat_sub, BitVec.toNat_ofNat]
    omega
  unfold alignBlock blockPad
  by_cases hodd : entries % 2 ≠ 0
  · rw [if_pos hodd]
    show (st.sp &&& ~~~0xF) - 8 = _
    rw [haligned]
    have heven : entries % 2 = 1 := by omega
    have hup : depth ≤ (depth + 15) / 16 * 16 := by omega
    rw [heven]
    bv_omega
  · rw [if_neg hodd]
    show st.sp &&& ~~~0xF = _
    rw [haligned]
    congr 2
    omega

/-- The block, from strings that are pushed on. -/
theorem blockWrites_eq {st : Stack} {depth : Nat} (hst : st.sp = top - BitVec.ofNat 64 depth)
    (entries : Nat) (w : Word) (words : List Word) :
    wordWrites (alignBlock st entries) (w :: words) =
        writes top depth (blockPush depth entries :: List.replicate words.length wordPush) ∧
      ((w :: words).foldl pushU64 (alignBlock st entries)).sp =
        top - BitVec.ofNat 64 (depth + total (blockPush depth entries :: List.replicate words.length wordPush)) := by
  have hfirst : (pushU64 (alignBlock st entries) w).sp =
      top - BitVec.ofNat 64 (depth + (blockPush depth entries).step) := by
    show (alignBlock st entries).sp - 8 = _
    rw [alignBlock_depth htop hst, blockPush]
    bv_omega
  obtain ⟨hwrites, hsp⟩ := wordWrites_eq hfirst words
  refine ⟨?_, ?_⟩
  · rw [wordWrites, hwrites, hfirst]
    rfl
  · rw [List.foldl_cons, hsp, total, total_wordPush, Nat.add_assoc]

theorem buildStack_pushes (memory : Memory) (argv : List String) (binaryPath : String)
    (vars : List (String × String)) :
    buildWrites memory top argv binaryPath vars =
        writes top 0 (imagePushes argv (envpOf vars) (appleOf binaryPath) false) ∧
      (buildStack memory top argv binaryPath vars).sp = top -
        BitVec.ofNat 64 (total (imagePushes argv (envpOf vars) (appleOf binaryPath) false)) := by
  unfold buildWrites buildStack imagePushes
  generalize envpOf vars = envp
  generalize appleOf binaryPath = apple
  have hstart : (⟨memory, top⟩ : Stack).sp = top - BitVec.ofNat 64 0 := (BitVec.sub_zero top).symm
  obtain ⟨happle, happleSp⟩ := stringWrites_eq htop (Nat.zero_mod 8) hstart apple
  have happleMod : (0 + stringsSize apple) % 8 = 0 := by
    rw [Nat.zero_add, stringsSize_mod]
  obtain ⟨henvp, henvpSp⟩ := stringWrites_eq htop happleMod happleSp envp
  have henvpMod : (0 + stringsSize apple + stringsSize envp) % 8 = 0 := by
    rw [Nat.add_mod, happleMod, stringsSize_mod]
  obtain ⟨hargv, hargvSp⟩ := stringWrites_eq htop henvpMod henvpSp argv
  have happleLength := pushStrings_length ⟨memory, top⟩ apple
  have henvpLength := pushStrings_length (pushStrings ⟨memory, top⟩ apple).1 envp
  have hargvLength := pushStrings_length (pushStrings (pushStrings ⟨memory, top⟩ apple).1 envp).1 argv
  dsimp only
  rw [← foldl_pushedWords, happle, henvp, hargv]
  generalize pushStrings (pushStrings (pushStrings ⟨memory, top⟩ apple).1 envp).1 argv = argvPushed at *
  generalize pushStrings (pushStrings ⟨memory, top⟩ apple).1 envp = envpPushed at *
  generalize pushStrings ⟨memory, top⟩ apple = applePushed at *
  have hdepth : 0 + stringsSize apple + stringsSize envp + stringsSize argv =
      stringsSize (apple ++ envp ++ argv) := by
    rw [stringsSize_append, stringsSize_append, Nat.zero_add]
  rw [hdepth] at hargvSp
  obtain ⟨hblock, hblockSp⟩ := blockWrites_eq htop hargvSp (totalEntries argv envp apple) 0
    (applePushed.2.reverse ++ (0 :: envpPushed.2.reverse ++ (0 :: argvPushed.2.reverse ++
      [BitVec.ofNat 64 argv.length])))
  have hcount : (applePushed.2.reverse ++ (0 :: envpPushed.2.reverse ++ (0 :: argvPushed.2.reverse ++
      [BitVec.ofNat 64 argv.length]))).length = totalEntries argv envp apple - 1 + 0 := by
    simp only [List.length_append, List.length_reverse, List.length_cons, List.length_nil, happleLength,
      henvpLength, hargvLength, totalEntries]
    omega
  rw [hcount] at hblock hblockSp
  refine ⟨?_, ?_⟩
  · rw [pushedWords, List.cons_append, hblock]
    simp only [List.map_append, writes_append, total_stringPush, List.append_assoc]
    rw [List.append_assoc] at hdepth
    rw [hdepth]
    rfl
  · rw [pushedWords, List.cons_append, hblockSp, total_append, total_stringPush]
    rfl

end Depth

/-! ### The whole stack -/

theorem allocStack_top (mapping : Mapping) :
    allocStack (.ok mapping) = .ok (mapping.base, mapping.base + BitVec.ofNat 64 STACK_SIZE) := by
  have hmask := toNat_and_not_mask (mapping.base + BitVec.ofNat 64 STACK_SIZE) 4
  have haligned := mapping.aligned
  have hfits := mapping.fits
  have htop : (mapping.base + BitVec.ofNat 64 STACK_SIZE) &&& ~~~0xF =
      mapping.base + BitVec.ofNat 64 STACK_SIZE := by
    apply BitVec.eq_of_toNat_eq
    refine hmask.trans ?_
    unfold STACK_SIZE at hfits ⊢
    bv_omega
  rw [allocStack, htop]

theorem imagePushes_lcMain (argv envp apple : List String) :
    imagePushes argv envp apple true = imagePushes argv envp apple false ++ [wordPush] := by
  have hcount : List.replicate (totalEntries argv envp apple - 1 + 1) wordPush =
      List.replicate (totalEntries argv envp apple - 1 + 0) wordPush ++ [wordPush] := List.replicate_succ'
  simp only [imagePushes, if_true, Bool.false_eq_true, if_false]
  rw [hcount, ← List.cons_append, ← List.append_assoc]

/-- What is written, down from the end of the mapping. -/
theorem constructStack_writes (mapping : Mapping) (memory : Memory) (argv : List String)
    (binaryPath : String) (vars : List (String × String)) (isLcMain : Bool) (exitAddr : Word) :
    ∃ st, constructStack (.ok mapping) memory argv binaryPath vars isLcMain exitAddr =
      .ok (st, writes (mapping.base + BitVec.ofNat 64 STACK_SIZE) 0
        (imagePushes argv (envpOf vars) (appleOf binaryPath) isLcMain)) := by
  have htop : (mapping.base + BitVec.ofNat 64 STACK_SIZE).toNat % 16 = 0 := by
    have haligned := mapping.aligned
    have hfits := mapping.fits
    unfold STACK_SIZE at hfits ⊢
    bv_omega
  obtain ⟨hwrites, hsp⟩ := buildStack_pushes htop memory argv binaryPath vars
  generalize hst : buildStack memory (mapping.base + BitVec.ofNat 64 STACK_SIZE) argv binaryPath vars = st
    at hsp
  have hrun : constructStack (.ok mapping) memory argv binaryPath vars isLcMain exitAddr =
      if isLcMain then .ok (pushU64 st exitAddr,
        buildWrites memory (mapping.base + BitVec.ofNat 64 STACK_SIZE) argv binaryPath vars ++
          wordWrites st [exitAddr])
      else .ok (st,
        buildWrites memory (mapping.base + BitVec.ofNat 64 STACK_SIZE) argv binaryPath vars) := by
    rw [constructStack, allocStack_top, ← hst]
    rfl
  rw [hrun, hwrites]
  cases isLcMain with
  | false => exact ⟨st, rfl⟩
  | true =>
    refine ⟨pushU64 st exitAddr, ?_⟩
    rw [(wordWrites_eq hsp [exitAddr]).1, imagePushes_lcMain, writes_append, Nat.zero_add]
    rfl

/-- A byte that is not among the writes is as it was. -/
theorem constructStack_missed {mmap : Except String Mapping} {memory : Memory} {argv : List String}
    {binaryPath : String} {vars : List (String × String)} {isLcMain : Bool} {exitAddr : Word}
    {st : Stack} {written : List (Address × Nat)}
    (h : constructStack mmap memory argv binaryPath vars isLcMain exitAddr = .ok (st, written))
    {x : Address} (hx : Missed written x) : st.memory x = memory x := by
  cases mmap with
  | error e => cases h
  | ok mapping =>
    rw [constructStack, allocStack_top] at h
    cases isLcMain with
    | false =>
      cases h
      exact buildStack_missed hx
    | true =>
      cases h
      obtain ⟨hbuilt, hpushed⟩ := missed_append.mp hx
      exact (pushWords_missed hpushed).trans (buildStack_missed hbuilt)

/-- **The stack is written inside its allocation** exactly if it cannot be allocated, or the image is
not larger than it is. -/
theorem contained_iff (mmap : Except String Mapping) (memory : Memory) (argv : List String)
    (binaryPath : String) (vars : List (String × String)) (isLcMain : Bool) (exitAddr : Word) :
    Contained mmap memory argv binaryPath vars isLcMain exitAddr ↔
      (∃ e, mmap = .error e) ∨
        imageSize argv (envpOf vars) (appleOf binaryPath) isLcMain ≤ STACK_SIZE := by
  cases mmap with
  | error e =>
    refine iff_of_true ?_ (.inl ⟨e, rfl⟩)
    intro mapping st writes hmmap
    cases hmmap
  | ok mapping =>
    obtain ⟨st, hrun⟩ := constructStack_writes mapping memory argv binaryPath vars isLcMain exitAddr
    have hinside := inside_iff mapping.fits (by decide) (Nat.zero_le STACK_SIZE)
      (imagePushes argv (envpOf vars) (appleOf binaryPath) isLcMain)
    rw [total_imagePushes, Nat.zero_add] at hinside
    rw [← hinside]
    constructor
    · intro h
      exact .inr (h mapping st _ rfl hrun)
    · intro h mapping' st' writes hmapping hrun'
      cases hmapping
      cases hrun.symm.trans hrun'
      obtain ⟨e, he⟩ | h := h
      · cases he
      · exact h

theorem mapped_aligned : (0x7f0000000000 : Address).toNat % 4096 = 0 := by decide

theorem mapped_fits : (0x7f0000000000 : Address).toNat + STACK_SIZE < 2 ^ 64 := by decide

def mapped : Mapping := ⟨0x7f0000000000, mapped_aligned, mapped_fits⟩

theorem stringsSize_replicate (n : Nat) : stringsSize (List.replicate n "") = n * 8 := by
  induction n with
  | zero => rfl
  | succ n ih =>
    have hempty : padded "" = 8 := rfl
    rw [List.replicate_succ, stringsSize, ih, hempty]
    omega

/-- Empty arguments, 2^19 of them. -/
theorem empty_arguments_outside : ¬ Contained (.ok mapped) (fun _ => 0) (List.replicate (2 ^ 19) "") "a.out"
    [] true 0x7f1000000000 := by
  intro h
  obtain ⟨st, hrun⟩ := constructStack_writes mapped (fun _ => 0) (List.replicate (2 ^ 19) "") "a.out" []
    true 0x7f1000000000
  have hinside := (inside_iff mapped.fits (by decide) (Nat.zero_le STACK_SIZE) _).mp (h mapped st _ rfl hrun)
  have hstrings := stringsSize_append (appleOf "a.out" ++ envpOf []) (List.replicate (2 ^ 19) "")
  rw [stringsSize_replicate] at hstrings
  rw [total_imagePushes, imageSize, hstrings, totalEntries, List.length_replicate, STACK_SIZE] at hinside
  omega

end Grafted.Loader.ProcessStack
