import Grafted.Base.CStrings

/-! The stack a Darwin process starts on.

The strings come first, from the top down, and below them one block of `argc` and the
pointers (`buildStack`). A push writes only below the stack pointer it finds (`Extends`), so
what was pushed stays. When the image fits below the top (`Fits`) it is what a process
expects, and reading it from the stack pointer gives the three lists of strings
(`buildStack_image`). -/
namespace Grafted.Loader.ProcessStack
open ByteMemory

/-- The bytes of a string. -/
def asBytes (s : String) : List Byte := s.toUTF8.data.toList.map UInt8.toBitVec

theorem asBytes_append (s t : String) : asBytes (s ++ t) = asBytes s ++ asBytes t := by
  simp only [asBytes, String.toUTF8_eq_toByteArray, String.toByteArray_append,
    ByteArray.toList_data_append, List.map_append]

/-- No zero byte among them. -/
def NulFree (s : String) : Prop := 0 ∉ asBytes s

instance (s : String) : Decidable (NulFree s) := inferInstanceAs (Decidable (0 ∉ asBytes s))

theorem nulFree_append {s t : String} (hs : NulFree s) (ht : NulFree t) : NulFree (s ++ t) := by
  unfold NulFree
  rw [asBytes_append, List.mem_append]
  exact not_or.mpr ⟨hs, ht⟩

structure Stack where
  memory : Memory
  sp : Address

/-- The string and its terminator, aligned to 8 bytes; answers where it is. -/
def pushString (st : Stack) (s : String) : Stack × Word :=
  let bytes := asBytes s
  let len := bytes.length + 1
  let sp := (st.sp - BitVec.ofNat 64 len) &&& ~~~0x7
  (⟨(st.memory.writeBytes sp bytes).writeByte (sp + BitVec.ofNat 64 bytes.length) 0, sp⟩, sp)

def pushStrings (st : Stack) : List String → Stack × List Word
  | [] => (st, [])
  | s :: rest =>
    let (st, ptr) := pushString st s
    let (st, ptrs) := pushStrings st rest
    (st, ptr :: ptrs)

def pushU64 (st : Stack) (val : Word) : Stack := ⟨st.memory.writeWord (st.sp - 8) val, st.sp - 8⟩

/-- The loop over the pointers, last to first. -/
def pushPointers (st : Stack) (ptrs : List Word) : Stack := ptrs.reverse.foldl pushU64 st

/-- What the host's environment is to the process. -/
def envpOf (vars : List (String × String)) : List String := vars.map fun (k, v) => k ++ "=" ++ v

/-- Darwin-specific metadata. -/
def appleOf (binaryPath : String) : List String := ["executable_path=" ++ binaryPath]

def totalEntries (argv envp apple : List String) : Nat :=
  1 + (argv.length + 1) + (envp.length + 1) + (apple.length + 1)

/-- Aligned to 16 bytes, with padding where the number of entries is odd. -/
def alignBlock (st : Stack) (entries : Nat) : Stack :=
  let st : Stack := {st with sp := st.sp &&& ~~~0xF}
  if entries % 2 ≠ 0 then {st with sp := st.sp - 8} else st

/-- The memory and the address of `argc`. The host's variables are an argument. -/
def buildStack (memory : Memory) (stackTop : Address) (argv : List String) (binaryPath : String)
    (vars : List (String × String)) : Stack :=
  let envp := envpOf vars
  let apple := appleOf binaryPath
  let (st, applePtrs) := pushStrings ⟨memory, stackTop⟩ apple
  let (st, envpPtrs) := pushStrings st envp
  let (st, argvPtrs) := pushStrings st argv
  let st := alignBlock st (totalEntries argv envp apple)
  let st := pushPointers (pushU64 st 0) applePtrs
  let st := pushPointers (pushU64 st 0) envpPtrs
  let st := pushPointers (pushU64 st 0) argvPtrs
  pushU64 st (BitVec.ofNat 64 argv.length)

/-! ### Fitting below the top -/

/-- Where the string goes, on numbers without a bound. -/
def below (sp : Int) (s : String) : Int := (sp - ((asBytes s).length + 1)) / 8 * 8

/-- The image ends at an address. -/
def Fits (stackTop : Address) (argv envp apple : List String) : Prop :=
  0 ≤ (apple ++ envp ++ argv).foldl below stackTop.toNat / 16 * 16 -
    8 * (totalEntries argv envp apple + totalEntries argv envp apple % 2 : Nat)

theorem below_le (sp : Int) (s : String) : below sp s + (asBytes s).length < sp := by
  unfold below
  omega

theorem foldl_below_le (sp : Int) (strings : List String) : strings.foldl below sp ≤ sp := by
  induction strings generalizing sp with
  | nil => exact Int.le_refl sp
  | cons s rest ih =>
    have hfirst := below_le sp s
    have hrest := ih (below sp s)
    rw [List.foldl_cons]
    omega

/-- Room for each string with its terminator and 7 bytes of alignment. -/
def roomFor : List String → Nat
  | [] => 0
  | s :: rest => (asBytes s).length + 8 + roomFor rest

theorem le_foldl_below (sp : Int) (strings : List String) :
    sp - roomFor strings ≤ strings.foldl below sp := by
  induction strings generalizing sp with
  | nil => exact Int.sub_le_self sp (Int.le_refl 0)
  | cons s rest ih =>
    have hrest := ih (below sp s)
    have hfirst : sp - ((asBytes s).length + 8) ≤ below sp s := by
      unfold below
      omega
    rw [List.foldl_cons, roomFor]
    omega

/-- Room for the strings, for the words with one of padding, and for aligning to 16 bytes
is enough. -/
theorem fits_of_size {stackTop : Address} {argv envp apple : List String}
    (h : roomFor (apple ++ envp ++ argv) + 8 * (totalEntries argv envp apple + 1) + 15 ≤
      stackTop.toNat) :
    Fits stackTop argv envp apple := by
  have hlow := le_foldl_below stackTop.toNat (apple ++ envp ++ argv)
  unfold Fits
  omega

/-! ### Pushes -/

/-- The stack grew down, and what was on it stayed. -/
structure Extends (st st' : Stack) : Prop where
  sp : st'.sp.toNat ≤ st.sp.toNat
  memory : st.memory.SameFrom st'.memory st.sp.toNat

theorem Extends.refl (st : Stack) : Extends st st := ⟨Nat.le_refl _, .refl _ _⟩

theorem Extends.trans {st st' st'' : Stack} (h : Extends st st') (h' : Extends st' st'') :
    Extends st st'' := ⟨Nat.le_trans h'.sp h.sp, h.memory.trans h'.memory h.sp⟩

/-- The string is below the old stack pointer. -/
structure Pushed (st : Stack) (s : String) (st' : Stack) (ptr : Word) : Prop where
  extending : Extends st st'
  pointer : ptr = st'.sp
  sp : (st'.sp.toNat : Int) = below st.sp.toNat s
  string : st'.memory.CString st'.sp (asBytes s)

theorem pushString_pushed {st : Stack} {s : String} (hnul : NulFree s)
    (hfits : 0 ≤ below st.sp.toNat s) :
    Pushed st s (pushString st s).1 (pushString st s).2 := by
  have hbelow := below_le st.sp.toNat s
  have hsub : (st.sp - BitVec.ofNat 64 ((asBytes s).length + 1)).toNat =
      st.sp.toNat - ((asBytes s).length + 1) := toNat_sub_ofNat (by omega)
  have hdown : (pushString st s).1.sp.toNat = (st.sp.toNat - ((asBytes s).length + 1)) / 8 * 8 := by
    rw [← hsub]
    exact toNat_and_not_mask _ 3
  have hsp : ((pushString st s).1.sp.toNat : Int) = below st.sp.toNat s := by
    rw [hdown, below]
    omega
  have hroom : (pushString st s).1.sp.toNat + (asBytes s).length < st.sp.toNat := by omega
  have hfit : (pushString st s).1.sp.toNat + (asBytes s).length < 2 ^ 64 :=
    Nat.lt_trans hroom st.sp.isLt
  refine ⟨⟨by omega, fun x hx => ?_⟩, rfl, hsp, Memory.cString_written st.memory hnul hfit⟩
  have hne : x ≠ (pushString st s).1.sp + BitVec.ofNat 64 (asBytes s).length := by
    intro heq
    rw [heq, toNat_add_ofNat hfit] at hx
    omega
  exact (Memory.writeByte_of_ne _ 0 hne).trans
    (Memory.writeBytes_outside hfit (.inr (Nat.le_of_lt (Nat.lt_of_lt_of_le hroom hx))))

/-- Strings one below the other, between `lo` and `hi`. -/
inductive Placed (m : Memory) (lo : Nat) : Nat → List Word → List String → Prop where
  | nil {hi : Nat} (hle : lo ≤ hi) : Placed m lo hi [] []
  | cons {hi : Nat} {ptr : Word} {ptrs : List Word} {s : String} {rest : List String}
      (hroom : ptr.toNat + (asBytes s).length < hi) (hstring : m.CString ptr (asBytes s))
      (hrest : Placed m lo ptr.toNat ptrs rest) : Placed m lo hi (ptr :: ptrs) (s :: rest)

section Placed
variable {m : Memory} {lo hi : Nat} {ptrs : List Word} {strings : List String}

theorem Placed.le (h : Placed m lo hi ptrs strings) : lo ≤ hi := by
  induction h with
  | nil hle => exact hle
  | cons hroom _ _ ih => omega

theorem Placed.length (h : Placed m lo hi ptrs strings) : ptrs.length = strings.length := by
  induction h with
  | nil _ => rfl
  | cons _ _ _ ih => exact congrArg (· + 1) ih

theorem Placed.raise {hi' : Nat} (h : Placed m lo hi ptrs strings) (hle : hi ≤ hi') :
    Placed m lo hi' ptrs strings := by
  cases h with
  | nil hlo => exact .nil (Nat.le_trans hlo hle)
  | cons hroom hstring hrest => exact .cons (Nat.lt_of_lt_of_le hroom hle) hstring hrest

/-- Only memory from `lo` to the top matters. -/
theorem Placed.congr_in {m' : Memory} {lo' top : Nat} (h : Placed m lo hi ptrs strings)
    (hsame : m.SameIn m' lo top) (hlo : lo' ≤ lo) (hhi : hi ≤ top) (htop : top ≤ 2 ^ 64) :
    Placed m' lo' hi ptrs strings := by
  induction h with
  | nil hle => exact .nil (Nat.le_trans hlo hle)
  | cons hroom hstring hrest ih =>
    have hstays := hstring.congr_in hsame hrest.le (Nat.lt_of_lt_of_le hroom hhi) htop
    exact .cons hroom hstays (ih (by omega))

theorem Placed.congr {m' : Memory} {lo' : Nat} (h : Placed m lo hi ptrs strings)
    (hsame : m.SameFrom m' lo) (hlo : lo' ≤ lo) (hhi : hi < 2 ^ 64) : Placed m' lo' hi ptrs strings :=
  h.congr_in (hsame.sameIn (2 ^ 64)) hlo (Nat.le_of_lt hhi) (Nat.le_refl _)

theorem Placed.append {mid : Nat} {ptrs' : List Word} {strings' : List String}
    (h : Placed m mid hi ptrs strings) (h' : Placed m lo mid ptrs' strings') :
    Placed m lo hi (ptrs ++ ptrs') (strings ++ strings') := by
  induction h with
  | nil hle => exact h'.raise hle
  | cons hroom hstring _ ih => exact .cons hroom hstring ih

theorem Placed.nonnull (h : Placed m lo hi ptrs strings) (hlo : 0 < lo) : 0 ∉ ptrs := by
  induction h with
  | nil _ => exact List.not_mem_nil
  | @cons _ ptr _ _ _ _ _ hrest ih =>
    have hptr : ptr ≠ 0 := by
      intro hzero
      have hle := hrest.le
      rw [hzero] at hle
      exact Nat.not_lt.mpr hle hlo
    exact List.not_mem_cons_of_ne_of_not_mem (Ne.symm hptr) ih

/-- Reading the strings at the pointers. -/
theorem Placed.read {n : Nat} (h : Placed m lo hi ptrs strings) (hn : hi ≤ n) :
    ptrs.mapM (m.readCString n) = some (strings.map asBytes) := by
  induction h with
  | nil _ => rfl
  | cons hroom hstring _ ih =>
    rw [List.mapM_cons, Memory.readCString_eq hstring (by omega), ih (by omega)]
    rfl

theorem Placed.copies (h : Placed m lo hi ptrs strings) :
    List.Forall₂ (fun ptr s => m.CString ptr (asBytes s)) ptrs strings := by
  induction h with
  | nil _ => exact .nil
  | cons _ hstring _ ih => exact .cons hstring ih

/-- Where each string is, with its terminator: from the first to before the second. -/
def ranges (ptrs : List Word) (strings : List String) : List (Nat × Nat) :=
  List.zipWith (fun ptr s => (ptr.toNat, ptr.toNat + (asBytes s).length + 1)) ptrs strings

theorem Placed.within (h : Placed m lo hi ptrs strings) :
    ∀ r ∈ ranges ptrs strings, lo ≤ r.1 ∧ r.2 ≤ hi := by
  induction h with
  | nil _ => exact fun r hr => nomatch hr
  | cons hroom _ hrest ih =>
    intro r hr
    cases hr with
    | head => exact ⟨hrest.le, hroom⟩
    | tail _ hr =>
      have hlater := ih r hr
      omega

def NoOverlap (r r' : Nat × Nat) : Prop := r.2 ≤ r'.1 ∨ r'.2 ≤ r.1

theorem Placed.apart (h : Placed m lo hi ptrs strings) : (ranges ptrs strings).Pairwise NoOverlap := by
  induction h with
  | nil _ => exact .nil
  | cons _ _ hrest ih => exact .cons (fun r hr => .inr (hrest.within r hr).2) ih

end Placed

theorem pushStrings_cons (st : Stack) (s : String) (rest : List String) :
    pushStrings st (s :: rest) = ((pushStrings (pushString st s).1 rest).1,
      (pushString st s).2 :: (pushStrings (pushString st s).1 rest).2) := rfl

/-- Each string goes below the one before it. -/
theorem pushStrings_placed (st : Stack) {strings : List String} (hnul : ∀ s ∈ strings, NulFree s)
    (hfits : 0 ≤ strings.foldl below st.sp.toNat) :
    Extends st (pushStrings st strings).1 ∧
      ((pushStrings st strings).1.sp.toNat : Int) = strings.foldl below st.sp.toNat ∧
      Placed (pushStrings st strings).1.memory (pushStrings st strings).1.sp.toNat st.sp.toNat
        (pushStrings st strings).2 strings := by
  induction strings generalizing st with
  | nil => exact ⟨.refl st, rfl, .nil (Nat.le_refl _)⟩
  | cons s rest ih =>
    rw [List.foldl_cons] at hfits ⊢
    have hfirst : 0 ≤ below st.sp.toNat s := Int.le_trans hfits (foldl_below_le _ rest)
    obtain ⟨hext, hptr, hsp, hstring⟩ := pushString_pushed (hnul s List.mem_cons_self) hfirst
    rw [← hsp] at hfits ⊢
    obtain ⟨hext', hsp', hplaced⟩ := ih _ (fun t ht => hnul t (List.mem_cons_of_mem s ht)) hfits
    have hroom := below_le st.sp.toNat s
    have hstays := hstring.congr hext'.memory (Nat.le_refl _) (by omega)
    rw [pushStrings_cons, hptr]
    exact ⟨hext.trans hext', hsp', .cons (by omega) hstays hplaced⟩

/-! ### The pointer block -/

/-- From one stack to the other the words were pushed, the first of them last. -/
structure Block (st st' : Stack) (words : List Word) : Prop where
  extending : Extends st st'
  sp : st'.sp.toNat + 8 * words.length = st.sp.toNat
  words : st'.memory.Words st'.sp words

theorem Block.nil (st : Stack) : Block st st [] := ⟨.refl st, rfl, trivial⟩

theorem Block.push {st st' : Stack} {words : List Word} (h : Block st st' words) (w : Word)
    (hroom : 8 * (words.length + 1) ≤ st.sp.toNat) : Block st (pushU64 st' w) (w :: words) := by
  obtain ⟨hext, hsp, hwords⟩ := h
  have htop := st.sp.isLt
  have hdown : (st'.sp - 8).toNat = st'.sp.toNat - 8 := toNat_sub_ofNat (n := 8) (by omega)
  have hkeep : st'.memory.SameFrom (pushU64 st' w).memory st'.sp.toNat := by
    intro x hx
    apply Memory.writeWord_outside st'.memory w
    have hlt := x.isLt
    have hsub : (x - (st'.sp - 8)).toNat = x.toNat - (st'.sp.toNat - 8) := by
      rw [← hdown]
      exact BitVec.toNat_sub_of_le (by rw [BitVec.le_def]; omega)
    omega
  have hup : (pushU64 st' w).sp + 8 = st'.sp := BitVec.sub_add_cancel st'.sp 8
  refine ⟨hext.trans ⟨Nat.le_trans (Nat.le_of_eq hdown) (Nat.sub_le _ 8), hkeep⟩, ?_,
    Memory.readWord_writeWord _ _ w, ?_⟩
  · show (st'.sp - 8).toNat + 8 * (words.length + 1) = st.sp.toNat
    omega
  · rw [hup]
    exact hwords.congr hkeep (Nat.le_refl _) (by omega)

/-- A null goes first, and then the pointers from the last to the first. -/
theorem Block.pointers {st st' : Stack} {words : List Word} (h : Block st st' words)
    (ptrs : List Word) (hroom : 8 * (ptrs.length + words.length + 1) ≤ st.sp.toNat) :
    Block st (pushPointers (pushU64 st' 0) ptrs) (ptrs ++ 0 :: words) := by
  rw [pushPointers, List.foldl_reverse]
  induction ptrs with
  | nil => exact h.push 0 (by simpa using hroom)
  | cons ptr rest ih =>
    rw [List.length_cons] at hroom
    apply (ih (by omega)).push ptr
    rw [List.length_append, List.length_cons]
    omega

theorem alignBlock_sp (st : Stack) (entries : Nat)
    (hroom : 8 * (entries % 2) ≤ st.sp.toNat / 16 * 16) :
    (alignBlock st entries).sp.toNat = st.sp.toNat / 16 * 16 - 8 * (entries % 2) := by
  have hmask : (st.sp &&& ~~~0xF).toNat = st.sp.toNat / 16 * 16 := toNat_and_not_mask st.sp 4
  unfold alignBlock
  by_cases hodd : entries % 2 ≠ 0
  · have hdown : ((st.sp &&& ~~~0xF) - 8).toNat = (st.sp &&& ~~~0xF).toNat - 8 :=
      toNat_sub_ofNat (n := 8) (by omega)
    rw [if_pos hodd]
    show ((st.sp &&& ~~~0xF) - 8).toNat = _
    omega
  · rw [if_neg hodd]
    show (st.sp &&& ~~~0xF).toNat = _
    omega

theorem alignBlock_memory (st : Stack) (entries : Nat) :
    (alignBlock st entries).memory = st.memory := by
  unfold alignBlock
  split_ifs <;> rfl

/-! ### The image -/

/-- The words from the stack pointer on. -/
def blockWords (argc : Nat) (argvPtrs envpPtrs applePtrs : List Word) : List Word :=
  BitVec.ofNat 64 argc :: (argvPtrs ++ 0 :: (envpPtrs ++ 0 :: (applePtrs ++ [0])))

theorem blockWords_length (argc : Nat) (argvPtrs envpPtrs applePtrs : List Word) :
    (blockWords argc argvPtrs envpPtrs applePtrs).length =
      1 + (argvPtrs.length + 1) + (envpPtrs.length + 1) + (applePtrs.length + 1) := by
  simp only [blockWords, List.length_cons, List.length_append, List.length_nil]
  omega

theorem block_pushed {st : Stack} (argc : Nat) {argvPtrs envpPtrs applePtrs : List Word}
    (hroom : 8 * (1 + (argvPtrs.length + 1) + (envpPtrs.length + 1) + (applePtrs.length + 1)) ≤
      st.sp.toNat) :
    Block st (pushU64 (pushPointers (pushU64 (pushPointers (pushU64 (pushPointers (pushU64 st 0)
      applePtrs) 0) envpPtrs) 0) argvPtrs) (BitVec.ofNat 64 argc))
      (blockWords argc argvPtrs envpPtrs applePtrs) := by
  have happle := (Block.nil st).pointers applePtrs (by rw [List.length_nil]; omega)
  have henvp := happle.pointers envpPtrs (by
    simp only [List.length_append, List.length_cons, List.length_nil]
    omega)
  have hargv := henvp.pointers argvPtrs (by
    simp only [List.length_append, List.length_cons, List.length_nil]
    omega)
  apply hargv.push (BitVec.ofNat 64 argc)
  simp only [List.length_append, List.length_cons, List.length_nil]
  omega

/-- How the strings and the block lie: each list of strings below the one before it. -/
structure Built (m : Memory) (sp : Address) (argv envp apple : List String)
    (argvPtrs envpPtrs applePtrs : List Word) (argvLo envpLo appleLo top : Nat) : Prop where
  aligned : sp.toNat % 16 = 0
  words : m.Words sp (blockWords argv.length argvPtrs envpPtrs applePtrs)
  room : sp.toNat + 8 * totalEntries argv envp apple ≤ argvLo
  argv : Placed m argvLo envpLo argvPtrs argv
  envp : Placed m envpLo appleLo envpPtrs envp
  apple : Placed m appleLo top applePtrs apple

/-- The block goes below strings that lie so already. -/
theorem built_of_placed {appleSt envpSt argvSt : Stack} {argv envp apple : List String}
    {argvPtrs envpPtrs applePtrs : List Word} {stackTop : Address}
    (happle : Placed appleSt.memory appleSt.sp.toNat stackTop.toNat applePtrs apple)
    (henvpExt : Extends appleSt envpSt)
    (henvp : Placed envpSt.memory envpSt.sp.toNat appleSt.sp.toNat envpPtrs envp)
    (hargvExt : Extends envpSt argvSt)
    (hargv : Placed argvSt.memory argvSt.sp.toNat envpSt.sp.toNat argvPtrs argv)
    (hroom : 8 * (totalEntries argv envp apple + totalEntries argv envp apple % 2) ≤
      argvSt.sp.toNat / 16 * 16) {st : Stack}
    (hst : st = pushU64 (pushPointers (pushU64 (pushPointers (pushU64 (pushPointers (pushU64
      (alignBlock argvSt (totalEntries argv envp apple)) 0) applePtrs) 0) envpPtrs) 0) argvPtrs)
      (BitVec.ofNat 64 argv.length)) :
    Built st.memory st.sp argv envp apple argvPtrs envpPtrs applePtrs argvSt.sp.toNat
      envpSt.sp.toNat appleSt.sp.toNat stackTop.toNat := by
  have hentries : totalEntries argv envp apple =
      1 + (argvPtrs.length + 1) + (envpPtrs.length + 1) + (applePtrs.length + 1) := by
    rw [totalEntries, hargv.length, henvp.length, happle.length]
  have hsp := alignBlock_sp argvSt (totalEntries argv envp apple) (by omega)
  have hbelow : 8 * (1 + (argvPtrs.length + 1) + (envpPtrs.length + 1) + (applePtrs.length + 1)) ≤
      (alignBlock argvSt (totalEntries argv envp apple)).sp.toNat := by omega
  have hblock := block_pushed argv.length hbelow
  rw [← hst] at hblock
  have hsize := hblock.sp
  rw [blockWords_length, ← hentries] at hsize
  have hkeep := hblock.extending.memory
  rw [alignBlock_memory] at hkeep
  have hstays : argvSt.memory.SameFrom st.memory argvSt.sp.toNat := hkeep.mono (by omega)
  have henvpStays := hargvExt.memory.trans hstays hargvExt.sp
  have happleStays := henvpExt.memory.trans henvpStays henvpExt.sp
  exact {
    aligned := by omega
    words := hblock.words
    room := by omega
    argv := hargv.congr hstays (Nat.le_refl _) envpSt.sp.isLt
    envp := henvp.congr henvpStays (Nat.le_refl _) appleSt.sp.isLt
    apple := happle.congr happleStays (Nat.le_refl _) stackTop.isLt }

theorem buildStack_built (memory : Memory) {stackTop : Address} {argv : List String}
    {binaryPath : String} {vars : List (String × String)}
    (hargv : ∀ s ∈ argv, NulFree s) (henvp : ∀ s ∈ envpOf vars, NulFree s)
    (happle : ∀ s ∈ appleOf binaryPath, NulFree s)
    (hfits : Fits stackTop argv (envpOf vars) (appleOf binaryPath)) :
    ∃ argvPtrs envpPtrs applePtrs argvLo envpLo appleLo,
      Built (buildStack memory stackTop argv binaryPath vars).memory
        (buildStack memory stackTop argv binaryPath vars).sp argv (envpOf vars)
        (appleOf binaryPath) argvPtrs envpPtrs applePtrs argvLo envpLo appleLo stackTop.toNat := by
  unfold Fits at hfits
  rw [List.foldl_append, List.foldl_append] at hfits
  unfold buildStack
  generalize envpOf vars = envp at *
  generalize appleOf binaryPath = apple at *
  -- no string goes below the lowest one
  have henvpLe := foldl_below_le (apple.foldl below stackTop.toNat) envp
  have hargvLe := foldl_below_le (envp.foldl below (apple.foldl below stackTop.toNat)) argv
  have happleFits : 0 ≤ apple.foldl below stackTop.toNat := by omega
  have henvpFits : 0 ≤ envp.foldl below (apple.foldl below stackTop.toNat) := by omega
  have hargvFits : 0 ≤ argv.foldl below (envp.foldl below (apple.foldl below stackTop.toNat)) := by
    omega
  obtain ⟨-, happleSp, happlePlaced⟩ := pushStrings_placed ⟨memory, stackTop⟩ happle happleFits
  dsimp only at happleSp happlePlaced ⊢
  generalize pushStrings ⟨memory, stackTop⟩ apple = pushed at *
  obtain ⟨appleSt, applePtrs⟩ := pushed
  dsimp only at happleSp happlePlaced ⊢
  rw [← happleSp] at henvpFits hargvFits hfits
  obtain ⟨henvpExt, henvpSp, henvpPlaced⟩ := pushStrings_placed appleSt henvp henvpFits
  generalize pushStrings appleSt envp = pushed at *
  obtain ⟨envpSt, envpPtrs⟩ := pushed
  dsimp only at henvpExt henvpSp henvpPlaced ⊢
  rw [← henvpSp] at hargvFits hfits
  obtain ⟨hargvExt, hargvSp, hargvPlaced⟩ := pushStrings_placed envpSt hargv hargvFits
  generalize pushStrings envpSt argv = pushed at *
  obtain ⟨argvSt, argvPtrs⟩ := pushed
  dsimp only at hargvExt hargvSp hargvPlaced ⊢
  rw [← hargvSp] at hfits
  exact ⟨argvPtrs, envpPtrs, applePtrs, _, _, _, built_of_placed happlePlaced henvpExt henvpPlaced
    hargvExt hargvPlaced (by omega) rfl⟩

/-- What a Darwin process expects from its stack pointer on. -/
structure Image (m : Memory) (sp stackTop : Address) (argv envp apple : List String)
    (argvPtrs envpPtrs applePtrs : List Word) : Prop where
  aligned : sp.toNat % 16 = 0
  argc : (m.readWord sp).toNat = argv.length
  words : m.Words (sp + 8) (argvPtrs ++ 0 :: (envpPtrs ++ 0 :: (applePtrs ++ [0])))
  argvCopies : List.Forall₂ (fun ptr s => m.CString ptr (asBytes s)) argvPtrs argv
  envpCopies : List.Forall₂ (fun ptr s => m.CString ptr (asBytes s)) envpPtrs envp
  appleCopies : List.Forall₂ (fun ptr s => m.CString ptr (asBytes s)) applePtrs apple
  /-- The block and the strings share no byte. -/
  apart : ((sp.toNat, sp.toNat + 8 * totalEntries argv envp apple) ::
    ranges (applePtrs ++ (envpPtrs ++ argvPtrs)) (apple ++ (envp ++ argv))).Pairwise NoOverlap
  below : ∀ r ∈ (sp.toNat, sp.toNat + 8 * totalEntries argv envp apple) ::
    ranges (applePtrs ++ (envpPtrs ++ argvPtrs)) (apple ++ (envp ++ argv)), r.2 ≤ stackTop.toNat

/-- What a process reads from its stack pointer on: the count, and three lists of strings. -/
def readImage (m : Memory) (n : Nat) (sp : Address) :
    Option (Nat × List (List Byte) × List (List Byte) × List (List Byte)) := do
  let (argvPtrs, envpAt) ← m.readPointers n (sp + 8)
  let (envpPtrs, appleAt) ← m.readPointers n envpAt
  let (applePtrs, _) ← m.readPointers n appleAt
  let argv ← argvPtrs.mapM (m.readCString n)
  let envp ← envpPtrs.mapM (m.readCString n)
  let apple ← applePtrs.mapM (m.readCString n)
  pure ((m.readWord sp).toNat, argv, envp, apple)

section Built
variable {m : Memory} {sp stackTop : Address} {argv envp apple : List String}
  {argvPtrs envpPtrs applePtrs : List Word} {argvLo envpLo appleLo : Nat}

theorem Built.argc (h : Built m sp argv envp apple argvPtrs envpPtrs applePtrs argvLo envpLo appleLo
    stackTop.toNat) : (m.readWord sp).toNat = argv.length := by
  have hroom := h.room
  have happle := h.apple.le
  have henvp := h.envp.le
  have hargv := h.argv.le
  have htop := stackTop.isLt
  rw [h.words.1, BitVec.toNat_ofNat]
  unfold totalEntries at hroom
  omega

theorem Built.image (h : Built m sp argv envp apple argvPtrs envpPtrs applePtrs argvLo envpLo appleLo
    stackTop.toNat) : Image m sp stackTop argv envp apple argvPtrs envpPtrs applePtrs := by
  have hall := h.apple.append (h.envp.append h.argv)
  have hroom := h.room
  have hle := hall.le
  refine ⟨h.aligned, h.argc, h.words.2, h.argv.copies, h.envp.copies, h.apple.copies,
    .cons (fun r hr => .inl ?_) hall.apart, fun r hr => ?_⟩
  · exact Nat.le_trans hroom (hall.within r hr).1
  · cases hr with
    | head => exact Nat.le_trans hroom hle
    | tail _ hr => exact (hall.within r hr).2

theorem Built.read (h : Built m sp argv envp apple argvPtrs envpPtrs applePtrs argvLo envpLo appleLo
    stackTop.toNat) {n : Nat} (hn : stackTop.toNat ≤ n) :
    readImage m n sp = some (argv.length, argv.map asBytes, envp.map asBytes, apple.map asBytes) := by
  have hroom := h.room
  have happle := h.apple.le
  have henvp := h.envp.le
  have hargv := h.argv.le
  unfold totalEntries at hroom
  have hargvLength := h.argv.length
  have henvpLength := h.envp.length
  have happleLength := h.apple.length
  obtain ⟨envpAt, hargvRead, henvpWords⟩ :=
    Memory.readPointers_eq (n := n) h.words.2 (h.argv.nonnull (by omega)) (by omega)
  obtain ⟨appleAt, henvpRead, happleWords⟩ :=
    Memory.readPointers_eq (n := n) henvpWords (h.envp.nonnull (by omega)) (by omega)
  obtain ⟨_, happleRead, -⟩ :=
    Memory.readPointers_eq (n := n) happleWords (h.apple.nonnull (by omega)) (by omega)
  simp only [readImage, hargvRead, henvpRead, happleRead, h.argv.read (Nat.le_trans henvp
    (Nat.le_trans happle hn)), h.envp.read (Nat.le_trans happle hn), h.apple.read hn, h.argc,
    Option.bind_eq_bind, Option.bind_some, Option.pure_def]

end Built

/-- **The start of a process.** If the image fits below the top of the stack, the stack
pointer is aligned to 16 bytes and what stands from it on is `argc`, the pointers to the
arguments, to the environment and to `executable_path=`, each list with a null after it;
the strings and this block share no byte. Whoever reads it gets the three lists back. -/
theorem buildStack_image (memory : Memory) (stackTop : Address) (argv : List String)
    (binaryPath : String) (vars : List (String × String))
    (hargv : ∀ s ∈ argv, NulFree s) (hvars : ∀ v ∈ vars, NulFree v.1 ∧ NulFree v.2)
    (hpath : NulFree binaryPath)
    (hfits : Fits stackTop argv (envpOf vars) ["executable_path=" ++ binaryPath]) :
    (∃ argvPtrs envpPtrs applePtrs,
      Image (buildStack memory stackTop argv binaryPath vars).memory
        (buildStack memory stackTop argv binaryPath vars).sp stackTop argv (envpOf vars)
        ["executable_path=" ++ binaryPath] argvPtrs envpPtrs applePtrs) ∧
    ∀ n, stackTop.toNat ≤ n →
      readImage (buildStack memory stackTop argv binaryPath vars).memory n
          (buildStack memory stackTop argv binaryPath vars).sp =
        some (argv.length, argv.map asBytes, (envpOf vars).map asBytes,
          [asBytes ("executable_path=" ++ binaryPath)]) := by
  have henvp : ∀ s ∈ envpOf vars, NulFree s := by
    intro s hs
    obtain ⟨v, hv, rfl⟩ := List.mem_map.mp hs
    exact nulFree_append (nulFree_append (hvars v hv).1 (by decide)) (hvars v hv).2
  have happle : ∀ s ∈ appleOf binaryPath, NulFree s := by
    intro s hs
    rw [List.mem_singleton.mp hs]
    exact nulFree_append (by decide) hpath
  obtain ⟨argvPtrs, envpPtrs, applePtrs, argvLo, envpLo, appleLo, hbuilt⟩ :=
    buildStack_built memory hargv henvp happle hfits
  exact ⟨⟨argvPtrs, envpPtrs, applePtrs, hbuilt.image⟩, fun n hn => hbuilt.read hn⟩

/-- One argument, one variable, and a stack below 0x1000. -/
theorem buildStack_image_echo :
    readImage (buildStack (fun _ => 0) 0x1000 ["echo"] "/bin/echo" [("A", "b")]).memory 0x1000
        (buildStack (fun _ => 0) 0x1000 ["echo"] "/bin/echo" [("A", "b")]).sp =
      some (1, [asBytes "echo"], [asBytes "A=b"], [asBytes "executable_path=/bin/echo"]) :=
  (buildStack_image (fun _ => 0) 0x1000 ["echo"] "/bin/echo" [("A", "b")] (by decide) (by decide)
    (by decide) (fits_of_size (by decide))).2 0x1000 (by decide)

end Grafted.Loader.ProcessStack
