import Grafted.Base.Blocks
import Grafted.Loader.MainEntry
import Mathlib.Data.List.Forall2

/-! What a process is told of itself by the library functions.

`set_process_info` copies the path and the arguments to where `_NSGetExecutablePath` and
`_NSGetArgv` find them, before the stack of the process is built from the same arguments. What it
leaves is `Holds` (`setProcessInfo_holds`). -/
namespace Grafted.Dyld.ProcessInfo
open ByteMemory Descent Loader.ProcessStack
open X86 (readBytes words_append)

/-! ### The source -/

/-- Where the globals are, and what is allocated: the array and a string for each argument. -/
structure Places where
  executablePath : Address
  nxargc : Address
  nxargv : Address
  array : Address
  string : Nat → Address

/-- `CString::new(arg).unwrap_or_default()`. -/
def cStringNew (arg : String) : List Byte := if NulFree arg then asBytes arg else []

namespace Places
variable (p : Places)

def entry (i : Nat) : Address := p.array + BitVec.ofNat 64 (8 * i)

def storeArg (i : Nat) (arg : String) (m : Memory) : Memory :=
  let cstr := cStringNew arg
  let m := (m.writeBytes (p.string i) cstr).writeByte (p.string i + BitVec.ofNat 64 cstr.length) 0
  m.writeWord (p.entry i) (p.string i)

def storeArgs : Nat → List String → Memory → Memory
  | _, [], m => m
  | i, arg :: rest, m => storeArgs (i + 1) rest (p.storeArg i arg m)

def setExecutablePath (binaryPath : String) (m : Memory) : Memory :=
  let pathBytes := (asBytes binaryPath).take 1023
  (m.writeBytes p.executablePath pathBytes).writeByte
    (p.executablePath + BitVec.ofNat 64 pathBytes.length) 0

def setProcessInfo (binaryPath : String) (argv : List String) (m : Memory) : Memory :=
  let m := p.storeArgs 0 argv (p.setExecutablePath binaryPath m)
  let m := m.writeWord (p.entry argv.length) 0
  (m.writeU32 p.nxargc (BitVec.ofNat 32 argv.length)).writeWord p.nxargv p.array

/-- The bytes before the first zero, of at most `n`. -/
def len (m : Memory) (path : Address) : Nat → Nat
  | 0 => 0
  | n + 1 => if m path = 0 then 0 else len m (path + 1) n + 1

def shimNsgetexecutablepath (buf bufsize : Address) (m : Memory) : BitVec 32 × Memory :=
  let len := len m p.executablePath 1024
  let avail := (m.readU32 bufsize).toNat
  if avail < len + 1 then (-1, m.writeU32 bufsize (BitVec.ofNat 32 (len + 1)))
  else
    let m := m.writeBytes buf (readBytes m p.executablePath (len + 1))
    (0, m.writeU32 bufsize (BitVec.ofNat 32 len))

end Places

/-- The bounds of the first stack, and what is answered of them. -/
structure StackBounds where
  base : Address
  size : Word

def setStackBounds (base : Address) (size : Nat) : StackBounds := ⟨base, BitVec.ofNat 64 size⟩

/-- A guess from the stack pointer where no bounds were set. -/
def StackBounds.shimPthreadGetStackaddrNp (bounds : StackBounds) (rsp : Address) : Address :=
  if bounds.base ≠ 0 then bounds.base + bounds.size else (rsp + 0x800000) &&& ~~~0xFFF

def StackBounds.shimPthreadGetStacksizeNp (bounds : StackBounds) : Word := bounds.size

/-! ### Where things are -/

namespace Places
variable (p : Places)

/-- The array with its null. -/
def arrayBlock (argv : List String) : Block := ⟨p.array, 8 * (argv.length + 1)⟩

def stringBlock (i : Nat) (arg : String) : Block := ⟨p.string i, (cStringNew arg).length + 1⟩

def stringBlocks : Nat → List String → List Block
  | _, [] => []
  | i, arg :: rest => p.stringBlock i arg :: stringBlocks (i + 1) rest

/-- The pointers to the strings. -/
def strings : Nat → List String → List Word
  | _, [] => []
  | i, _ :: rest => p.string i :: strings (i + 1) rest

def pathBlock : Block := ⟨p.executablePath, 1024⟩

def argcBlock : Block := ⟨p.nxargc, 4⟩

def argvBlock : Block := ⟨p.nxargv, 8⟩

def blocks (argv : List String) : List Block :=
  p.pathBlock :: p.argcBlock :: p.argvBlock :: p.arrayBlock argv :: p.stringBlocks 0 argv

/-- Statics and allocations, of which no two have a byte in common. -/
structure Apart (argv : List String) : Prop where
  fits : ∀ b ∈ p.blocks argv, b.Fits
  off : (p.blocks argv).Pairwise Block.Off

end Places

/-- The vector at an address holds these strings, and a null after them. -/
def Vector (m : Memory) (a : Address) (strings : List (List Byte)) : Prop :=
  ∃ ptrs : List Word, m.Words a (ptrs ++ [0]) ∧ List.Forall₂ m.CString ptrs strings

/-- What the path is cut to. -/
def pathOf (binaryPath : String) : List Byte :=
  ((asBytes binaryPath).take 1023).takeWhile (· != 0)

/-! ### The arguments -/

section Arguments
variable {p : Places} {b : Block}

theorem entry_toNat {n : Nat} (hfits : p.array.toNat + 8 * n < 2 ^ 64) {i : Nat} (hi : i ≤ n) :
    (p.entry i).toNat = p.array.toNat + 8 * i :=
  toNat_add_ofNat (n := 8 * i) (by omega)

/-- The entry of an argument and its string. -/
theorem storeArg_spec {i : Nat} {arg : String} (hstring : (p.stringBlock i arg).Fits)
    (hentry : (p.entry i).toNat + 8 ≤ 2 ^ 64) (hoff : Block.Off ⟨p.entry i, 8⟩ (p.stringBlock i arg))
    (m : Memory) : (p.storeArg i arg m).readWord (p.entry i) = p.string i ∧
      (p.storeArg i arg m).CString (p.string i) (cStringNew arg) := by
  have hroom : (p.string i).toNat + ((cStringNew arg).length + 1) < 2 ^ 64 := hstring
  refine ⟨Memory.readWord_writeWord _ _ _, ?_⟩
  have hnul : 0 ∉ cStringNew arg := by
    unfold cStringNew
    split_ifs with h
    · exact h
    · exact List.not_mem_nil
  have hwritten := Memory.cString_written m hnul (a := p.string i) (by omega)
  refine (Memory.keeps_writeWord hentry hoff).cString hstring hwritten (Nat.le_refl _) ?_
  exact Nat.add_lt_add_left (Nat.lt_succ_self _) _

theorem storeArg_keeps {i : Nat} {arg : String} (hstring : (p.stringBlock i arg).Fits)
    (hentry : (p.entry i).toNat + 8 ≤ 2 ^ 64) (hoffString : Block.Off (p.stringBlock i arg) b)
    (hoffEntry : Block.Off ⟨p.entry i, 8⟩ b) (m : Memory) : m.Keeps (p.storeArg i arg m) b := by
  unfold Places.stringBlock at hstring hoffString
  simp only [Block.Fits, Block.Off] at hstring hoffString
  have hend : (p.string i + BitVec.ofNat 64 (cStringNew arg).length).toNat =
      (p.string i).toNat + (cStringNew arg).length := toNat_add_ofNat (by omega)
  refine Memory.Keeps.trans ?_ (Memory.keeps_writeWord hentry hoffEntry)
  refine Memory.Keeps.trans (Memory.keeps_writeBytes (by omega) ?_) (Memory.keeps_writeByte ?_)
  · unfold Block.Off
    dsimp only
    omega
  · unfold Block.Off
    dsimp only
    omega

theorem storeArgs_keeps {n i : Nat} {args : List String} (hn : i + args.length = n)
    (hfits : p.array.toNat + 8 * n < 2 ^ 64) (hstrings : ∀ s ∈ p.stringBlocks i args, s.Fits)
    (hoff : ∀ s ∈ p.stringBlocks i args, Block.Off s b)
    (hentries : ∀ j, i ≤ j → j < n → Block.Off ⟨p.entry j, 8⟩ b) (m : Memory) :
    m.Keeps (p.storeArgs i args m) b := by
  induction args generalizing i m with
  | nil => exact .refl m b
  | cons arg rest ih =>
    rw [List.length_cons] at hn
    have hentry := entry_toNat hfits (Nat.le_of_lt (by omega : i < n))
    have hfirst := storeArg_keeps (hstrings _ List.mem_cons_self) (by omega)
      (hoff _ List.mem_cons_self) (hentries i (Nat.le_refl i) (by omega)) m
    exact hfirst.trans (ih (by omega) (fun s hs => hstrings s (List.mem_cons_of_mem _ hs))
      (fun s hs => hoff s (List.mem_cons_of_mem _ hs)) (fun j _ hhi => hentries j (by omega) hhi) _)

/-- After the loop the entries from `i` on are there, and their strings. -/
theorem storeArgs_spec {n i : Nat} {args : List String} (hn : i + args.length = n)
    (hfits : p.array.toNat + 8 * n < 2 ^ 64) (hstrings : ∀ s ∈ p.stringBlocks i args, s.Fits)
    (harray : ∀ s ∈ p.stringBlocks i args, Block.Off ⟨p.array, 8 * n⟩ s)
    (hoff : (p.stringBlocks i args).Pairwise Block.Off) (m : Memory) :
    (p.storeArgs i args m).Words (p.entry i) (p.strings i args) ∧
      List.Forall₂ (p.storeArgs i args m).CString (p.strings i args) (args.map cStringNew) := by
  induction args generalizing i m with
  | nil => exact ⟨trivial, .nil⟩
  | cons arg rest ih =>
    rw [List.length_cons] at hn
    obtain ⟨hfirstOff, hrestOff⟩ := List.pairwise_cons.mp hoff
    have hentry := entry_toNat hfits (Nat.le_of_lt (by omega : i < n))
    have hnext := entry_toNat hfits (by omega : i + 1 ≤ n)
    have hstring := hstrings _ List.mem_cons_self
    -- a string meets no entry
    have hentryOff : ∀ s ∈ p.stringBlocks i (arg :: rest), ∀ j, i ≤ j → j < n →
        Block.Off ⟨p.entry j, 8⟩ s := by
      intro s hs j hlo hhi
      have hj := entry_toNat hfits (Nat.le_of_lt hhi)
      have hall := harray s hs
      simp only [Block.Off] at hall ⊢
      omega
    obtain ⟨hword, hcstring⟩ := storeArg_spec hstring (by omega)
      (hentryOff _ List.mem_cons_self i (Nat.le_refl i) (by omega)) m
    -- the rest of the loop writes neither the entry nor the string
    have hkeepEntry : (p.storeArg i arg m).Keeps (p.storeArgs (i + 1) rest (p.storeArg i arg m))
        ⟨p.entry i, 8⟩ := by
      refine storeArgs_keeps (by omega) hfits (fun s hs => hstrings s (List.mem_cons_of_mem _ hs))
        (fun s hs => (hentryOff s (List.mem_cons_of_mem _ hs) i (Nat.le_refl i) (by omega)).symm)
        (fun j hlo hhi => ?_) _
      have hj := entry_toNat hfits (Nat.le_of_lt hhi)
      simp only [Block.Off]
      omega
    have hkeepString : (p.storeArg i arg m).Keeps (p.storeArgs (i + 1) rest (p.storeArg i arg m))
        (p.stringBlock i arg) := by
      refine storeArgs_keeps (by omega) hfits (fun s hs => hstrings s (List.mem_cons_of_mem _ hs))
        (fun s hs => (hfirstOff s hs).symm) (fun j hlo hhi => ?_) _
      exact hentryOff _ List.mem_cons_self j (by omega) hhi
    obtain ⟨hwords, hrest⟩ := ih (by omega)
      (fun s hs => hstrings s (List.mem_cons_of_mem _ hs))
      (fun s hs => harray s (List.mem_cons_of_mem _ hs)) hrestOff (p.storeArg i arg m)
    have hstep : p.entry i + 8 = p.entry (i + 1) := by
      unfold Places.entry
      bv_omega
    refine ⟨⟨?_, hstep.symm ▸ hwords⟩, .cons ?_ hrest⟩
    · have hread := hkeepEntry.readWord (a := p.entry i) (by unfold Block.Fits; dsimp only; omega)
        (Nat.le_refl _) (Nat.le_refl _)
      exact hread.trans hword
    · exact hkeepString.cString hstring hcstring (Nat.le_refl _)
        (Nat.add_lt_add_left (Nat.lt_succ_self _) _)

end Arguments

/-! ### What `set_process_info` leaves -/

section Info
variable {p : Places} {argv : List String}

/-- The string that was copied, of which reading sees what is before a zero byte. -/
theorem setExecutablePath_cString (hfits : p.pathBlock.Fits) (binaryPath : String) (m : Memory) :
    (p.setExecutablePath binaryPath m).CString p.executablePath (pathOf binaryPath) := by
  have hroom : p.executablePath.toNat + 1024 < 2 ^ 64 := hfits
  have hlength : ((asBytes binaryPath).take 1023).length ≤ 1023 := by
    rw [List.length_take]
    exact Nat.min_le_left ..
  exact Memory.cString_takeWhile m (by omega)

/-- The globals, and what they lead to. -/
structure Holds (p : Places) (binaryPath : String) (argv : List String) (m : Memory) : Prop where
  path : m.CString p.executablePath (pathOf binaryPath)
  nxargc : m.readU32 p.nxargc = BitVec.ofNat 32 argv.length
  nxargv : m.readWord p.nxargv = p.array
  words : m.Words p.array (p.strings 0 argv ++ [0])
  strings : List.Forall₂ m.CString (p.strings 0 argv) (argv.map cStringNew)

theorem length_pathOf_le (binaryPath : String) : (pathOf binaryPath).length ≤ 1023 := by
  have hlength := List.length_take_le 1023 (asBytes binaryPath)
  exact Nat.le_trans (List.takeWhile_prefix _).length_le hlength

theorem length_strings (i : Nat) (args : List String) : (p.strings i args).length = args.length := by
  induction args generalizing i with
  | nil => rfl
  | cons arg rest ih => rw [Places.strings, List.length_cons, List.length_cons, ih]

/-- Strings, each in its block. -/
theorem strings_keeps {i : Nat} {args : List String} {m m' : Memory}
    (hblocks : ∀ s ∈ p.stringBlocks i args, s.Fits ∧ m.Keeps m' s)
    (h : List.Forall₂ m.CString (p.strings i args) (args.map cStringNew)) :
    List.Forall₂ m'.CString (p.strings i args) (args.map cStringNew) := by
  induction args generalizing i with
  | nil => exact .nil
  | cons arg rest ih =>
    cases h with
    | cons hfirst hrest =>
      obtain ⟨hfits, hkeeps⟩ := hblocks _ List.mem_cons_self
      refine .cons ?_ (ih (fun s hs => hblocks s (List.mem_cons_of_mem _ hs)) hrest)
      exact hkeeps.cString hfits hfirst (Nat.le_refl _) (Nat.add_lt_add_left (Nat.lt_succ_self _) _)

/-- As long as the blocks are kept. -/
theorem Holds.keeps {binaryPath : String} {m m' : Memory} (h : Holds p binaryPath argv m)
    (hfits : ∀ b ∈ p.blocks argv, b.Fits) (hkeeps : ∀ b ∈ p.blocks argv, m.Keeps m' b) :
    Holds p binaryPath argv m' := by
  have hpath := length_pathOf_le binaryPath
  simp only [Places.blocks, List.forall_mem_cons] at hfits hkeeps
  obtain ⟨hfitsPath, hfitsArgc, hfitsArgv, hfitsArray, hfitsStrings⟩ := hfits
  obtain ⟨hkeepsPath, hkeepsArgc, hkeepsArgv, hkeepsArray, hkeepsStrings⟩ := hkeeps
  constructor
  · refine hkeepsPath.cString hfitsPath h.path (Nat.le_refl _) ?_
    exact Nat.add_lt_add_left (Nat.lt_succ_of_le hpath) _
  · exact (hkeepsArgc.readU32 hfitsArgc (Nat.le_refl _) (Nat.le_refl _)).trans h.nxargc
  · exact (hkeepsArgv.readWord hfitsArgv (Nat.le_refl _) (Nat.le_refl _)).trans h.nxargv
  · refine hkeepsArray.words hfitsArray h.words (Nat.le_refl _) ?_
    rw [List.length_append, length_strings]
    exact Nat.le_refl _
  · exact strings_keeps (fun s hs => ⟨hfitsStrings s hs, hkeepsStrings s hs⟩) h.strings

/-- The two cells are the last that is written. -/
theorem cells_keeps {b : Block} (hfits : p.argcBlock.Fits ∧ p.argvBlock.Fits)
    (hargc : Block.Off p.argcBlock b) (hargv : Block.Off p.argvBlock b) (count : BitVec 32)
    (m : Memory) : m.Keeps ((m.writeU32 p.nxargc count).writeWord p.nxargv p.array) b :=
  (Memory.keeps_writeU32 hfits.1 hargc).trans (Memory.keeps_writeWord (Nat.le_of_lt hfits.2) hargv)

/-- The null after the entries. -/
theorem array_ended (hfits : (p.arrayBlock argv).Fits) {m : Memory}
    (hwords : m.Words p.array (p.strings 0 argv)) :
    (m.writeWord (p.entry argv.length) 0).Words p.array (p.strings 0 argv ++ [0]) := by
  have hroom : p.array.toNat + 8 * (argv.length + 1) < 2 ^ 64 := hfits
  have hnull : (p.entry argv.length).toNat = p.array.toNat + 8 * argv.length :=
    entry_toNat hroom (Nat.le_succ _)
  have hlength := length_strings (p := p) 0 argv
  have hkept : m.Keeps (m.writeWord (p.entry argv.length) 0) ⟨p.array, 8 * argv.length⟩ := by
    refine Memory.keeps_writeWord (by omega) (.inr ?_)
    dsimp only
    omega
  have hentriesFit : Block.Fits ⟨p.array, 8 * argv.length⟩ := by
    unfold Block.Fits
    dsimp only
    omega
  have hentries := hkept.words hentriesFit hwords (Nat.le_refl _)
    (Nat.le_of_eq (by rw [hlength]))
  refine words_append.mpr ⟨hentries, ?_, trivial⟩
  rw [hlength]
  exact Memory.readWord_writeWord _ _ _

theorem setProcessInfo_holds (hapart : p.Apart argv) (binaryPath : String) (m : Memory) :
    Holds p binaryPath argv (p.setProcessInfo binaryPath argv m) := by
  have hfits := hapart.fits
  have hoff := hapart.off
  have hpath := length_pathOf_le binaryPath
  simp only [Places.blocks, List.forall_mem_cons, List.pairwise_cons] at hfits hoff
  obtain ⟨hfitsPath, hfitsArgc, hfitsArgv, hfitsArray, hfitsStrings⟩ := hfits
  obtain ⟨⟨hpathArgc, hpathArgv, hpathArray, hpathStrings⟩,
    ⟨hargcArgv, hargcArray, hargcStrings⟩, ⟨hargvArray, hargvStrings⟩, harrayStrings,
    hstrings⟩ := hoff
  have hroom : p.array.toNat + 8 * (argv.length + 1) < 2 ^ 64 := hfitsArray
  have hentry {i : Nat} (hi : i ≤ argv.length) : (p.entry i).toNat = p.array.toNat + 8 * i :=
    entry_toNat hroom (Nat.le_succ_of_le hi)
  have hnull := hentry (Nat.le_refl _)
  have hnullFits : (p.entry argv.length).toNat + 8 ≤ 2 ^ 64 := by omega
  -- an entry is off what the array is off
  have hentryOff {b : Block} (h : Block.Off (p.arrayBlock argv) b) {i : Nat} (hi : i ≤ argv.length) :
      Block.Off ⟨p.entry i, 8⟩ b := by
    have hat := hentry hi
    simp only [Block.Off, Places.arrayBlock] at h ⊢
    omega
  unfold Places.setProcessInfo
  dsimp only
  generalize hm₁ : p.setExecutablePath binaryPath m = m₁
  have hpathHolds : m₁.CString p.executablePath (pathOf binaryPath) := by
    rw [← hm₁]
    exact setExecutablePath_cString hfitsPath binaryPath m
  obtain ⟨hwords, hcstrings⟩ := storeArgs_spec (n := argv.length) (Nat.zero_add _) (by omega)
    hfitsStrings (fun s hs => by
      have hall := harrayStrings s hs
      simp only [Block.Off, Places.arrayBlock] at hall ⊢
      omega) hstrings m₁
  have hpathKeeps : m₁.Keeps (p.storeArgs 0 argv m₁) p.pathBlock :=
    storeArgs_keeps (n := argv.length) (Nat.zero_add _) (by omega) hfitsStrings
      (fun s hs => (hpathStrings s hs).symm)
      (fun j _ hhi => hentryOff hpathArray.symm (Nat.le_of_lt hhi)) m₁
  generalize p.storeArgs 0 argv m₁ = m₂ at hwords hcstrings hpathKeeps ⊢
  have hcells : p.argcBlock.Fits ∧ p.argvBlock.Fits := ⟨hfitsArgc, hfitsArgv⟩
  -- the null and the two cells are off the path and off the strings
  have hkeeps {b : Block} (harray : Block.Off (p.arrayBlock argv) b) (hargc : Block.Off p.argcBlock b)
      (hargv : Block.Off p.argvBlock b) : m₂.Keeps (((m₂.writeWord (p.entry argv.length) 0).writeU32
        p.nxargc (BitVec.ofNat 32 argv.length)).writeWord p.nxargv p.array) b :=
    (Memory.keeps_writeWord hnullFits (hentryOff harray (Nat.le_refl _))).trans
      (cells_keeps hcells hargc hargv _ _)
  constructor
  · refine (hpathKeeps.trans (hkeeps hpathArray.symm hpathArgc.symm hpathArgv.symm)).cString
      hfitsPath hpathHolds (Nat.le_refl _) ?_
    exact Nat.add_lt_add_left (Nat.lt_succ_of_le hpath) _
  · have hkept := Memory.keeps_writeWord (m := (m₂.writeWord (p.entry argv.length) 0).writeU32
      p.nxargc (BitVec.ofNat 32 argv.length)) (v := p.array) (Nat.le_of_lt hfitsArgv) hargcArgv.symm
    exact (hkept.readU32 hfitsArgc (Nat.le_refl _) (Nat.le_refl _)).trans
      (Memory.readU32_writeU32 _ _ _)
  · exact Memory.readWord_writeWord _ _ _
  · have hzero : p.entry 0 = p.array := BitVec.add_zero p.array
    rw [hzero] at hwords
    have hall := array_ended hfitsArray hwords
    refine (cells_keeps hcells hargcArray hargvArray _ _).words hfitsArray hall (Nat.le_refl _) ?_
    rw [List.length_append, length_strings]
    exact Nat.le_refl _
  · exact strings_keeps (fun s hs => ⟨hfitsStrings s hs,
      hkeeps (harrayStrings s hs) (hargcStrings s hs) (hargvStrings s hs)⟩) hcstrings

end Info

end Grafted.Dyld.ProcessInfo
