import Grafted.Base.Buffer
import Grafted.Base.X86

/-! What is reported of a crash that nothing recovers.

`sigsegv_handler` puts the report together in 512 bytes. Its parts have fixed sizes but the
two names, of which it takes 120 bytes each; with the dump of the memory at `rdi` there is
room for 94 of both (`crashReport_fits_iff`). A write past the end panics, in a signal
handler. -/
namespace Grafted.Loader.CrashReport
open ByteMemory Buffer X86

def REPORT_SIZE : Nat := 512

def ascii (s : String) : List Byte := s.toList.map fun c => BitVec.ofNat 8 c.toNat

/-- What `dladdr` tells. A null name is none. -/
structure DlInfo where
  fbase : Word
  fname : Option (List Byte)
  sname : Option (List Byte)

/-- What the handler reads of the crash. -/
structure Crash where
  faultAddr : Address
  rip : Address
  reg : Reg → Word
  memory : Memory
  dladdr : Option DlInfo

/-- What `w` and `wh` are given. -/
inductive Part where
  | text (s : List Byte)
  | word (val : Word)

/-- The digits of a word, the high one first. -/
def hex (val : Word) : List Byte :=
  (List.range 16).map fun i => (ascii "0123456789abcdef").getD ((val >>> (60 - 4 * i)) &&& 0xf).toNat 0

def Part.bytes : Part → List Byte
  | .text s => s
  | .word val => hex val

def put (part : Part) : Writer Byte := write REPORT_SIZE part.bytes

/-- The bytes of a name that are written. -/
def capped (name : Option (List Byte)) : List Byte := (name.getD []).take 120

section Report
variable (crash : Crash)

def registers : List Part :=
  [.text (ascii "SIGSEGV at=0x"), .word crash.faultAddr, .text (ascii " rip=0x"), .word crash.rip,
    .text (ascii "\n  rax=0x"), .word (crash.reg .rax), .text (ascii " rdx=0x"), .word (crash.reg .rdx),
    .text (ascii " rdi=0x"), .word (crash.reg .rdi), .text (ascii " rsi=0x"), .word (crash.reg .rsi),
    .text (ascii "\n  rsp=0x"), .word (crash.reg .rsp)]

/-- `rdi` looks like an address. -/
def Dumped : Prop := 0x10000 < crash.reg .rdi ∧ crash.reg .rdi < 0x7FFFFFFFFFFF

instance : Decidable (Dumped crash) := inferInstanceAs (Decidable (_ ∧ _))

/-- One of the ten words at `rdi`; the fifth begins a line. -/
def dumpWord (i : Nat) : List Part :=
  (if i = 4 then [.text (ascii "\n      ")] else []) ++
    [.text (ascii " "), .word (crash.memory.readWord (crash.reg .rdi + BitVec.ofNat 64 (i * 8)))]

def dump : List Part :=
  if Dumped crash then .text (ascii "\n  *rdi:") :: (List.range 10).flatMap (dumpWord crash) else []

def library : List Part :=
  match crash.dladdr with
  | none => []
  | some info =>
    [.text (ascii "\n  base=0x"), .word info.fbase, .text (ascii " off=0x"), .word (crash.rip - info.fbase),
      .text (ascii "\n  lib="), .text (capped info.fname), .text (ascii " sym="),
      .text (capped info.sname)]

def parts : List Part := registers crash ++ dump crash ++ library crash ++ [.text (ascii "\n")]

/-- The report, if no write goes past the end. -/
def crashReport : Option (List Byte) := sequence ((parts crash).map put) []

end Report

/-! ### Its size -/

theorem length_hex (val : Word) : (hex val).length = 16 := by
  rw [hex, List.length_map, List.length_range]

def size (parts : List Part) : Nat := (parts.flatMap Part.bytes).length

theorem size_append (parts parts' : List Part) : size (parts ++ parts') = size parts + size parts' := by
  rw [size, List.flatMap_append, List.length_append]
  rfl

theorem size_text (s : List Byte) (rest : List Part) : size (.text s :: rest) = s.length + size rest := by
  rw [size, List.flatMap_cons, List.length_append]
  rfl

theorem size_word (val : Word) (rest : List Part) : size (.word val :: rest) = 16 + size rest := by
  rw [size, List.flatMap_cons, List.length_append, Part.bytes, length_hex]
  rfl

section Sizes
variable (crash : Crash)

theorem size_registers : size (registers crash) = 171 := by
  simp only [registers, size_text, size_word]
  rfl

theorem size_dumpWord (i : Nat) : size (dumpWord crash i) = if i = 4 then 24 else 17 := by
  rw [dumpWord, size_append, size_text, size_word]
  split_ifs
  · rw [size_text]
    rfl
  · rfl

theorem size_dumpWords (is : List Nat) :
    size (is.flatMap (dumpWord crash)) = (is.map fun i => if i = 4 then 24 else 17).foldr (· + ·) 0 := by
  induction is with
  | nil => rfl
  | cons i rest ih => rw [List.flatMap_cons, size_append, ih, size_dumpWord, List.map_cons, List.foldr_cons]

theorem size_dump : size (dump crash) = if Dumped crash then 185 else 0 := by
  unfold dump
  split_ifs with hdump
  · rw [size_text, size_dumpWords]
    rfl
  · rfl

/-- What the two names take. -/
def nameBytes (info : DlInfo) : Nat := (capped info.fname).length + (capped info.sname).length

theorem size_library : size (library crash) =
    match crash.dladdr with
    | none => 0
    | some info => 61 + nameBytes info := by
  unfold library
  cases crash.dladdr with
  | none => rfl
  | some info =>
    have htexts : (ascii "\n  base=0x").length = 10 ∧ (ascii " off=0x").length = 7 ∧
        (ascii "\n  lib=").length = 7 ∧ (ascii " sym=").length = 5 := by decide
    have hnil : size [] = 0 := rfl
    simp only [size_text, size_word, htexts, hnil, nameBytes]
    omega

end Sizes

/-- **The report fits its buffer** exactly if the memory at `rdi` is not dumped, or `dladdr` knows
nothing, or what is written of the two names is at most 94 bytes. -/
theorem crashReport_fits_iff (crash : Crash) : (crashReport crash).isSome ↔
    ¬ Dumped crash ∨ ∀ info, crash.dladdr = some info →
      min 120 (info.fname.getD []).length + min 120 (info.sname.getD []).length ≤ 94 := by
  have hwrites : Writes REPORT_SIZE (sequence ((parts crash).map put)) ((parts crash).flatMap Part.bytes) :=
    writes_sequence_map _ fun part => writes_write part.bytes
  have hsize : ((parts crash).flatMap Part.bytes).length = size (registers crash) + size (dump crash) +
      size (library crash) + 1 := by
    show size (parts crash) = _
    rw [parts, size_append, size_append, size_append]
    rfl
  rw [crashReport, hwrites.isSome, hsize, size_registers, size_dump, size_library]
  unfold REPORT_SIZE
  cases hinfo : crash.dladdr with
  | none =>
    refine iff_of_true ?_ (.inr fun info h => nomatch h)
    split_ifs <;> decide
  | some info =>
    have hnames : nameBytes info =
        min 120 (info.fname.getD []).length + min 120 (info.sname.getD []).length := by
      rw [nameBytes, capped, capped, List.length_take, List.length_take]
    have hall : (∀ info', some info = some info' → min 120 (info'.fname.getD []).length +
        min 120 (info'.sname.getD []).length ≤ 94) ↔ nameBytes info ≤ 94 := by
      rw [hnames]
      exact ⟨fun h => h info rfl, fun h info' hinfo' => by cases hinfo'; exact h⟩
    rw [hall]
    dsimp only
    by_cases hdump : Dumped crash
    · have hno : ¬ ¬ Dumped crash := not_not.mpr hdump
      rw [if_pos hdump, or_iff_right hno]
      omega
    · rw [if_neg hdump]
      refine iff_of_true ?_ (.inl hdump)
      rw [hnames]
      omega

/-- A crash with `rdi` on the stack, in a library and a function with names of 120 bytes. -/
def longNames : Crash where
  faultAddr := 0
  rip := 0x7f0000001000
  reg _ := 0x7ffd00000000
  memory _ := 0
  dladdr := some ⟨0x7f0000000000, some (List.replicate 120 0x61), some (List.replicate 120 0x61)⟩

theorem long_names_overflow : ¬ (crashReport longNames).isSome := by
  decide +kernel

end Grafted.Loader.CrashReport
