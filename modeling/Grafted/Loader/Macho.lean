import Grafted.Base.ByteMemory
import Grafted.Base.Fallible

/-! Mach-O binaries as the loader keeps them.

The parser of the file format is a library the source calls; `Goblin` is what it
reports of a file, as far as the source asks. Everything computed from that is
here. A `Failure` is an error value, or ends the process: a panic, or an access to
memory that is not there. -/
namespace Grafted.Loader
open ByteMemory

def CPU_TYPE_X86_64 : BitVec 32 := 0x01000007

structure Segment where
  name : String
  vmaddr : BitVec 64
  vmsize : BitVec 64
  fileoff : BitVec 64
  filesize : BitVec 64
  initprot : BitVec 32
  maxprot : BitVec 32
  deriving DecidableEq

def notPageZero (segment : Segment) : Bool := segment.name != "__PAGEZERO"

structure DylibDep where
  name : String
  currentVersion : BitVec 32
  compatVersion : BitVec 32
  deriving DecidableEq

structure MachOBinary where
  path : String
  fileType : BitVec 32
  cpuType : BitVec 32
  /-- An offset from the base of __TEXT (LC_MAIN), or an address (LC_UNIXTHREAD). -/
  entryPoint : BitVec 64
  entryIsOffset : Bool
  segments : List Segment
  dylibDeps : List DylibDep
  rpaths : List String
  chainedFixups : Option (BitVec 32 × BitVec 32)
  exportsTrie : Option (BitVec 32 × BitVec 32)
  data : List Byte
  slide : BitVec 64

inductive LoaderError where
  | io (message : String)
  | notMachO
  | unsupportedFileType (fileType : BitVec 32)
  | unsupportedCpuType (cpuType : BitVec 32)
  | noTextSegment
  | noEntryPoint
  | parse (message : String)
  | mmap (message : String)
  | noArchSlice (arch : String)

inductive Failure where
  | error (e : LoaderError)
  | panic
  | wild

/-! ### What goblin reports -/

inductive LoadCommand where
  | segment64 (name : Option String) (vmaddr vmsize fileoff filesize : BitVec 64)
      (initprot maxprot : BitVec 32)
  | main (entryoff : BitVec 64)
  | unixthread (flavor count : BitVec 32) (threadState : Nat → BitVec 32)
  | dyldChainedFixups (dataoff datasize : BitVec 32)
  | dyldExportsTrie (dataoff datasize : BitVec 32)
  | routines64 (initAddress : BitVec 64)
  | other

structure Export where
  name : String
  offset : BitVec 64

structure Symbol where
  name : String
  nValue : BitVec 64

structure Import where
  dylib : String
  name : String
  isWeak : Bool
  address : BitVec 64
  addend : BitVec 64

/-- A name that is not UTF-8 is none. -/
structure Section where
  name : Option String
  addr : BitVec 64
  size : BitVec 64

structure MachO where
  filetype : BitVec 32
  cputype : BitVec 32
  name : Option String
  libs : List String
  rpaths : List String
  loadCommands : List LoadCommand
  exports : Except String (List Export)
  symbols : List (Except String Symbol)
  imports : Except String (List Import)
  /-- Segment after segment. -/
  sections : List (Except String Section) := []

structure FatArch where
  cputype : BitVec 32
  offset : BitVec 32
  size : BitVec 32

inductive Mach where
  | fat (arches : Except String (List FatArch))
  | binary (cputype : BitVec 32)

structure Goblin where
  parseMachO : List Byte → Except String MachO
  parseMach : List Byte → Except String Mach

/-! ### Parsing -/

namespace LoadCommand

/-- A segment whose name is not UTF-8 has the empty name. -/
def segment? : LoadCommand → Option Segment
  | segment64 name vmaddr vmsize fileoff filesize initprot maxprot =>
    some ⟨name.getD "", vmaddr, vmsize, fileoff, filesize, initprot, maxprot⟩
  | _ => none

/-- The entry point, and whether it is an offset. A later command overrides. -/
def entry (sofar : BitVec 64 × Bool) : LoadCommand → BitVec 64 × Bool
  | main entryoff => (entryoff, true)
  | unixthread flavor count state =>
    if flavor = 4 ∧ 42 ≤ count then
      ((state 33).setWidth 64 <<< 32 ||| (state 32).setWidth 64, false)
    else sofar
  | _ => sofar

def chainedFixups (sofar : Option (BitVec 32 × BitVec 32)) :
    LoadCommand → Option (BitVec 32 × BitVec 32)
  | dyldChainedFixups dataoff datasize => some (dataoff, datasize)
  | _ => sofar

def exportsTrie (sofar : Option (BitVec 32 × BitVec 32)) :
    LoadCommand → Option (BitVec 32 × BitVec 32)
  | dyldExportsTrie dataoff datasize => some (dataoff, datasize)
  | _ => sofar

end LoadCommand

namespace MachOBinary
variable (goblin : Goblin)

/-- `extract_info` and `parse_single`: what is kept of a file of one architecture. -/
def parseSingle (path : String) (data : List Byte) : Except Failure MachOBinary :=
  match goblin.parseMachO data with
  | .error message => .error (.error (.parse message))
  | .ok macho =>
    if macho.cputype ≠ CPU_TYPE_X86_64 then .error (.error (.unsupportedCpuType macho.cputype))
    else
      let entry := macho.loadCommands.foldl LoadCommand.entry (0, false)
      let selfName := macho.name.getD ""
      .ok {
        path := path
        fileType := macho.filetype
        cpuType := macho.cputype
        entryPoint := entry.1
        entryIsOffset := entry.2
        segments := macho.loadCommands.filterMap LoadCommand.segment?
        dylibDeps := (macho.libs.filter fun lib => lib != "" && lib != selfName && lib != "self").map
          fun lib => ⟨lib, 0, 0⟩
        rpaths := macho.rpaths
        chainedFixups := macho.loadCommands.foldl LoadCommand.chainedFixups none
        exportsTrie := macho.loadCommands.foldl LoadCommand.exportsTrie none
        data := data
        slide := 0 }

/-- `data[offset..offset + size]`. -/
def slice (data : List Byte) (offset size : Nat) : Except Failure (List Byte) :=
  if offset + size ≤ data.length then .ok ((data.drop offset).take size) else .error .panic

/-- The x86_64 slice of a fat file. -/
def parseFat (path : String) (data : List Byte) : Except Failure MachOBinary :=
  match goblin.parseMach data with
  | .error message => .error (.error (.parse message))
  | .ok (.fat (.error message)) => .error (.error (.parse message))
  | .ok (.fat (.ok arches)) =>
    match arches.find? (·.cputype = CPU_TYPE_X86_64) with
    | some arch => do
      let single ← slice data arch.offset.toNat arch.size.toNat
      parseSingle goblin path single
    | none => .error (.error (.unsupportedCpuType 0))
  | .ok (.binary cputype) =>
    if cputype = CPU_TYPE_X86_64 then parseSingle goblin path data
    else .error (.error (.unsupportedCpuType cputype))

def isFat (data : List Byte) : Bool :=
  data.take 4 == [0xca, 0xfe, 0xba, 0xbe] || data.take 4 == [0xca, 0xfe, 0xba, 0xbf]

def parse (path : String) (data : List Byte) : Except Failure MachOBinary :=
  if isFat data then parseFat goblin path data else parseSingle goblin path data

/-- `readFile` is the file system. -/
def fromPath (readFile : String → Except String (List Byte)) (path : String) :
    Except Failure MachOBinary :=
  match readFile path with
  | .error message => .error (.error (.io message))
  | .ok data => parse goblin path data

/-- The segment named __TEXT, the first if there are several. -/
def textSegment (binary : MachOBinary) : Option Segment :=
  binary.segments.find? (·.name = "__TEXT")

variable {goblin}

/-- The file of one architecture is kept as it is, and is not slid. -/
theorem parseSingle_ok {path : String} {data : List Byte} {binary : MachOBinary}
    (h : parseSingle goblin path data = .ok binary) :
    (∃ macho, goblin.parseMachO data = .ok macho) ∧ binary.data = data ∧ binary.slide = 0 := by
  unfold parseSingle at h
  cases hm : goblin.parseMachO data with
  | error message => simp [hm] at h
  | ok macho =>
    simp only [hm] at h
    split_ifs at h
    cases h
    exact ⟨⟨macho, rfl⟩, rfl, rfl⟩

/-- A binary is what is kept of the file of one architecture it holds. -/
theorem parse_single {path : String} {data : List Byte} {binary : MachOBinary}
    (h : parse goblin path data = .ok binary) :
    parseSingle goblin path binary.data = .ok binary := by
  have hsingle {single : List Byte} (hok : parseSingle goblin path single = .ok binary) :
      parseSingle goblin path binary.data = .ok binary := by
    rw [(parseSingle_ok hok).2.1]
    exact hok
  unfold parse parseFat at h
  split_ifs at h
  · split at h
    · exact nomatch h
    · exact nomatch h
    · split at h
      · obtain ⟨single, -, hok⟩ := Fallible.bind_ok h
        exact hsingle hok
      · exact nomatch h
    · split_ifs at h
      exact hsingle h
  · exact hsingle h

/-- What was parsed parses again, and is not slid. -/
theorem parse_data {path : String} {data : List Byte} {binary : MachOBinary}
    (h : parse goblin path data = .ok binary) :
    (∃ macho, goblin.parseMachO binary.data = .ok macho) ∧ binary.slide = 0 := by
  obtain ⟨hmacho, -, hslide⟩ := parseSingle_ok (parse_single h)
  exact ⟨hmacho, hslide⟩

theorem fromPath_data {readFile : String → Except String (List Byte)} {path : String}
    {binary : MachOBinary} (h : fromPath goblin readFile path = .ok binary) :
    (∃ macho, goblin.parseMachO binary.data = .ok macho) ∧ binary.slide = 0 := by
  unfold fromPath at h
  split at h
  · exact nomatch h
  · exact parse_data h

end MachOBinary

end Grafted.Loader
