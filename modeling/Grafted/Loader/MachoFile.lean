import Grafted.Loader.Macho

/-! The bytes of a Mach-O file.

The parser of the format is a parameter of the model, so a run on a given file needs the
file and what is reported of it. Here are the header, the load commands and the records
of such files, for x86-64. -/
namespace Grafted.Loader.MachoFile
open ByteMemory

def words (ws : List Nat) : List Byte := ws.flatMap (bytesLE · 4)

def longs (ws : List Nat) : List Byte := ws.flatMap (bytesLE · 8)

@[simp] theorem length_words (ws : List Nat) : (words ws).length = 4 * ws.length := by
  simp [words, bytesLE, List.map_const', Nat.mul_comm]

@[simp] theorem length_longs (ws : List Nat) : (longs ws).length = 8 * ws.length := by
  simp [longs, bytesLE, List.map_const', Nat.mul_comm]

/-- A string in a field of `size` bytes, the rest of them zero. -/
def field (size : Nat) (s : String) : List Byte :=
  let bytes := s.toList.map fun c => BitVec.ofNat 8 c.toNat
  bytes ++ List.replicate (size - bytes.length) 0

/-- A section of a segment; `place` is its offset in the file. -/
def sectionHeader (segname sectname : String) (addr size place flags reserved1 : Nat) : List Byte :=
  field 16 sectname ++ field 16 segname ++ longs [addr, size] ++
    words [place, 3, 0, 0, flags, reserved1, 0, 0]

/-- LC_SEGMENT_64. -/
def segment64 (segname : String) (vmaddr vmsize fileoff filesize prot : Nat)
    (sections : List (List Byte)) : List Byte :=
  words [0x19, 72 + 80 * sections.length] ++ field 16 segname ++
    longs [vmaddr, vmsize, fileoff, filesize] ++ words [prot, prot, sections.length, 0] ++
    sections.flatten

/-- LC_MAIN. -/
def main (entryoff : Nat) : List Byte := words [0x80000028, 24] ++ longs [entryoff, 0]

/-- LC_DYLD_CHAINED_FIXUPS. -/
def dyldChainedFixups (dataoff datasize : Nat) : List Byte :=
  words [0x80000034, 16, dataoff, datasize]

/-- LC_ID_DYLIB and LC_LOAD_DYLIB, with a name of at most 15 bytes. -/
def dylib (cmd : Nat) (name : String) : List Byte := words [cmd, 40, 24, 0, 0, 0] ++ field 16 name

/-- LC_SYMTAB. -/
def symtab (symoff nsyms stroff strsize : Nat) : List Byte :=
  words [2, 24, symoff, nsyms, stroff, strsize]

/-- LC_DYSYMTAB, with a table of indirect symbols only. -/
def dysymtab (indirectsymoff nindirectsyms : Nat) : List Byte :=
  words ([0xb, 80] ++ List.replicate 12 0 ++ [indirectsymoff, nindirectsyms, 0, 0, 0, 0])

/-- A file: the header, the load commands, and what they speak of. -/
def file (filetype : Nat) (commands : List (List Byte)) (content : List Byte) : List Byte :=
  words [0xfeedfacf, 0x01000007, 3, filetype, commands.length, commands.flatten.length, 0, 0] ++
    commands.flatten ++ content

/-- What the commands speak of begins behind them. -/
@[simp] theorem length_file (filetype : Nat) (commands : List (List Byte)) (content : List Byte) :
    (file filetype commands content).length = 32 + commands.flatten.length + content.length := by
  simp only [file, List.length_append, length_words, List.length_cons, List.length_nil]

end Grafted.Loader.MachoFile
