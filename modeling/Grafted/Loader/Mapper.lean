import Grafted.Loader.Macho

/-! Mapping the segments of a binary.

An `AddressSpace` says which bytes are mapped and what they hold; an anonymous
mapping is of exactly the range asked for and reads as zero. A `Kernel` is the
answers of the system, which may depend on everything so far. A fixed mapping that
succeeds is where it was asked for. -/
namespace Grafted.Loader.Mapper
open ByteMemory

structure AddressSpace where
  mapped : Address → Bool
  memory : Memory
  calls : Nat

structure Prot where
  read : Bool
  write : Bool
  exec : Bool

structure Kernel where
  mmapAnywhere : AddressSpace → Nat → Except String Address
  /-- The error of a fixed mapping, none if it is made. -/
  mmapFixed : AddressSpace → Address → Nat → Option String
  mprotect : AddressSpace → Address → Nat → Prot → Option String

def within (base : Address) (size : Nat) (x : Address) : Bool := (x - base).toNat < size

namespace AddressSpace

def map (s : AddressSpace) (base : Address) (size : Nat) : AddressSpace where
  mapped := fun x => within base size x || s.mapped x
  memory := fun x => if within base size x then 0 else s.memory x
  calls := s.calls + 1

def unmap (s : AddressSpace) (base : Address) (size : Nat) : AddressSpace :=
  {s with mapped := fun x => !within base size x && s.mapped x, calls := s.calls + 1}

def copyIn (s : AddressSpace) (base : Address) (bytes : List Byte) : AddressSpace :=
  {s with memory := fun x => (bytes[(x - base).toNat]?).getD (s.memory x)}

end AddressSpace

def machoProtToLinux (prot : BitVec 32) : Prot where
  read := prot &&& 1 != 0
  write := prot &&& 2 != 0
  exec := prot &&& 4 != 0

/-- `{:#x}`. -/
def hex (x : Word) : String := "0x" ++ String.ofList (Nat.toDigits 16 x.toNat)

section Map
variable (kernel : Kernel)

/-- At address 0 the kernel picks the place. -/
def mmapSegment (vmaddr : Address) (vmsize : Nat) (s : AddressSpace) :
    Except Failure (Address × AddressSpace) :=
  if vmaddr = 0 then
    match kernel.mmapAnywhere s vmsize with
    | .error e => .error (.error (.mmap ("mmap at " ++ hex vmaddr ++ ": " ++ e)))
    | .ok ptr => .ok (ptr, s.map ptr vmsize)
  else
    match kernel.mmapFixed s vmaddr vmsize with
    | some e => .error (.error (.mmap ("mmap at " ++ hex vmaddr ++ ": " ++ e)))
    | none => .ok (vmaddr, s.map vmaddr vmsize)

/-- The sum of the bound check wraps, so what it lets through may still panic at
the slice or read past the end of the file. -/
def copySegment (data : List Byte) (seg : Segment) (ptr : Address) (s : AddressSpace) :
    Except Failure AddressSpace :=
  if 0 < seg.filesize.toNat ∧ (seg.fileoff + seg.filesize).toNat ≤ data.length then
    if data.length < seg.fileoff.toNat then .error .panic
    else if data.length < seg.fileoff.toNat + seg.filesize.toNat then .error .wild
    else .ok (s.copyIn ptr ((data.drop seg.fileoff.toNat).take seg.filesize.toNat))
  else .ok s

def mapSegment (data : List Byte) (slide : Word) (seg : Segment) (s : AddressSpace) :
    Except Failure AddressSpace :=
  if seg.vmsize = 0 then .ok s
  else do
    let (ptr, s) ← mmapSegment kernel (seg.vmaddr + slide) seg.vmsize.toNat s
    let s ← copySegment data seg ptr s
    match kernel.mprotect s ptr seg.vmsize.toNat (machoProtToLinux seg.initprot) with
    | some e => .error (.error (.mmap ("mprotect " ++ seg.name ++ ": " ++ e)))
    | none => .ok {s with calls := s.calls + 1}

def mapSegments (data : List Byte) (slide : Word) :
    List Segment → AddressSpace → Except Failure AddressSpace
  | [], s => .ok s
  | seg :: rest, s =>
    if notPageZero seg then do
      let s ← mapSegment kernel data slide seg s
      mapSegments data slide rest s
    else mapSegments data slide rest s

/-- The end of the highest segment. The sums wrap. -/
def totalSize (binary : MachOBinary) : Nat :=
  ((binary.segments.filter notPageZero).map fun seg => (seg.vmaddr + seg.vmsize).toNat).foldl max 0

/-- A dylib, with __TEXT at 0, is slid to a range the kernel picks: it is mapped
and unmapped to get the address. -/
def chooseSlide (binary : MachOBinary) (s : AddressSpace) : Except Failure (Word × AddressSpace) :=
  if (binary.textSegment.map (·.vmaddr)).getD 0 = 0 then
    if totalSize binary = 0 then .error (.error (.mmap "dylib has no segments"))
    else
      match kernel.mmapAnywhere s (totalSize binary) with
      | .error e => .error (.error (.mmap ("dylib slide alloc: " ++ e)))
      | .ok base => .ok (base, (s.map base (totalSize binary)).unmap base (totalSize binary))
  else .ok (0, s)

def entryAddress (binary : MachOBinary) (slide : Word) : Except Failure Address :=
  if binary.entryIsOffset then
    match binary.textSegment with
    | none => .error (.error .noTextSegment)
    | some ts => .ok (ts.vmaddr + slide - ts.fileoff + binary.entryPoint)
  else .ok (binary.entryPoint + slide)

/-- The entry point and the slide. The slide the binary carries is not read. -/
def mapBinary (binary : MachOBinary) (s : AddressSpace) :
    Except Failure ((Address × Word) × AddressSpace) := do
  let (slide, s) ← chooseSlide kernel binary s
  let s ← mapSegments kernel binary.data slide binary.segments s
  let entry ← entryAddress binary slide
  return ((entry, slide), s)

end Map

end Grafted.Loader.Mapper
