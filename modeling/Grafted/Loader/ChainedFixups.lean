import Grafted.Base.Traced
import Grafted.Loader.Macho

/-! LC_DYLD_CHAINED_FIXUPS: reading the fixups of a binary and applying them.

The blob is read from the bytes of the file at the offsets the source reads, and
a read outside the file is `wild`. Applying walks three nested loops, segments,
pages and the links of a chain, over the memory the image is mapped in; every
store is recorded in a `Patch`. A chain need not end, so the walk has fuel. The
resolver of symbols is code of the caller with a state of its own. -/
namespace Grafted.Loader.ChainedFixups
open ByteMemory Traced

/-- Why a run ended before it was done. -/
inductive Stop where
  | panic
  /-- A read outside the file. -/
  | wild
  | outOfFuel
  deriving DecidableEq

/-! ### The blob -/

def u16At (data : List Byte) (offset : Nat) : Except Stop (BitVec 16) :=
  match readLE data offset 2 with
  | some n => .ok (BitVec.ofNat 16 n)
  | none => .error .wild

def u32At (data : List Byte) (offset : Nat) : Except Stop (BitVec 32) :=
  match readLE data offset 4 with
  | some n => .ok (BitVec.ofNat 32 n)
  | none => .error .wild

/-- `CStr::from_ptr(..).to_str().unwrap()`. -/
def cstrAt (data : List Byte) (offset : Nat) : Except Stop String :=
  let bytes := (data.drop offset).takeWhile (· != 0)
  if offset + bytes.length < data.length then
    match String.fromUTF8? ⟨(bytes.map UInt8.ofBitVec).toArray⟩ with
    | some name => .ok name
    | none => .error .panic
  else .error .wild

/-- `dyld_chained_fixups_header`, and where in the file the blob begins. -/
structure Header where
  base : Nat
  startsOffset : BitVec 32
  importsOffset : BitVec 32
  symbolsOffset : BitVec 32
  importsCount : BitVec 32

/-- The range of the blob is sliced, so a bad one panics; its end wraps. -/
def readHeader (data : List Byte) (offset size : BitVec 32) : Except Stop Header := do
  let base := offset.toNat
  if base ≤ (offset + size).toNat ∧ (offset + size).toNat ≤ data.length then
    return ⟨base, ← u32At data (base + 4), ← u32At data (base + 8), ← u32At data (base + 12),
      ← u32At data (base + 16)⟩
  else .error .panic

/-- The library an ordinal names. -/
def dylibName (binary : MachOBinary) (libOrdinal : Nat) : String :=
  if 0 < libOrdinal ∧ libOrdinal < 0xFD ∧ libOrdinal ≤ binary.dylibDeps.length then
    ((binary.dylibDeps[libOrdinal - 1]?).map (·.name)).getD "self"
  else "self"

/-- `dyld_chained_import`: lib_ordinal:8, weak_import:1, name_offset:23. The weak
bit is not looked at. -/
def readImport (binary : MachOBinary) (header : Header) (i : Nat) : Except Stop (String × String) := do
  let importRaw ← u32At binary.data (header.base + header.importsOffset.toNat + i * 4)
  let libOrdinal := (importRaw &&& 0xFF).toNat
  let nameOffset := header.symbolsOffset + (importRaw >>> 9)
  let name ← cstrAt binary.data (header.base + nameOffset.toNat)
  return (dylibName binary libOrdinal, name)

/-- `dyld_chained_starts_in_segment` with the segment it is about. -/
structure SegmentStarts where
  segment : Segment
  pageStarts : Nat
  pageSize : BitVec 16
  pointerFormat : BitVec 16
  pageCount : BitVec 16

def segmentCount (binary : MachOBinary) (header : Header) : Except Stop (BitVec 32) :=
  u32At binary.data (header.base + header.startsOffset.toNat)

/-- The starts of segment `i`; none if it has none, is not in the image, or is one
the caller does not `take`. -/
def segmentStarts (take : Segment → Bool) (binary : MachOBinary) (header : Header) (i : Nat) :
    Except Stop (Option SegmentStarts) := do
  let starts := header.base + header.startsOffset.toNat
  let segInfoOffset ← u32At binary.data (starts + 4 + i * 4)
  if segInfoOffset = 0 then return none
  let seg := starts + segInfoOffset.toNat
  match binary.segments[i]? with
  | none => return none
  | some segment =>
    if !take segment then return none
    return some ⟨segment, seg + 22, ← u16At binary.data (seg + 4), ← u16At binary.data (seg + 6),
      ← u16At binary.data (seg + 20)⟩

/-- Where the chain of page `j` begins; 0xFFFF says that the page has none. -/
def pageStart (binary : MachOBinary) (starts : SegmentStarts) (j : Nat) :
    Except Stop (Option Address) := do
  let pageStartOffset ← u16At binary.data (starts.pageStarts + j * 2)
  if pageStartOffset = 0xFFFF then return none
  return some (starts.segment.vmaddr + binary.slide +
    BitVec.ofNat 64 j * starts.pageSize.setWidth 64 + pageStartOffset.setWidth 64)

/-! ### Pointers -/

structure Decoded where
  isBind : Bool
  next : Word
  addr : Word

def importOrdinal (encoded : Word) : Nat := (encoded &&& 0xFFFFFF).toNat

def importAt (resolvedImports : List Word) (encoded : Word) : Word :=
  resolvedImports.getD (importOrdinal encoded) 0

/-- The signed byte of a format 6 bind. -/
def bindAddend (encoded : Word) : Word := ((encoded >>> 24).setWidth 8).signExtend 64

def target (encoded : Word) : Word := encoded &&& 0xFFFFFFFFF

def high8 (encoded : Word) : Word := (encoded >>> 36) &&& 0xFF

/-- The offset a format 1 rebase holds in two fields. -/
def unpacked (encoded : Word) : Word := (high8 encoded <<< 56) ||| target encoded

def isBind (encoded : Word) : Bool := encoded >>> 63 != 0

def nextStride (encoded : Word) : Word := (encoded >>> 51) &&& 0xFFF

/-- The word a pointer becomes; none if the format is not supported. -/
def decodePointer (ptrFormat : BitVec 16) (resolvedImports : List Word) (actualLoadAddress : Address)
    (encoded : Word) : Option Decoded :=
  if ptrFormat = 1 then
    let addr :=
      if isBind encoded then importAt resolvedImports encoded
      else if unpacked encoded = 0 then 0 else actualLoadAddress + unpacked encoded
    some ⟨isBind encoded, nextStride encoded, addr⟩
  else if ptrFormat = 6 then
    let addr :=
      if isBind encoded then
        let base := importAt resolvedImports encoded
        if base = 0 then 0 else base + bindAddend encoded
      else if target encoded = 0 then 0 else actualLoadAddress + target encoded
    some ⟨isBind encoded, nextStride encoded, addr⟩
  else none

/-! ### Applying -/

/-- One store of the loop. -/
structure Patch where
  address : Address
  format : BitVec 16
  encoded : Word
  stored : Word
  deriving DecidableEq

abbrev Fix (α : Type) := Traced Memory Patch α

def patch (address : Address) (format : BitVec 16) (encoded stored : Word) : Fix Unit := do
  emit fun _ => ⟨address, format, encoded, stored⟩
  modify (·.writeWord address stored)

section Apply
variable (resolvedImports : List Word) (actualLoadAddress : Address)

/-- The loop over the links of a chain. An unsupported format ends it. -/
def walkChain (ptrFormat : BitVec 16) : Nat → Address → Fix (Option Stop)
  | 0, _ => pure (some .outOfFuel)
  | fuel + 1, chainPtr => do
    let encoded ← read (·.readWord chainPtr)
    match decodePointer ptrFormat resolvedImports actualLoadAddress encoded with
    | none => pure none
    | some d =>
      patch chainPtr ptrFormat encoded d.addr
      if d.next = 0 then pure none else walkChain ptrFormat fuel (chainPtr + d.next * 4)

def fixPage (fuel : Nat) (binary : MachOBinary) (starts : SegmentStarts) (j : Nat) :
    Fix (Option Stop) :=
  match pageStart binary starts j with
  | .error e => pure (some e)
  | .ok none => pure none
  | .ok (some chainPtr) =>
    walkChain resolvedImports actualLoadAddress starts.pointerFormat fuel chainPtr

def fixSegment (fuel : Nat) (binary : MachOBinary) (header : Header) (i : Nat) : Fix (Option Stop) :=
  match segmentStarts notPageZero binary header i with
  | .error e => pure (some e)
  | .ok none => pure none
  | .ok (some starts) =>
    untilSome (fixPage resolvedImports actualLoadAddress fuel binary starts)
      (List.range starts.pageCount.toNat)

def fixSegments (fuel : Nat) (binary : MachOBinary) (header : Header) : Fix (Option Stop) :=
  match segmentCount binary header with
  | .error e => pure (some e)
  | .ok count =>
    untilSome (fixSegment resolvedImports actualLoadAddress fuel binary header)
      (List.range count.toNat)

end Apply

/-- The address of the mach header the rebases are relative to. -/
def loadAddress (binary : MachOBinary) : Address :=
  (binary.textSegment.map (·.vmaddr)).getD 0 + binary.slide

section Resolve
variable {σ : Type} (resolveSymbol : String → String → σ → Word × σ)

/-- Resolve imports in order, from one on. -/
def resolveImports (binary : MachOBinary) (header : Header) :
    List Nat → σ → Except Stop (List Word) × σ
  | [], s => (.ok [], s)
  | i :: rest, s =>
    match readImport binary header i with
    | .error e => (.error e, s)
    | .ok (dylib, name) =>
      let (addr, s) := resolveSymbol dylib name s
      let (addrs, s) := resolveImports binary header rest s
      (addrs.map (addr :: ·), s)

/-- What a run left. -/
structure Applied (σ : Type) where
  stop : Option Stop
  resolver : σ
  memory : Memory
  patches : List Patch

def applyFixups (fuel : Nat) (binary : MachOBinary) (s : σ) (memory : Memory) : Applied σ :=
  match binary.chainedFixups with
  | none => ⟨none, s, memory, []⟩
  | some (offset, size) =>
    match readHeader binary.data offset size with
    | .error e => ⟨some e, s, memory, []⟩
    | .ok header =>
      match resolveImports resolveSymbol binary header (List.range header.importsCount.toNat) s with
      | (.error e, s) => ⟨some e, s, memory, []⟩
      | (.ok resolvedImports, s) =>
        let r := fixSegments resolvedImports (loadAddress binary) fuel binary header memory
        ⟨r.value, s, r.state, r.trace⟩

end Resolve

end Grafted.Loader.ChainedFixups
