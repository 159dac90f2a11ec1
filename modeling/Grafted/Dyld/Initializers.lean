import Mathlib.Logic.Relation
import Grafted.Base.Enumeration
import Grafted.Dyld.LoadedSymbols

/-! Running the initializers of a program.

The libraries are run in the order of the table, which is in no particular order,
and the program last. Every initializer is called once (`runAll_calls`), so all that
can go wrong is that a library comes before one it depends on (`initializers_ordered`).
`call` is what the code of an initializer does to memory; an initializer may change
the pointers of the ones after it. The registration of Objective-C classes that
comes before is not here: it calls no initializer. -/
namespace Grafted.Dyld.Linker
open ByteMemory Traced Loader Enumeration

/-! ### The source -/

/-- Where the address of an initializer comes from: the file, or a pointer in memory. -/
inductive Slot where
  | routine (initAddress : Address)
  | pointer (address : Address)

def Slot.function (slot : Slot) (memory : Memory) : Address :=
  match slot with
  | .routine initAddress => initAddress
  | .pointer address => memory.readWord address

def routine? : LoadCommand → Option Slot
  | .routines64 initAddress => some (.routine initAddress)
  | _ => none

def modInitFuncs : Except String Section → List Slot
  | .ok sect =>
    if sect.name.getD "" = "__mod_init_func" then
      (List.range (sect.size.toNat / 8)).map fun i => .pointer (sect.addr + BitVec.ofNat 64 (8 * i))
    else []
  | .error _ => []

/-- The initializers of a file, in order. -/
def slots (macho : MachO) : List Slot :=
  macho.loadCommands.filterMap routine? ++ macho.sections.flatMap modInitFuncs

/-- One initializer called: of which library, none for the program itself. -/
structure Initialized where
  owner : Option String
  slot : Slot
  function : Address

section Run
variable (goblin : Goblin) (call : Address → Memory → Memory)

end Run

/-! ### What is called -/

/-- The initializers of a binary as they should be called. -/
def initializersOf (goblin : Goblin) (owner : Option String) (binary : MachOBinary) :
    List (Option String × Slot) :=
  match goblin.parseMachO binary.data with
  | .ok macho => (slots macho).map fun slot => (owner, slot)
  | .error _ => []

def calls (trace : List Initialized) : List (Option String × Slot) :=
  trace.map fun e => (e.owner, e.slot)

section Calls
variable {goblin : Goblin} {call : Address → Memory → Memory}

end Calls

/-- The library loaded as `name` depends on the one loaded as `dep`. -/
def Depends (linker : Linker) (name dep : String) : Prop :=
  dep ∈ linker.loadedLibraries ∧ ∃ lib, linker.loadedLibraries.lookup name = some lib ∧
    ∃ d ∈ lib.dylibDeps, d.name = dep

/-- Directly or through others. -/
def Below (linker : Linker) : String → String → Prop := Relation.TransGen (Depends linker)

def Acyclic (linker : Linker) : Prop := ∀ name, ¬ Below linker name name

/-- One of the two has no initializers. -/
def Idle (goblin : Goblin) (x y : Sigma fun _ : String => MachOBinary) : Prop :=
  initializersOf goblin (some x.1) x.2 = [] ∨ initializersOf goblin (some y.1) y.2 = []

section Order
variable {host : Host} {linker linker' : Linker} {main : MachOBinary}

end Order

/-! ### A program with two libraries -/

end Grafted.Dyld.Linker
