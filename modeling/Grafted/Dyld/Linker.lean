import Grafted.Base.Traced
import Grafted.Dyld.Resolver
import Grafted.Loader.ChainedFixups
import Grafted.Loader.Mapper

/-! The linker: loading the libraries of a binary, and finding and binding symbols.

The two hash maps are tables with an enumeration, which is in no particular
order. `Host` is the code and the system the source calls. Looking a symbol up
can make a stub class, so it moves the state `Objc` of two class tables. Loading
takes names off a stack until none is left, with fuel. -/
namespace Grafted.Dyld
open ByteMemory Traced Loader

abbrev SymbolTable := AList fun _ : String => Word

/-- The stub addresses are those of two functions. -/
structure Host where
  goblin : Goblin
  fileExists : Path → Bool
  readFile : String → Except String (List Byte)
  kernel : Mapper.Kernel
  /-- 0 if the symbol is not there. -/
  dlsym : String → Word
  /-- The block each allocation answers. -/
  calloc : Nat → Word
  trap : Word
  soft : Word
  calloc_ne_zero : ∀ n, calloc n ≠ 0
  trap_ne_soft : trap ≠ soft
  trap_ne_zero : trap ≠ 0
  soft_ne_zero : soft ≠ 0

/-! Addresses an allocator and the two stubs may have. -/

theorem block_ne_zero : ∀ _ : Nat, (0x600000000000 : Word) ≠ 0 := fun _ => by decide

theorem stubs_apart : (0x500000000100 : Word) ≠ 0x500000000200 := by decide

theorem trap_stub_ne_zero : (0x500000000100 : Word) ≠ 0 := by decide

theorem soft_stub_ne_zero : (0x500000000200 : Word) ≠ 0 := by decide

structure Linker where
  registry : AList fun _ : String => SymbolTable
  resolver : DylibResolver
  loadedLibraries : AList fun _ : String => MachOBinary

inductive LinkError where
  | parse (message : String)
  | unresolved (symbol dylib : String)
  | loader (e : LoaderError)
  | libraryNotFound (name : String)

/-- Why loading ended before it was done. -/
inductive LoadStop where
  | error (e : LinkError)
  | panic
  | wild
  | outOfFuel

namespace Linker

/-- `registry` is what the shims and the frameworks register. -/
def new (registry : AList fun _ : String => SymbolTable) : Linker := ⟨registry, .new, ∅⟩

def addOverride (linker : Linker) (darwinPath : String) (linuxPath : Path) : Linker :=
  {linker with resolver := linker.resolver.addOverride darwinPath linuxPath}

/-! ### Loading -/

structure Pending where
  dylib : String
  loader : Path
  rpaths : List String

/-- The stack has its top first. -/
structure Loading where
  linker : Linker
  loaded : List String
  toLoad : List Pending
  space : Mapper.AddressSpace

def stop : Failure → LoadStop
  | .error e => .error (.loader e)
  | .panic => .panic
  | .wild => .wild

def pendingDeps (binary : MachOBinary) (path : Path) : List Pending :=
  (binary.dylibDeps.map fun dep => ⟨dep.name, path, binary.rpaths⟩).reverse

section Load
variable (host : Host) (executablePath : Path)

/-- One turn of the loop, for a name taken off the stack. -/
def loadOne (next : Pending) (st : Loading) : Except LoadStop Loading :=
  if next.dylib ∈ st.loaded ∨ next.dylib ∈ st.linker.registry then .ok st
  else
    match st.linker.resolver.resolve host.fileExists (some executablePath) (some next.loader)
        next.dylib next.rpaths with
    | none => .ok {st with loaded := next.dylib :: st.loaded}
    | some linuxPath =>
      match MachOBinary.fromPath host.goblin host.readFile linuxPath.display with
      | .error (.error _) => .ok {st with loaded := next.dylib :: st.loaded}
      | .error e => .error (stop e)
      | .ok libBinary =>
        match Mapper.mapBinary host.kernel libBinary st.space with
        | .error e => .error (stop e)
        | .ok ((_, slide), space) => .ok {
            linker := {st.linker with loadedLibraries :=
              st.linker.loadedLibraries.insert next.dylib {libBinary with slide := slide}}
            loaded := next.dylib :: st.loaded
            toLoad := pendingDeps libBinary linuxPath ++ st.toLoad
            space := space }

def loadAll : Nat → Loading → Except LoadStop Loading
  | 0, st =>
    match st.toLoad with
    | [] => .ok st
    | _ :: _ => .error .outOfFuel
  | fuel + 1, st =>
    match st.toLoad with
    | [] => .ok st
    | next :: rest => do
      let st ← loadOne host executablePath next {st with toLoad := rest}
      loadAll fuel st

end Load

def loadDependencies (host : Host) (fuel : Nat) (linker : Linker) (binary : MachOBinary)
    (space : Mapper.AddressSpace) : Except LoadStop (Linker × Mapper.AddressSpace) := do
  let path := Path.ofString binary.path
  let st ← loadAll host path fuel ⟨linker, [], pendingDeps binary path, space⟩
  return (st.linker, st.space)

/-! ### Classes -/

/-- The linker's cache of class stubs, the registry of the runtime, and the number
of classes allocated so far. -/
structure Objc where
  classCache : AList fun _ : String => Word
  classRegistry : AList fun _ : String => Word
  allocated : Nat

def Objc.getClass (objc : Objc) (name : String) : Word := (objc.classRegistry.lookup name).getD 0

/-- A name with a NUL in it is no C string, and the empty one stands in. -/
def cName (name : String) : String := if '\x00' ∈ name.toList then "" else name

def autoCreateObjcClass (host : Host) (name : String) (objc : Objc) : Word × Objc :=
  match objc.classCache.lookup name with
  | some cls => (cls, objc)
  | none =>
    let existing := objc.getClass (cName name)
    if existing ≠ 0 then
      (existing, {objc with classCache := objc.classCache.insert name existing})
    else
      let cls := host.calloc objc.allocated
      (cls, {
        classCache := objc.classCache.insert name cls
        classRegistry := objc.classRegistry.insert (cName name) cls
        allocated := objc.allocated + 1 })

/-! ### Looking up -/

/-- `dylib.rsplit('/').next()`. -/
def shortName (dylib : String) : String :=
  String.ofList (dylib.toList.reverse.takeWhile (· != '/')).reverse

def endsWith (s tail : String) : Bool := tail.toList.isSuffixOf s.toList

def startsWith (s start : String) : Bool := start.toList.isPrefixOf s.toList

/-- No exports if goblin cannot read them. -/
def exportsOf (macho : MachO) : List Export := macho.exports.toOption.getD []

/-- The table often has the name with an underscore in front. -/
def names (sym : Symbol) (symbol : String) : Bool :=
  sym.name == symbol || stripPrefix "_" sym.name == some symbol

/-- A value of 0 is passed over. -/
def symbolValue (symbol : String) : Except String Symbol → Option Address
  | .ok sym => if names sym symbol ∧ sym.nValue ≠ 0 then some sym.nValue else none
  | .error _ => none

/-- The export trie first, then the symbol table. -/
def findSymbolInBinary (goblin : Goblin) (binary : MachOBinary) (symbol : String) :
    Option Address :=
  match goblin.parseMachO binary.data with
  | .error _ => none
  | .ok macho =>
    match binary.textSegment with
    | none => none
    | some textSeg =>
      match (exportsOf macho).find? (·.name = symbol) with
      | some found => some (textSeg.vmaddr + found.offset)
      | none => macho.symbols.findSome? (symbolValue symbol)

section Resolve
variable (host : Host) (linker : Linker) (dylib symbol : String)

def findRegistered : Option Address :=
  match (linker.registry.lookup dylib).bind (·.lookup symbol) with
  | some addr => some addr
  | none => linker.registry.entries.findSome? fun table =>
    if endsWith table.1 (shortName dylib) then table.2.lookup symbol else none

def findLoaded : Option Address :=
  match (linker.loadedLibraries.lookup dylib).bind (findSymbolInBinary host.goblin · symbol) with
  | some addr => some addr
  | none => linker.loadedLibraries.entries.findSome? fun lib =>
    findSymbolInBinary host.goblin lib.2 symbol

def findClass (start symbol : String) (objc : Objc) : Option Address × Objc :=
  match stripPrefix start symbol with
  | none => (none, objc)
  | some className =>
    let (cls, objc) := autoCreateObjcClass host className objc
    (if cls = 0 then none else some cls, objc)

/-- The Swift runtime is among the libraries of the process. -/
def findSwift (symbol : String) : Option Address :=
  if startsWith symbol "_$s" ∨ startsWith symbol "$s" ∨ startsWith symbol "_swift_" then
    let addr := host.dlsym ((stripPrefix "_" symbol).getD symbol)
    if addr = 0 then none else some addr
  else none

def resolve (isWeak : Bool) (objc : Objc) : Except LinkError Address × Objc :=
  match findRegistered linker dylib symbol with
  | some addr => (.ok addr, objc)
  | none =>
    match findLoaded host linker dylib symbol with
    | some addr => (.ok addr, objc)
    | none =>
      match findClass host "_OBJC_CLASS_$_" symbol objc with
      | (some cls, objc) => (.ok cls, objc)
      | (none, objc) =>
        match findClass host "_OBJC_METACLASS_$_" symbol objc with
        | (some cls, objc) => (.ok cls, objc)
        | (none, objc) =>
          match findSwift host symbol with
          | some addr => (.ok addr, objc)
          | none =>
            if isWeak then (.ok 0, objc) else (.error (.unresolved symbol dylib), objc)

/-- What chained fixups resolve their imports with: not weak, and any symbol that
is not found is the soft stub. -/
def resolveExternal (objc : Objc) : Address × Objc :=
  match resolve host linker dylib symbol false objc with
  | (.ok addr, objc) => (addr, objc)
  | (.error _, objc) => (host.soft, objc)

end Resolve

/-! ### Binding -/

structure Process where
  objc : Objc
  memory : Memory

/-- One pointer stored, with the class tables its symbol was looked up in. -/
structure Bound where
  entry : Import
  asked : Objc
  stored : Word

section Bind
variable (host : Host) (linker : Linker)

def bindAddr (entry : Import) (objc : Objc) : Address × Objc :=
  match resolve host linker entry.dylib entry.name entry.isWeak objc with
  | (.ok addr, objc) => (addr, objc)
  | (.error _, objc) => (host.trap, objc)

/-- The addend of the import is not read. -/
def bindImport (entry : Import) : Traced Process Bound Unit := do
  let (addr, objc) ← read fun p => bindAddr host linker entry p.objc
  emit fun p => ⟨entry, p.objc, addr⟩
  modify fun p => ⟨objc, p.memory.writeWord entry.address addr⟩

def bind (data : List Byte) : Traced Process Bound (Except LinkError Nat) :=
  match host.goblin.parseMachO data with
  | .error message => pure (.error (.parse message))
  | .ok macho =>
    match macho.imports with
    | .error message => pure (.error (.parse message))
    | .ok imports => do
      each (bindImport host linker) imports
      pure (.ok imports.length)

end Bind

end Linker

end Grafted.Dyld
