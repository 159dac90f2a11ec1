import Grafted.Dyld.LoadClosure

/-! Symbols of loaded libraries.

Every library the linker holds was mapped, with the slide it carries
(`loadDependencies_mapped`). A library that defines a symbol is where the symbol is
found, unless a registered table has it (`resolve_eq_find`), at the address the
file gives, which is where it is in memory only when the library was not slid
(`resolve_loaded`). -/
namespace Grafted.Dyld.Linker
open ByteMemory Loader

/-! ### Loading -/

/-- The slide of the library is the one it was mapped with. -/
def Mapped (kernel : Mapper.Kernel) (lib : MachOBinary) : Prop :=
  ∃ space entry space', Mapper.mapBinary kernel {lib with slide := 0} space =
    .ok ((entry, lib.slide), space')

def AllMapped (kernel : Mapper.Kernel) (linker : Linker) : Prop :=
  ∀ name lib, linker.loadedLibraries.lookup name = some lib → Mapped kernel lib

theorem loadDependencies_mapped {host : Host} {fuel : Nat} {linker linker' : Linker}
    {binary : MachOBinary} {space space' : Mapper.AddressSpace}
    (h : loadDependencies host fuel linker binary space = .ok (linker', space'))
    (hempty : linker.loadedLibraries = ∅) : AllMapped host.kernel linker' := by
  refine loadDependencies_induction (P := Mapped host.kernel) ?_ h hempty
  intro path lib space entry slide space' hparse hmap
  have hslide : lib.slide = 0 := (MachOBinary.fromPath_data hparse).2
  have hsame : {lib with slide := 0} = lib := by
    rw [← hslide]
  exact ⟨space, entry, space', by rw [hsame, hmap]⟩

/-! ### Looking up -/

/-- The library defines the symbol at this address, not counting the slide: in its
export trie, or only in its symbol table, where 0 is the value of a symbol that is
not defined. -/
def DefinedAt (goblin : Goblin) (lib : MachOBinary) (symbol : String) (a : Address) : Prop :=
  ∃ macho textSeg, goblin.parseMachO lib.data = .ok macho ∧ lib.textSegment = some textSeg ∧
    ((∃ e ∈ exportsOf macho, e.name = symbol ∧ a = textSeg.vmaddr + e.offset) ∨
      ((∀ e ∈ exportsOf macho, e.name ≠ symbol) ∧
        ∃ sym, .ok sym ∈ macho.symbols ∧ names sym symbol ∧ sym.nValue ≠ 0 ∧ a = sym.nValue))

theorem symbolValue_eq_some {symbol : String} {entry : Except String Symbol} {a : Address} :
    symbolValue symbol entry = some a ↔
      ∃ sym, entry = .ok sym ∧ names sym symbol ∧ sym.nValue ≠ 0 ∧ a = sym.nValue := by
  cases entry with
  | error e => exact ⟨fun h => (nomatch h), fun ⟨_, h, _⟩ => (nomatch h)⟩
  | ok sym =>
    constructor
    · intro h
      obtain ⟨⟨hnames, hvalue⟩, ha⟩ := Option.ite_none_right_eq_some.mp h
      exact ⟨sym, rfl, hnames, hvalue, (Option.some.inj ha).symm⟩
    · rintro ⟨_, h, hnames, hvalue, rfl⟩
      cases h
      exact if_pos ⟨hnames, hvalue⟩

/-- A definition is found, the slide is not added. -/
theorem findSymbolInBinary_defined {goblin : Goblin} {lib : MachOBinary} {symbol : String}
    {a : Address} (h : DefinedAt goblin lib symbol a) :
    ∃ found, findSymbolInBinary goblin lib symbol = some found ∧
      DefinedAt goblin lib symbol found := by
  obtain ⟨macho, textSeg, hparse, htext, hdef⟩ := h
  simp only [findSymbolInBinary, hparse, htext]
  cases hfind : (exportsOf macho).find? (·.name = symbol) with
  | some e =>
    have hname : e.name = symbol := by simpa using List.find?_some hfind
    exact ⟨_, rfl, macho, textSeg, hparse, htext, .inl ⟨e, List.mem_of_find?_eq_some hfind, hname, rfl⟩⟩
  | none =>
    have hnone : ∀ e ∈ exportsOf macho, e.name ≠ symbol := by simpa using hfind
    rcases hdef with ⟨e, he, hname, -⟩ | ⟨-, sym, hsym, hnames, hvalue, -⟩
    · exact absurd hname (hnone e he)
    · obtain ⟨found, hfound⟩ : ∃ found, macho.symbols.findSome? (symbolValue symbol) = some found := by
        refine Option.ne_none_iff_exists'.mp fun hno => ?_
        have hvalueNone := List.findSome?_eq_none_iff.mp hno (.ok sym) hsym
        rw [symbolValue_eq_some.mpr ⟨sym, rfl, hnames, hvalue, rfl⟩] at hvalueNone
        exact nomatch hvalueNone
      obtain ⟨entry, hentry, hvalue'⟩ := List.exists_of_findSome?_eq_some hfound
      obtain ⟨sym', rfl, hnames', hne, rfl⟩ := symbolValue_eq_some.mp hvalue'
      exact ⟨_, hfound, macho, textSeg, hparse, htext, .inr ⟨hnone, sym', hentry, hnames', hne, rfl⟩⟩

/-- Two enumerations of the same tables. -/
def SameTables (linker linker' : Linker) : Prop :=
  linker.registry.entries.Perm linker'.registry.entries ∧
    linker.loadedLibraries.entries.Perm linker'.loadedLibraries.entries

theorem findRegistered_none {linker : Linker} {dylib symbol : String}
    (h : ∀ table ∈ linker.registry.entries, table.2.lookup symbol = none) :
    findRegistered linker dylib symbol = none := by
  have hexact : (linker.registry.lookup dylib).bind (·.lookup symbol) = none := by
    cases htable : linker.registry.lookup dylib with
    | none => rfl
    | some table => exact h ⟨dylib, table⟩ (AList.mem_lookup_iff.mp htable)
  have hscan : (linker.registry.entries.findSome? fun table =>
      if endsWith table.1 (shortName dylib) then table.2.lookup symbol else none) = none := by
    refine List.findSome?_eq_none_iff.mpr fun table htable => ?_
    split
    · exact h table htable
    · rfl
  rw [findRegistered, hexact]
  exact hscan

/-- Whatever the order of the tables, a library that has the symbol is asked before
the others. -/
theorem resolve_eq_find {host : Host} {linker linker' : Linker} (hsame : SameTables linker linker')
    {name symbol : String} (hreg : ∀ table ∈ linker.registry.entries, table.2.lookup symbol = none)
    {lib : MachOBinary} (hlib : linker.loadedLibraries.lookup name = some lib) {found : Address}
    (hfound : findSymbolInBinary host.goblin lib symbol = some found) (isWeak : Bool)
    (objc : Objc) : resolve host linker' name symbol isWeak objc = (.ok found, objc) := by
  have hreg' : findRegistered linker' name symbol = none :=
    findRegistered_none fun table htable => hreg table (hsame.1.mem_iff.mpr htable)
  have hlib' : linker'.loadedLibraries.lookup name = some lib := by
    rw [← AList.perm_lookup hsame.2, hlib]
  have hloaded : findLoaded host linker' name symbol = some found := by
    rw [findLoaded, hlib', Option.bind_some, hfound]
  rw [resolve, hreg', hloaded]

/-- **Where a symbol of a loaded library is found.** The library carries the slide it
was mapped with, and the symbol is found where it is in memory, slide included,
exactly when the slide is 0 and the library gives the symbol one address. -/
theorem resolve_loaded {host : Host} {fuel : Nat} {start linker : Linker} {binary : MachOBinary}
    {space space' : Mapper.AddressSpace} (hempty : start.loadedLibraries = ∅)
    (hload : loadDependencies host fuel start binary space = .ok (linker, space'))
    {name : String} {lib : MachOBinary} (hlib : linker.loadedLibraries.lookup name = some lib)
    {symbol : String} (hreg : ∀ table ∈ linker.registry.entries, table.2.lookup symbol = none)
    {a₀ : Address} (hdef : DefinedAt host.goblin lib symbol a₀) {linker' : Linker}
    (hsame : SameTables linker linker') (isWeak : Bool) (objc : Objc) :
    Mapped host.kernel lib ∧
      ((∀ a, DefinedAt host.goblin lib symbol a →
          (resolve host linker' name symbol isWeak objc).1 = .ok (a + lib.slide)) ↔
        lib.slide = 0 ∧ ∀ a, DefinedAt host.goblin lib symbol a → a = a₀) := by
  refine ⟨loadDependencies_mapped hload hempty name lib hlib, ?_⟩
  obtain ⟨found, hfound, hfoundDef⟩ := findSymbolInBinary_defined hdef
  rw [resolve_eq_find hsame hreg hlib hfound]
  constructor
  · intro h
    have hall : ∀ a, DefinedAt host.goblin lib symbol a → found = a + lib.slide :=
      fun a ha => Except.ok.inj (h a ha)
    have hslide : lib.slide = 0 := by
      have hself := hall found hfoundDef
      bv_omega
    refine ⟨hslide, fun a ha => ?_⟩
    have ha := hall a ha
    have h₀ := hall a₀ hdef
    bv_omega
  · rintro ⟨hslide, hone⟩ a ha
    have hfoundEq : found = a + lib.slide := by
      rw [hone found hfoundDef, hone a ha, hslide]
      exact (BitVec.add_zero a₀).symm
    rw [hfoundEq]

/-- What goblin reports of a library that exports one symbol, 16 bytes into __TEXT. -/
def libMachO (vmaddr : Address) : MachO where
  filetype := 6
  cputype := CPU_TYPE_X86_64
  name := none
  libs := []
  rpaths := []
  loadCommands := [.segment64 (some "__TEXT") vmaddr 0x1000 0 0 5 5]
  exports := .ok [⟨"_f", 0x10⟩]
  symbols := []
  imports := .ok []

/-- A system where every file is that library, and whose kernel picks one address. -/
def libHost (vmaddr : Address) : Host where
  goblin := ⟨fun _ => .ok (libMachO vmaddr), fun _ => .error ""⟩
  fileExists := fun _ => true
  readFile := fun _ => .ok []
  kernel := ⟨fun _ _ => .ok 0x7f0000000000, fun _ _ _ => none, fun _ _ _ _ => none⟩
  dlsym := fun _ => 0
  calloc := fun _ => 0x600000000000
  trap := 0x500000000100
  soft := 0x500000000200
  calloc_ne_zero := block_ne_zero
  trap_ne_soft := stubs_apart
  trap_ne_zero := trap_stub_ne_zero
  soft_ne_zero := soft_stub_ne_zero

def libPath : Path := ⟨true, ["usr", "lib", "libf.dylib"]⟩

def libBinary (vmaddr slide : Address) : MachOBinary where
  path := libPath.display
  fileType := 6
  cpuType := CPU_TYPE_X86_64
  entryPoint := 0
  entryIsOffset := false
  segments := [⟨"__TEXT", vmaddr, 0x1000, 0, 0, 5, 5⟩]
  dylibDeps := []
  rpaths := []
  chainedFixups := none
  exportsTrie := none
  data := []
  slide := slide

/-- A program that depends on the library. -/
def program : MachOBinary :=
  {libBinary 0x100000000 0 with path := "/bin/program", dylibDeps := [⟨"libf.dylib", 0, 0⟩]}

def emptyObjc : Objc := ⟨∅, ∅, 0⟩

def startLinker : Linker := (new ∅).addOverride "libf.dylib" libPath

def loadedLinker (vmaddr slide : Address) : Linker :=
  {startLinker with loadedLibraries := AList.insert "libf.dylib" (libBinary vmaddr slide) ∅}

theorem program_loads : ∃ space', loadDependencies (libHost 0x200000000) 2 startLinker program
    emptySpace = .ok (loadedLinker 0x200000000 0, space') := ⟨_, rfl⟩

theorem program_loads_slid : ∃ space', loadDependencies (libHost 0) 2 startLinker program
    emptySpace = .ok (loadedLinker 0 0x7f0000000000, space') := ⟨_, rfl⟩

theorem libBinary_defines (vmaddr slide : Address) :
    DefinedAt (libHost vmaddr).goblin (libBinary vmaddr slide) "_f" (vmaddr + 0x10) :=
  ⟨libMachO vmaddr, _, rfl, rfl, .inl ⟨⟨"_f", 0x10⟩, List.mem_cons_self, rfl, rfl⟩⟩

theorem resolve_loaded_unslid :
    Mapped (libHost 0x200000000).kernel (libBinary 0x200000000 0) ∧
      ((∀ a, DefinedAt (libHost 0x200000000).goblin (libBinary 0x200000000 0) "_f" a →
          (resolve (libHost 0x200000000) (loadedLinker 0x200000000 0) "libf.dylib" "_f" false
            emptyObjc).1 = .ok (a + 0)) ↔
        (0 : Word) = 0 ∧ ∀ a, DefinedAt (libHost 0x200000000).goblin (libBinary 0x200000000 0)
          "_f" a → a = 0x200000010) := by
  obtain ⟨_, hload⟩ := program_loads
  exact resolve_loaded rfl hload rfl (fun _ h => nomatch h) (libBinary_defines 0x200000000 0)
    ⟨.refl _, .refl _⟩ false emptyObjc

/-- In a slid library the address found is that of the file. -/
theorem slid_symbol_missed : ¬ ∀ {host : Host} {fuel : Nat} {start linker : Linker}
    {binary : MachOBinary} {space space' : Mapper.AddressSpace}, start.loadedLibraries = ∅ →
    loadDependencies host fuel start binary space = .ok (linker, space') →
    ∀ {name : String} {lib : MachOBinary}, linker.loadedLibraries.lookup name = some lib →
    ∀ {symbol : String}, (∀ table ∈ linker.registry.entries, table.2.lookup symbol = none) →
    ∀ {a : Address}, DefinedAt host.goblin lib symbol a → ∀ (isWeak : Bool) (objc : Objc),
    (resolve host linker name symbol isWeak objc).1 = .ok (a + lib.slide) := by
  intro h
  obtain ⟨_, hload⟩ := program_loads_slid
  have hlib : (loadedLinker 0 0x7f0000000000).loadedLibraries.lookup "libf.dylib" =
      some (libBinary 0 0x7f0000000000) := rfl
  have hfound := h rfl hload hlib (fun _ h => nomatch h)
    (libBinary_defines 0 0x7f0000000000) false emptyObjc
  have hresolve : (resolve (libHost 0) (loadedLinker 0 0x7f0000000000) "libf.dylib" "_f" false
      emptyObjc).1 = .ok 0x10 := rfl
  rw [hresolve] at hfound
  exact absurd (Except.ok.inj hfound) (by decide)

end Grafted.Dyld.Linker
