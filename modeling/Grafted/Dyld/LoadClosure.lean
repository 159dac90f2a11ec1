import Grafted.Dyld.LoadRuns

/-! Loading the dependencies of a program.

The loop starts with the names the program links. It ends, it loads no name twice, and
no dependency is left when it ends well (`load_closure`). -/
namespace Grafted.Dyld.Linker
open Loader

/-! ### The loop -/

section Main
variable (host : Host)

def start (linker : Linker) (binary : MachOBinary) (space : Mapper.AddressSpace) : Loading :=
  ⟨linker, [], pendingDeps binary (Path.ofString binary.path), space⟩

/-- The turns of `load_dependencies`. -/
def loadTurns (fuel : Nat) (linker : Linker) (binary : MachOBinary) (space : Mapper.AddressSpace) :
    List Turn :=
  turns host (Path.ofString binary.path) fuel (start linker binary space)

/-- The dependencies of the files and of the root binary. -/
def allNames (files : List String) (binary : MachOBinary) : Finset String :=
  ((binary.dylibDeps ++ files.flatMap fun path =>
    match MachOBinary.fromPath host.goblin host.readFile path with
    | .ok lib => lib.dylibDeps
    | .error _ => []).map DylibDep.name).toFinset

variable {host}

theorem mem_allNames {files : List String} {binary : MachOBinary} {dep : DylibDep} :
    (dep ∈ binary.dylibDeps ∨ ∃ path ∈ files, ∃ lib,
      MachOBinary.fromPath host.goblin host.readFile path = .ok lib ∧ dep ∈ lib.dylibDeps) →
    dep.name ∈ allNames host files binary := by
  intro h
  refine List.mem_toFinset.mpr (List.mem_map.mpr ⟨dep, List.mem_append.mpr ?_, rfl⟩)
  rcases h with h | ⟨path, hpath, lib, hparse, hdep⟩
  · exact .inl h
  · refine .inr (List.mem_flatMap.mpr ⟨path, hpath, ?_⟩)
    rw [hparse]
    exact hdep

theorem loadDependencies_ok {fuel : Nat} {linker linker' : Linker} {binary : MachOBinary}
    {space space' : Mapper.AddressSpace}
    (h : loadDependencies host fuel linker binary space = .ok (linker', space')) :
    ∃ st', Ran host (Path.ofString binary.path) (start linker binary space)
      (loadTurns host fuel linker binary space) st' ∧ st'.linker = linker' ∧ st'.space = space' := by
  obtain ⟨st', hall, hst'⟩ := Fallible.bind_ok h
  cases hst'
  exact ⟨st', loadAll_ran hall, rfl, rfl⟩

theorem loadDependencies_induction {P : MachOBinary → Prop}
    (mapped : ∀ {path lib space entry slide space'},
      MachOBinary.fromPath host.goblin host.readFile path = .ok lib →
      Mapper.mapBinary host.kernel lib space = .ok ((entry, slide), space') →
      P {lib with slide := slide})
    {fuel : Nat} {linker linker' : Linker} {binary : MachOBinary} {space space' : Mapper.AddressSpace}
    (h : loadDependencies host fuel linker binary space = .ok (linker', space'))
    (hempty : linker.loadedLibraries = ∅) :
    ∀ name lib, linker'.loadedLibraries.lookup name = some lib → P lib := by
  obtain ⟨st', hran, rfl, -⟩ := loadDependencies_ok h
  refine hran.loaded_induction mapped fun name lib hlib => ?_
  have hnone : linker.loadedLibraries.lookup name = some lib := hlib
  rw [hempty, AList.lookup_empty] at hnone
  exact nomatch hnone

/-- **Loading the dependencies of a binary.** When finitely many files can be loaded
the loop ends. No name is looked for twice, and none is mapped twice. When it
answers, every dependency of the root binary and of every loaded library is
registered, loaded, or was skipped. -/
theorem load_closure {files : List String} (hfiles : ∀ path lib,
      MachOBinary.fromPath host.goblin host.readFile path = .ok lib → path ∈ files)
    (registry : AList fun _ : String => SymbolTable) (resolver : DylibResolver)
    (binary : MachOBinary) (space : Mapper.AddressSpace) :
    (∃ enough answer, answer ≠ .error .outOfFuel ∧ ∀ fuel ≥ enough,
      loadDependencies host fuel ⟨registry, resolver, ∅⟩ binary space = answer) ∧
    ∀ fuel,
      let run := loadTurns host fuel ⟨registry, resolver, ∅⟩ binary space
      (asked run).Nodup ∧
      ((images host (Path.ofString binary.path) run).map Image.name).Nodup ∧
      ∀ linker space',
        loadDependencies host fuel ⟨registry, resolver, ∅⟩ binary space = .ok (linker, space') →
        ∀ name, Needed binary linker name → name ∈ linker.registry ∨
          name ∈ linker.loadedLibraries ∨ ∃ turn ∈ run,
            turn.Skips host (Path.ofString binary.path) ∧ turn.next.dylib = name := by
  constructor
  · have hall : ∀ path lib, MachOBinary.fromPath host.goblin host.readFile path = .ok lib →
        ∀ dep ∈ lib.dylibDeps, dep.name ∈ allNames host files binary :=
      fun path lib hparse dep hdep => mem_allNames (.inr ⟨path, hfiles path lib hparse, lib, hparse, hdep⟩)
    have hroot : ∀ p ∈ (start ⟨registry, resolver, ∅⟩ binary space).toLoad,
        p.dylib ∈ allNames host files binary := by
      intro p hp
      obtain ⟨dep, hdep, rfl⟩ := List.mem_map.mp (List.mem_reverse.mp hp)
      exact mem_allNames (.inl hdep)
    have hends : Ends host (Path.ofString binary.path) (start ⟨registry, resolver, ∅⟩ binary space) :=
      loadAll_ends hall _ le_rfl hroot
    obtain ⟨enough, answer, hanswer, hends⟩ := hends
    refine ⟨enough, answer >>= fun st => .ok (st.linker, st.space), ?_, fun fuel hfuel => ?_⟩
    · intro he
      cases answer with
      | ok st => exact nomatch he
      | error e =>
        cases he
        exact hanswer rfl
    · rw [← hends fuel hfuel]
      rfl
  · intro fuel run
    have hasked : (asked run).Nodup := (asked_once fuel _).1
    refine ⟨hasked, hasked.sublist (images_sublist run), fun linker space' hload name hname => ?_⟩
    obtain ⟨st', hran, rfl, rfl⟩ := loadDependencies_ok hload
    obtain ⟨-, hloaded, hneeded⟩ := hran.settled binary
    have hstart : ∀ name, Needed binary (⟨registry, resolver, ∅⟩ : Linker) name →
        Covered (start ⟨registry, resolver, ∅⟩ binary space) name := by
      intro name h
      obtain ⟨dep, hdep, rfl⟩ | ⟨key, lib, hlib, -⟩ := h
      · exact .inr (.inr (pendingDeps_covers _ hdep))
      · rw [AList.lookup_empty] at hlib
        exact nomatch hlib
    rcases hneeded hstart name hname with hregistry | hknown
    · exact .inl hregistry
    · rcases hloaded name hknown with hold | hlib | hskipped
      · exact nomatch hold
      · exact .inr (.inl hlib)
      · exact .inr (.inr hskipped)

end Main

/-! ### Some file systems -/

/-- What goblin reports of a library with these dependencies and this __TEXT. -/
def graphMachO (vmaddr : ByteMemory.Address) (deps : List String) : MachO where
  filetype := 6
  cputype := CPU_TYPE_X86_64
  name := none
  libs := deps
  rpaths := []
  loadCommands := [.segment64 (some "__TEXT") vmaddr 0x1000 0 0 5 5]
  exports := .ok []
  symbols := []
  imports := .ok []

/-- A system of libraries: each has a path and dependencies. A file holds its path. -/
def graphHost (vmaddr : ByteMemory.Address) (files : List (String × List String)) : Host where
  goblin := {
    parseMachO := fun data =>
      match files.lookup (String.ofList (data.map fun b => Char.ofNat b.toNat)) with
      | some deps => .ok (graphMachO vmaddr deps)
      | none => .error "no such file"
    parseMach := fun _ => .error "" }
  fileExists := fun path => path.display ∈ files.map Prod.fst
  readFile := fun path =>
    if path ∈ files.map Prod.fst then .ok (path.toList.map fun c => BitVec.ofNat 8 c.toNat)
    else .error "no such file"
  kernel := ⟨fun _ _ => .ok 0x7f0000000000, fun _ _ _ => none, fun _ _ _ _ => none⟩
  dlsym := fun _ => 0
  calloc := fun _ => 0x600000000000
  trap := 0x500000000100
  soft := 0x500000000200
  calloc_ne_zero := block_ne_zero
  trap_ne_soft := stubs_apart
  trap_ne_zero := trap_stub_ne_zero
  soft_ne_zero := soft_stub_ne_zero

theorem graphHost_files (vmaddr : ByteMemory.Address) (files : List (String × List String))
    {path : String} {lib : MachOBinary} (h : MachOBinary.fromPath (graphHost vmaddr files).goblin
      (graphHost vmaddr files).readFile path = .ok lib) : path ∈ files.map Prod.fst := by
  by_contra hpath
  have hread : (graphHost vmaddr files).readFile path = .error "no such file" := if_neg hpath
  rw [MachOBinary.fromPath, hread] at h
  exact nomatch h

def graphProgram (deps : List String) : MachOBinary where
  path := "/bin/program"
  fileType := 2
  cpuType := CPU_TYPE_X86_64
  entryPoint := 0
  entryIsOffset := true
  segments := []
  dylibDeps := deps.map fun dep => ⟨dep, 0, 0⟩
  rpaths := []
  chainedFixups := none
  exportsTrie := none
  data := []
  slide := 0

def emptySpace : Mapper.AddressSpace := ⟨fun _ => false, fun _ => 0, 0⟩

/-- Two libraries that need each other, and one that is not there. -/
def cycleFiles : List (String × List String) :=
  [("/liba.dylib", ["/libb.dylib", "/libc.dylib"]), ("/libb.dylib", ["/liba.dylib"])]

/-- Both are loaded. -/
theorem cycle_loads : ∃ linker space', loadDependencies (graphHost 0x200000000 cycleFiles) 4
    ⟨∅, .new, ∅⟩ (graphProgram ["/liba.dylib"]) emptySpace = .ok (linker, space') ∧
      linker.loadedLibraries.keys = ["/libb.dylib", "/liba.dylib"] ∧
      linker.registry.keys = [] ∧ Needed (graphProgram ["/liba.dylib"]) linker "/libc.dylib" :=
  ⟨_, _, rfl, by decide, rfl, .inr ⟨"/liba.dylib", _, rfl, _,
    List.mem_cons_of_mem _ List.mem_cons_self, rfl⟩⟩

theorem load_closure_cycle :
    (∃ enough answer, answer ≠ .error .outOfFuel ∧ ∀ fuel ≥ enough,
      loadDependencies (graphHost 0x200000000 cycleFiles) fuel ⟨∅, .new, ∅⟩
        (graphProgram ["/liba.dylib"]) emptySpace = answer) ∧
    ∃ linker space', loadDependencies (graphHost 0x200000000 cycleFiles) 4 ⟨∅, .new, ∅⟩
        (graphProgram ["/liba.dylib"]) emptySpace = .ok (linker, space') ∧
      linker.loadedLibraries.keys = ["/libb.dylib", "/liba.dylib"] ∧
      ∃ turn ∈ loadTurns (graphHost 0x200000000 cycleFiles) 4 ⟨∅, .new, ∅⟩
          (graphProgram ["/liba.dylib"]) emptySpace,
        turn.Skips (graphHost 0x200000000 cycleFiles) ⟨true, ["bin", "program"]⟩ ∧
          turn.next.dylib = "/libc.dylib" := by
  obtain ⟨hends, hruns⟩ := load_closure (fun _ _ => graphHost_files
    0x200000000 cycleFiles) ∅ .new (graphProgram ["/liba.dylib"]) emptySpace
  obtain ⟨linker, space', hload, hkeys, hregistry, hneeded⟩ := cycle_loads
  refine ⟨hends, linker, space', hload, hkeys, ?_⟩
  rcases (hruns 4).2.2 linker space' hload "/libc.dylib" hneeded with hmem | hmem | hskipped
  · rw [AList.mem_keys, hregistry] at hmem
    exact nomatch hmem
  · rw [AList.mem_keys, hkeys] at hmem
    exact absurd hmem (by decide)
  · exact hskipped

end Grafted.Dyld.Linker
