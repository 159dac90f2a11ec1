import Grafted.Dyld.LoadClosure

/-! Which image a dependency is served by.

An image is kept under the name it was mapped for, and found under that name. So
two dependencies are served by one image when they have one name, and it is the
file of the one that was processed first (`images_by_name`). -/
namespace Grafted.Dyld.Linker
open Loader

section Runs
variable {host : Host} {executablePath : Path}

theorem Ran.resolver {st st' : Loading} {run : List Turn} (h : Ran host executablePath st run st') :
    ∀ turn ∈ run, turn.st.linker.resolver = st.linker.resolver := by
  induction h with
  | done _ => exact fun _ h => nomatch h
  | turn _ hturn _ ih =>
    intro turn hmem
    rcases List.mem_cons.mp hmem with rfl | hmem
    · rfl
    · exact (ih turn hmem).trans hturn.resolver

/-- A name that is known or registered is not mapped any more. -/
theorem Turned.lookup {next : Pending} {st st' : Loading} (h : Turned host executablePath next st st')
    {name : String} (hname : Asks next st → name ≠ next.dylib) :
    st'.linker.loadedLibraries.lookup name = st.linker.loadedLibraries.lookup name := by
  cases h with
  | known _ => rfl
  | skipped _ _ => rfl
  | mapped hasks _ _ _ => exact AList.lookup_insert_ne (hname hasks)

theorem Ran.lookup_known {st st' : Loading} {run : List Turn} (h : Ran host executablePath st run st')
    {name : String} (hname : name ∈ st.loaded ∨ name ∈ st.linker.registry) :
    st'.linker.loadedLibraries.lookup name = st.linker.loadedLibraries.lookup name := by
  induction h with
  | done _ => rfl
  | @turn st st₁ st' next rest later _ hturn _ ih =>
    have hknown : name ∈ st₁.loaded ∨ name ∈ st₁.linker.registry := by
      rw [hturn.registry]
      exact hname.imp_left fun hloaded => hturn.loaded hloaded
    refine (ih hknown).trans (hturn.lookup fun hasks heq => hasks ?_)
    rw [← heq]
    exact hname

/-- A new library of the run is the one its first turn mapped. -/
theorem Ran.first {st st' : Loading} {run : List Turn} (h : Ran host executablePath st run st')
    {name : String} (hloaded : name ∉ st.loaded) (hlib : name ∉ st.linker.loadedLibraries)
    (hname : name ∈ st'.linker.loadedLibraries) :
    ∃ first image slide, run.find? (fun turn => turn.next.dylib = name) = some first ∧
      first.image host executablePath = some image ∧
      st'.linker.loadedLibraries.lookup name = some {image.binary with slide := slide} := by
  have hnot : ∀ {st₁ st₂ : Loading} {later : List Turn}, Ran host executablePath st₁ later st₂ →
      name ∈ st₁.loaded ∨ name ∈ st₁.linker.registry → name ∈ st₂.linker.loadedLibraries →
      name ∈ st₁.linker.loadedLibraries := by
    intro st₁ st₂ later hran hknown hmem
    rw [← AList.lookup_isSome, ← hran.lookup_known hknown, AList.lookup_isSome]
    exact hmem
  induction h with
  | done _ => exact absurd hname hlib
  | @turn st st₁ st' next rest later _ hturn hlater ih =>
    by_cases hnext : next.dylib = name
    · have hhead : name ∈ next.dylib :: st.loaded := by
        rw [hnext]
        exact List.mem_cons_self
      rw [List.find?_cons_of_pos (by simpa using hnext)]
      cases hturn with
      | known hknown =>
        have hknown : name ∈ st.loaded ∨ name ∈ st.linker.registry := by
          rw [← hnext]
          exact not_not.mp hknown
        exact absurd (hnot hlater hknown hname) hlib
      | skipped _ _ => exact absurd (hnot hlater (.inl hhead) hname) hlib
      | @mapped linuxPath libBinary entry slide space hasks hfile hparse _ =>
        refine ⟨_, ⟨next.dylib, linuxPath, libBinary⟩, slide, rfl, ?_, ?_⟩
        · rw [Turn.image, if_pos hasks, hfile]
          dsimp only
          rw [hparse]
        · rw [hlater.lookup_known (.inl hhead), keep, hnext]
          exact AList.lookup_insert _
    · rw [List.find?_cons_of_neg (by simpa using hnext)]
      refine ih ?_ ?_ hname
      · cases hturn with
        | known _ => exact hloaded
        | skipped _ _ =>
          exact fun hmem => (List.mem_cons.mp hmem).elim (fun heq => hnext heq.symm) hloaded
        | mapped _ _ _ _ =>
          exact fun hmem => (List.mem_cons.mp hmem).elim (fun heq => hnext heq.symm) hloaded
      · rw [← AList.lookup_eq_none] at hlib ⊢
        exact (hturn.lookup fun _ heq => hnext heq.symm).trans hlib

end Runs

/-! ### The image of an edge -/

/-- A dependency is served by image `k`: it is under the name of the dependency, and
is what the linker holds under that name. -/
def Uses (images : List Image) (linker : Linker) (name : String) (k : Nat) : Prop :=
  ∃ image slide, images[k]? = some image ∧ image.name = name ∧
    linker.loadedLibraries.lookup name = some {image.binary with slide := slide}

theorem Uses.unique {images : List Image} {linker : Linker} {name : String} {k k' : Nat}
    (hnodup : (images.map Image.name).Nodup) (h : Uses images linker name k)
    (h' : Uses images linker name k') : k = k' := by
  obtain ⟨image, _, hk, hname, -⟩ := h
  obtain ⟨image', _, hk', hname', -⟩ := h'
  have hkMap : (images.map Image.name)[k]? = some name := by
    rw [List.getElem?_map, hk, Option.map_some, hname]
  have hkMap' : (images.map Image.name)[k']? = some name := by
    rw [List.getElem?_map, hk', Option.map_some, hname']
  obtain ⟨hlt, -⟩ := List.getElem?_eq_some_iff.mp hkMap
  exact (List.getElem?_inj hlt hnodup).mp (hkMap.trans hkMap'.symm)

/-- **One image for each name.** Every dependency whose name was loaded is served by
exactly one image, of the file the resolver gives for the first dependency of that
name; two of them are served by one image exactly when they have one name. -/
theorem images_by_name {host : Host} {fuel : Nat} {registry : AList fun _ : String => SymbolTable}
    {resolver : DylibResolver} {binary : MachOBinary} {space space' : Mapper.AddressSpace}
    {linker : Linker}
    (hload : loadDependencies host fuel ⟨registry, resolver, ∅⟩ binary space = .ok (linker, space')) :
    let run := loadTurns host fuel ⟨registry, resolver, ∅⟩ binary space
    let mapped := images host (Path.ofString binary.path) run
    (∀ turn ∈ run, turn.next.dylib ∈ linker.loadedLibraries →
      ∃ k first, Uses mapped linker turn.next.dylib k ∧
        (∀ k', Uses mapped linker turn.next.dylib k' → k' = k) ∧
        run.find? (fun t => t.next.dylib = turn.next.dylib) = some first ∧
        (mapped[k]?).map Image.file =
          edgeFile host (Path.ofString binary.path) resolver first.next) ∧
    ∀ turn ∈ run, turn.next.dylib ∈ linker.loadedLibraries →
      ∀ turn' ∈ run, turn'.next.dylib ∈ linker.loadedLibraries →
        ((∃ k, Uses mapped linker turn.next.dylib k ∧ Uses mapped linker turn'.next.dylib k) ↔
          turn.next.dylib = turn'.next.dylib) := by
  intro run mapped
  obtain ⟨st', hran, rfl, rfl⟩ := loadDependencies_ok hload
  have hasked : (asked run).Nodup := (asked_once fuel _).1
  have hnodup : (mapped.map Image.name).Nodup := hasked.sublist (images_sublist run)
  have hserved : ∀ turn ∈ run, turn.next.dylib ∈ st'.linker.loadedLibraries →
      ∃ k first, Uses mapped st'.linker turn.next.dylib k ∧
        (∀ k', Uses mapped st'.linker turn.next.dylib k' → k' = k) ∧
        run.find? (fun t => t.next.dylib = turn.next.dylib) = some first ∧
        (mapped[k]?).map Image.file =
          edgeFile host (Path.ofString binary.path) resolver first.next := by
    intro turn _ hlib
    obtain ⟨first, image, slide, hfirst, himage, hlookup⟩ :=
      hran.first List.not_mem_nil (AList.notMem_empty _) hlib
    obtain ⟨-, hname, hfile, -⟩ := image_some himage
    have hfirstName : first.next.dylib = turn.next.dylib := by
      simpa using List.find?_some hfirst
    have hmem : image ∈ mapped :=
      List.mem_filterMap.mpr ⟨first, List.mem_of_find?_eq_some hfirst, himage⟩
    obtain ⟨k, hk⟩ := List.mem_iff_getElem?.mp hmem
    have huses : Uses mapped st'.linker turn.next.dylib k :=
      ⟨image, slide, hk, hname.trans hfirstName, hlookup⟩
    refine ⟨k, first, huses, fun k' hk' => hk'.unique hnodup huses, hfirst, ?_⟩
    rw [hk, Option.map_some, ← hfile, hran.resolver first (List.mem_of_find?_eq_some hfirst)]
    rfl
  refine ⟨hserved, fun turn hturn hlib turn' _ _ => ⟨?_, fun heq => ?_⟩⟩
  · intro h
    obtain ⟨k, ⟨image, _, hk, hname, -⟩, image', _, hk', hname', -⟩ := h
    cases hk.symm.trans hk'
    exact hname.symm.trans hname'
  · obtain ⟨k, -, huses, -⟩ := hserved turn hturn hlib
    exact ⟨k, huses, heq ▸ huses⟩

/-- A program that names one file in two ways. -/
def aliasProgram : MachOBinary :=
  {graphProgram ["/lib/liba.dylib", "@rpath/liba.dylib"] with rpaths := ["/lib"]}

def aliasHost : Host := graphHost 0 [("/lib/liba.dylib", [])]

theorem alias_loads : ∃ linker space', loadDependencies aliasHost 2 ⟨∅, .new, ∅⟩ aliasProgram
    emptySpace = .ok (linker, space') ∧ "/lib/liba.dylib" ∈ linker.loadedLibraries ∧
      "@rpath/liba.dylib" ∈ linker.loadedLibraries :=
  ⟨_, _, rfl, by decide, by decide⟩

/-- The names as they are taken off the stack. -/
def aliasEdges : List Pending :=
  ["@rpath/liba.dylib", "/lib/liba.dylib"].map fun name => ⟨name, ⟨true, ["bin", "program"]⟩, ["/lib"]⟩

theorem alias_turns : (loadTurns aliasHost 2 ⟨∅, .new, ∅⟩ aliasProgram emptySpace).map Turn.next =
    aliasEdges := rfl

theorem images_by_name_alias : ∃ linker space',
    loadDependencies aliasHost 2 ⟨∅, .new, ∅⟩ aliasProgram emptySpace = .ok (linker, space') ∧
    let run := loadTurns aliasHost 2 ⟨∅, .new, ∅⟩ aliasProgram emptySpace
    let mapped := images aliasHost (Path.ofString aliasProgram.path) run
    ∀ turn ∈ run, turn.next.dylib ∈ linker.loadedLibraries →
      ∀ turn' ∈ run, turn'.next.dylib ∈ linker.loadedLibraries →
        ((∃ k, Uses mapped linker turn.next.dylib k ∧ Uses mapped linker turn'.next.dylib k) ↔
          turn.next.dylib = turn'.next.dylib) := by
  obtain ⟨linker, space', hload, -, -⟩ := alias_loads
  exact ⟨linker, space', hload, (images_by_name hload).2⟩

/-- One file is mapped twice, under two names. -/
theorem alias_mapped_twice : ¬ ∀ {host : Host} {fuel : Nat}
    {registry : AList fun _ : String => SymbolTable} {resolver : DylibResolver}
    {binary : MachOBinary} {space space' : Mapper.AddressSpace} {linker : Linker},
    loadDependencies host fuel ⟨registry, resolver, ∅⟩ binary space = .ok (linker, space') →
    let run := loadTurns host fuel ⟨registry, resolver, ∅⟩ binary space
    let mapped := images host (Path.ofString binary.path) run
    ∀ turn ∈ run, turn.next.dylib ∈ linker.loadedLibraries →
      ∀ turn' ∈ run, turn'.next.dylib ∈ linker.loadedLibraries →
        ((∃ k, Uses mapped linker turn.next.dylib k ∧ Uses mapped linker turn'.next.dylib k) ↔
          edgeFile host (Path.ofString binary.path) resolver turn.next =
            edgeFile host (Path.ofString binary.path) resolver turn'.next) := by
  intro h
  obtain ⟨linker, space', hload, hplain, hrpath⟩ := alias_loads
  have hedge : ∀ edge ∈ aliasEdges, ∃ turn ∈ loadTurns aliasHost 2 ⟨∅, .new, ∅⟩ aliasProgram
      emptySpace, turn.next = edge := by
    intro edge hedge
    rw [← alias_turns] at hedge
    exact List.mem_map.mp hedge
  obtain ⟨turn, hturn, hnext⟩ := hedge _ List.mem_cons_self
  obtain ⟨turn', hturn', hnext'⟩ := hedge _ (List.mem_cons_of_mem _ List.mem_cons_self)
  have hsame := h hload turn hturn (by rw [hnext]; exact hrpath) turn' hturn'
    (by rw [hnext']; exact hplain)
  have hfile : edgeFile aliasHost (Path.ofString aliasProgram.path) .new turn.next =
      edgeFile aliasHost (Path.ofString aliasProgram.path) .new turn'.next := by
    rw [hnext, hnext']
    rfl
  obtain ⟨k, ⟨image, _, hk, hname, -⟩, image', _, hk', hname', -⟩ := hsame.mpr hfile
  cases hk.symm.trans hk'
  rw [hname] at hname'
  rw [hnext, hnext'] at hname'
  exact absurd hname' (by decide)

end Grafted.Dyld.Linker
