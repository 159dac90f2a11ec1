import Mathlib.Data.Finset.Card
import Grafted.Base.Fallible
import Grafted.Dyld.Linker

/-! Runs of the loading loop.

A run is its `Turn`s, one for each name taken off the stack. A turn passes a known
name over, skips one, or maps a library (`Turned`). A name is asked for once
(`asked_once`), and every dependency stays on the stack until its name is known.
With finitely many files there are finitely many names, and the loop ends. -/
namespace Grafted.Dyld.Linker
open Loader

/-! ### One turn -/

section Turns
variable (host : Host) (executablePath : Path)

/-- What the resolver answers for a dependency of `next.loader`. -/
def edgeFile (resolver : DylibResolver) (next : Pending) : Option Path :=
  resolver.resolve host.fileExists (some executablePath) (some next.loader) next.dylib next.rpaths

/-- The name is looked for. -/
def Asks (next : Pending) (st : Loading) : Prop :=
  ¬ (next.dylib ∈ st.loaded ∨ next.dylib ∈ st.linker.registry)

instance (next : Pending) (st : Loading) : Decidable (Asks next st) :=
  inferInstanceAs (Decidable (¬ (next.dylib ∈ st.loaded ∨ next.dylib ∈ st.linker.registry)))

/-- No file is found for the name, or one that cannot be read or parsed. -/
def NoLibrary (next : Pending) (st : Loading) : Prop :=
  ∀ path, edgeFile host executablePath st.linker.resolver next = some path →
    ∃ e, MachOBinary.fromPath host.goblin host.readFile path.display = .error (.error e)

def skip (next : Pending) (st : Loading) : Loading := {st with loaded := next.dylib :: st.loaded}

/-- The state after a library is mapped for a name. -/
def keep (next : Pending) (linuxPath : Path) (libBinary : MachOBinary) (slide : ByteMemory.Word)
    (space : Mapper.AddressSpace) (st : Loading) : Loading where
  linker := {st.linker with loadedLibraries :=
    st.linker.loadedLibraries.insert next.dylib {libBinary with slide := slide}}
  loaded := next.dylib :: st.loaded
  toLoad := pendingDeps libBinary linuxPath ++ st.toLoad
  space := space

/-- What a turn can do. -/
inductive Turned (next : Pending) (st : Loading) : Loading → Prop where
  | known : ¬ Asks next st → Turned next st st
  | skipped : Asks next st → NoLibrary host executablePath next st →
    Turned next st (skip next st)
  | mapped {linuxPath : Path} {libBinary : MachOBinary} {entry slide : ByteMemory.Word}
      {space : Mapper.AddressSpace} : Asks next st →
    edgeFile host executablePath st.linker.resolver next = some linuxPath →
    MachOBinary.fromPath host.goblin host.readFile linuxPath.display = .ok libBinary →
    Mapper.mapBinary host.kernel libBinary st.space = .ok ((entry, slide), space) →
    Turned next st (keep next linuxPath libBinary slide space st)

variable {host executablePath} {next : Pending} {st st' : Loading}

theorem loadOne_turned (h : loadOne host executablePath next st = .ok st') :
    Turned host executablePath next st st' := by
  unfold loadOne at h
  split_ifs at h with hknown
  · cases h
    exact .known (not_not.mpr hknown)
  · split at h
    · rename_i hfile
      cases h
      exact .skipped hknown fun path hpath => nomatch hfile.symm.trans hpath
    · rename_i linuxPath hfile
      split at h
      · rename_i e hparse
        cases h
        refine .skipped hknown fun path hpath => ?_
        cases hfile.symm.trans hpath
        exact ⟨e, hparse⟩
      · exact nomatch h
      · rename_i libBinary hparse
        split at h
        · exact nomatch h
        · rename_i entry slide space hmap
          cases h
          exact .mapped hknown hfile hparse hmap

theorem loadOne_ne_outOfFuel : loadOne host executablePath next st ≠ .error .outOfFuel := by
  have hstop : ∀ e : Failure, stop e ≠ .outOfFuel := by
    intro e
    cases e <;> exact fun h => nomatch h
  unfold loadOne
  split_ifs
  · exact fun h => nomatch h
  · split
    · exact fun h => nomatch h
    · split
      · exact fun h => nomatch h
      · exact fun h => hstop _ (Except.error.inj h)
      · split
        · exact fun h => hstop _ (Except.error.inj h)
        · exact fun h => nomatch h

theorem Turned.registry (h : Turned host executablePath next st st') :
    st'.linker.registry = st.linker.registry := by
  cases h <;> rfl

theorem Turned.resolver (h : Turned host executablePath next st st') :
    st'.linker.resolver = st.linker.resolver := by
  cases h <;> rfl

/-- A name that is known stays known. -/
theorem Turned.loaded (h : Turned host executablePath next st st') {name : String}
    (hname : name ∈ st.loaded) : name ∈ st'.loaded := by
  cases h with
  | known _ => exact hname
  | skipped _ _ => exact List.mem_cons_of_mem _ hname
  | mapped _ _ _ _ => exact List.mem_cons_of_mem _ hname

theorem Turned.asked (h : Turned host executablePath next st st') (hasks : Asks next st) :
    next.dylib ∈ st'.loaded := by
  cases h with
  | known hknown => exact absurd hasks hknown
  | skipped _ _ => exact List.mem_cons_self
  | mapped _ _ _ _ => exact List.mem_cons_self

end Turns

/-! ### Runs -/

/-- A name taken off the stack, and the state without it. -/
structure Turn where
  next : Pending
  st : Loading

/-- A library as it is mapped: for which name, from which file. -/
structure Image where
  name : String
  file : Path
  binary : MachOBinary

section Runs
variable (host : Host) (executablePath : Path)

/-- The turns of the loop, the last one perhaps without an answer. -/
def turns : Nat → Loading → List Turn
  | 0, _ => []
  | fuel + 1, st =>
    match st.toLoad with
    | [] => []
    | next :: rest =>
      ⟨next, {st with toLoad := rest}⟩ ::
        match loadOne host executablePath next {st with toLoad := rest} with
        | .ok st' => turns fuel st'
        | .error _ => []

/-- The names the resolver is asked for. -/
def asked (run : List Turn) : List String :=
  (run.filter fun turn => decide (Asks turn.next turn.st)).map fun turn => turn.next.dylib

/-- The library a turn gives to `map_binary`. -/
def Turn.image (turn : Turn) : Option Image :=
  if Asks turn.next turn.st then
    match edgeFile host executablePath turn.st.linker.resolver turn.next with
    | none => none
    | some linuxPath =>
      match MachOBinary.fromPath host.goblin host.readFile linuxPath.display with
      | .ok libBinary => some ⟨turn.next.dylib, linuxPath, libBinary⟩
      | .error _ => none
  else none

def images (run : List Turn) : List Image := run.filterMap (Turn.image host executablePath)

/-- The name of the turn has no library. -/
def Turn.Skips (turn : Turn) : Prop :=
  Asks turn.next turn.st ∧ NoLibrary host executablePath turn.next turn.st

variable {host executablePath}

theorem image_some {turn : Turn} {image : Image} (h : turn.image host executablePath = some image) :
    Asks turn.next turn.st ∧ image.name = turn.next.dylib ∧
      edgeFile host executablePath turn.st.linker.resolver turn.next = some image.file ∧
      MachOBinary.fromPath host.goblin host.readFile image.file.display = .ok image.binary := by
  unfold Turn.image at h
  split_ifs at h with hasks
  split at h
  · exact nomatch h
  · rename_i linuxPath hfile
    split at h
    · rename_i libBinary hparse
      cases h
      exact ⟨hasks, rfl, hfile, hparse⟩
    · exact nomatch h

/-- A name is mapped only if it was asked for. -/
theorem images_sublist (run : List Turn) :
    ((images host executablePath run).map Image.name).Sublist (asked run) := by
  induction run with
  | nil => exact List.Sublist.refl []
  | cons turn rest ih =>
    cases himage : turn.image host executablePath with
    | none =>
      have hrest : images host executablePath (turn :: rest) = images host executablePath rest := by
        rw [images, List.filterMap_cons, himage]
        rfl
      rw [hrest]
      refine ih.trans ?_
      exact ((List.sublist_cons_self turn rest).filter _).map _
    | some image =>
      obtain ⟨hasks, hname, -⟩ := image_some himage
      have himages : images host executablePath (turn :: rest) =
          image :: images host executablePath rest := by
        rw [images, List.filterMap_cons, himage]
        rfl
      have hasked : asked (turn :: rest) = turn.next.dylib :: asked rest := by
        simp [asked, hasks]
      rw [himages, hasked, List.map_cons, hname]
      exact ih.cons_cons _

/-- A property of the turns of every run, from that of the turns after a turn: none if
it has no answer. -/
theorem turns_induction {P : Loading → List Turn → Prop} (nil : ∀ st, P st [])
    (cons : ∀ st next rest later, st.toLoad = next :: rest →
      (later = [] ∨ ∃ st₁, Turned host executablePath next {st with toLoad := rest} st₁ ∧
        P st₁ later) → P st (⟨next, {st with toLoad := rest}⟩ :: later))
    (fuel : Nat) (st : Loading) : P st (turns host executablePath fuel st) := by
  induction fuel generalizing st with
  | zero => exact nil st
  | succ fuel ih =>
    rw [turns]
    split
    · exact nil st
    · rename_i next rest hstack
      split
      · rename_i st₁ hone
        exact cons st next rest _ hstack (.inr ⟨st₁, loadOne_turned hone, ih st₁⟩)
      · exact cons st next rest [] hstack (.inl rfl)

/-- Nobody asks for a name twice, nor for one that is known at the start. -/
theorem asked_once (fuel : Nat) (st : Loading) :
    (asked (turns host executablePath fuel st)).Nodup ∧
      ∀ name ∈ asked (turns host executablePath fuel st), name ∉ st.loaded := by
  refine turns_induction (P := fun st run => (asked run).Nodup ∧ ∀ name ∈ asked run, name ∉ st.loaded)
    (fun _ => ⟨List.nodup_nil, fun _ h => nomatch h⟩) ?_ fuel st
  intro st next rest later _ hafter
  have hlater : (asked later).Nodup ∧ (∀ name ∈ asked later, name ∉ st.loaded) ∧
      (Asks next {st with toLoad := rest} → next.dylib ∉ asked later) := by
    rcases hafter with rfl | ⟨st₁, hturn, hnodup, hnew⟩
    · exact ⟨List.nodup_nil, fun _ h => (nomatch h), fun _ h => nomatch h⟩
    · refine ⟨hnodup, fun name hname hold => hnew name hname (hturn.loaded hold), ?_⟩
      exact fun hasks hagain => hnew _ hagain (hturn.asked hasks)
  obtain ⟨hnodup, hnew, hfirst⟩ := hlater
  by_cases hasks : Asks next {st with toLoad := rest}
  · have hasked : asked (⟨next, {st with toLoad := rest}⟩ :: later) = next.dylib :: asked later := by
      simp [asked, hasks]
    rw [hasked]
    refine ⟨List.nodup_cons.mpr ⟨hfirst hasks, hnodup⟩, fun name hname => ?_⟩
    rcases List.mem_cons.mp hname with rfl | hname
    · exact fun hold => hasks (.inl hold)
    · exact hnew name hname
  · have hasked : asked (⟨next, {st with toLoad := rest}⟩ :: later) = asked later := by
      simp [asked, hasks]
    rw [hasked]
    exact ⟨hnodup, hnew⟩

/-- A run that ends: its turns, each with its answer. -/
inductive Ran (host : Host) (executablePath : Path) : Loading → List Turn → Loading → Prop where
  | done {st : Loading} : st.toLoad = [] → Ran host executablePath st [] st
  | turn {st st₁ st' : Loading} {next : Pending} {rest : List Pending} {later : List Turn} :
    st.toLoad = next :: rest →
    Turned host executablePath next {st with toLoad := rest} st₁ →
    Ran host executablePath st₁ later st' →
    Ran host executablePath st (⟨next, {st with toLoad := rest}⟩ :: later) st'

theorem loadAll_nil {fuel : Nat} {st : Loading} (h : st.toLoad = []) :
    loadAll host executablePath fuel st = .ok st := by
  cases fuel <;> rw [loadAll, h]

theorem loadAll_cons {fuel : Nat} {st : Loading} {next : Pending} {rest : List Pending}
    (h : st.toLoad = next :: rest) : loadAll host executablePath (fuel + 1) st =
      loadOne host executablePath next {st with toLoad := rest} >>=
        loadAll host executablePath fuel := by
  rw [loadAll, h]

theorem loadAll_ran {fuel : Nat} {st st' : Loading}
    (h : loadAll host executablePath fuel st = .ok st') :
    Ran host executablePath st (turns host executablePath fuel st) st' := by
  induction fuel generalizing st with
  | zero =>
    cases hstack : st.toLoad with
    | nil =>
      rw [loadAll_nil hstack] at h
      cases h
      exact .done hstack
    | cons next rest =>
      rw [loadAll, hstack] at h
      exact nomatch h
  | succ fuel ih =>
    cases hstack : st.toLoad with
    | nil =>
      have hturns : turns host executablePath (fuel + 1) st = [] := by rw [turns, hstack]
      rw [loadAll_nil hstack] at h
      cases h
      rw [hturns]
      exact .done hstack
    | cons next rest =>
      rw [loadAll_cons hstack] at h
      obtain ⟨st₁, hone, hrest⟩ := Fallible.bind_ok h
      have hturns : turns host executablePath (fuel + 1) st =
          ⟨next, {st with toLoad := rest}⟩ :: turns host executablePath fuel st₁ := by
        rw [turns, hstack]
        dsimp only
        rw [hone]
      rw [hturns]
      exact .turn hstack (loadOne_turned hone) (ih hrest)

/-! ### Closure -/

/-- A dependency of the root binary or of a loaded library. -/
def Needed (root : MachOBinary) (linker : Linker) (name : String) : Prop :=
  (∃ dep ∈ root.dylibDeps, dep.name = name) ∨
    ∃ key lib, linker.loadedLibraries.lookup key = some lib ∧ ∃ dep ∈ lib.dylibDeps, dep.name = name

/-- The name is registered, known, or on the stack. -/
def Covered (st : Loading) (name : String) : Prop :=
  name ∈ st.linker.registry ∨ name ∈ st.loaded ∨ ∃ p ∈ st.toLoad, p.dylib = name

theorem pendingDeps_covers {binary : MachOBinary} (path : Path) {dep : DylibDep}
    (hdep : dep ∈ binary.dylibDeps) : ∃ p ∈ pendingDeps binary path, p.dylib = dep.name :=
  ⟨⟨dep.name, path, binary.rpaths⟩,
    List.mem_reverse.mpr (List.mem_map.mpr ⟨dep, hdep, rfl⟩), rfl⟩

/-- A turn takes one name off the stack, and knows it after. -/
theorem Turned.covered {next : Pending} {rest : List Pending} {st st' : Loading}
    (h : Turned host executablePath next {st with toLoad := rest} st') (hstack : st.toLoad = next :: rest)
    {name : String} (hcovered : Covered st name) : Covered st' name := by
  have hnext : next.dylib ∈ st'.linker.registry ∨ next.dylib ∈ st'.loaded := by
    by_cases hasks : Asks next {st with toLoad := rest}
    · exact .inr (h.asked hasks)
    · rcases not_not.mp hasks with hloaded | hregistry
      · exact .inr (h.loaded hloaded)
      · rw [h.registry]
        exact .inl hregistry
  have hrest : ∀ p ∈ rest, p ∈ st'.toLoad := by
    intro p hp
    cases h with
    | known _ => exact hp
    | skipped _ _ => exact hp
    | mapped _ _ _ _ => exact List.mem_append_right _ hp
  rcases hcovered with hregistry | hloaded | ⟨p, hp, hname⟩
  · refine .inl ?_
    rw [h.registry]
    exact hregistry
  · exact .inr (.inl (h.loaded hloaded))
  · rw [hstack] at hp
    rcases List.mem_cons.mp hp with rfl | hp
    · rw [← hname]
      exact hnext.elim .inl fun hloaded => .inr (.inl hloaded)
    · exact .inr (.inr ⟨p, hrest p hp, hname⟩)

theorem Turned.needed {root : MachOBinary} {next : Pending} {rest : List Pending} {st st' : Loading}
    (h : Turned host executablePath next {st with toLoad := rest} st') (hstack : st.toLoad = next :: rest)
    (hst : ∀ name, Needed root st.linker name → Covered st name) {name : String}
    (hname : Needed root st'.linker name) : Covered st' name := by
  have hkeep : ∀ name, Covered st name → Covered st' name := fun _ => h.covered hstack
  cases h with
  | known _ => exact hkeep name (hst name hname)
  | skipped _ _ => exact hkeep name (hst name hname)
  | @mapped linuxPath libBinary entry slide space _ _ _ _ =>
    rcases hname with hroot | ⟨key, lib, hlib, dep, hdep, hdepName⟩
    · exact hkeep name (hst name (.inl hroot))
    · by_cases hkey : key = next.dylib
      · rw [hkey, keep, AList.lookup_insert] at hlib
        cases hlib
        obtain ⟨p, hp, hpName⟩ := pendingDeps_covers linuxPath hdep
        exact .inr (.inr ⟨p, List.mem_append_left _ hp, hpName.trans hdepName⟩)
      · rw [keep, AList.lookup_insert_ne hkey] at hlib
        exact hkeep name (hst name (.inr ⟨key, lib, hlib, dep, hdep, hdepName⟩))

theorem Turned.libraries {next : Pending} {st st' : Loading}
    (h : Turned host executablePath next st st') {name : String}
    (hname : name ∈ st.linker.loadedLibraries) : name ∈ st'.linker.loadedLibraries := by
  cases h with
  | known _ => exact hname
  | skipped _ _ => exact hname
  | mapped _ _ _ _ => exact (AList.mem_insert _).mpr (.inr hname)

/-- At the end every name is registered, or was known at the start, or was loaded
or skipped by a turn. -/
theorem Ran.settled {st st' : Loading} {run : List Turn}
    (h : Ran host executablePath st run st') (root : MachOBinary) :
    (∀ name ∈ st.linker.loadedLibraries, name ∈ st'.linker.loadedLibraries) ∧
    (∀ name ∈ st'.loaded, name ∈ st.loaded ∨ name ∈ st'.linker.loadedLibraries ∨
      ∃ turn ∈ run, turn.Skips host executablePath ∧ turn.next.dylib = name) ∧
    ((∀ name, Needed root st.linker name → Covered st name) →
      ∀ name, Needed root st'.linker name → name ∈ st'.linker.registry ∨ name ∈ st'.loaded) := by
  induction h with
  | done hstack =>
    refine ⟨fun _ => id, fun name hname => .inl hname, fun hst name hname => ?_⟩
    rcases hst name hname with hregistry | hloaded | ⟨p, hp, _⟩
    · exact .inl hregistry
    · exact .inr hloaded
    · rw [hstack] at hp
      exact nomatch hp
  | @turn st st₁ st' next rest later hstack hturn _ ih =>
    obtain ⟨hlibs, hloaded, hneeded⟩ := ih
    refine ⟨fun name hname => hlibs name (hturn.libraries hname), fun name hname => ?_,
      fun hst => hneeded fun name hname => hturn.needed hstack hst hname⟩
    rcases hloaded name hname with h₁ | hlib | ⟨turn, hmem, hskips⟩
    · cases hturn with
      | known _ => exact .inl h₁
      | skipped hasks hno =>
        rcases List.mem_cons.mp h₁ with rfl | h₁
        · exact .inr (.inr ⟨_, List.mem_cons_self, ⟨hasks, hno⟩, rfl⟩)
        · exact .inl h₁
      | mapped _ _ _ _ =>
        rcases List.mem_cons.mp h₁ with rfl | h₁
        · exact .inr (.inl (hlibs _ ((AList.mem_insert _).mpr (.inl rfl))))
        · exact .inl h₁
    · exact .inr (.inl hlib)
    · exact .inr (.inr ⟨turn, List.mem_cons_of_mem _ hmem, hskips⟩)

/-- What holds of every library that is mapped holds of every library that is loaded. -/
theorem Ran.loaded_induction {P : MachOBinary → Prop}
    (mapped : ∀ {path lib space entry slide space'},
      MachOBinary.fromPath host.goblin host.readFile path = .ok lib →
      Mapper.mapBinary host.kernel lib space = .ok ((entry, slide), space') →
      P {lib with slide := slide})
    {st st' : Loading} {run : List Turn} (h : Ran host executablePath st run st')
    (hst : ∀ name lib, st.linker.loadedLibraries.lookup name = some lib → P lib) :
    ∀ name lib, st'.linker.loadedLibraries.lookup name = some lib → P lib := by
  induction h with
  | done _ => exact hst
  | @turn st st₁ st' next rest later _ hturn _ ih =>
    apply ih
    cases hturn with
    | known _ => exact hst
    | skipped _ _ => exact hst
    | @mapped linuxPath libBinary entry slide space _ _ hparse hmap =>
      intro name lib hlib
      by_cases hname : name = next.dylib
      · rw [hname, keep, AList.lookup_insert] at hlib
        cases hlib
        exact mapped hparse hmap
      · rw [keep, AList.lookup_insert_ne hname] at hlib
        exact hst name lib hlib

/-! ### Termination -/

/-- The names of `all` that are not known yet. -/
def unknown (all : Finset String) (st : Loading) : Finset String := all \ st.loaded.toFinset

/-- A turn that pushes names knows one more. -/
theorem Turned.unknown {all : Finset String} {next : Pending} {st st' : Loading}
    (h : Turned host executablePath next st st') (hnext : next.dylib ∈ all) :
    (unknown all st').card < (unknown all st).card ∨
      (unknown all st').card ≤ (unknown all st).card ∧ st'.toLoad = st.toLoad := by
  have hless : ∀ st'' : Loading, Asks next st → st''.loaded = next.dylib :: st.loaded →
      (Linker.unknown all st'').card < (Linker.unknown all st).card := by
    intro st'' hasks hloaded
    have hnew : next.dylib ∈ Linker.unknown all st := by
      refine Finset.mem_sdiff.mpr ⟨hnext, fun hold => hasks (.inl (List.mem_toFinset.mp hold))⟩
    have herase : Linker.unknown all st'' = (Linker.unknown all st).erase next.dylib := by
      rw [Linker.unknown, Linker.unknown, hloaded, List.toFinset_cons, Finset.sdiff_insert]
    rw [herase]
    exact Finset.card_erase_lt_of_mem hnew
  cases h with
  | known _ => exact .inr ⟨le_rfl, rfl⟩
  | skipped hasks _ => exact .inl (hless _ hasks rfl)
  | mapped hasks _ _ _ => exact .inl (hless _ hasks rfl)

theorem Turned.stack {all : Finset String} (hall : ∀ path lib,
      MachOBinary.fromPath host.goblin host.readFile path = .ok lib →
      ∀ dep ∈ lib.dylibDeps, dep.name ∈ all)
    {next : Pending} {st st' : Loading} (h : Turned host executablePath next st st')
    (hst : ∀ p ∈ st.toLoad, p.dylib ∈ all) : ∀ p ∈ st'.toLoad, p.dylib ∈ all := by
  cases h with
  | known _ => exact hst
  | skipped _ _ => exact hst
  | @mapped linuxPath libBinary entry slide space _ _ hparse _ =>
    intro p hp
    rcases List.mem_append.mp hp with hp | hp
    · obtain ⟨dep, hdep, rfl⟩ := List.mem_map.mp (List.mem_reverse.mp hp)
      exact hall _ _ hparse dep hdep
    · exact hst p hp

/-- With any fuel from some amount on the loop gives one answer, and has not run out. -/
def Ends (host : Host) (executablePath : Path) (st : Loading) : Prop :=
  ∃ enough answer, answer ≠ .error .outOfFuel ∧
    ∀ fuel ≥ enough, loadAll host executablePath fuel st = answer

theorem Ends.turn {st : Loading} {next : Pending} {rest : List Pending}
    (hstack : st.toLoad = next :: rest)
    (h : ∀ st₁, loadOne host executablePath next {st with toLoad := rest} = .ok st₁ →
      Ends host executablePath st₁) : Ends host executablePath st := by
  cases hone : loadOne host executablePath next {st with toLoad := rest} with
  | error e =>
    refine ⟨1, .error e, fun he => loadOne_ne_outOfFuel (hone.trans he), fun fuel hfuel => ?_⟩
    obtain ⟨fuel, rfl⟩ := Nat.exists_eq_add_of_le' hfuel
    rw [loadAll_cons hstack, hone]
    rfl
  | ok st₁ =>
    obtain ⟨enough, answer, hanswer, hall⟩ := h st₁ hone
    refine ⟨enough + 1, answer, hanswer, fun fuel hfuel => ?_⟩
    obtain ⟨fuel, rfl⟩ : ∃ k, fuel = k + 1 := Nat.exists_eq_add_of_le' (by omega)
    rw [loadAll_cons hstack, hone]
    exact hall fuel (by omega)

/-- The loop ends when the names are finitely many. The induction is on how many of
them are unknown, and for as many on the stack. -/
theorem loadAll_ends {all : Finset String} (hall : ∀ path lib,
      MachOBinary.fromPath host.goblin host.readFile path = .ok lib →
      ∀ dep ∈ lib.dylibDeps, dep.name ∈ all)
    (n : Nat) {st : Loading} (hn : (unknown all st).card ≤ n)
    (hst : ∀ p ∈ st.toLoad, p.dylib ∈ all) : Ends host executablePath st := by
  induction n using Nat.strong_induction_on generalizing st with
  | _ n ihUnknown =>
    generalize hstack : st.toLoad = stack
    induction stack generalizing st with
    | nil => exact ⟨0, .ok st, fun h => (nomatch h), fun fuel _ => loadAll_nil hstack⟩
    | cons next rest ihStack =>
      refine Ends.turn hstack fun st₁ hone => ?_
      have hturn := loadOne_turned hone
      have hnext : next.dylib ∈ all := hst next (by rw [hstack]; exact List.mem_cons_self)
      have hrest : ∀ p ∈ rest, p.dylib ∈ all := fun p hp =>
        hst p (by rw [hstack]; exact List.mem_cons_of_mem _ hp)
      have hst₁ : ∀ p ∈ st₁.toLoad, p.dylib ∈ all := hturn.stack hall hrest
      rcases hturn.unknown hnext with hless | ⟨hle, hsame⟩
      · exact ihUnknown _ (Nat.lt_of_lt_of_le hless hn) le_rfl hst₁
      · exact ihStack (Nat.le_trans hle hn) hst₁ hsame

end Runs

end Grafted.Dyld.Linker
