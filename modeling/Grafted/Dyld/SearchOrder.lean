import Grafted.Base.Enumeration
import Grafted.Dyld.LoadedSymbols

/-! What the order of the tables can change.

A symbol is looked for under the exact name of its library and then in every table
whose name ends like it, first in the registry and then among the loaded libraries.
The two scans stop at their first hit, and the tables have no order of their own.
So an answer is one for all orders when the hits that can be reached agree
(`resolve_order_free`), and it is the library's own when no registered table that
is scanned before it disagrees (`resolve_own`). -/
namespace Grafted.Dyld.Linker
open ByteMemory Loader Enumeration

section Search
variable (host : Host) (linker : Linker) (dylib symbol : String)

def registeredAs : Option Address := (linker.registry.lookup dylib).bind (·.lookup symbol)

def loadedAs : Option Address :=
  (linker.loadedLibraries.lookup dylib).bind (findSymbolInBinary host.goblin · symbol)

/-- What the scan of the registry asks a table. -/
def tableAnswer (table : Sigma fun _ : String => SymbolTable) : Option Address :=
  if endsWith table.1 (shortName dylib) then table.2.lookup symbol else none

/-- What the scan of the loaded libraries asks a library. -/
def libraryAnswer (lib : Sigma fun _ : String => MachOBinary) : Option Address :=
  findSymbolInBinary host.goblin lib.2 symbol

/-- The symbol is at `a` in some registered table whose name ends like `dylib`. -/
def RegisteredAlike (a : Address) : Prop := Hit (tableAnswer dylib symbol) linker.registry.entries a

/-- The symbol is at `a` in some loaded library. -/
def LoadedSomewhere (a : Address) : Prop :=
  Hit (libraryAnswer host symbol) linker.loadedLibraries.entries a

variable {host linker dylib symbol}

theorem findRegistered_exact {a : Address} (h : registeredAs linker dylib symbol = some a) :
    findRegistered linker dylib symbol = some a := by
  have hexact : (linker.registry.lookup dylib).bind (·.lookup symbol) = some a := h
  rw [findRegistered, hexact]

theorem findRegistered_scan (h : registeredAs linker dylib symbol = none) :
    findRegistered linker dylib symbol =
      linker.registry.entries.findSome? (tableAnswer dylib symbol) := by
  have hexact : (linker.registry.lookup dylib).bind (·.lookup symbol) = none := h
  rw [findRegistered, hexact]
  rfl

theorem findLoaded_exact {a : Address} (h : loadedAs host linker dylib symbol = some a) :
    findLoaded host linker dylib symbol = some a := by
  have hexact : (linker.loadedLibraries.lookup dylib).bind
      (findSymbolInBinary host.goblin · symbol) = some a := h
  rw [findLoaded, hexact]

theorem findLoaded_scan (h : loadedAs host linker dylib symbol = none) :
    findLoaded host linker dylib symbol =
      linker.loadedLibraries.entries.findSome? (libraryAnswer host symbol) := by
  have hexact : (linker.loadedLibraries.lookup dylib).bind
      (findSymbolInBinary host.goblin · symbol) = none := h
  rw [findLoaded, hexact]
  rfl

theorem resolve_registered {a : Address} (h : findRegistered linker dylib symbol = some a)
    (isWeak : Bool) (objc : Objc) :
    resolve host linker dylib symbol isWeak objc = (.ok a, objc) := by
  rw [resolve, h]

theorem resolve_found {a : Address} (hreg : findRegistered linker dylib symbol = none)
    (h : findLoaded host linker dylib symbol = some a) (isWeak : Bool) (objc : Objc) :
    resolve host linker dylib symbol isWeak objc = (.ok a, objc) := by
  rw [resolve, hreg, h]

/-- The tables matter only through the two searches. -/
theorem resolve_congr {linker' : Linker}
    (hreg : findRegistered linker' dylib symbol = findRegistered linker dylib symbol)
    (hload : findRegistered linker dylib symbol = none →
      findLoaded host linker' dylib symbol = findLoaded host linker dylib symbol)
    (isWeak : Bool) (objc : Objc) :
    resolve host linker' dylib symbol isWeak objc = resolve host linker dylib symbol isWeak objc := by
  cases hfound : findRegistered linker dylib symbol with
  | some a => rw [resolve_registered hfound, resolve_registered (hreg.trans hfound)]
  | none => rw [resolve, resolve, hreg, hfound, hload hfound]

end Search

/-! ### Orders -/

theorem SameTables.registeredAs {linker linker' : Linker} (h : SameTables linker linker')
    (dylib symbol : String) :
    Linker.registeredAs linker' dylib symbol = Linker.registeredAs linker dylib symbol := by
  rw [Linker.registeredAs, Linker.registeredAs, AList.perm_lookup h.1]

theorem SameTables.loadedAs {linker linker' : Linker} (h : SameTables linker linker') (host : Host)
    (dylib symbol : String) :
    Linker.loadedAs host linker' dylib symbol = Linker.loadedAs host linker dylib symbol := by
  rw [Linker.loadedAs, Linker.loadedAs, AList.perm_lookup h.2]

section Orders
variable {host : Host} {linker : Linker} {dylib symbol : String}

/-- In some order, an alike table that has the symbol is the first one asked. -/
theorem resolve_alike (host : Host) (hexact : registeredAs linker dylib symbol = none) {a : Address}
    (h : RegisteredAlike linker dylib symbol a) (isWeak : Bool) (objc : Objc) :
    ∃ linker', SameTables linker linker' ∧
      (resolve host linker' dylib symbol isWeak objc).1 = .ok a := by
  obtain ⟨registry, hperm, hscan⟩ := exists_scan h
  have hsame : SameTables linker {linker with registry := registry} := ⟨hperm, .refl _⟩
  refine ⟨_, hsame, ?_⟩
  rw [resolve_registered ((findRegistered_scan ((hsame.registeredAs _ _).trans hexact)).trans hscan)]

/-- In some order, a loaded library that has the symbol is the first one asked. -/
theorem resolve_somewhere (hexact : registeredAs linker dylib symbol = none)
    (halike : ∀ a, ¬ RegisteredAlike linker dylib symbol a)
    (hloaded : loadedAs host linker dylib symbol = none) {a : Address}
    (h : LoadedSomewhere host linker symbol a) (isWeak : Bool) (objc : Objc) :
    ∃ linker', SameTables linker linker' ∧
      (resolve host linker' dylib symbol isWeak objc).1 = .ok a := by
  obtain ⟨loadedLibraries, hperm, hscan⟩ := exists_scan h
  have hsame : SameTables linker {linker with loadedLibraries := loadedLibraries} := ⟨.refl _, hperm⟩
  refine ⟨_, hsame, ?_⟩
  have hreg : findRegistered {linker with loadedLibraries := loadedLibraries} dylib symbol = none :=
    (findRegistered_scan hexact).trans (scan_none.mpr halike)
  rw [resolve_found hreg ((findLoaded_scan ((hsame.loadedAs _ _ _).trans hloaded)).trans hscan)]

/-- Where the search comes to a scan, all its hits are one. -/
def OneAnswer (host : Host) (linker : Linker) (dylib symbol : String) : Prop :=
  registeredAs linker dylib symbol = none →
    (∀ a a', RegisteredAlike linker dylib symbol a → RegisteredAlike linker dylib symbol a' → a = a') ∧
    ((∀ a, ¬ RegisteredAlike linker dylib symbol a) → loadedAs host linker dylib symbol = none →
      ∀ a a', LoadedSomewhere host linker symbol a → LoadedSomewhere host linker symbol a' → a = a')

theorem OneAnswer.resolve (h : OneAnswer host linker dylib symbol) {linker' : Linker}
    (hsame : SameTables linker linker') (isWeak : Bool) (objc : Objc) :
    Linker.resolve host linker' dylib symbol isWeak objc =
      Linker.resolve host linker dylib symbol isWeak objc := by
  have hexact' := hsame.registeredAs dylib symbol
  cases hexact : registeredAs linker dylib symbol with
  | some a =>
    rw [resolve_registered (findRegistered_exact hexact),
      resolve_registered (findRegistered_exact (hexact'.trans hexact))]
  | none =>
    obtain ⟨halike, hsomewhere⟩ := h hexact
    have hreg : findRegistered linker' dylib symbol = findRegistered linker dylib symbol := by
      rw [findRegistered_scan hexact, findRegistered_scan (hexact'.trans hexact)]
      exact scan_perm hsame.1 halike
    refine resolve_congr hreg (fun hnone => ?_) isWeak objc
    have hloaded' := hsame.loadedAs host dylib symbol
    cases hloaded : loadedAs host linker dylib symbol with
    | some a => rw [findLoaded_exact hloaded, findLoaded_exact (hloaded'.trans hloaded)]
    | none =>
      rw [findRegistered_scan hexact] at hnone
      rw [findLoaded_scan hloaded, findLoaded_scan (hloaded'.trans hloaded)]
      exact scan_perm hsame.2 (hsomewhere (scan_none.mp hnone) hloaded)

/-- **When the order does not matter.** Any two enumerations of the tables give the
same answer exactly when all hits of the scan that is reached are one. -/
theorem resolve_order_free (host : Host) (linker : Linker) (dylib symbol : String) (isWeak : Bool)
    (objc : Objc) :
    (∀ linker₁ linker₂, SameTables linker linker₁ → SameTables linker linker₂ →
      (resolve host linker₁ dylib symbol isWeak objc).1 =
        (resolve host linker₂ dylib symbol isWeak objc).1) ↔
      OneAnswer host linker dylib symbol := by
  constructor
  · intro h hexact
    refine ⟨fun a a' ha ha' => ?_, fun halike hloaded a a' ha ha' => ?_⟩
    · obtain ⟨linker₁, hsame₁, hresolve₁⟩ := resolve_alike host hexact ha isWeak objc
      obtain ⟨linker₂, hsame₂, hresolve₂⟩ := resolve_alike host hexact ha' isWeak objc
      have heq := h linker₁ linker₂ hsame₁ hsame₂
      rw [hresolve₁, hresolve₂] at heq
      exact Except.ok.inj heq
    · obtain ⟨linker₁, hsame₁, hresolve₁⟩ := resolve_somewhere hexact halike hloaded ha isWeak objc
      obtain ⟨linker₂, hsame₂, hresolve₂⟩ := resolve_somewhere hexact halike hloaded ha' isWeak objc
      have heq := h linker₁ linker₂ hsame₁ hsame₂
      rw [hresolve₁, hresolve₂] at heq
      exact Except.ok.inj heq
  · intro h linker₁ linker₂ hsame₁ hsame₂
    rw [h.resolve hsame₁, h.resolve hsame₂]

end Orders

/-- Two libraries of one file name in two directories, both with a symbol. -/
def twinTables (first second : String × Address) : AList fun _ : String => SymbolTable :=
  AList.insert first.1 (AList.insert "_f" first.2 ∅)
    (AList.insert second.1 (AList.insert "_f" second.2 ∅) ∅)

theorem twin_order_matters : ¬ ∀ (host : Host) (linker : Linker) (dylib symbol : String)
    (isWeak : Bool) (objc : Objc) (linker₁ linker₂ : Linker),
    SameTables linker linker₁ → SameTables linker linker₂ →
    (resolve host linker₁ dylib symbol isWeak objc).1 =
      (resolve host linker₂ dylib symbol isWeak objc).1 := by
  intro h
  have hsame := h (libHost 0) (new (twinTables ("/a/libf.dylib", 0x1000) ("/b/libf.dylib", 0x2000)))
    "libf.dylib" "_f" false emptyObjc _
    (new (twinTables ("/b/libf.dylib", 0x2000) ("/a/libf.dylib", 0x1000)))
    ⟨.refl _, .refl _⟩ ⟨.swap _ _ _, .refl _⟩
  have hfirst : (resolve (libHost 0) (new (twinTables ("/a/libf.dylib", 0x1000)
      ("/b/libf.dylib", 0x2000))) "libf.dylib" "_f" false emptyObjc).1 = .ok 0x1000 := rfl
  have hsecond : (resolve (libHost 0) (new (twinTables ("/b/libf.dylib", 0x2000)
      ("/a/libf.dylib", 0x1000))) "libf.dylib" "_f" false emptyObjc).1 = .ok 0x2000 := rfl
  rw [hfirst, hsecond] at hsame
  exact absurd (Except.ok.inj hsame) (by decide)

/-! ### A library's own symbols -/

/-- The library of this name has the symbol at `a`: registered under the name, or
loaded under it. -/
def OwnAt (goblin : Goblin) (linker : Linker) (name symbol : String) (a : Address) : Prop :=
  registeredAs linker name symbol = some a ∨
    ∃ lib, linker.loadedLibraries.lookup name = some lib ∧ DefinedAt goblin lib symbol a

theorem loadedAs_own {host : Host} {linker : Linker} {name symbol : String} {a : Address}
    (hexact : registeredAs linker name symbol = none)
    (h : OwnAt host.goblin linker name symbol a) :
    ∃ found, loadedAs host linker name symbol = some found ∧
      OwnAt host.goblin linker name symbol found := by
  rcases h with hreg | ⟨lib, hlib, hdef⟩
  · exact nomatch hexact.symm.trans hreg
  · obtain ⟨found, hfound, hfoundDef⟩ := findSymbolInBinary_defined hdef
    refine ⟨found, ?_, .inr ⟨lib, hlib, hfoundDef⟩⟩
    rw [loadedAs, hlib, Option.bind_some, hfound]

/-- **When a library's own symbol is found.** In every order of the tables the answer
is the library's own exactly when it is registered under its own name, or every
registered table with a name that ends alike has the symbol where the library has
it. -/
theorem resolve_own {host : Host} {linker : Linker} {name symbol : String} {a₀ : Address}
    (hown : OwnAt host.goblin linker name symbol a₀) (isWeak : Bool) (objc : Objc) :
    (∀ linker', SameTables linker linker' → ∃ a, OwnAt host.goblin linker name symbol a ∧
      (resolve host linker' name symbol isWeak objc).1 = .ok a) ↔
      (registeredAs linker name symbol = none → ∀ b, RegisteredAlike linker name symbol b →
        OwnAt host.goblin linker name symbol b) := by
  constructor
  · intro h hexact b hb
    obtain ⟨linker', hsame, hresolve⟩ := resolve_alike host hexact hb isWeak objc
    obtain ⟨a, ha, hresolve'⟩ := h linker' hsame
    rw [hresolve] at hresolve'
    rw [Except.ok.inj hresolve']
    exact ha
  · intro h linker' hsame
    have hexact' := hsame.registeredAs name symbol
    cases hexact : registeredAs linker name symbol with
    | some a =>
      refine ⟨a, .inl hexact, ?_⟩
      rw [resolve_registered (findRegistered_exact (hexact'.trans hexact))]
    | none =>
      have hscan := findRegistered_scan (hexact'.trans hexact)
      cases hfound : findRegistered linker' name symbol with
      | some b =>
        have hb : RegisteredAlike linker name symbol b :=
          (hit_perm hsame.1).mp (hit_of_scan (hscan.symm.trans hfound))
        refine ⟨b, h hexact b hb, ?_⟩
        rw [resolve_registered hfound]
      | none =>
        obtain ⟨found, hloaded, hfoundOwn⟩ := loadedAs_own hexact hown
        refine ⟨found, hfoundOwn, ?_⟩
        rw [resolve_found hfound (findLoaded_exact ((hsame.loadedAs host name symbol).trans hloaded))]

/-- The library `libf.dylib` loaded from `/b`, and a table for the one in `/a` with
the symbol at this address. -/
def shadowLinker (shadow : Address) : Linker where
  registry := AList.insert "/a/libf.dylib" (AList.insert "_f" shadow ∅) ∅
  resolver := .new
  loadedLibraries := AList.insert "/b/libf.dylib" (libBinary 0x200000000 0) ∅

theorem shadow_own (shadow : Address) : OwnAt (libHost 0x200000000).goblin (shadowLinker shadow)
    "/b/libf.dylib" "_f" 0x200000010 :=
  .inr ⟨_, rfl, libBinary_defines 0x200000000 0⟩

theorem resolve_own_unshadowed : ∃ a, OwnAt (libHost 0x200000000).goblin
    (shadowLinker 0x200000010) "/b/libf.dylib" "_f" a ∧
    (resolve (libHost 0x200000000) (shadowLinker 0x200000010) "/b/libf.dylib" "_f" false
      emptyObjc).1 = .ok a := by
  refine (resolve_own (shadow_own 0x200000010) false emptyObjc).mpr (fun _ b hb => ?_) _
    ⟨.refl _, .refl _⟩
  obtain ⟨table, htable, hlookup⟩ := hb
  rw [List.mem_singleton.mp htable] at hlookup
  have hb : some 0x200000010 = some b := hlookup
  rw [← Option.some.inj hb]
  exact shadow_own 0x200000010

/-- A registered library of the same file name is asked first. -/
theorem shadow_found : ¬ ∀ {host : Host} {linker : Linker} {name symbol : String} {a₀ : Address},
    OwnAt host.goblin linker name symbol a₀ → ∀ (isWeak : Bool) (objc : Objc) (linker' : Linker),
    SameTables linker linker' → ∃ a, OwnAt host.goblin linker name symbol a ∧
      (resolve host linker' name symbol isWeak objc).1 = .ok a := by
  intro h
  obtain ⟨a, ha, hresolve⟩ := h (shadow_own 0x5000) false emptyObjc _ ⟨.refl _, .refl _⟩
  have hshadow : (resolve (libHost 0x200000000) (shadowLinker 0x5000) "/b/libf.dylib" "_f" false
      emptyObjc).1 = .ok 0x5000 := rfl
  rw [hshadow] at hresolve
  cases hresolve
  rcases ha with hreg | ⟨lib, hlib, macho, textSeg, hparse, htext, hdef⟩
  · exact nomatch (show none = some _ from hreg)
  · cases hlib
    cases hparse
    cases htext
    rcases hdef with ⟨e, he, -, ha⟩ | ⟨-, sym, hsym, -⟩
    · rw [List.mem_singleton.mp he] at ha
      exact absurd ha (by decide)
    · exact nomatch hsym

end Grafted.Dyld.Linker
