import Grafted.Dyld.Linker
import Grafted.Loader.FixupRuns

/-! The pointer an import becomes, on each path that binds it.

`ClassicStores` and `ChainedStores` say what a run of `bind`, or of applying
chained fixups with `resolveExternal`, stores for an import, wherever in the run it
comes. Each stored word is a function of what looking the symbol up gives
(`ClassicStores.stored`, `ChainedStores.stored`), and the paths agree only for a
symbol that is found and an addend of 0 (`bindings_agree`). -/
namespace Grafted.Dyld.Linker
open ByteMemory Traced Loader ChainedFixups

/-- The weak bit of a chained import, which applying does not look at. -/
def weakImport (binary : MachOBinary) (header : Header) (i : Nat) : Except Stop Bool := do
  return (← u32At binary.data (header.base + header.importsOffset.toNat + i * 4)).getLsbD 8

section Paths
variable (host : Host) (linker : Linker)

/-- A run of `bind` stores the word for the import, looked up with the tables. -/
inductive ClassicStores : String → String → Bool → Word → Objc → Word → Prop where
  | store {data : List Byte} {process : Process} {b : Bound} :
      b ∈ (bind host linker data process).trace →
      ClassicStores b.entry.dylib b.entry.name b.entry.isWeak b.entry.addend b.asked b.stored

/-- A run of applying stores the word for the import, in the format. The tables are
those left by the imports before it. -/
inductive ChainedStores : BitVec 16 → String → String → Bool → Word → Objc → Word → Prop where
  | store {fuel : Nat} {binary : MachOBinary} {start : Objc} {memory : Memory} {header : Header}
      {offset size : BitVec 32} {dylib name : String} {isWeak : Bool} {p : Patch} :
      p ∈ (applyFixups (resolveExternal host linker) fuel binary start memory).patches →
      isBind p.encoded = true → binary.chainedFixups = some (offset, size) →
      readHeader binary.data offset size = .ok header →
      importOrdinal p.encoded < header.importsCount.toNat →
      readImport binary header (importOrdinal p.encoded) = .ok (dylib, name) →
      weakImport binary header (importOrdinal p.encoded) = .ok isWeak →
      ChainedStores p.format dylib name isWeak (bindAddend p.encoded)
        (resolveImports (resolveExternal host linker) binary header
          (List.range (importOrdinal p.encoded)) start).2 p.stored

variable {host linker}

/-! ### Classic binds -/

/-- Being weak matters only to a symbol that is not found. -/
theorem resolve_weak (dylib symbol : String) (isWeak : Bool) (objc : Objc) :
    (resolve host linker dylib symbol isWeak objc).1 =
      match (resolve host linker dylib symbol false objc).1 with
      | .ok addr => .ok addr
      | .error e => if isWeak then .ok 0 else .error e := by
  unfold resolve
  cases findRegistered linker dylib symbol with
  | some addr => rfl
  | none =>
    cases findLoaded host linker dylib symbol with
    | some addr => rfl
    | none =>
      obtain ⟨cls, objc₁⟩ := findClass host "_OBJC_CLASS_$_" symbol objc
      cases cls with
      | some cls => rfl
      | none =>
        dsimp only
        obtain ⟨cls, objc₂⟩ := findClass host "_OBJC_METACLASS_$_" symbol objc₁
        cases cls with
        | some cls => rfl
        | none =>
          cases findSwift host symbol with
          | some addr => rfl
          | none => cases isWeak with
            | true => rfl
            | false => rfl

/-- The address `bind` stores, and the one chained fixups are given. -/
theorem bindAddr_fst (entry : Import) (objc : Objc) :
    (bindAddr host linker entry objc).1 =
      match (resolve host linker entry.dylib entry.name false objc).1 with
      | .ok addr => addr
      | .error _ => if entry.isWeak then 0 else host.trap := by
  have hfst : (bindAddr host linker entry objc).1 =
      match (resolve host linker entry.dylib entry.name entry.isWeak objc).1 with
      | .ok addr => addr
      | .error _ => host.trap := by
    unfold bindAddr
    obtain ⟨answer, objc⟩ := resolve host linker entry.dylib entry.name entry.isWeak objc
    cases answer with
    | ok addr => rfl
    | error e => rfl
  rw [hfst, resolve_weak]
  cases (resolve host linker entry.dylib entry.name false objc).1 with
  | ok addr => rfl
  | error e => cases entry.isWeak with
    | true => rfl
    | false => rfl

theorem resolveExternal_fst (dylib symbol : String) (objc : Objc) :
    (resolveExternal host linker dylib symbol objc).1 =
      match (resolve host linker dylib symbol false objc).1 with
      | .ok addr => addr
      | .error _ => host.soft := by
  unfold resolveExternal
  obtain ⟨answer, objc⟩ := resolve host linker dylib symbol false objc
  cases answer with
  | ok addr => rfl
  | error e => rfl

/-- What is stored is what the lookup gave. -/
def FromLookup (host : Host) (linker : Linker) (b : Bound) : Prop :=
  b.stored = (bindAddr host linker b.entry b.asked).1

theorem bind_fromLookup (data : List Byte) :
    Keeps (fun _ t _ => ∀ b ∈ t, FromLookup host linker b) (bind host linker data) := by
  have hB : Composes fun (_ : Process) t (_ : Process) => ∀ b ∈ t, FromLookup host linker b :=
    Composes.events _
  have himport : ∀ entry, Keeps (fun (_ : Process) t _ => ∀ b ∈ t, FromLookup host linker b)
      (bindImport host linker entry) := by
    intro entry p b hb
    cases List.mem_singleton.mp hb
    rfl
  unfold bind
  split
  · exact Keeps.pure hB _
  · split
    · exact Keeps.pure hB _
    · exact Keeps.bind hB (Keeps.each hB himport _) fun _ => Keeps.pure hB _

theorem ClassicStores.stored {dylib symbol : String} {isWeak : Bool} {addend : Word} {objc : Objc}
    {w : Word} (h : ClassicStores host linker dylib symbol isWeak addend objc w) :
    w = match (resolve host linker dylib symbol false objc).1 with
      | .ok addr => addr
      | .error _ => if isWeak then 0 else host.trap := by
  obtain ⟨hb⟩ := h
  rw [bind_fromLookup _ _ _ hb, bindAddr_fst]

/-! ### Chained binds -/

theorem ChainedStores.stored {format : BitVec 16} {dylib symbol : String} {isWeak : Bool}
    {addend : Word} {objc : Objc} {w : Word}
    (h : ChainedStores host linker format dylib symbol isWeak addend objc w) :
    (format = 1 ∧ w = (resolveExternal host linker dylib symbol objc).1) ∨
      (format = 6 ∧ w = if (resolveExternal host linker dylib symbol objc).1 = 0 then 0
        else (resolveExternal host linker dylib symbol objc).1 + addend) := by
  obtain @⟨_, binary, start, _, header, _, _, _, _, _, p, hp, hbind, hfixups, hheader, hordinal,
    himport, _⟩ := h
  obtain ⟨_, _, header', imports, _, hfixups', hheader', himports, d, hd, hstored⟩ :=
    patches_decoded _ _ _ _ _ p hp
  rw [hfixups] at hfixups'
  cases hfixups'
  rw [hheader] at hheader'
  cases hheader'
  have hk : (List.range header.importsCount.toNat)[importOrdinal p.encoded]? =
      some (importOrdinal p.encoded) := List.getElem?_range hordinal
  have hget := resolveImports_get _ himports hk himport
  rw [List.take_range, Nat.min_eq_left (Nat.le_of_lt hordinal)] at hget
  have himportAt : importAt imports p.encoded = (resolveExternal host linker dylib symbol
      (resolveImports (resolveExternal host linker) binary header
        (List.range (importOrdinal p.encoded)) start).2).1 := by
    rw [importAt, List.getD_eq_getElem?_getD, hget, Option.getD_some]
  rw [hstored, ← himportAt]
  exact decodePointer_bind hd hbind

/-- **The paths agree** on the pointer an import becomes, and on the right one,
exactly when its symbol is found and its addend is 0. -/
theorem bindings_agree {dylib symbol : String} {isWeak : Bool} {addend : Word} {objc : Objc}
    {classic chained₁ chained₆ : Word}
    (hclassic : ClassicStores host linker dylib symbol isWeak addend objc classic)
    (h₁ : ChainedStores host linker 1 dylib symbol isWeak addend objc chained₁)
    (h₆ : ChainedStores host linker 6 dylib symbol isWeak addend objc chained₆) :
    (classic = chained₁ ∧ classic = chained₆ ∧
        (∀ addr, (resolve host linker dylib symbol false objc).1 = .ok addr →
          classic = addr + addend) ∧
        (isWeak = true → (∀ addr, (resolve host linker dylib symbol false objc).1 ≠ .ok addr) →
          classic = 0)) ↔
      (∃ addr, (resolve host linker dylib symbol false objc).1 = .ok addr) ∧ addend = 0 := by
  have hchained₁ : chained₁ = (resolveExternal host linker dylib symbol objc).1 :=
    h₁.stored.elim And.right fun h => absurd h.1 (by decide)
  have hchained₆ : chained₆ = if (resolveExternal host linker dylib symbol objc).1 = 0 then 0
      else (resolveExternal host linker dylib symbol objc).1 + addend :=
    h₆.stored.elim (fun h => absurd h.1 (by decide)) And.right
  rw [resolveExternal_fst] at hchained₁ hchained₆
  have hstored := hclassic.stored
  cases hres : (resolve host linker dylib symbol false objc).1 with
  | ok addr =>
    simp only [hres] at hstored hchained₁ hchained₆
    constructor
    · rintro ⟨-, -, hsum, -⟩
      have hsum := hsum addr rfl
      exact ⟨⟨addr, rfl⟩, by bv_omega⟩
    · rintro ⟨-, rfl⟩
      have hzero : addr + 0 = addr := BitVec.add_zero addr
      refine ⟨by rw [hstored, hchained₁], ?_, ?_, ?_⟩
      · rw [hstored, hchained₆, hzero]
        split_ifs with h
        · exact h
        · rfl
      · intro addr' haddr'
        cases haddr'
        rw [hstored, hzero]
      · intro _ hnone
        exact absurd rfl (hnone addr)
  | error e =>
    simp only [hres] at hstored hchained₁ hchained₆
    constructor
    · rintro ⟨hagree, -, -, -⟩
      rw [hstored, hchained₁] at hagree
      split_ifs at hagree
      · exact absurd hagree.symm host.soft_ne_zero
      · exact absurd hagree host.trap_ne_soft
    · rintro ⟨⟨addr, haddr⟩, -⟩
      exact nomatch haddr

end Paths

/-- A program with one classic import, of addend 1. -/
def importMachO : MachO where
  filetype := 2
  cputype := CPU_TYPE_X86_64
  name := none
  libs := ["libf.dylib"]
  rpaths := []
  loadCommands := []
  exports := .ok []
  symbols := []
  imports := .ok [⟨"libf.dylib", "_f", false, 0x3000, 1⟩]

def importHost : Host where
  goblin := ⟨fun _ => .ok importMachO, fun _ => .error ""⟩
  fileExists := fun _ => false
  readFile := fun _ => .error "no such file"
  kernel := ⟨fun _ _ => .error "ENOMEM", fun _ _ _ => none, fun _ _ _ _ => none⟩
  dlsym := fun _ => 0
  calloc := fun _ => 0x600000000000
  trap := 0x500000000100
  soft := 0x500000000200
  calloc_ne_zero := block_ne_zero
  trap_ne_soft := stubs_apart
  trap_ne_zero := trap_stub_ne_zero
  soft_ne_zero := soft_stub_ne_zero

def registryLinker : Linker :=
  new (AList.insert "libf.dylib" (AList.insert "_f" 0x500000001000 ∅) ∅)

def noObjc : Objc := ⟨∅, ∅, 0⟩

/-- The same import as a chained one, in the format. -/
def oneImport (format : Byte) : MachOBinary :=
  {oneChain "__DATA" with
    dylibDeps := [⟨"libf.dylib", 0, 0⟩]
    chainedFixups := some (0, 71)
    data := [0, 0, 0, 0, 28, 0, 0, 0, 64, 0, 0, 0, 68, 0, 0, 0, 1, 0, 0, 0, 0, 0, 0, 0, 0, 0, 0, 0,
      2, 0, 0, 0, 0, 0, 0, 0, 12, 0, 0, 0,
      24, 0, 0, 0, 0, 16, format, 0, 0, 16, 0, 0, 0, 0, 0, 0, 0, 0, 0, 0, 1, 0, 0, 0,
      1, 0, 0, 0, 0x5f, 0x66, 0]}

/-- A bind of import 0 with addend 1. -/
def bindWord : Word := 0x8000000001000000

/-- Applying, where the one pointer is that bind. -/
def oneImportRun (format : Byte) : Applied Objc :=
  applyFixups (resolveExternal importHost registryLinker) 1 (oneImport format) noObjc
    (pointerImage bindWord)

theorem classic_stores : ClassicStores importHost registryLinker "libf.dylib" "_f" false 1 noObjc
    0x500000001000 :=
  have hb : ⟨⟨"libf.dylib", "_f", false, 0x3000, 1⟩, noObjc, 0x500000001000⟩ ∈
      (bind importHost registryLinker [] ⟨noObjc, fun _ => 0⟩).trace := List.mem_singleton_self _
  .store hb

theorem chained_stores₁ : ChainedStores importHost registryLinker 1 "libf.dylib" "_f" false 1
    noObjc 0x500000001000 :=
  have hp : ⟨0x8000, 1, bindWord, 0x500000001000⟩ ∈ (oneImportRun 1).patches :=
    List.mem_singleton_self _
  .store hp rfl rfl rfl (by decide) rfl rfl

theorem chained_stores₆ : ChainedStores importHost registryLinker 6 "libf.dylib" "_f" false 1
    noObjc 0x500000001001 :=
  have hp : ⟨0x8000, 6, bindWord, 0x500000001001⟩ ∈ (oneImportRun 6).patches :=
    List.mem_singleton_self _
  .store hp rfl rfl rfl (by decide) rfl rfl

theorem bindings_agree_addend :
    ((0x500000001000 : Word) = 0x500000001000 ∧ (0x500000001000 : Word) = 0x500000001001 ∧
        (∀ addr, (resolve importHost registryLinker "libf.dylib" "_f" false noObjc).1 = .ok addr →
          (0x500000001000 : Word) = addr + 1) ∧
        (false = true → (∀ addr, (resolve importHost registryLinker "libf.dylib" "_f" false
          noObjc).1 ≠ .ok addr) → (0x500000001000 : Word) = 0)) ↔
      (∃ addr, (resolve importHost registryLinker "libf.dylib" "_f" false noObjc).1 = .ok addr) ∧
        (1 : Word) = 0 :=
  bindings_agree classic_stores chained_stores₁ chained_stores₆

/-- One import with addend 1 is bound to two pointers. -/
theorem bindings_differ : ¬ ∀ {host : Host} {linker : Linker} {dylib symbol : String}
    {isWeak : Bool} {addend : Word} {objc : Objc} {classic chained₁ chained₆ : Word},
    ClassicStores host linker dylib symbol isWeak addend objc classic →
    ChainedStores host linker 1 dylib symbol isWeak addend objc chained₁ →
    ChainedStores host linker 6 dylib symbol isWeak addend objc chained₆ →
    classic = chained₁ ∧ classic = chained₆ ∧
      (∀ addr, (resolve host linker dylib symbol false objc).1 = .ok addr →
        classic = addr + addend) ∧
      (isWeak = true → (∀ addr, (resolve host linker dylib symbol false objc).1 ≠ .ok addr) →
        classic = 0) := by
  intro h
  obtain ⟨-, hsame, -⟩ := h classic_stores chained_stores₁ chained_stores₆
  exact absurd hsame (by decide)

end Grafted.Dyld.Linker
