import Grafted.Base.Fallible
import Grafted.Loader.FixupRuns
import Grafted.Loader.MachoFile

/-! What parsing makes of a file.

The slice of a fat file is cut by the offsets its record holds, whatever they are
(`parse_answers_iff`). The library list is filtered by name while imports count
its entries, so an ordinal names its library as long as nothing before it was
dropped (`import_path_iff`). -/
namespace Grafted.Loader
open ByteMemory

namespace MachOBinary

/-! ### Fat files -/

/-- The parser came back, with a binary or an error. -/
def Answered (r : Except Failure MachOBinary) : Prop :=
  (∃ binary, r = .ok binary) ∨ ∃ e, r = .error (.error e)

/-- The x86_64 record of a fat file lies in the file, if it is asked for. -/
def SliceInside (goblin : Goblin) (data : List Byte) : Prop :=
  isFat data = true → ∀ arches arch, goblin.parseMach data = .ok (.fat (.ok arches)) →
    arches.find? (·.cputype = CPU_TYPE_X86_64) = some arch →
    arch.offset.toNat + arch.size.toNat ≤ data.length

variable {goblin : Goblin} {path : String} {data : List Byte}

theorem parseSingle_answered : Answered (parseSingle goblin path data) := by
  unfold parseSingle
  cases goblin.parseMachO data with
  | error message => exact .inr ⟨_, rfl⟩
  | ok macho =>
    simp only
    split_ifs
    · exact .inr ⟨_, rfl⟩
    · exact .inl ⟨_, rfl⟩

theorem slice_inside {offset size : Nat} (h : offset + size ≤ data.length) :
    slice data offset size = .ok ((data.drop offset).take size) := if_pos h

theorem slice_outside {offset size : Nat} (h : ¬ offset + size ≤ data.length) :
    slice data offset size = .error .panic := if_neg h

theorem panic_not_answered {r : Except Failure MachOBinary} (h : r = .error .panic) :
    ¬ Answered r := by
  rintro (⟨binary, hok⟩ | ⟨e, herr⟩)
  · exact nomatch h.symm.trans hok
  · exact nomatch h.symm.trans herr

/-- The record that decides a fat file: parsing is then that of its slice. -/
theorem parseFat_record {arches : List FatArch} {arch : FatArch}
    (hmach : goblin.parseMach data = .ok (.fat (.ok arches)))
    (harch : arches.find? (·.cputype = CPU_TYPE_X86_64) = some arch) :
    parseFat goblin path data =
      slice data arch.offset.toNat arch.size.toNat >>= parseSingle goblin path := by
  simp only [parseFat, hmach, harch]

theorem parseFat_other
    (h : ∀ arches, goblin.parseMach data = .ok (.fat (.ok arches)) →
      arches.find? (·.cputype = CPU_TYPE_X86_64) = none) :
    Answered (parseFat goblin path data) := by
  unfold parseFat
  cases hmach : goblin.parseMach data with
  | error message => exact .inr ⟨_, rfl⟩
  | ok mach =>
    cases mach with
    | fat arches =>
      cases arches with
      | error message => exact .inr ⟨_, rfl⟩
      | ok arches =>
        simp only [h arches hmach]
        exact .inr ⟨_, rfl⟩
    | binary cputype =>
      simp only
      split_ifs
      · exact parseSingle_answered
      · exact .inr ⟨_, rfl⟩

/-- **Parsing answers just when the slice it cuts lies in the file.** -/
theorem parse_answers_iff (goblin : Goblin) (path : String) (data : List Byte) :
    Answered (parse goblin path data) ↔ SliceInside goblin data := by
  unfold parse SliceInside
  by_cases hfat : isFat data = true
  · rw [if_pos hfat]
    by_cases hrecord : ∃ arches arch, goblin.parseMach data = .ok (.fat (.ok arches)) ∧
        arches.find? (·.cputype = CPU_TYPE_X86_64) = some arch
    · obtain ⟨arches, arch, hmach, harch⟩ := hrecord
      rw [parseFat_record hmach harch]
      by_cases hin : arch.offset.toNat + arch.size.toNat ≤ data.length
      · rw [slice_inside hin]
        refine iff_of_true parseSingle_answered ?_
        rintro - arches' arch' hmach' harch'
        cases hmach.symm.trans hmach'
        cases harch.symm.trans harch'
        exact hin
      · rw [slice_outside hin]
        exact iff_of_false (panic_not_answered rfl) fun h => hin (h hfat arches arch hmach harch)
    · refine iff_of_true (parseFat_other fun arches hmach => ?_) ?_
      · by_contra hno
        obtain ⟨arch, harch⟩ := Option.ne_none_iff_exists'.mp hno
        exact hrecord ⟨arches, arch, hmach, harch⟩
      · exact fun _ arches arch hmach harch => absurd ⟨arches, arch, hmach, harch⟩ hrecord
  · rw [if_neg hfat]
    exact iff_of_true parseSingle_answered fun h => absurd h hfat

/-- A big-endian number of a fat header. -/
def u32BE (data : List Byte) (offset : Nat) : BitVec 32 :=
  BitVec.ofNat 32 (fromLE ((data.drop offset).take 4).reverse)

/-- A parser of fat files that hands out the records as they stand. -/
def recordsAsTheyStand : Goblin where
  parseMachO _ := .error "bad magic"
  parseMach data :=
    let count := (u32BE data 4).toNat
    if 8 + 20 * count ≤ data.length then
      .ok (.fat (.ok ((List.range count).map fun i =>
        ⟨u32BE data (8 + 20 * i), u32BE data (16 + 20 * i), u32BE data (20 + 20 * i)⟩)))
    else .error "malformed"

/-- A fat file of one record, whose slice begins where the file has long ended. -/
theorem slice_outside_panics : ¬ ∀ path data, Answered (parse recordsAsTheyStand path data) := by
  intro h
  exact panic_not_answered rfl (h "libfat.dylib" [0xca, 0xfe, 0xba, 0xbe, 0, 0, 0, 1, 1, 0, 0, 7,
    0, 0, 0, 3, 0, 0, 0x10, 0, 0, 0, 0, 1, 0, 0, 0, 12])

/-! ### The libraries of a file -/

/-- The filter on the library list: no empty name, not the binary itself. -/
def keepsLib (selfName lib : String) : Bool := lib != "" && lib != selfName && lib != "self"

theorem parse_libs {binary : MachOBinary} {macho : MachO} (h : parse goblin path data = .ok binary)
    (hmacho : goblin.parseMachO binary.data = .ok macho) :
    binary.dylibDeps.map (·.name) = macho.libs.filter (keepsLib (macho.name.getD "")) := by
  have hsingle := parse_single h
  unfold parseSingle at hsingle
  simp only [hmacho] at hsingle
  split_ifs at hsingle
  rw [← Except.ok.inj hsingle]
  simp only [List.map_map]
  exact List.map_id _

end MachOBinary

/-! ### The libraries imports name -/

namespace ChainedFixups
open MachOBinary

section Calls
variable {σ : Type} (resolveSymbol : String → String → σ → Word × σ)

/-- The resolver, with the calls made of it. -/
def recorded (dylib name : String) (s : σ × List (String × String)) :
    Word × (σ × List (String × String)) :=
  ((resolveSymbol dylib name s.1).1, (resolveSymbol dylib name s.1).2, s.2 ++ [(dylib, name)])

/-- The calls of the resolver in a run. -/
def resolverCalls (fuel : Nat) (binary : MachOBinary) (s : σ) (memory : Memory) :
    List (String × String) :=
  (applyFixups (recorded resolveSymbol) fuel binary (s, []) memory).resolver.2

theorem recorded_prefix (binary : MachOBinary) (header : Header) (is : List Nat)
    (s : σ × List (String × String)) :
    s.2 <+: (resolveImports (recorded resolveSymbol) binary header is s).2.2 := by
  induction is generalizing s with
  | nil => exact List.prefix_refl _
  | cons i rest ih =>
    cases hread : readImport binary header i with
    | error e =>
      simp only [resolveImports, hread]
      exact List.prefix_refl _
    | ok call =>
      rw [resolveImports_cons _ hread]
      exact (List.prefix_append s.2 _).trans (ih (recorded resolveSymbol call.1 call.2 s).2)

/-- The call made for an import is the import. -/
theorem recorded_calls {binary : MachOBinary} {header : Header} {is : List Nat}
    {s : σ × List (String × String)} {k : Nat} {call : String × String}
    (h : (resolveImports (recorded resolveSymbol) binary header is s).2.2[s.2.length + k]? =
      some call) : ∃ i, is[k]? = some i ∧ readImport binary header i = .ok call := by
  have hend : s.2[s.2.length + k]? = none := List.getElem?_eq_none (Nat.le_add_right _ _)
  induction is generalizing s k with
  | nil => exact nomatch hend.symm.trans h
  | cons i rest ih =>
    cases hread : readImport binary header i with
    | error e =>
      simp only [resolveImports, hread] at h
      exact nomatch hend.symm.trans h
    | ok import_ =>
      rw [resolveImports_cons _ hread] at h
      let s' := (recorded resolveSymbol import_.1 import_.2 s).2
      have hlen : s'.2.length = s.2.length + 1 := by simp [s', recorded]
      cases k with
      | zero =>
        obtain ⟨more, hmore⟩ := recorded_prefix resolveSymbol binary header rest s'
        have hfirst : s'.2[s.2.length]? = some import_ := by simp [s', recorded]
        have hhead : (s'.2 ++ more)[s.2.length]? = some import_ := by
          rw [List.getElem?_append_left (by omega), hfirst]
        rw [hmore] at hhead
        exact ⟨i, rfl, hread.trans (congrArg Except.ok (Option.some.inj (hhead.symm.trans h)))⟩
      | succ k =>
        have hnext : s.2.length + (k + 1) = s'.2.length + k := by omega
        rw [hnext] at h
        rw [List.getElem?_cons_succ]
        exact ih h (List.getElem?_eq_none (Nat.le_add_right _ _))

end Calls

/-- The record of an import. -/
def importRecord (binary : MachOBinary) (i : Nat) : Except Stop (BitVec 32) :=
  match binary.chainedFixups with
  | none => .error .wild
  | some (offset, size) => do
    let header ← readHeader binary.data offset size
    u32At binary.data (header.base + header.importsOffset.toNat + i * 4)

def libOrdinal (importRaw : BitVec 32) : Nat := (importRaw &&& 0xFF).toNat

/-- A call of the resolver is for the library the ordinal of its import names. -/
theorem resolverCalls_dylib {σ : Type} {resolveSymbol : String → String → σ → Word × σ} {fuel : Nat}
    {binary : MachOBinary} {s : σ} {memory : Memory} {i : Nat} {call : String × String}
    {importRaw : BitVec 32} (hcall : (resolverCalls resolveSymbol fuel binary s memory)[i]? = some call)
    (hraw : importRecord binary i = .ok importRaw) :
    call.1 = dylibName binary (libOrdinal importRaw) := by
  unfold resolverCalls applyFixups at hcall
  unfold importRecord at hraw
  cases hfixups : binary.chainedFixups with
  | none =>
    simp only [hfixups] at hcall
    exact nomatch hcall
  | some range =>
    obtain ⟨offset, size⟩ := range
    simp only [hfixups] at hcall hraw
    cases hheader : readHeader binary.data offset size with
    | error e =>
      simp only [hheader] at hcall
      exact nomatch hcall
    | ok header =>
      simp only [hheader] at hcall hraw
      have hlog : (resolveImports (recorded resolveSymbol) binary header
          (List.range header.importsCount.toNat) (s, [])).2.2[0 + i]? = some call := by
        rw [Nat.zero_add]
        cases hr : resolveImports (recorded resolveSymbol) binary header
            (List.range header.importsCount.toNat) (s, []) with
        | mk answer s' =>
          rw [hr] at hcall
          cases answer with
          | error e => exact hcall
          | ok imports => exact hcall
      obtain ⟨j, hj, hread⟩ := recorded_calls resolveSymbol hlog
      obtain ⟨-, hij⟩ : i < header.importsCount.toNat ∧ i = j := by
        obtain ⟨hlt, heq⟩ := List.getElem?_eq_some_iff.mp hj
        rw [List.getElem_range] at heq
        exact ⟨by simpa using hlt, heq⟩
      subst hij
      obtain ⟨raw, hraw', hread⟩ := Fallible.bind_ok hread
      obtain ⟨name, -, hread⟩ := Fallible.bind_ok hread
      have hsame : raw = importRaw := Except.ok.inj (hraw'.symm.trans hraw)
      rw [← Except.ok.inj hread, hsame]
      rfl

/-- The `k`-th of the load commands for libraries is the `k`-th entry of the list
that is kept: nothing up to it is dropped, or an equal path stands in its place,
or the list is too short and the path is what is passed then. -/
def Aligned (selfName : String) (paths : List String) (k : Nat) : Prop :=
  (∀ lib ∈ paths.take k, keepsLib selfName lib = true) ∨
    (paths.filter (keepsLib selfName))[k - 1]? = paths[k - 1]? ∨
    ((paths.filter (keepsLib selfName)).length < k ∧ paths[k - 1]? = some "self")

theorem filter_take_getElem? {α : Type} {keep : α → Bool} {l : List α} {k n : Nat} (hn : n < k)
    (h : ∀ x ∈ l.take k, keep x = true) : (l.filter keep)[n]? = l[n]? := by
  have hfirst : (l.take k).filter keep = l.take k := List.filter_eq_self.mpr h
  have hsplit : l.filter keep = l.take k ++ (l.drop k).filter keep :=
    calc l.filter keep = (l.take k ++ l.drop k).filter keep := by rw [List.take_append_drop]
      _ = l.take k ++ (l.drop k).filter keep := by rw [List.filter_append, hfirst]
  by_cases hlen : n < l.length
  · rw [hsplit, List.getElem?_append_left (by rw [List.length_take]; omega),
      List.getElem?_take_of_lt hn]
  · have hall : l.take k = l := List.take_of_length_le (by omega)
    rw [List.filter_eq_self.mpr (by rw [← hall]; exact h)]

/-- In a list without repetition the entries that are kept only move to the front. -/
theorem filter_index_le {α : Type} {keep : α → Bool} {l : List α} (hnodup : l.Nodup) {n j : Nat}
    {x : α} (hn : (l.filter keep)[n]? = some x) (hj : l[j]? = some x) : n ≤ j := by
  induction l generalizing n j with
  | nil => exact nomatch hj
  | cons a rest ih =>
    obtain ⟨hfresh, hrest⟩ := List.nodup_cons.mp hnodup
    have hmem : ∀ {m : Nat}, (rest.filter keep)[m]? = some a → False := fun hm =>
      hfresh (List.mem_of_mem_filter (List.mem_of_getElem? hm))
    by_cases hkeep : keep a = true
    · rw [List.filter_cons_of_pos hkeep] at hn
      cases n with
      | zero => exact Nat.zero_le j
      | succ n =>
        cases j with
        | zero =>
          cases hj
          exact (hmem hn).elim
        | succ j => exact Nat.succ_le_succ (ih hrest hn hj)
    · rw [List.filter_cons_of_neg hkeep] at hn
      cases j with
      | zero =>
        cases hj
        exact (hmem hn).elim
      | succ j => exact Nat.le_succ_of_le (ih hrest hn hj)

/-- So one that has not moved has only kept entries before it. -/
theorem filter_getElem?_nodup {α : Type} {keep : α → Bool} {l : List α} (hnodup : l.Nodup) {n : Nat}
    {x : α} (hn : (l.filter keep)[n]? = some x) (hj : l[n]? = some x) :
    ∀ y ∈ l.take (n + 1), keep y = true := by
  induction l generalizing n with
  | nil => exact nomatch hj
  | cons a rest ih =>
    obtain ⟨hfresh, hrest⟩ := List.nodup_cons.mp hnodup
    have hkeep : keep a = true := by
      by_contra hdrop
      rw [List.filter_cons_of_neg hdrop] at hn
      cases n with
      | zero =>
        cases hj
        exact hfresh (List.mem_of_mem_filter (List.mem_of_getElem? hn))
      | succ n => exact absurd (filter_index_le hrest hn hj) (Nat.not_succ_le_self n)
    rw [List.filter_cons_of_pos hkeep] at hn
    intro y hy
    rcases List.mem_cons.mp hy with rfl | hy
    · exact hkeep
    · cases n with
      | zero => exact nomatch hy
      | succ n => exact ih hrest hn hj y hy

/-- When no path is listed twice, the alternatives are that nothing is dropped or
that the path is the name passed for no library. -/
theorem aligned_nodup {selfName : String} {paths : List String} (hnodup : paths.Nodup) {k : Nat}
    (hk : 0 < k) {lib : String} (hlib : paths[k - 1]? = some lib) :
    Aligned selfName paths k ↔ (∀ lib ∈ paths.take k, keepsLib selfName lib = true) ∨
      ((paths.filter (keepsLib selfName)).length < k ∧ lib = "self") := by
  unfold Aligned
  rw [hlib, Option.some_inj]
  constructor
  · rintro (hall | hsame | hshort)
    · exact .inl hall
    · have hkept := filter_getElem?_nodup hnodup hsame hlib
      rw [Nat.sub_add_cancel hk] at hkept
      exact .inl hkept
    · exact .inr hshort
  · rintro (hall | hshort)
    · exact .inl hall
    · exact .inr (.inr hshort)

theorem dylibName_eq {binary : MachOBinary} {k : Nat} (hk : 0 < k) (hk' : k < 0xFD) :
    dylibName binary k = ((binary.dylibDeps.map (·.name))[k - 1]?).getD "self" := by
  unfold dylibName
  rw [List.getElem?_map]
  by_cases hlen : k ≤ binary.dylibDeps.length
  · rw [if_pos ⟨hk, hk', hlen⟩]
  · rw [if_neg fun h => hlen h.2.2, List.getElem?_eq_none (by omega)]
    rfl

/-- **An import asks its own library just when the lists are aligned there.** -/
theorem import_path_iff {σ : Type} (resolveSymbol : String → String → σ → Word × σ)
    (goblin : Goblin) (path : String) (data : List Byte) (binary : MachOBinary) (macho : MachO)
    (paths : List String) (hparse : parse goblin path data = .ok binary)
    (hmacho : goblin.parseMachO binary.data = .ok macho) (hlibs : macho.libs = "self" :: paths)
    (fuel : Nat) (s : σ) (memory : Memory) (i : Nat) (call : String × String)
    (hcall : (resolverCalls resolveSymbol fuel binary s memory)[i]? = some call)
    (importRaw : BitVec 32) (hraw : importRecord binary i = .ok importRaw)
    (hordinal : 0 < libOrdinal importRaw ∧ libOrdinal importRaw < 0xFD) (lib : String)
    (hlib : paths[libOrdinal importRaw - 1]? = some lib) :
    call.1 = lib ↔ Aligned (macho.name.getD "") paths (libOrdinal importRaw) := by
  have hkept : binary.dylibDeps.map (·.name) =
      paths.filter (keepsLib (macho.name.getD "")) := by
    have hself : keepsLib (macho.name.getD "") "self" ≠ true := by simp [keepsLib]
    rw [parse_libs hparse hmacho, hlibs, List.filter_cons_of_neg hself]
  rw [resolverCalls_dylib hcall hraw, dylibName_eq hordinal.1 hordinal.2, hkept]
  generalize libOrdinal importRaw = k at hlib hordinal ⊢
  unfold Aligned
  rw [hlib]
  constructor
  · intro heq
    cases hfound : (paths.filter (keepsLib (macho.name.getD "")))[k - 1]? with
    | none =>
      rw [hfound] at heq
      have hlen := List.getElem?_eq_none_iff.mp hfound
      exact .inr (.inr ⟨by omega, congrArg some heq.symm⟩)
    | some found =>
      rw [hfound] at heq
      exact .inr (.inl (congrArg some heq))
  · rintro (hall | hsame | ⟨hshort, hself⟩)
    · rw [filter_take_getElem? (by omega) hall, hlib]
      rfl
    · rw [hsame]
      rfl
    · rw [List.getElem?_eq_none (by omega)]
      exact (Option.some.inj hself).symm

/-- A library with an import of its second library. It lists itself first, under
the name it has (the first) or under another. -/
def importsSecond (selfName : String) : Goblin where
  parseMachO _ := .ok {
    filetype := 6
    cputype := CPU_TYPE_X86_64
    name := some selfName
    libs := ["self", "liba.dylib", "libb.dylib"]
    rpaths := []
    loadCommands := [.segment64 (some "__TEXT") 0 0x1000 0 277 5 5, .other, .other, .other,
      .dyldChainedFixups 240 37]
    exports := .ok []
    symbols := []
    imports := .ok [] }
  parseMach _ := .error "not fat"

/-- Its file: behind the load commands a header, no segments, one import (ordinal 2, name
at 0), and an empty name. -/
def importsSecondData (selfName : String) : List Byte :=
  MachoFile.file 6 [MachoFile.segment64 "__TEXT" 0 0x1000 0 277 5 [],
    MachoFile.dylib 0xd selfName, MachoFile.dylib 0xc "liba.dylib",
    MachoFile.dylib 0xc "libb.dylib", MachoFile.dyldChainedFixups 240 37]
    (MachoFile.words [0, 28, 32, 36, 1, 1, 0, 0, 2] ++ [0])

theorem import_path_plain : "libb.dylib" = "libb.dylib" ↔
    Aligned "libc.dylib" ["liba.dylib", "libb.dylib"] 2 :=
  import_path_iff resolveNothing (importsSecond "libc.dylib") "libc.dylib"
    (importsSecondData "libc.dylib") _ _ ["liba.dylib", "libb.dylib"] rfl rfl rfl 1 () (fun _ => 0) 0
    ("libb.dylib", "") (by decide +kernel) 2 (by decide +kernel) (by decide) "libb.dylib" rfl

/-- A library that loads itself moves the ordinals of those after it. -/
theorem import_of_dropped : ¬ ∀ {σ : Type} (resolveSymbol : String → String → σ → Word × σ)
    (goblin : Goblin) (path : String) (data : List Byte) (binary : MachOBinary) (macho : MachO)
    (paths : List String), parse goblin path data = .ok binary →
    goblin.parseMachO binary.data = .ok macho → macho.libs = "self" :: paths →
    ∀ (fuel : Nat) (s : σ) (memory : Memory) (i : Nat) (call : String × String),
    (resolverCalls resolveSymbol fuel binary s memory)[i]? = some call →
    ∀ importRaw : BitVec 32, importRecord binary i = .ok importRaw →
    0 < libOrdinal importRaw ∧ libOrdinal importRaw < 0xFD →
    ∀ lib : String, paths[libOrdinal importRaw - 1]? = some lib → call.1 = lib := by
  intro h
  have hpath := h resolveNothing (importsSecond "liba.dylib") "liba.dylib"
    (importsSecondData "liba.dylib") _ _ ["liba.dylib", "libb.dylib"] rfl rfl rfl 1 () (fun _ => 0) 0
    ("self", "") (by decide +kernel) 2 (by decide +kernel) (by decide) "libb.dylib" rfl
  exact absurd hpath (by decide)

end ChainedFixups

end Grafted.Loader
