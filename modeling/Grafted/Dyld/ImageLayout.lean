import Grafted.Dyld.LoadClosure
import Grafted.Loader.ImageRanges

/-! Where the images of a program lie.

The program is mapped first, then its libraries, one turn of the loop after the
other. What a turn maps stays mapped, and the kernel picks free ranges; so an image
meets an earlier one only at a segment whose address the file fixes
(`images_disjoint_iff`). -/
namespace Grafted.Dyld.Linker
open ByteMemory Loader Mapper

/-- An image that was mapped, with the address space it was mapped into. -/
structure Mapping where
  binary : MachOBinary
  slide : Word
  space : AddressSpace

def Mapping.Covers (kernel : Kernel) (mapping : Mapping) (x : Address) : Prop :=
  ∃ range ∈ imageRanges kernel mapping.binary mapping.space, range.Has x

/-- A segment of the image at an address nobody picked for it. -/
def Mapping.Pins (mapping : Mapping) (x : Address) : Prop :=
  ∃ seg, Pinned mapping.binary mapping.slide seg ∧ (Segment.range seg mapping.slide).Has x

section Turns
variable (host : Host) (executablePath : Path)

def Turn.mapping (turn : Turn) : Option Mapping :=
  match turn.image host executablePath with
  | none => none
  | some image =>
    match mapBinary host.kernel image.binary turn.st.space with
    | .ok ((_, slide), _) => some ⟨image.binary, slide, turn.st.space⟩
    | .error _ => none

def mappings (run : List Turn) : List Mapping := run.filterMap (Turn.mapping host executablePath)

variable {host executablePath}

theorem mapping_some {turn : Turn} {mapping : Mapping}
    (h : turn.mapping host executablePath = some mapping) : mapping.space = turn.st.space ∧
      ∃ image entry space', turn.image host executablePath = some image ∧
        mapping.binary = image.binary ∧
        mapBinary host.kernel mapping.binary mapping.space = .ok ((entry, mapping.slide), space') := by
  unfold Turn.mapping at h
  split at h
  · exact nomatch h
  · rename_i image himage
    split at h
    · rename_i entry slide space' hmap
      cases h
      exact ⟨rfl, image, entry, space', himage, rfl, hmap⟩
    · exact nomatch h

/-- A turn keeps what is mapped, and adds the image it maps. -/
theorem Turned.mapped_grows (hfree : host.kernel.PicksFree) {next : Pending} {st st' : Loading}
    (h : Turned host executablePath next st st') {x : Address}
    (hx : st.space.mapped x = true ∨ ∃ mapping,
      Turn.mapping host executablePath ⟨next, st⟩ = some mapping ∧ mapping.Covers host.kernel x) :
    st'.space.mapped x = true := by
  have hnone : ∀ {mapping : Mapping}, Turn.mapping host executablePath ⟨next, st⟩ = some mapping →
      Asks next st ∧ ∃ linuxPath,
        edgeFile host executablePath st.linker.resolver next = some linuxPath ∧
        MachOBinary.fromPath host.goblin host.readFile linuxPath.display = .ok mapping.binary := by
    intro mapping hmapping
    obtain ⟨-, image, _, _, himage, hbinary, -⟩ := mapping_some hmapping
    obtain ⟨hasks, -, hfile, hparse⟩ := image_some himage
    exact ⟨hasks, image.file, hfile, hbinary ▸ hparse⟩
  cases h with
  | known hknown =>
    rcases hx with hx | ⟨mapping, hmapping, -⟩
    · exact hx
    · exact absurd (hnone hmapping).1 hknown
  | skipped _ hno =>
    rcases hx with hx | ⟨mapping, hmapping, -⟩
    · exact hx
    · obtain ⟨-, linuxPath, hfile, hparse⟩ := hnone hmapping
      obtain ⟨e, herror⟩ := hno linuxPath hfile
      exact nomatch hparse.symm.trans herror
  | @mapped linuxPath libBinary entry slide space _ hfile hparse hmap =>
    refine (imageRanges_mapped hfree hmap x).mpr ?_
    rcases hx with hx | ⟨mapping, hmapping, hcovers⟩
    · exact .inr hx
    · obtain ⟨-, linuxPath', hfile', hparse'⟩ := hnone hmapping
      cases hfile.symm.trans hfile'
      cases hparse.symm.trans hparse'
      have hspace : mapping.space = st.space := (mapping_some hmapping).1
      rw [Mapping.Covers, hspace] at hcovers
      exact .inl hcovers

/-- What an image covers, or was mapped at the start, is mapped when a later image
is. -/
theorem mappings_ordered (hfree : host.kernel.PicksFree) (fuel : Nat) (st : Loading) :
    (mappings host executablePath (turns host executablePath fuel st)).Pairwise
        (fun earlier later => ∀ x, earlier.Covers host.kernel x → later.space.mapped x = true) ∧
      ∀ mapping ∈ mappings host executablePath (turns host executablePath fuel st),
        ∀ x, st.space.mapped x = true → mapping.space.mapped x = true := by
  refine turns_induction (P := fun st run =>
    (mappings host executablePath run).Pairwise
        (fun earlier later => ∀ x, earlier.Covers host.kernel x → later.space.mapped x = true) ∧
      ∀ mapping ∈ mappings host executablePath run,
        ∀ x, st.space.mapped x = true → mapping.space.mapped x = true)
    (fun _ => ⟨List.Pairwise.nil, fun _ h => nomatch h⟩) ?_ fuel st
  intro st next rest later _ hafter
  have hlater : (mappings host executablePath later).Pairwise
        (fun earlier later => ∀ x, earlier.Covers host.kernel x → later.space.mapped x = true) ∧
      ∀ mapping ∈ mappings host executablePath later, ∀ x, (st.space.mapped x = true ∨
        ∃ first, Turn.mapping host executablePath ⟨next, {st with toLoad := rest}⟩ = some first ∧
          first.Covers host.kernel x) → mapping.space.mapped x = true := by
    rcases hafter with rfl | ⟨st₁, hturn, hpairs, hkept⟩
    · exact ⟨List.Pairwise.nil, fun _ h => nomatch h⟩
    · exact ⟨hpairs, fun mapping hmem x hx => hkept mapping hmem x (hturn.mapped_grows hfree hx)⟩
  obtain ⟨hpairs, hkept⟩ := hlater
  rw [mappings, List.filterMap_cons]
  cases hfirst : Turn.mapping host executablePath ⟨next, {st with toLoad := rest}⟩ with
  | none => exact ⟨hpairs, fun mapping hmem x hx => hkept mapping hmem x (.inl hx)⟩
  | some first =>
    refine ⟨List.pairwise_cons.mpr ⟨fun mapping hmem x hx =>
      hkept mapping hmem x (.inr ⟨first, hfirst, hx⟩), hpairs⟩, fun mapping hmem x hx => ?_⟩
    rcases List.mem_cons.mp hmem with rfl | hmem
    · rw [(mapping_some hfirst).1]
      exact hx
    · exact hkept mapping hmem x (.inl hx)

end Turns

/-- The images of a program, in the order they are mapped: its own, and those of its
libraries. -/
def imagesOf (host : Host) (fuel : Nat) (linker : Linker) (program : MachOBinary) (slide : Word)
    (space space₁ : AddressSpace) : List Mapping :=
  ⟨program, slide, space⟩ :: mappings host (Path.ofString program.path)
    (loadTurns host fuel linker {program with slide := slide} space₁)

/-- **Where images meet.** The images of a program lie apart exactly when no pinned
segment of one is placed on an image mapped before it. -/
theorem images_disjoint_iff {host : Host} (hfree : host.kernel.PicksFree) {program : MachOBinary}
    {entry : Address} {slide : Word} {space space₁ : AddressSpace}
    (hmain : mapBinary host.kernel program space = .ok ((entry, slide), space₁)) (fuel : Nat)
    (linker : Linker) :
    (imagesOf host fuel linker program slide space space₁).Pairwise
        (fun earlier later => ∀ x, ¬ (earlier.Covers host.kernel x ∧ later.Covers host.kernel x)) ↔
      (imagesOf host fuel linker program slide space space₁).Pairwise
        (fun earlier later => ∀ x, later.Pins x → ¬ earlier.Covers host.kernel x) := by
  have hmapped : ∀ mapping ∈ imagesOf host fuel linker program slide space space₁,
      ∃ entry space', mapBinary host.kernel mapping.binary mapping.space =
        .ok ((entry, mapping.slide), space') := by
    intro mapping hmem
    rcases List.mem_cons.mp hmem with rfl | hmem
    · exact ⟨entry, space₁, hmain⟩
    · obtain ⟨turn, _, hturn⟩ := List.mem_filterMap.mp hmem
      obtain ⟨-, _, entry, space', -, -, hmap⟩ := mapping_some hturn
      exact ⟨entry, space', hmap⟩
  have hordered : (imagesOf host fuel linker program slide space space₁).Pairwise
      fun earlier later => ∀ x, earlier.Covers host.kernel x → later.space.mapped x = true := by
    have hlibraries := @mappings_ordered host (Path.ofString program.path) hfree fuel
      (start linker {program with slide := slide} space₁)
    obtain ⟨hpairs, hkept⟩ := hlibraries
    refine List.pairwise_cons.mpr ⟨fun mapping hmem x hx => hkept mapping hmem x ?_, hpairs⟩
    exact (imageRanges_mapped hfree hmain x).mpr (.inl hx)
  constructor
  · intro h
    refine List.Pairwise.imp_of_mem (fun {earlier later} _ hlater hapart x hpins hcovers => ?_) h
    obtain ⟨_, _, hmap⟩ := hmapped later hlater
    obtain ⟨seg, hpinned, hx⟩ := hpins
    exact hapart x ⟨hcovers, _, pinned_range hmap hpinned, hx⟩
  · intro h
    refine List.Pairwise.imp_of_mem (fun {earlier later} _ hlater hboth x => ?_) (h.and hordered)
    obtain ⟨hpins, hold⟩ := hboth
    intro hmeets
    obtain ⟨hcovers, range, hrange, hx⟩ := hmeets
    obtain ⟨_, _, hmap⟩ := hmapped later hlater
    rcases imageRanges_new hfree hmap hrange hx with hnew | hpinned
    · rw [hold x hcovers] at hnew
      exact nomatch hnew
    · exact hpins x hpinned hcovers

/-- A kernel that has one place to give. -/
def onePlace : Kernel where
  mmapAnywhere := fun s size =>
    if ∀ x, within 0x7f0000000000 size x = true → s.mapped x = false then .ok 0x7f0000000000
    else .error "ENOMEM"
  mmapFixed := fun _ _ _ => none
  mprotect := fun _ _ _ _ => none

theorem onePlace_free : onePlace.PicksFree := by
  intro s size base hbase
  simp only [onePlace] at hbase
  split_ifs at hbase with hfree
  cases hbase
  exact hfree

/-- A program and a library, both with a __TEXT that is not slid. -/
def fixedHost (vmaddr : Address) : Host :=
  {graphHost vmaddr [("/liba.dylib", [])] with kernel := onePlace}

def fixedProgram : MachOBinary :=
  {graphProgram ["/liba.dylib"] with segments := [⟨"__TEXT", 0x100000000, 0x1000, 0, 0, 5, 5⟩]}

def fixedLibrary (vmaddr : Address) : MachOBinary :=
  {graphProgram [] with
    path := "/liba.dylib"
    fileType := 6
    entryIsOffset := false
    segments := [⟨"__TEXT", vmaddr, 0x1000, 0, 0, 5, 5⟩]
    data := "/liba.dylib".toList.map fun c => BitVec.ofNat 8 c.toNat}

def programSpace : AddressSpace :=
  {emptySpace.map 0x100000000 0x1000 with calls := 2}

theorem fixedProgram_maps (vmaddr : Address) :
    mapBinary (fixedHost vmaddr).kernel fixedProgram emptySpace =
      .ok ((0x100000000, 0), programSpace) := rfl

theorem program_covers {x : Address} (h : (⟨fixedProgram, 0, emptySpace⟩ : Mapping).Covers onePlace x) :
    (x - 0x100000000).toNat < 0x1000 := by
  have hranges : imageRanges onePlace fixedProgram emptySpace = [⟨0x100000000, 0x1000⟩] := rfl
  obtain ⟨range, hrange, hx⟩ := h
  rw [hranges] at hrange
  rw [List.mem_singleton.mp hrange] at hx
  exact of_decide_eq_true hx

theorem images_disjoint_fixed : (imagesOf (fixedHost 0x200000000) 1 (new ∅) fixedProgram 0
    emptySpace programSpace).Pairwise (fun earlier later =>
      ∀ x, ¬ (earlier.Covers onePlace x ∧ later.Covers onePlace x)) := by
  have himages : imagesOf (fixedHost 0x200000000) 1 (new ∅) fixedProgram 0 emptySpace programSpace =
      [⟨fixedProgram, 0, emptySpace⟩, ⟨fixedLibrary 0x200000000, 0, programSpace⟩] := rfl
  refine (@images_disjoint_iff (fixedHost 0x200000000) onePlace_free _ _ _ _ _
    (fixedProgram_maps 0x200000000) 1 (new ∅)).mpr ?_
  rw [himages]
  refine List.pairwise_pair.mpr ?_
  intro x h hcovers
  obtain ⟨seg, hseg, hx⟩ := h
  have hprogram := program_covers hcovers
  rw [List.mem_singleton.mp hseg.mem] at hx
  have hlibrary : (x - (0x200000000 + 0)).toNat < 0x1000 := of_decide_eq_true hx
  bv_omega

/-- A library that asks for the addresses of the program is mapped over it. -/
theorem library_over_program : ¬ ∀ {host : Host}, host.kernel.PicksFree →
    ∀ {program : MachOBinary} {entry : Address} {slide : Word} {space space₁ : AddressSpace},
    mapBinary host.kernel program space = .ok ((entry, slide), space₁) →
    ∀ (fuel : Nat) (linker : Linker),
    (imagesOf host fuel linker program slide space space₁).Pairwise
      (fun earlier later => ∀ x, ¬ (earlier.Covers host.kernel x ∧ later.Covers host.kernel x)) := by
  intro h
  have himages : imagesOf (fixedHost 0x100000000) 1 (new ∅) fixedProgram 0 emptySpace programSpace =
      [⟨fixedProgram, 0, emptySpace⟩, ⟨fixedLibrary 0x100000000, 0, programSpace⟩] := rfl
  have hapart := @h (fixedHost 0x100000000) onePlace_free _ _ _ _ _
    (fixedProgram_maps 0x100000000) 1 (new ∅)
  rw [himages] at hapart
  refine List.pairwise_pair.mp hapart 0x100000000 ⟨?_, ?_⟩
  · exact ⟨⟨0x100000000, 0x1000⟩, List.mem_singleton.mpr rfl, rfl⟩
  · exact ⟨⟨0x100000000, 0x1000⟩, List.mem_singleton.mpr rfl, rfl⟩

end Grafted.Dyld.Linker
