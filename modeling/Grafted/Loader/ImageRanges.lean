import Grafted.Base.Fallible
import Grafted.Loader.Mapper

/-! The addresses the image of a binary takes.

`imageRanges` is what `map_binary` maps and leaves mapped. A range is new to the
address space when the kernel picked it, or when it lies in the range the kernel
picked for the slide; every other range is where the file asks for it, whatever is
there (`imageRanges_new`). -/
namespace Grafted.Loader.Mapper
open ByteMemory

structure Range where
  base : Address
  size : Nat

def Range.Has (range : Range) (x : Address) : Prop := within range.base range.size x = true

/-- A range asked for without an address is free. -/
def Kernel.PicksFree (kernel : Kernel) : Prop :=
  ∀ s size base, kernel.mmapAnywhere s size = .ok base →
    ∀ x, within base size x = true → s.mapped x = false

section Ranges
variable (kernel : Kernel) (data : List Byte) (slide : Word)

def segmentRange (seg : Segment) (s : AddressSpace) : Option Range :=
  if seg.vmsize = 0 then none
  else
    match mmapSegment kernel (seg.vmaddr + slide) seg.vmsize.toNat s with
    | .ok (ptr, _) => some ⟨ptr, seg.vmsize.toNat⟩
    | .error _ => none

def segmentRanges : List Segment → AddressSpace → List Range
  | [], _ => []
  | seg :: rest, s =>
    if notPageZero seg then
      (segmentRange kernel slide seg s).toList ++
        match mapSegment kernel data slide seg s with
        | .ok s' => segmentRanges rest s'
        | .error _ => []
    else segmentRanges rest s

variable {kernel data slide}

theorem mmapSegment_ok {vmaddr ptr : Address} {vmsize : Nat} {s s' : AddressSpace}
    (h : mmapSegment kernel vmaddr vmsize s = .ok (ptr, s')) :
    s' = s.map ptr vmsize ∧
      (vmaddr ≠ 0 ∧ ptr = vmaddr ∨ vmaddr = 0 ∧ kernel.mmapAnywhere s vmsize = .ok ptr) := by
  unfold mmapSegment at h
  split_ifs at h with hzero
  · split at h
    · exact nomatch h
    · rename_i base hbase
      cases h
      exact ⟨rfl, .inr ⟨hzero, hbase⟩⟩
  · split at h
    · exact nomatch h
    · cases h
      exact ⟨rfl, .inl ⟨hzero, rfl⟩⟩

theorem copySegment_mapped {seg : Segment} {ptr : Address} {s s' : AddressSpace}
    (h : copySegment data seg ptr s = .ok s') : s'.mapped = s.mapped := by
  unfold copySegment at h
  split_ifs at h <;> cases h <;> rfl

/-- What mapping a segment does to the address space: its range, if it has one, is
mapped besides what was. -/
theorem mapSegment_mapped {seg : Segment} {s s' : AddressSpace}
    (h : mapSegment kernel data slide seg s = .ok s') (x : Address) :
    s'.mapped x = true ↔
      (∃ range, segmentRange kernel slide seg s = some range ∧ range.Has x) ∨ s.mapped x = true := by
  unfold mapSegment at h
  unfold segmentRange
  split_ifs at h with hsize
  · cases h
    rw [if_pos hsize]
    exact ⟨.inr, fun h => h.elim (fun ⟨_, h, _⟩ => nomatch h) id⟩
  · obtain ⟨⟨ptr, mapped⟩, hmmap, h⟩ := Fallible.bind_ok h
    obtain ⟨copied, hcopy, h⟩ := Fallible.bind_ok h
    rw [if_neg hsize, hmmap]
    have hmapped : s'.mapped = (s.map ptr seg.vmsize.toNat).mapped := by
      rw [← (mmapSegment_ok hmmap).1, ← copySegment_mapped hcopy]
      split at h
      · exact nomatch h
      · cases h
        rfl
    rw [hmapped]
    simp only [AddressSpace.map, Bool.or_eq_true]
    exact or_congr_left ⟨fun hx => ⟨_, rfl, hx⟩, fun ⟨_, hrange, hx⟩ => by cases hrange; exact hx⟩

theorem mapSegments_mapped {segs : List Segment} {s s' : AddressSpace}
    (h : mapSegments kernel data slide segs s = .ok s') (x : Address) :
    s'.mapped x = true ↔
      (∃ range ∈ segmentRanges kernel data slide segs s, range.Has x) ∨ s.mapped x = true := by
  induction segs generalizing s with
  | nil =>
    cases h
    exact ⟨.inr, fun h => h.elim (fun ⟨_, h, _⟩ => nomatch h) id⟩
  | cons seg rest ih =>
    unfold mapSegments at h
    unfold segmentRanges
    split_ifs at h ⊢
    · obtain ⟨s₁, hseg, hrest⟩ := Fallible.bind_ok h
      rw [hseg, ih hrest, mapSegment_mapped hseg]
      simp only [List.mem_append, Option.mem_toList, or_and_right, exists_or]
      exact or_left_comm.trans or_assoc.symm
    · exact ih h

theorem segmentRange_some {seg : Segment} {s : AddressSpace} {range : Range}
    (h : segmentRange kernel slide seg s = some range) :
    seg.vmsize ≠ 0 ∧ range.size = seg.vmsize.toNat ∧
      ∃ s', mmapSegment kernel (seg.vmaddr + slide) range.size s = .ok (range.base, s') := by
  unfold segmentRange at h
  split_ifs at h with hsize
  split at h
  · rename_i ptr s' hmmap
    cases h
    exact ⟨hsize, rfl, s', hmmap⟩
  · cases h

/-- A range is that of a segment, in an address space where what was mapped still is. -/
theorem mem_segmentRanges {segs : List Segment} {s : AddressSpace} {range : Range}
    (h : range ∈ segmentRanges kernel data slide segs s) :
    ∃ seg ∈ segs, notPageZero seg = true ∧ ∃ s₁, (∀ x, s.mapped x = true → s₁.mapped x = true) ∧
      segmentRange kernel slide seg s₁ = some range := by
  induction segs generalizing s with
  | nil => cases h
  | cons seg rest ih =>
    unfold segmentRanges at h
    split_ifs at h with hzero
    · rcases List.mem_append.mp h with h | h
      · exact ⟨seg, List.mem_cons_self, hzero, s, fun _ => id, Option.mem_toList.mp h⟩
      · split at h
        · rename_i s₁ hseg
          obtain ⟨seg', hmem, hzero', s₂, hgrows, hrange⟩ := ih h
          refine ⟨seg', List.mem_cons_of_mem _ hmem, hzero', s₂, fun x hx => ?_, hrange⟩
          exact hgrows x ((mapSegment_mapped hseg x).mpr (.inr hx))
        · cases h
    · obtain ⟨seg', hmem, hrest⟩ := ih h
      exact ⟨seg', List.mem_cons_of_mem _ hmem, hrest⟩

/-- A range is where its segment asks to be, slide included, or where the kernel
put it. -/
theorem segmentRanges_placed {segs : List Segment} {s : AddressSpace} {range : Range}
    (h : range ∈ segmentRanges kernel data slide segs s) :
    ∃ seg ∈ segs, notPageZero seg = true ∧ seg.vmsize ≠ 0 ∧ range.size = seg.vmsize.toNat ∧
      (seg.vmaddr + slide ≠ 0 ∧ range.base = seg.vmaddr + slide ∨
        seg.vmaddr + slide = 0 ∧ ∃ s₁, (∀ x, s.mapped x = true → s₁.mapped x = true) ∧
          kernel.mmapAnywhere s₁ range.size = .ok range.base) := by
  obtain ⟨seg, hmem, hzero, s₁, hgrows, hrange⟩ := mem_segmentRanges h
  obtain ⟨hsize, hrangeSize, s', hmmap⟩ := segmentRange_some hrange
  refine ⟨seg, hmem, hzero, hsize, hrangeSize, ?_⟩
  rcases (mmapSegment_ok hmmap).2 with hfixed | ⟨haddr, hpicked⟩
  · exact .inl hfixed
  · exact .inr ⟨haddr, s₁, hgrows, hpicked⟩

/-- A segment with an address has its range there. -/
theorem segmentRanges_fixed {segs : List Segment} {s s' : AddressSpace}
    (h : mapSegments kernel data slide segs s = .ok s') {seg : Segment} (hseg : seg ∈ segs)
    (hzero : notPageZero seg = true) (hsize : seg.vmsize ≠ 0) (haddr : seg.vmaddr + slide ≠ 0) :
    ⟨seg.vmaddr + slide, seg.vmsize.toNat⟩ ∈ segmentRanges kernel data slide segs s := by
  induction segs generalizing s with
  | nil => exact nomatch hseg
  | cons first rest ih =>
    unfold mapSegments at h
    unfold segmentRanges
    split_ifs at h ⊢ with hfirst
    · obtain ⟨s₁, hone, hrest⟩ := Fallible.bind_ok h
      rw [hone]
      rcases List.mem_cons.mp hseg with rfl | hseg
      · refine List.mem_append_left _ (Option.mem_toList.mpr ?_)
        unfold mapSegment at hone
        rw [if_neg hsize] at hone
        obtain ⟨⟨ptr, mapped⟩, hmmap, -⟩ := Fallible.bind_ok hone
        rw [segmentRange, if_neg hsize, hmmap]
        rcases (mmapSegment_ok hmmap).2 with ⟨-, rfl⟩ | ⟨hnone, -⟩
        · rfl
        · exact absurd hnone haddr
      · exact List.mem_append_right _ (ih hrest hseg)
    · rcases List.mem_cons.mp hseg with rfl | hseg
      · exact absurd hzero hfirst
      · exact ih h hseg

end Ranges

/-! ### One image -/

/-- The image is slid: __TEXT is at 0, or there is none. -/
def IsSlid (binary : MachOBinary) : Prop := (binary.textSegment.map (·.vmaddr)).getD 0 = 0

instance (binary : MachOBinary) : Decidable (IsSlid binary) :=
  inferInstanceAs (Decidable ((binary.textSegment.map (·.vmaddr)).getD 0 = 0))

def imageRanges (kernel : Kernel) (binary : MachOBinary) (s : AddressSpace) : List Range :=
  match chooseSlide kernel binary s with
  | .ok (slide, s) => segmentRanges kernel binary.data slide binary.segments s
  | .error _ => []

/-- The segment is mapped at an address of the file, which nobody reserved: the
image is not slid, or the segment ends past the top of memory. -/
structure Pinned (binary : MachOBinary) (slide : Word) (seg : Segment) : Prop where
  mem : seg ∈ binary.segments
  notZero : notPageZero seg = true
  size : seg.vmsize ≠ 0
  addr : seg.vmaddr + slide ≠ 0
  unreserved : IsSlid binary → 2 ^ 64 ≤ seg.vmaddr.toNat + seg.vmsize.toNat

def Segment.range (seg : Segment) (slide : Word) : Range := ⟨seg.vmaddr + slide, seg.vmsize.toNat⟩

section Image
variable {kernel : Kernel} {binary : MachOBinary} {s s' : AddressSpace} {slide : Word}

theorem le_foldl_max (sizes : List Nat) (first : Nat) :
    first ≤ sizes.foldl max first ∧ ∀ size ∈ sizes, size ≤ sizes.foldl max first := by
  induction sizes generalizing first with
  | nil => exact ⟨Nat.le_refl first, fun _ h => nomatch h⟩
  | cons size rest ih =>
    obtain ⟨hfirst, hrest⟩ := ih (max first size)
    rw [List.foldl_cons]
    refine ⟨Nat.le_trans (Nat.le_max_left _ _) hfirst, fun size' hsize' => ?_⟩
    rcases List.mem_cons.mp hsize' with rfl | hsize'
    · exact Nat.le_trans (Nat.le_max_right _ _) hfirst
    · exact hrest size' hsize'

/-- A segment that does not wrap lies in the range picked for the slide. -/
theorem reserved_within {seg : Segment} (hmem : seg ∈ binary.segments)
    (hzero : notPageZero seg = true) (hend : seg.vmaddr.toNat + seg.vmsize.toNat < 2 ^ 64)
    {x : Address} (hx : (Segment.range seg slide).Has x) :
    within slide (totalSize binary) x = true := by
  have htotal : (seg.vmaddr + seg.vmsize).toNat ≤ totalSize binary :=
    (le_foldl_max _ 0).2 _ (List.mem_map.mpr ⟨seg, List.mem_filter.mpr ⟨hmem, hzero⟩, rfl⟩)
  have hsum : (seg.vmaddr + seg.vmsize).toNat = seg.vmaddr.toNat + seg.vmsize.toNat := by
    rw [BitVec.toNat_add]
    exact Nat.mod_eq_of_lt hend
  have hx : (x - (seg.vmaddr + slide)).toNat < seg.vmsize.toNat := of_decide_eq_true hx
  refine decide_eq_true ?_
  have hoffset : (x - slide).toNat = seg.vmaddr.toNat + (x - (seg.vmaddr + slide)).toNat := by
    have hsplit : x - slide = seg.vmaddr + (x - (seg.vmaddr + slide)) := by bv_omega
    rw [hsplit, BitVec.toNat_add]
    exact Nat.mod_eq_of_lt (by omega)
  omega

theorem chooseSlide_ok (hfree : kernel.PicksFree)
    (h : chooseSlide kernel binary s = .ok (slide, s')) :
    (∀ x, s'.mapped x = s.mapped x) ∧
      (IsSlid binary → ∀ x, within slide (totalSize binary) x = true → s.mapped x = false) := by
  unfold chooseSlide at h
  split_ifs at h with hslid hnone
  · split at h
    · exact nomatch h
    · rename_i base hbase
      cases h
      have hnew := hfree s _ slide hbase
      refine ⟨fun x => ?_, fun _ => hnew⟩
      simp only [AddressSpace.unmap, AddressSpace.map]
      cases hx : within slide (totalSize binary) x with
      | true => simp [hnew x hx]
      | false => simp
  · cases h
    exact ⟨fun _ => rfl, fun hslid' => absurd hslid' hslid⟩

theorem mapBinary_ok {entry : Address} (h : mapBinary kernel binary s = .ok ((entry, slide), s')) :
    ∃ s₁, chooseSlide kernel binary s = .ok (slide, s₁) ∧
      mapSegments kernel binary.data slide binary.segments s₁ = .ok s' ∧
      imageRanges kernel binary s = segmentRanges kernel binary.data slide binary.segments s₁ := by
  obtain ⟨⟨slide', s₁⟩, hslide, h⟩ := Fallible.bind_ok h
  obtain ⟨s₂, hsegs, h⟩ := Fallible.bind_ok h
  obtain ⟨entry', _, h⟩ := Fallible.bind_ok h
  cases h
  refine ⟨s₁, hslide, hsegs, ?_⟩
  rw [imageRanges, hslide]

/-- The ranges of the image are mapped besides what was. -/
theorem imageRanges_mapped (hfree : kernel.PicksFree) {entry : Address}
    (h : mapBinary kernel binary s = .ok ((entry, slide), s')) (x : Address) :
    s'.mapped x = true ↔ (∃ range ∈ imageRanges kernel binary s, range.Has x) ∨ s.mapped x = true := by
  obtain ⟨s₁, hslide, hsegs, hranges⟩ := mapBinary_ok h
  rw [mapSegments_mapped hsegs, hranges, (chooseSlide_ok hfree hslide).1]

/-- An address of the image was free, or is one that a pinned segment asks for. -/
theorem imageRanges_new (hfree : kernel.PicksFree) {entry : Address}
    (h : mapBinary kernel binary s = .ok ((entry, slide), s')) {range : Range}
    (hrange : range ∈ imageRanges kernel binary s) {x : Address} (hx : range.Has x) :
    s.mapped x = false ∨ ∃ seg, Pinned binary slide seg ∧ (Segment.range seg slide).Has x := by
  obtain ⟨s₁, hslide, -, hranges⟩ := mapBinary_ok h
  obtain ⟨hsame, hreserved⟩ := chooseSlide_ok hfree hslide
  rw [hranges] at hrange
  obtain ⟨seg, hmem, hzero, hsize, hlen, ⟨haddr, hbase⟩ | ⟨-, s₂, hgrows, hpicked⟩⟩ :=
    segmentRanges_placed hrange
  · have hseg : (Segment.range seg slide).Has x := by
      simpa only [Range.Has, Segment.range, ← hbase, ← hlen] using hx
    by_cases hpinned : IsSlid binary → 2 ^ 64 ≤ seg.vmaddr.toNat + seg.vmsize.toNat
    · exact .inr ⟨seg, ⟨hmem, hzero, hsize, haddr, hpinned⟩, hseg⟩
    · obtain ⟨hslid, hend⟩ := Classical.not_imp.mp hpinned
      exact .inl (hreserved hslid x (reserved_within hmem hzero (Nat.lt_of_not_le hend) hseg))
  · left
    have hnew : s₂.mapped x = false := hfree s₂ _ _ hpicked x hx
    by_contra hold
    have hold₁ : s₁.mapped x = true := by
      rw [hsame]
      simpa using hold
    rw [hgrows x hold₁] at hnew
    exact nomatch hnew

theorem pinned_range {entry : Address} (h : mapBinary kernel binary s = .ok ((entry, slide), s'))
    {seg : Segment} (hseg : Pinned binary slide seg) :
    Segment.range seg slide ∈ imageRanges kernel binary s := by
  obtain ⟨s₁, -, hsegs, hranges⟩ := mapBinary_ok h
  rw [hranges]
  exact segmentRanges_fixed hsegs hseg.mem hseg.notZero hseg.size hseg.addr

end Image

end Grafted.Loader.Mapper
