import Grafted.Loader.ImageRanges

/-! What a segment leaves in memory.

A segment that is mapped decides the bytes of its range, and those its part of
the file runs over (`mapSegment_memory`); a later segment decides them again
(`mapSegments_memory`). -/
namespace Grafted.Loader.Mapper
open ByteMemory Fallible

/-- The byte a process reads at an address; none if nothing is mapped there. -/
def AddressSpace.byteAt (s : AddressSpace) (x : Address) : Option Byte :=
  if s.mapped x then some (s.memory x) else none

/-- A mapping lies in the address space, off address 0, and is free unless it was
asked for by address. -/
structure Kernel.Maps (kernel : Kernel) : Prop where
  free : kernel.PicksFree
  nonNull : ∀ s size base, kernel.mmapAnywhere s size = .ok base → base ≠ 0
  anywhereFits : ∀ s size base, kernel.mmapAnywhere s size = .ok base → base.toNat + size ≤ 2 ^ 64
  fixedFits : ∀ s base size, kernel.mmapFixed s base size = none → base.toNat + size ≤ 2 ^ 64

/-! ### One segment -/

/-- The part of the file a segment asks for is there. -/
def InFile (data : List Byte) (seg : Segment) : Prop :=
  0 < seg.filesize.toNat → seg.fileoff.toNat + seg.filesize.toNat ≤ data.length

/-- The byte a segment has at an offset: of the file, or zero, or none. -/
def segmentByte (data : List Byte) (seg : Segment) (o : Nat) : Option Byte :=
  if o < seg.filesize.toNat then data[seg.fileoff.toNat + o]?
  else if o < seg.vmsize.toNat then some 0
  else none

section Segment
variable {kernel : Kernel} {data : List Byte} {slide : Word} {seg : Segment} {s s' : AddressSpace}

theorem copySegment_memory {ptr : Address} (hfile : InFile data seg)
    (h : copySegment data seg ptr s = .ok s') (x : Address) :
    s'.memory x = (if (x - ptr).toNat < seg.filesize.toNat
      then data[seg.fileoff.toNat + (x - ptr).toNat]? else none).getD (s.memory x) := by
  unfold copySegment at h
  by_cases hsize : 0 < seg.filesize.toNat
  · have hin := hfile hsize
    have hsum : (seg.fileoff + seg.filesize).toNat ≤ data.length := by
      rw [BitVec.toNat_add]
      exact Nat.le_trans (Nat.mod_le _ _) hin
    rw [if_pos ⟨hsize, hsum⟩, if_neg (by omega), if_neg (by omega)] at h
    cases h
    simp only [AddressSpace.copyIn]
    by_cases ho : (x - ptr).toNat < seg.filesize.toNat
    · rw [if_pos ho, List.getElem?_take_of_lt ho, List.getElem?_drop]
    · rw [if_neg ho, List.getElem?_eq_none (by rw [List.length_take]; omega)]
  · rw [if_neg fun hpos => hsize hpos.1] at h
    cases h
    rw [if_neg (by omega)]
    rfl

/-- A segment is mapped where it asks to be, or at 0 where the kernel puts it, and
decides the bytes it has. -/
theorem mapSegment_memory (h : mapSegment kernel data slide seg s = .ok s') (hsize : seg.vmsize ≠ 0)
    (hfile : InFile data seg) :
    ∃ ptr, (seg.vmaddr + slide ≠ 0 ∧ ptr = seg.vmaddr + slide ∨
        seg.vmaddr + slide = 0 ∧ kernel.mmapAnywhere s seg.vmsize.toNat = .ok ptr) ∧
      segmentRange kernel slide seg s = some ⟨ptr, seg.vmsize.toNat⟩ ∧
      ∀ x, s'.memory x = (segmentByte data seg (x - ptr).toNat).getD (s.memory x) := by
  rw [mapSegment, if_neg hsize] at h
  obtain ⟨⟨ptr, mapped⟩, hmmap, h⟩ := bind_ok h
  obtain ⟨copied, hcopy, h⟩ := bind_ok h
  obtain ⟨hmapped, hplaced⟩ := mmapSegment_ok hmmap
  refine ⟨ptr, hplaced, by rw [segmentRange, if_neg hsize, hmmap], fun x => ?_⟩
  have hmemory : s'.memory = copied.memory := by
    split at h
    · cases h
    · cases h
      rfl
  rw [hmemory, copySegment_memory hfile hcopy x, hmapped]
  unfold segmentByte
  by_cases ho : (x - ptr).toNat < seg.filesize.toNat
  · have hin : seg.fileoff.toNat + (x - ptr).toNat < data.length := by
      have := hfile (by omega)
      omega
    rw [if_pos ho, if_pos ho, List.getElem?_eq_getElem hin]
    rfl
  · rw [if_neg ho, if_neg ho]
    by_cases hv : (x - ptr).toNat < seg.vmsize.toNat
    · have hw : within ptr seg.vmsize.toNat x = true := decide_eq_true hv
      rw [if_pos hv]
      simp [AddressSpace.map, hw]
    · have hw : within ptr seg.vmsize.toNat x = false := decide_eq_false hv
      rw [if_neg hv]
      simp [AddressSpace.map, hw]

end Segment

/-! ### All segments -/

section Segments
variable {kernel : Kernel} {data : List Byte} {slide : Word} {segs : List Segment}
  {s s' : AddressSpace}

/-- After a list of segments, a byte is that of a segment that has it, or none of
them has it and it is as it was. -/
theorem mapSegments_memory (h : mapSegments kernel data slide segs s = .ok s')
    (hfile : ∀ seg ∈ segs, notPageZero seg = true → InFile data seg)
    (hplaced : ∀ seg ∈ segs, notPageZero seg = true → seg.vmsize ≠ 0 → seg.vmaddr + slide ≠ 0)
    (x : Address) :
    (∃ seg ∈ segs, notPageZero seg = true ∧ seg.vmsize ≠ 0 ∧
        segmentByte data seg (x - (seg.vmaddr + slide)).toNat = some (s'.memory x)) ∨
      (s'.memory x = s.memory x ∧ ∀ seg ∈ segs, notPageZero seg = true → seg.vmsize ≠ 0 →
        segmentByte data seg (x - (seg.vmaddr + slide)).toNat = none) := by
  induction segs generalizing s with
  | nil =>
    cases h
    exact .inr ⟨rfl, by simp⟩
  | cons seg rest ih =>
    have hfile' := fun seg' hseg' => hfile seg' (List.mem_cons_of_mem seg hseg')
    have hplaced' := fun seg' hseg' => hplaced seg' (List.mem_cons_of_mem seg hseg')
    have hlater : ∀ s₁, mapSegments kernel data slide rest s₁ = .ok s' →
        (∃ seg' ∈ seg :: rest, notPageZero seg' = true ∧ seg'.vmsize ≠ 0 ∧
          segmentByte data seg' (x - (seg'.vmaddr + slide)).toNat = some (s'.memory x)) ∨
        (s'.memory x = s₁.memory x ∧ ∀ seg' ∈ rest, notPageZero seg' = true → seg'.vmsize ≠ 0 →
          segmentByte data seg' (x - (seg'.vmaddr + slide)).toNat = none) := by
      intro s₁ hrest
      rcases ih hrest hfile' hplaced' with ⟨seg', hseg', hbyte⟩ | hsame
      · exact .inl ⟨seg', List.mem_cons_of_mem seg hseg', hbyte⟩
      · exact .inr hsame
    unfold mapSegments at h
    split_ifs at h with hzero
    · obtain ⟨s₁, hone, hrest⟩ := bind_ok h
      rcases hlater s₁ hrest with hbyte | ⟨hsame, hnone⟩
      · exact .inl hbyte
      · by_cases hsize : seg.vmsize = 0
        · have hs : s₁ = s := by
            rw [mapSegment, if_pos hsize] at hone
            cases hone
            rfl
          rw [hs] at hsame
          refine .inr ⟨hsame, fun seg' hseg' hzero' hsize' => ?_⟩
          rcases List.mem_cons.mp hseg' with rfl | hseg'
          · exact absurd hsize hsize'
          · exact hnone seg' hseg' hzero' hsize'
        · have haddr := hplaced seg List.mem_cons_self hzero hsize
          obtain ⟨ptr, ⟨-, rfl⟩ | ⟨hno, -⟩, -, hmemory⟩ :=
            mapSegment_memory hone hsize (hfile seg List.mem_cons_self hzero)
          · cases hbyte : segmentByte data seg (x - (seg.vmaddr + slide)).toNat with
            | some b =>
              refine .inl ⟨seg, List.mem_cons_self, hzero, hsize, ?_⟩
              rw [hsame, hmemory x, hbyte]
              rfl
            | none =>
              have hkept : s'.memory x = s.memory x := by
                rw [hsame, hmemory x, hbyte]
                rfl
              refine .inr ⟨hkept, fun seg' hseg' hzero' hsize' => ?_⟩
              rcases List.mem_cons.mp hseg' with rfl | hseg'
              · exact hbyte
              · exact hnone seg' hseg' hzero' hsize'
          · exact absurd hno haddr
    · rcases hlater s h with hbyte | ⟨hsame, hnone⟩
      · exact .inl hbyte
      · refine .inr ⟨hsame, fun seg' hseg' hzero' hsize' => ?_⟩
        rcases List.mem_cons.mp hseg' with rfl | hseg'
        · exact absurd hzero' hzero
        · exact hnone seg' hseg' hzero' hsize'

end Segments

end Grafted.Loader.Mapper
