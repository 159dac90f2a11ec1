import Grafted.Loader.SegmentImage

/-! The entry point of a binary whose segments are apart.

It stands at the bytes of the file it is an offset in (`entry_at_file_bytes`). -/
namespace Grafted.Loader.Mapper
open ByteMemory Fallible

/-! ### The entry point -/

/-- No address belongs to both segments, before any slide. -/
def ApartInFile (a b : Segment) : Prop :=
  ∀ x, ¬ (within a.vmaddr a.vmsize.toNat x = true ∧ within b.vmaddr b.vmsize.toNat x = true)

theorem range_has_iff (seg : Segment) (slide : Word) (x : Address) :
    (Segment.range seg slide).Has x ↔ within seg.vmaddr seg.vmsize.toNat (x - slide) = true := by
  have hsub : x - (seg.vmaddr + slide) = x - slide - seg.vmaddr := by bv_omega
  unfold Range.Has Segment.range within
  rw [hsub]

section Entry
variable {kernel : Kernel} {binary : MachOBinary} {data : List Byte} {slide : Word}
  {s s₁ s' : AddressSpace}

theorem mapSegments_append {first rest : List Segment}
    (h : mapSegments kernel data slide (first ++ rest) s = .ok s') :
    ∃ s₁, mapSegments kernel data slide first s = .ok s₁ ∧
      mapSegments kernel data slide rest s₁ = .ok s' := by
  induction first generalizing s with
  | nil => exact ⟨s, rfl, h⟩
  | cons seg first ih =>
    rw [List.cons_append, mapSegments] at h
    split_ifs at h with hzero
    · obtain ⟨s₂, hone, hrest⟩ := bind_ok h
      obtain ⟨s₁, hfirst, hlast⟩ := ih hrest
      refine ⟨s₁, ?_, hlast⟩
      rw [mapSegments, if_pos hzero, hone]
      exact hfirst
    · obtain ⟨s₁, hfirst, hlast⟩ := ih h
      refine ⟨s₁, ?_, hlast⟩
      rw [mapSegments, if_neg hzero]
      exact hfirst

/-- A byte that is mapped is kept by the segments that do not ask for its address. -/
theorem mapSegments_keeps (hfree : kernel.PicksFree) {segs : List Segment}
    (h : mapSegments kernel data slide segs s = .ok s')
    (hfits : ∀ seg ∈ segs, notPageZero seg = true →
      seg.filesize.toNat ≤ seg.vmsize.toNat ∧ InFile data seg) {x : Address}
    (hx : s.mapped x = true)
    (hout : ∀ seg ∈ segs, notPageZero seg = true → ¬ (Segment.range seg slide).Has x) :
    s'.byteAt x = s.byteAt x := by
  induction segs generalizing s with
  | nil =>
    cases h
    rfl
  | cons seg rest ih =>
    have hfits' := fun seg' hseg' => hfits seg' (List.mem_cons_of_mem seg hseg')
    have hout' := fun seg' hseg' => hout seg' (List.mem_cons_of_mem seg hseg')
    unfold mapSegments at h
    split_ifs at h with hzero
    · obtain ⟨s₁, hone, hrest⟩ := bind_ok h
      have hx₁ : s₁.mapped x = true := (mapSegment_mapped hone x).mpr (.inr hx)
      rw [ih hrest hfits' hx₁ hout']
      unfold AddressSpace.byteAt
      rw [if_pos hx, if_pos hx₁]
      by_cases hsize : seg.vmsize = 0
      · rw [mapSegment, if_pos hsize] at hone
        cases hone
        rfl
      · obtain ⟨hle, hfile⟩ := hfits seg List.mem_cons_self hzero
        obtain ⟨ptr, hptr, -, hmemory⟩ := mapSegment_memory hone hsize hfile
        have hoff : ¬ (x - ptr).toNat < seg.vmsize.toNat := by
          rcases hptr with ⟨-, rfl⟩ | ⟨-, hpicked⟩
          · exact fun hlt => hout seg List.mem_cons_self hzero (decide_eq_true hlt)
          · intro hlt
            rw [hfree _ _ _ hpicked x (decide_eq_true hlt)] at hx
            cases hx
        rw [hmemory x, segmentByte, if_neg (by omega), if_neg hoff]
        rfl
    · exact ih h hfits' hx hout'

/-- __TEXT is not at address 0: it is slid, or was not there. -/
theorem textSegment_placed (hkernel : kernel.Maps) {text : Segment}
    (htext : binary.textSegment = some text) (h : chooseSlide kernel binary s = .ok (slide, s₁)) :
    text.vmaddr + slide ≠ 0 := by
  have hat : (binary.textSegment.map (·.vmaddr)).getD 0 = text.vmaddr := by rw [htext]; rfl
  unfold chooseSlide at h
  rw [hat] at h
  split_ifs at h with hslid hnone
  · split at h
    · cases h
    · rename_i base hbase
      cases h
      have hbase' := hkernel.nonNull _ _ _ hbase
      rw [hslid]
      simpa using hbase'
  · cases h
    simpa using hslid

theorem mapBinary_entry {entry : Address}
    (h : mapBinary kernel binary s = .ok ((entry, slide), s')) :
    entryAddress binary slide = .ok entry := by
  obtain ⟨⟨slide', s₁⟩, -, h⟩ := bind_ok h
  obtain ⟨s₂, -, h⟩ := bind_ok h
  obtain ⟨entry', hentry, h⟩ := bind_ok h
  cases h
  exact hentry

/-- A segment that no later one meets keeps its bytes to the end. -/
theorem mapSegments_text (hfree : kernel.PicksFree) {segs : List Segment}
    (h : mapSegments kernel data slide segs s = .ok s')
    (hfits : ∀ seg ∈ segs, notPageZero seg = true →
      seg.filesize.toNat ≤ seg.vmsize.toNat ∧ InFile data seg)
    (hapart : (segs.filter notPageZero).Pairwise ApartInFile) {seg : Segment} (hseg : seg ∈ segs)
    (hzero : notPageZero seg = true) (hplaced : seg.vmaddr + slide ≠ 0) {o : Nat}
    (ho : o < seg.filesize.toNat) :
    s'.byteAt (seg.vmaddr + slide + BitVec.ofNat 64 o) = data[seg.fileoff.toNat + o]? := by
  obtain ⟨first, rest, rfl⟩ := List.append_of_mem hseg
  obtain ⟨hle, hfile⟩ := hfits seg hseg hzero
  have hlt := seg.filesize.isLt
  have hsize : seg.vmsize ≠ 0 := by
    intro h0
    rw [h0] at hle
    have hz : (0 : BitVec 64).toNat = 0 := rfl
    omega
  obtain ⟨s₁, -, h⟩ := mapSegments_append h
  rw [mapSegments, if_pos hzero] at h
  obtain ⟨s₂, hone, hrest⟩ := bind_ok h
  have hoff := offset_toNat (seg.vmaddr + slide) (show o < 2 ^ 64 by omega)
  have hhas := range_has_offset seg slide (show o < seg.vmsize.toNat by omega)
  obtain ⟨ptr, ⟨-, rfl⟩ | ⟨hno, -⟩, hrange, hmemory⟩ := mapSegment_memory hone hsize hfile
  · have hmapped : s₂.mapped (seg.vmaddr + slide + BitVec.ofNat 64 o) = true :=
      (mapSegment_mapped hone _).mpr (.inl ⟨_, hrange, hhas⟩)
    have hlater : ∀ seg' ∈ rest, notPageZero seg' = true →
        ¬ (Segment.range seg' slide).Has (seg.vmaddr + slide + BitVec.ofNat 64 o) := by
      intro seg' hseg' hzero' hhas'
      rw [List.filter_append, List.filter_cons_of_pos hzero] at hapart
      have hpair := (List.pairwise_cons.mp (List.pairwise_append.mp hapart).2.1).1 seg'
        (List.mem_filter.mpr ⟨hseg', hzero'⟩)
      rw [range_has_iff] at hhas hhas'
      exact hpair _ ⟨hhas, hhas'⟩
    rw [mapSegments_keeps hfree hrest (fun seg' hseg' => hfits seg' (by simp [hseg'])) hmapped hlater,
      AddressSpace.byteAt, if_pos hmapped, hmemory, hoff, segmentByte, if_pos ho]
    have hin := hfile (by omega)
    rw [List.getElem?_eq_getElem (by omega)]
    rfl
  · exact absurd hno hplaced

end Entry

/-- **The entry point stands at the bytes of the file it is an offset in.** -/
theorem entry_at_file_bytes (kernel : Kernel) (hkernel : kernel.Maps) (binary : MachOBinary)
    (s s' : AddressSpace) (entry : Address) (slide : Word)
    (hrun : mapBinary kernel binary s = .ok ((entry, slide), s'))
    (hmain : binary.entryIsOffset = true) (text : Segment) (htext : binary.textSegment = some text)
    (hapart : (binary.segments.filter notPageZero).Pairwise ApartInFile)
    (hfits : ∀ seg ∈ binary.segments, notPageZero seg = true →
      seg.filesize.toNat ≤ seg.vmsize.toNat ∧
        seg.fileoff.toNat + seg.filesize.toNat ≤ binary.data.length)
    (hentry : text.fileoff.toNat ≤ binary.entryPoint.toNat ∧
      binary.entryPoint.toNat < text.fileoff.toNat + text.filesize.toNat) :
    (Segment.range text slide).Has entry ∧
      ∀ k, binary.entryPoint.toNat + k < text.fileoff.toNat + text.filesize.toNat →
        s'.byteAt (entry + BitVec.ofNat 64 k) = binary.data[binary.entryPoint.toNat + k]? := by
  obtain ⟨s₁, hslide, hsegs, -⟩ := mapBinary_ok hrun
  have hplaced := textSegment_placed hkernel htext hslide
  have hz : notPageZero text = true := by
    have hname := List.find?_some htext
    simp only [decide_eq_true_eq] at hname
    simp [notPageZero, hname]
  have hmem : text ∈ binary.segments := List.mem_of_find?_eq_some htext
  obtain ⟨hle, hin⟩ := hfits text hmem hz
  have haddr := mapBinary_entry hrun
  rw [entryAddress, if_pos hmain, htext] at haddr
  have hat : entry = text.vmaddr + slide + BitVec.ofNat 64
      (binary.entryPoint.toNat - text.fileoff.toNat) := by
    rw [← Except.ok.inj haddr]
    bv_omega
  have hlt := text.filesize.isLt
  constructor
  · rw [hat]
    exact range_has_offset text slide (by omega)
  · intro k hk
    have hsum : entry + BitVec.ofNat 64 k = text.vmaddr + slide + BitVec.ofNat 64
        (binary.entryPoint.toNat - text.fileoff.toNat + k) := by
      rw [hat, BitVec.add_assoc, ← BitVec.ofNat_add]
    have hindex : binary.entryPoint.toNat + k =
        text.fileoff.toNat + (binary.entryPoint.toNat - text.fileoff.toNat + k) := by omega
    rw [hsum, hindex]
    exact mapSegments_text hkernel.free hsegs
      (fun seg hseg hzero => ⟨(hfits seg hseg hzero).1, fun _ => (hfits seg hseg hzero).2⟩) hapart
      hmem hz hplaced (by omega)

theorem dataAt_apart :
    ((dataAtBinary 0x100001000).segments.filter notPageZero).Pairwise ApartInFile := by
  have hboth : (dataAtBinary 0x100001000).segments.filter notPageZero =
      [dataAtText, ⟨"__DATA", 0x100001000, 0x1000, 0, 0, 3, 3⟩] := rfl
  rw [hboth, List.pairwise_pair]
  rintro x ⟨htext, hdata⟩
  have htext : (x - 0x100000000).toNat < 0x1000 := of_decide_eq_true htext
  have hdata : (x - 0x100001000).toNat < 0x1000 := of_decide_eq_true hdata
  bv_omega

theorem entry_at_file_bytes_apart : ∃ s', mapBinary fixedOnly (dataAtBinary 0x100001000) freshSpace =
    .ok ((0x1000000c8, 0), s') ∧ (Segment.range dataAtText 0).Has 0x1000000c8 ∧
      ∀ k, 200 + k < 0 + 202 →
        s'.byteAt (0x1000000c8 + BitVec.ofNat 64 k) = (dataAtFile 0x100001000)[200 + k]? :=
  let ⟨s', hrun⟩ := dataAt_mapped 0x100001000 (by decide) (by decide) (by decide)
  ⟨s', hrun, entry_at_file_bytes fixedOnly fixedOnly_maps (dataAtBinary 0x100001000) freshSpace s'
    0x1000000c8 0 hrun rfl dataAtText rfl dataAt_apart dataAt_fits (by decide)⟩

end Grafted.Loader.Mapper
