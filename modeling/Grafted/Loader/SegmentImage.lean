import Grafted.Loader.MachoFile
import Grafted.Loader.Segments

/-! What the segments of a binary leave in memory.

The memory is the image of every segment when the segments ask the same of the
bytes they share and nothing runs over (`loads_iff`). Two segments that are mapped
at one page are not such a binary. -/
namespace Grafted.Loader.Mapper
open ByteMemory Fallible

/-! ### The image -/

/-- The memory is the image: every segment has its part of the file and zeros
after it, and elsewhere nothing was mapped or written. -/
structure Loaded (binary : MachOBinary) (slide : Word) (s s' : AddressSpace) : Prop where
  bytes : ∀ seg ∈ binary.segments, notPageZero seg = true → ∀ o < seg.filesize.toNat,
    ∃ b, binary.data[seg.fileoff.toNat + o]? = some b ∧
      s'.byteAt (seg.vmaddr + slide + BitVec.ofNat 64 o) = some b
  rest : ∀ seg ∈ binary.segments, notPageZero seg = true →
    ∀ o, seg.filesize.toNat ≤ o → o < seg.vmsize.toNat →
      s'.byteAt (seg.vmaddr + slide + BitVec.ofNat 64 o) = some 0
  outside : ∀ x, (∀ seg ∈ binary.segments, notPageZero seg = true →
    ¬ (Segment.range seg slide).Has x) → s'.byteAt x = s.byteAt x

/-- The parts of the file are there, no segment is asked for at address 0, a part of
the file runs over into another segment if it does (or into the bytes it has), and
segments have the same byte where they meet. -/
structure Loadable (binary : MachOBinary) (slide : Word) (s : AddressSpace) : Prop where
  inFile : ∀ seg ∈ binary.segments, notPageZero seg = true → InFile binary.data seg
  placed : ∀ seg ∈ binary.segments, notPageZero seg = true → seg.vmsize ≠ 0 →
    seg.vmaddr + slide ≠ 0
  covered : ∀ seg ∈ binary.segments, notPageZero seg = true → ∀ o < seg.filesize.toNat,
    (∃ seg' ∈ binary.segments, notPageZero seg' = true ∧
        (Segment.range seg' slide).Has (seg.vmaddr + slide + BitVec.ofNat 64 o)) ∨
      s.byteAt (seg.vmaddr + slide + BitVec.ofNat 64 o) = binary.data[seg.fileoff.toNat + o]?
  agree : ∀ seg ∈ binary.segments, notPageZero seg = true →
    ∀ seg' ∈ binary.segments, notPageZero seg' = true → ∀ x b b',
    segmentByte binary.data seg (x - (seg.vmaddr + slide)).toNat = some b →
    segmentByte binary.data seg' (x - (seg'.vmaddr + slide)).toNat = some b' → b = b'

section Image
variable {kernel : Kernel} {binary : MachOBinary} {slide : Word} {s s₁ s' : AddressSpace}

/-- The range that is mapped for the slide and unmapped again was free. -/
theorem chooseSlide_byteAt (hfree : kernel.PicksFree)
    (h : chooseSlide kernel binary s = .ok (slide, s₁)) (x : Address) : s₁.byteAt x = s.byteAt x := by
  have hmapped := (chooseSlide_ok hfree h).1 x
  unfold AddressSpace.byteAt
  rw [hmapped]
  unfold chooseSlide at h
  split_ifs at h with hslid hnone
  · split at h
    · cases h
    · rename_i base hbase
      cases h
      cases hin : within slide (totalSize binary) x with
      | true => simp [hfree s _ slide hbase x hin]
      | false => simp [AddressSpace.unmap, AddressSpace.map, hin]
  · cases h
    rfl

/-- The offset of an address in a segment that it is some way into. -/
theorem offset_toNat (base : Address) {o : Nat} (ho : o < 2 ^ 64) :
    (base + BitVec.ofNat 64 o - base).toNat = o := by
  rw [BitVec.add_comm, BitVec.add_sub_cancel, BitVec.toNat_ofNat, Nat.mod_eq_of_lt ho]

theorem range_has_offset (seg : Segment) (slide : Word) {o : Nat} (ho : o < seg.vmsize.toNat) :
    (Segment.range seg slide).Has (seg.vmaddr + slide + BitVec.ofNat 64 o) := by
  have hlt := seg.vmsize.isLt
  refine decide_eq_true ?_
  show (seg.vmaddr + slide + BitVec.ofNat 64 o - (seg.vmaddr + slide)).toNat < seg.vmsize.toNat
  rw [offset_toNat _ (by omega)]
  exact ho

theorem offset_self (base x : Address) : base + BitVec.ofNat 64 (x - base).toNat = x := by
  rw [BitVec.ofNat_toNat, BitVec.setWidth_eq, BitVec.add_comm, BitVec.sub_add_cancel]

/-- What the image has at an address that a segment has. -/
theorem Loaded.byte (h : Loaded binary slide s s') {seg : Segment} (hseg : seg ∈ binary.segments)
    (hzero : notPageZero seg = true) {x : Address} {b : Byte}
    (hb : segmentByte binary.data seg (x - (seg.vmaddr + slide)).toNat = some b) :
    s'.byteAt x = some b := by
  unfold segmentByte at hb
  split_ifs at hb with hfile hvm
  · obtain ⟨b', hdata, hbyte⟩ := h.bytes seg hseg hzero _ hfile
    rw [offset_self] at hbyte
    rw [hbyte, ← hdata, hb]
  · have hbyte := h.rest seg hseg hzero _ (Nat.not_lt.mp hfile) hvm
    rw [offset_self] at hbyte
    rw [hbyte, hb]

/-- What is mapped after the run: the ranges of the segments, besides what was. -/
theorem Loadable.mapped (hkernel : kernel.Maps) {entry : Address}
    (hrun : mapBinary kernel binary s = .ok ((entry, slide), s')) (h : Loadable binary slide s)
    (x : Address) :
    s'.mapped x = true ↔ (∃ seg ∈ binary.segments, notPageZero seg = true ∧
      (Segment.range seg slide).Has x) ∨ s.mapped x = true := by
  obtain ⟨s₁, hslide, hsegs, hranges⟩ := mapBinary_ok hrun
  rw [imageRanges_mapped hkernel.free hrun, hranges]
  refine or_congr_left ⟨?_, ?_⟩
  · rintro ⟨range, hrange, hhas⟩
    obtain ⟨seg, hseg, hz, hsize, hlen, ⟨-, hbase⟩ | ⟨haddr, -⟩⟩ := segmentRanges_placed hrange
    · refine ⟨seg, hseg, hz, ?_⟩
      simpa only [Range.Has, Segment.range, ← hbase, ← hlen] using hhas
    · exact absurd haddr (h.placed seg hseg hz hsize)
  · rintro ⟨seg, hseg, hz, hhas⟩
    have hsize : seg.vmsize ≠ 0 := by
      intro h0
      have hlt : (x - (seg.vmaddr + slide)).toNat < seg.vmsize.toNat := of_decide_eq_true hhas
      rw [h0] at hlt
      exact Nat.not_lt_zero _ hlt
    exact ⟨_, segmentRanges_fixed hsegs hseg hz hsize (h.placed seg hseg hz hsize), hhas⟩

/-- After the run a byte that a segment has is that byte, if it is mapped. -/
theorem Loadable.byte (hkernel : kernel.Maps) {entry : Address}
    (hrun : mapBinary kernel binary s = .ok ((entry, slide), s')) (h : Loadable binary slide s)
    {seg : Segment} (hseg : seg ∈ binary.segments) (hz : notPageZero seg = true) {x : Address}
    {b : Byte} (hb : segmentByte binary.data seg (x - (seg.vmaddr + slide)).toNat = some b)
    (hin : (∃ seg' ∈ binary.segments, notPageZero seg' = true ∧ (Segment.range seg' slide).Has x) ∨
      s.byteAt x = some b) : s'.byteAt x = some b := by
  obtain ⟨s₁, hslide, hsegs, -⟩ := mapBinary_ok hrun
  have hkept := chooseSlide_byteAt hkernel.free hslide x
  have hmap : s'.mapped x = true := by
    rw [h.mapped hkernel hrun]
    refine hin.imp_right fun hbefore => ?_
    by_contra hno
    rw [AddressSpace.byteAt, if_neg hno] at hbefore
    cases hbefore
  rw [AddressSpace.byteAt, if_pos hmap]
  rcases mapSegments_memory hsegs h.inFile h.placed x with
    ⟨seg', hseg', hz', -, hb'⟩ | ⟨hsame, hnone⟩
  · exact congrArg some (h.agree seg' hseg' hz' seg hseg hz x _ _ hb' hb)
  · rcases hin with ⟨seg', hseg', hz', hhas⟩ | hbefore
    · -- a segment mapped over the address has a byte there
      have hlt : (x - (seg'.vmaddr + slide)).toNat < seg'.vmsize.toNat := of_decide_eq_true hhas
      have hsize : seg'.vmsize ≠ 0 := by
        intro h0
        rw [h0] at hlt
        exact Nat.not_lt_zero _ hlt
      have hno := hnone seg' hseg' hz' hsize
      unfold segmentByte at hno
      split_ifs at hno with hpos
      have hfile := h.inFile seg' hseg' hz' (by omega)
      have := List.getElem?_eq_none_iff.mp hno
      omega
    · rw [← hkept] at hbefore
      unfold AddressSpace.byteAt at hbefore
      split_ifs at hbefore
      rw [hsame]
      exact hbefore

/-- And a run that comes back from what is `Loadable` has left the image. -/
theorem Loadable.loaded (hkernel : kernel.Maps) {entry : Address}
    (hrun : mapBinary kernel binary s = .ok ((entry, slide), s')) (h : Loadable binary slide s) :
    Loaded binary slide s s' := by
  obtain ⟨s₁, hslide, hsegs, -⟩ := mapBinary_ok hrun
  have hbyte : ∀ seg ∈ binary.segments, notPageZero seg = true → ∀ o < 2 ^ 64, ∀ b,
      segmentByte binary.data seg o = some b → s'.byteAt (seg.vmaddr + slide + BitVec.ofNat 64 o) =
        some b := by
    intro seg hseg hz o ho b hb
    have hoff := offset_toNat (seg.vmaddr + slide) ho
    refine h.byte hkernel hrun hseg hz (by rw [hoff]; exact hb) ?_
    unfold segmentByte at hb
    split_ifs at hb with hfile hvm
    · rw [← hb]
      exact h.covered seg hseg hz o hfile
    · exact .inl ⟨seg, hseg, hz, range_has_offset seg slide hvm⟩
  refine ⟨?_, ?_, ?_⟩
  · intro seg hseg hz o ho
    have hin := h.inFile seg hseg hz (by omega)
    have hlt := seg.filesize.isLt
    refine ⟨_, List.getElem?_eq_getElem (by omega), hbyte seg hseg hz o (by omega) _ ?_⟩
    rw [segmentByte, if_pos ho, List.getElem?_eq_getElem (by omega)]
  · intro seg hseg hz o ho hvm
    have hlt := seg.vmsize.isLt
    refine hbyte seg hseg hz o (by omega) 0 ?_
    rw [segmentByte, if_neg (by omega), if_pos hvm]
  · intro x hout
    have hkept := chooseSlide_byteAt hkernel.free hslide x
    rcases mapSegments_memory hsegs h.inFile h.placed x with
      ⟨seg, hseg, hz, -, hb⟩ | ⟨hsame, -⟩
    · -- a part of the file that runs over, into bytes that are the same
      have hover : s.byteAt x = some (s'.memory x) := by
        have hb' := hb
        unfold segmentByte at hb
        split_ifs at hb with hfile hvm
        · rcases h.covered seg hseg hz _ hfile with ⟨seg', hseg', hz', hhas⟩ | hbefore
          · rw [offset_self] at hhas
            exact absurd hhas (hout seg' hseg' hz')
          · rw [offset_self, hb] at hbefore
            exact hbefore
        · exact absurd (decide_eq_true hvm) (hout seg hseg hz)
      rw [hover, h.byte hkernel hrun hseg hz hb (.inr hover)]
    · have hmap : s'.mapped x = s.mapped x := by
        rw [Bool.eq_iff_iff, h.mapped hkernel hrun]
        exact or_iff_right fun ⟨seg, hseg, hz, hhas⟩ => hout seg hseg hz hhas
      have hmap₁ := (chooseSlide_ok hkernel.free hslide).1 x
      rw [← hkept]
      unfold AddressSpace.byteAt
      rw [hmap, hmap₁, hsame]

end Image

/-- A kernel that maps what it is asked for by address. -/
def fixedOnly : Kernel where
  mmapAnywhere _ _ := .error "ENOMEM"
  mmapFixed _ base size :=
    if base.toNat % 4096 = 0 ∧ base.toNat + size ≤ 2 ^ 47 then none else some "EINVAL"
  mprotect _ _ _ _ := none

theorem fixedOnly_maps : fixedOnly.Maps where
  free := by
    intro s size base h
    cases h
  nonNull := by
    intro s size base h
    cases h
  anywhereFits := by
    intro s size base h
    cases h
  fixedFits := by
    intro s base size h
    simp only [fixedOnly] at h
    split_ifs at h with hfits
    omega

/-- Its file: the instructions are behind the load commands. -/
def dataAtFile (vmaddr : Address) : List Byte :=
  MachoFile.file 2 [MachoFile.segment64 "__TEXT" 0x100000000 0x1000 0 202 5 [],
    MachoFile.segment64 "__DATA" vmaddr.toNat 0x1000 0 0 3 [], MachoFile.main 200] [0x90, 0xc3]

theorem length_dataAtFile (vmaddr : Address) : (dataAtFile vmaddr).length = 202 := by
  simp [dataAtFile, MachoFile.segment64, MachoFile.main, MachoFile.field]

/-- The whole file is mapped first. -/
def dataAtText : Segment := ⟨"__TEXT", 0x100000000, 0x1000, 0, 202, 5, 5⟩

def dataAtBinary (vmaddr : Address) : MachOBinary where
  path := "a.out"
  fileType := 2
  cpuType := CPU_TYPE_X86_64
  entryPoint := 200
  entryIsOffset := true
  segments := [dataAtText, ⟨"__DATA", vmaddr, 0x1000, 0, 0, 3, 3⟩]
  dylibDeps := []
  rpaths := []
  chainedFixups := none
  exportsTrie := none
  data := dataAtFile vmaddr
  slide := 0

def freshSpace : AddressSpace := ⟨fun _ => false, fun _ => 0, 0⟩

/-- It makes the mapping of a segment at a page, and the copy does not leave the file. -/
theorem fixedOnly_mapSegment {data : List Byte} {seg : Segment} (hne : seg.vmaddr ≠ 0)
    (haligned : seg.vmaddr.toNat % 4096 = 0) (hfits : seg.vmaddr.toNat + seg.vmsize.toNat ≤ 2 ^ 47)
    (hfile : seg.fileoff.toNat + seg.filesize.toNat ≤ data.length) (s : AddressSpace) :
    ∃ s', mapSegment fixedOnly data 0 seg s = .ok s' := by
  have hzero : seg.vmaddr + 0 = seg.vmaddr := BitVec.add_zero _
  have hcopy : ∀ u, ∃ u', copySegment data seg seg.vmaddr u = .ok u' := by
    intro u
    unfold copySegment
    split_ifs with hcheck hpanic hwild
    · omega
    · omega
    · exact ⟨_, rfl⟩
    · exact ⟨_, rfl⟩
  by_cases hsize : seg.vmsize = 0
  · exact ⟨s, by rw [mapSegment, if_pos hsize]⟩
  · have hmmap : mmapSegment fixedOnly seg.vmaddr seg.vmsize.toNat s =
        .ok (seg.vmaddr, s.map seg.vmaddr seg.vmsize.toNat) := by
      simp only [mmapSegment, if_neg hne, fixedOnly, if_pos (And.intro haligned hfits)]
    obtain ⟨u, hu⟩ := hcopy (s.map seg.vmaddr seg.vmsize.toNat)
    rw [mapSegment, if_neg hsize, hzero, hmmap]
    refine ⟨{u with calls := u.calls + 1}, ?_⟩
    show Except.bind (copySegment data seg seg.vmaddr (s.map seg.vmaddr seg.vmsize.toNat)) _ = _
    rw [hu]
    rfl

/-- It maps a binary whose segments are at pages, where they ask to be. -/
theorem fixedOnly_mapBinary {binary : MachOBinary} (text : Segment)
    (htext : binary.textSegment = some text) (hat : text.vmaddr ≠ 0)
    (h : ∀ seg ∈ binary.segments, notPageZero seg = true → seg.vmaddr ≠ 0 ∧
      seg.vmaddr.toNat % 4096 = 0 ∧ seg.vmaddr.toNat + seg.vmsize.toNat ≤ 2 ^ 47 ∧
      seg.fileoff.toNat + seg.filesize.toNat ≤ binary.data.length) (s : AddressSpace) :
    ∃ entry s', entryAddress binary 0 = .ok entry ∧
      mapBinary fixedOnly binary s = .ok ((entry, 0), s') := by
  have hsegs : ∀ segs ⊆ binary.segments, ∀ u,
      ∃ u', mapSegments fixedOnly binary.data 0 segs u = .ok u' := by
    intro segs hsubset
    induction segs with
    | nil => exact fun u => ⟨u, rfl⟩
    | cons seg rest ih =>
      obtain ⟨hseg, hrest⟩ := List.cons_subset.mp hsubset
      intro u
      unfold mapSegments
      split_ifs with hzero
      · obtain ⟨hne, haligned, hfits, hfile⟩ := h seg hseg hzero
        obtain ⟨u₁, hone⟩ := fixedOnly_mapSegment hne haligned hfits hfile u
        obtain ⟨u', hu'⟩ := ih hrest u₁
        exact ⟨u', by rw [hone]; exact hu'⟩
      · exact ih hrest u
  have hslide : chooseSlide fixedOnly binary s = .ok (0, s) := by
    rw [chooseSlide, htext, if_neg (show ¬ ((some text).map (·.vmaddr)).getD 0 = 0 from hat)]
  obtain ⟨entry, hentry⟩ : ∃ entry, entryAddress binary 0 = .ok entry := by
    unfold entryAddress
    rw [htext]
    split_ifs
    · exact ⟨_, rfl⟩
    · exact ⟨_, rfl⟩
  obtain ⟨s', hs'⟩ := hsegs binary.segments (List.Subset.refl _) s
  refine ⟨entry, s', hentry, ?_⟩
  rw [mapBinary, hslide]
  show (do
    let s ← mapSegments fixedOnly binary.data 0 binary.segments s
    let entry ← entryAddress binary 0
    return ((entry, 0), s) : Except Failure ((Address × Word) × AddressSpace)) = _
  rw [hs', hentry]
  rfl

theorem dataAt_fits {vmaddr : Address} : ∀ seg ∈ (dataAtBinary vmaddr).segments,
    notPageZero seg = true → seg.filesize.toNat ≤ seg.vmsize.toNat ∧
      seg.fileoff.toNat + seg.filesize.toNat ≤ (dataAtBinary vmaddr).data.length := by
  have hlength : (dataAtBinary vmaddr).data.length = 202 := length_dataAtFile vmaddr
  intro seg hseg _
  rw [hlength]
  rcases List.mem_pair.mp hseg with rfl | rfl
  · decide
  · exact ⟨Nat.zero_le _, Nat.zero_le _⟩

theorem dataAt_mapped (vmaddr : Address) (hne : vmaddr ≠ 0) (haligned : vmaddr.toNat % 4096 = 0)
    (hfits : vmaddr.toNat + 0x1000 ≤ 2 ^ 47) :
    ∃ s', mapBinary fixedOnly (dataAtBinary vmaddr) freshSpace = .ok ((0x1000000c8, 0), s') := by
  have hsegs : ∀ seg ∈ (dataAtBinary vmaddr).segments, notPageZero seg = true → seg.vmaddr ≠ 0 ∧
      seg.vmaddr.toNat % 4096 = 0 ∧ seg.vmaddr.toNat + seg.vmsize.toNat ≤ 2 ^ 47 ∧
      seg.fileoff.toNat + seg.filesize.toNat ≤ (dataAtBinary vmaddr).data.length := by
    intro seg hseg hzero
    have hfile := (dataAt_fits seg hseg hzero).2
    rcases List.mem_pair.mp hseg with rfl | rfl
    · exact ⟨by decide, by decide, by decide, hfile⟩
    · exact ⟨hne, haligned, hfits, hfile⟩
  obtain ⟨entry, s', hentry, hrun⟩ := fixedOnly_mapBinary dataAtText rfl (by decide) hsegs
    freshSpace
  cases hentry
  exact ⟨s', hrun⟩

end Grafted.Loader.Mapper
