import Grafted.Loader.FixupRuns
import Grafted.Loader.SegmentImage

/-! Where the words are that applying fixups touches.

The loop over a chain reads the word at each link and overwrites it, and nothing
compares a link with the segment. `Reaches` is the loop without its fuel: every
store of a run is at a word that is reached (`patches_touched`). The words stay in
the segment when the chains begin in it and no link leads out (`touched_inside_iff`). -/
namespace Grafted.Loader.ChainedFixups
open ByteMemory Memory Traced

/-! ### The links a chain comes to -/

section Reach
variable (imports : List Word) (load : Address) (format : BitVec 16)

/-- The loop that began at a link in a memory comes to another, in the memory it
has made. -/
inductive Reaches (memory : Memory) (chainPtr : Address) : Memory → Address → Prop where
  | start : Reaches memory chainPtr memory chainPtr
  | link {m : Memory} {a : Address} {d : Decoded} : Reaches memory chainPtr m a →
      decodePointer format imports load (m.readWord a) = some d → d.next ≠ 0 →
      Reaches memory chainPtr (m.writeWord a d.addr) (a + d.next * 4)

variable {imports load format}

theorem Reaches.head {memory m : Memory} {chainPtr a : Address} {d : Decoded}
    (hd : decodePointer format imports load (memory.readWord chainPtr) = some d) (hnext : d.next ≠ 0)
    (h : Reaches imports load format (memory.writeWord chainPtr d.addr) (chainPtr + d.next * 4) m a) :
    Reaches imports load format memory chainPtr m a := by
  induction h with
  | start => exact .link .start hd hnext
  | link _ hd' hnext' ih => exact .link ih hd' hnext'

/-- A store of the loop is at a link it comes to, of the word it finds there. -/
theorem walkChain_reaches {fuel : Nat} {chainPtr : Address} {memory : Memory} {p : Patch}
    (h : p ∈ (walkChain imports load format fuel chainPtr memory).trace) :
    ∃ m, Reaches imports load format memory chainPtr m p.address ∧
      p.encoded = m.readWord p.address := by
  induction fuel generalizing chainPtr memory with
  | zero => cases h
  | succ fuel ih =>
    rw [walkChain, bind_apply, read_apply] at h
    cases hd : decodePointer format imports load (memory.readWord chainPtr) with
    | none =>
      simp only [hd, pure_apply] at h
      cases h
    | some d =>
      simp only [hd, bind_apply, patch, emit_apply, modify_apply, List.nil_append,
        List.append_nil] at h
      rcases List.mem_append.mp h with h | h
      · cases List.mem_singleton.mp h
        exact ⟨memory, .start, rfl⟩
      · split_ifs at h with hnext
        · cases h
        · obtain ⟨m, hreach, hword⟩ := ih h
          exact ⟨m, hreach.head hd hnext, hword⟩

/-- And it comes to every link that is reached: with fuel enough its run goes on
there. -/
theorem Reaches.walkChain {memory m : Memory} {chainPtr a : Address}
    (h : Reaches imports load format memory chainPtr m a) :
    ∃ turns patches, ∀ fuel, walkChain imports load format (fuel + turns) chainPtr memory =
      let r := walkChain imports load format fuel a m
      ⟨r.value, r.state, patches ++ r.trace⟩ := by
  induction h with
  | start => exact ⟨0, [], fun _ => rfl⟩
  | @link m a d _ hd hnext ih =>
    obtain ⟨turns, patches, hwalk⟩ := ih
    refine ⟨turns + 1, patches ++ [⟨a, format, m.readWord a, d.addr⟩], fun fuel => ?_⟩
    have hturn := hwalk (fuel + 1)
    rw [Nat.add_right_comm] at hturn
    rw [← Nat.add_assoc, hturn]
    simp only [ChainedFixups.walkChain, bind_apply, read_apply, hd, patch, emit_apply, modify_apply,
      List.nil_append, List.append_nil, if_neg hnext, List.append_assoc]

end Reach

/-! ### The words a run touches -/

section Run
variable {σ : Type} (resolveSymbol : String → String → σ → Word × σ) (binary : MachOBinary) (s : σ)
  (memory : Memory)

/-- A run comes to page `j` of a segment in the memory `m`: its imports are resolved,
and the segments and pages before are done. -/
def AtPage (imports : List Word) (starts : SegmentStarts) (j : Nat) (m : Memory) : Prop :=
  ∃ offset size header s' count i fuel, binary.chainedFixups = some (offset, size) ∧
    readHeader binary.data offset size = .ok header ∧
    resolveImports resolveSymbol binary header (List.range header.importsCount.toNat) s =
      (.ok imports, s') ∧
    segmentCount binary header = .ok count ∧ i < count.toNat ∧
    segmentStarts notPageZero binary header i = .ok (some starts) ∧ j < starts.pageCount.toNat ∧
    let segments := untilSome (fixSegment imports (loadAddress binary) fuel binary header)
      (List.range i) memory
    let pages := untilSome (fixPage imports (loadAddress binary) fuel binary starts) (List.range j)
      segments.state
    segments.value = none ∧ pages.value = none ∧ pages.state = m

/-- The word at an address is read, and overwritten if the format is supported, while
the segment is processed. -/
def Touches (segment : Segment) (a : Address) : Prop :=
  ∃ imports starts j m chainPtr m', AtPage resolveSymbol binary s memory imports starts j m ∧
    starts.segment = segment ∧ pageStart binary starts j = .ok (some chainPtr) ∧
    Reaches imports (loadAddress binary) starts.pointerFormat m chainPtr m' a

/-- How far an address is into a segment, as it is mapped. -/
def offsetIn (segment : Segment) (a : Address) : Nat :=
  (a - (segment.vmaddr + binary.slide)).toNat

/-- The eight bytes at the address are the segment's. -/
def WordInside (segment : Segment) (a : Address) : Prop :=
  offsetIn binary segment a + 8 ≤ segment.vmsize.toNat

/-- The chains begin in their segments, and no link that is followed leads out. -/
structure StaysInside : Prop where
  starts : ∀ imports starts j m, AtPage resolveSymbol binary s memory imports starts j m →
    ∀ start, u16At binary.data (starts.pageStarts + j * 2) = .ok start → start ≠ 0xFFFF →
    j * starts.pageSize.toNat + start.toNat + 8 ≤ starts.segment.vmsize.toNat
  links : ∀ imports starts j m chainPtr m' a d,
    AtPage resolveSymbol binary s memory imports starts j m →
    pageStart binary starts j = .ok (some chainPtr) →
    Reaches imports (loadAddress binary) starts.pointerFormat m chainPtr m' a →
    decodePointer starts.pointerFormat imports (loadAddress binary) (m'.readWord a) = some d →
    d.next ≠ 0 →
    (offsetIn binary starts.segment a + 4 * d.next.toNat) % 2 ^ 64 + 8 ≤ starts.segment.vmsize.toNat

variable {resolveSymbol binary s memory}

theorem pageStart_some {starts : SegmentStarts} {j : Nat} {chainPtr : Address} :
    pageStart binary starts j = .ok (some chainPtr) ↔
      ∃ start, u16At binary.data (starts.pageStarts + j * 2) = .ok start ∧ start ≠ 0xFFFF ∧
        chainPtr = starts.segment.vmaddr + binary.slide +
          BitVec.ofNat 64 j * starts.pageSize.setWidth 64 + start.setWidth 64 := by
  unfold pageStart
  cases u16At binary.data (starts.pageStarts + j * 2) with
  | error e => simp [bind, Except.bind]
  | ok start =>
    show (if start = 0xFFFF then Except.ok none else Except.ok (some _)) = _ ↔ _
    split_ifs with hnone
    · apply iff_of_false (by simp)
      rintro ⟨start', h, hsome, -⟩
      cases h
      exact hsome hnone
    · constructor
      · intro h
        cases h
        exact ⟨start, rfl, hnone, rfl⟩
      · rintro ⟨start', h, -, rfl⟩
        cases h
        rfl

theorem range_split {n x : Nat} {before after : List Nat}
    (h : List.range n = before ++ x :: after) : before = List.range x ∧ x < n := by
  have hx : (List.range n)[before.length]? = some x := by
    rw [h, List.getElem?_append_right (Nat.le_refl _), Nat.sub_self]
    rfl
  obtain ⟨hlt, heq⟩ := List.getElem?_eq_some_iff.mp hx
  rw [List.getElem_range] at heq
  have hn : before.length < n := by simpa using hlt
  have hbefore : before = (List.range n).take before.length := by rw [h, List.take_left']; rfl
  rw [heq, List.take_range, Nat.min_eq_left (by omega)] at hbefore
  exact ⟨hbefore, by omega⟩

theorem fixSegment_trace {imports : List Word} {load : Address} {fuel i : Nat} {header : Header}
    {p : Patch} {m : Memory} (h : p ∈ (fixSegment imports load fuel binary header i m).trace) :
    ∃ starts, segmentStarts notPageZero binary header i = .ok (some starts) ∧
      p ∈ (untilSome (fixPage imports load fuel binary starts)
        (List.range starts.pageCount.toNat) m).trace := by
  unfold fixSegment at h
  cases hstarts : segmentStarts notPageZero binary header i with
  | error e =>
    rw [hstarts] at h
    cases h
  | ok found =>
    rw [hstarts] at h
    cases found with
    | none => cases h
    | some starts => exact ⟨starts, rfl, h⟩

theorem fixPage_trace {imports : List Word} {load : Address} {fuel j : Nat} {starts : SegmentStarts}
    {p : Patch} {m : Memory} (h : p ∈ (fixPage imports load fuel binary starts j m).trace) :
    ∃ chainPtr, pageStart binary starts j = .ok (some chainPtr) ∧
      p ∈ (walkChain imports load starts.pointerFormat fuel chainPtr m).trace := by
  unfold fixPage at h
  cases hchain : pageStart binary starts j with
  | error e =>
    rw [hchain] at h
    cases h
  | ok found =>
    rw [hchain] at h
    cases found with
    | none => cases h
    | some chainPtr => exact ⟨chainPtr, rfl, h⟩

/-- Every store of a run is at a word it touches. -/
theorem patches_touched {fuel : Nat} {p : Patch}
    (h : p ∈ (applyFixups resolveSymbol fuel binary s memory).patches) :
    ∃ segment, Touches resolveSymbol binary s memory segment p.address := by
  unfold applyFixups at h
  split at h
  · cases h
  · rename_i offset size hfixups
    split at h
    · cases h
    · rename_i header hheader
      split at h
      · cases h
      · rename_i imports s' himports
        cases hcount : segmentCount binary header with
        | error e =>
          simp only [fixSegments, hcount] at h
          cases h
        | ok count =>
          simp only [fixSegments, hcount] at h
          obtain ⟨before, i, after, hrange, hsegments, hpage⟩ := mem_untilSome h
          obtain ⟨rfl, hi⟩ := range_split hrange
          obtain ⟨starts, hstarts, hpage⟩ := fixSegment_trace hpage
          obtain ⟨before, j, after, hrange, hpages, hlink⟩ := mem_untilSome hpage
          obtain ⟨rfl, hj⟩ := range_split hrange
          obtain ⟨chainPtr, hchain, hlink⟩ := fixPage_trace hlink
          obtain ⟨m', hreach, -⟩ := walkChain_reaches hlink
          exact ⟨starts.segment, imports, starts, j, _, chainPtr, m',
            ⟨offset, size, header, s', count, i, fuel, hfixups, hheader, himports, hcount, hi,
              hstarts, hj, hsegments, hpages, rfl⟩, rfl, hchain, hreach⟩

/-- The start of a page, in bytes from the segment: nothing wraps. -/
theorem offsetIn_pageStart (starts : SegmentStarts) {j : Nat} (hj : j < starts.pageCount.toNat)
    (start : BitVec 16) :
    offsetIn binary starts.segment (starts.segment.vmaddr + binary.slide +
      BitVec.ofNat 64 j * starts.pageSize.setWidth 64 + start.setWidth 64) =
      j * starts.pageSize.toNat + start.toNat := by
  have hcount := starts.pageCount.isLt
  have hsize := starts.pageSize.isLt
  have hstart := start.isLt
  have hprod : j * starts.pageSize.toNat ≤ 2 ^ 16 * 2 ^ 16 :=
    Nat.mul_le_mul (by omega) (by omega)
  have hsub : ∀ base offset start : Word, base + offset + start - base = offset + start := by
    intro base offset start
    bv_omega
  unfold offsetIn
  rw [hsub, BitVec.toNat_add, BitVec.toNat_mul, BitVec.toNat_ofNat, BitVec.toNat_setWidth,
    BitVec.toNat_setWidth, Nat.mod_eq_of_lt (show j < 2 ^ 64 by omega),
    Nat.mod_eq_of_lt (show starts.pageSize.toNat < 2 ^ 64 by omega),
    Nat.mod_eq_of_lt (show start.toNat < 2 ^ 64 by omega)]
  omega

/-- The next link, in bytes from the segment. -/
theorem offsetIn_link (segment : Segment) (a : Address) (next : Word) :
    offsetIn binary segment (a + next * 4) = (offsetIn binary segment a + 4 * next.toNat) % 2 ^ 64 := by
  have hsub : a + next * 4 - (segment.vmaddr + binary.slide) =
      a - (segment.vmaddr + binary.slide) + next * 4 := by bv_omega
  have hfour : (4 : Word).toNat = 4 := rfl
  unfold offsetIn
  rw [hsub, BitVec.toNat_add, BitVec.toNat_mul, hfour]
  omega

/-- **Every word a run touches is in its segment just when the chains begin there
and no link leads out.** -/
theorem touched_inside_iff :
    (∀ segment a, Touches resolveSymbol binary s memory segment a → WordInside binary segment a) ↔
      StaysInside resolveSymbol binary s memory := by
  constructor
  · intro h
    refine ⟨?_, ?_⟩
    · intro imports starts j m hat start hstart hused
      obtain ⟨_, _, _, _, _, _, _, _, _, _, _, _, _, hj, _⟩ := id hat
      have hchain := pageStart_some.mpr ⟨start, hstart, hused, rfl⟩
      have hin := h starts.segment _ ⟨imports, starts, j, m, _, m, hat, rfl, hchain, .start⟩
      rwa [WordInside, offsetIn_pageStart starts hj start] at hin
    · intro imports starts j m chainPtr m' a d hat hchain hreach hd hnext
      have hin := h starts.segment _
        ⟨imports, starts, j, m, chainPtr, _, hat, rfl, hchain, hreach.link hd hnext⟩
      rwa [WordInside, offsetIn_link] at hin
  · rintro h segment a ⟨imports, starts, j, m, chainPtr, m', hat, rfl, hchain, hreach⟩
    -- the links of the chain, in the order the loop comes to them
    induction hreach with
    | start =>
      obtain ⟨start, hstart, hused, rfl⟩ := pageStart_some.mp hchain
      obtain ⟨_, _, _, _, _, _, _, _, _, _, _, _, _, hj, _⟩ := id hat
      rw [WordInside, offsetIn_pageStart starts hj start]
      exact h.starts imports starts j m hat start hstart hused
    | link hreach hd hnext _ =>
      rw [WordInside, offsetIn_link]
      exact h.links imports starts j m chainPtr _ _ _ hat hchain hreach hd hnext

end Run

/-- The blob of a library whose second segment has one chain, which begins four bytes before
the segment ends: a header, the offsets of the two segments' starts, and those of the second. -/
def lastBytesBlob : List Byte :=
  MachoFile.words [0, 28, 64, 64, 0, 1, 0] ++ MachoFile.words [2, 0, 12] ++
    (MachoFile.words [24] ++ bytesLE 0x1000 2 ++ bytesLE 6 2 ++ MachoFile.longs [0x1000] ++
      MachoFile.words [0] ++ bytesLE 1 2 ++ bytesLE 0xffc 2)

/-- The blob is behind the load commands. -/
def lastBytesData : List Byte :=
  MachoFile.file 6 [MachoFile.segment64 "__TEXT" 0x100000000 0x1000 0 256 5 [],
    MachoFile.segment64 "__DATA" 0x100001000 0x1000 0 0 3 [], MachoFile.dyldChainedFixups 192 64]
    lastBytesBlob

def lastBytesSegment : Segment := ⟨"__DATA", 0x100001000, 0x1000, 0, 0, 3, 3⟩

def lastBytes : MachOBinary where
  path := "libone.dylib"
  fileType := 6
  cpuType := CPU_TYPE_X86_64
  entryPoint := 0
  entryIsOffset := false
  segments := [⟨"__TEXT", 0x100000000, 0x1000, 0, 256, 5, 5⟩, lastBytesSegment]
  dylibDeps := []
  rpaths := []
  chainedFixups := some (192, 64)
  exportsTrie := none
  data := lastBytesData
  slide := 0

/-- What is reported of the file the library is in. -/
def lastBytesFile : Goblin where
  parseMachO _ := .ok {
    filetype := 6
    cputype := CPU_TYPE_X86_64
    name := none
    libs := ["self"]
    rpaths := []
    loadCommands := [.segment64 (some "__TEXT") 0x100000000 0x1000 0 256 5 5,
      .segment64 (some "__DATA") 0x100001000 0x1000 0 0 3 3, .dyldChainedFixups 192 64]
    exports := .ok []
    symbols := []
    imports := .ok [] }
  parseMach _ := .error "not fat"

/-- The words of the blob that a run reads. -/
theorem lastBytes_words :
    u32At lastBytesData 196 = .ok 28 ∧ u32At lastBytesData 200 = .ok 64 ∧
      u32At lastBytesData 204 = .ok 64 ∧ u32At lastBytesData 208 = .ok 0 ∧
      u32At lastBytesData 220 = .ok 2 ∧ u32At lastBytesData 224 = .ok 0 ∧
      u32At lastBytesData 228 = .ok 12 ∧
      u16At lastBytesData 236 = .ok 0x1000 ∧ u16At lastBytesData 238 = .ok 6 ∧
      u16At lastBytesData 252 = .ok 1 ∧ u16At lastBytesData 254 = .ok 0xffc := by
  decide +kernel

theorem length_lastBytesData : lastBytesData.length = 256 := by
  simp [lastBytesData, lastBytesBlob, MachoFile.segment64, MachoFile.dyldChainedFixups,
    MachoFile.field, bytesLE]

def lastBytesStarts : SegmentStarts := ⟨lastBytesSegment, 254, 0x1000, 6, 1⟩

theorem lastBytes_read :
    readHeader lastBytes.data 192 64 = .ok ⟨192, 28, 64, 64, 0⟩ ∧
      segmentCount lastBytes ⟨192, 28, 64, 64, 0⟩ = .ok 2 ∧
      segmentStarts notPageZero lastBytes ⟨192, 28, 64, 64, 0⟩ 0 = .ok none ∧
      segmentStarts notPageZero lastBytes ⟨192, 28, 64, 64, 0⟩ 1 = .ok (some lastBytesStarts) ∧
      pageStart lastBytes lastBytesStarts 0 = .ok (some 0x100001ffc) := by
  obtain ⟨h196, h200, h204, h208, h220, h224, h228, h236, h238, h252, h254⟩ := lastBytes_words
  have hlength := length_lastBytesData
  refine ⟨?_, ?_, ?_, ?_, ?_⟩
  · simp [readHeader, lastBytes, hlength, h196, h200, h204, h208, bind, Except.bind, pure, Except.pure]
  · exact h220
  · simp [segmentStarts, lastBytes, h224, bind, Except.bind, pure, Except.pure]
  · simp [segmentStarts, lastBytes, lastBytesStarts, lastBytesSegment, notPageZero, h228, h236, h238,
      h252, bind, Except.bind, pure, Except.pure]
  · simp [pageStart, lastBytes, lastBytesStarts, lastBytesSegment, h254, bind, Except.bind, pure,
      Except.pure]

theorem last_bytes_outside : ¬ ∀ (goblin : Goblin) (path : String) (data : List Byte)
    (binary : MachOBinary), MachOBinary.parse goblin path data = .ok binary →
    ∀ (kernel : Mapper.Kernel) (s s' : Mapper.AddressSpace) (entry : Address) (slide : Word),
    Mapper.mapBinary kernel binary s = .ok ((entry, slide), s') →
    ∀ {σ : Type} (resolveSymbol : String → String → σ → Word × σ) (r : σ) segment a,
    Touches resolveSymbol { binary with slide := slide } r s'.memory segment a →
    WordInside { binary with slide := slide } segment a := by
  intro h
  have hsegs : ∀ seg ∈ lastBytes.segments, notPageZero seg = true → seg.vmaddr ≠ 0 ∧
      seg.vmaddr.toNat % 4096 = 0 ∧ seg.vmaddr.toNat + seg.vmsize.toNat ≤ 2 ^ 47 ∧
      seg.fileoff.toNat + seg.filesize.toNat ≤ lastBytes.data.length := by
    rw [show lastBytes.data.length = 256 from length_lastBytesData]
    decide
  obtain ⟨entry, s', -, hrun⟩ := Mapper.fixedOnly_mapBinary
    ⟨"__TEXT", 0x100000000, 0x1000, 0, 256, 5, 5⟩ rfl (by decide) hsegs Mapper.freshSpace
  obtain ⟨hheader, hcount, hnone, hstarts, hstart⟩ := lastBytes_read
  have hfirst : (untilSome (fixSegment [] (loadAddress lastBytes) 1 lastBytes
      ⟨192, 28, 64, 64, 0⟩) (List.range 1) s'.memory).value = none := by
    rw [show List.range 1 = [0] from rfl, untilSome_singleton, fixSegment, hnone]
    rfl
  have hinside := h lastBytesFile "libone.dylib" lastBytesData lastBytes rfl Mapper.fixedOnly
    Mapper.freshSpace s' entry 0 hrun resolveNothing () lastBytesSegment 0x100001ffc
    ⟨[], lastBytesStarts, 0, _, 0x100001ffc, _,
      ⟨192, 64, ⟨192, 28, 64, 64, 0⟩, (), 2, 1, 1, rfl, hheader, rfl, hcount, by decide, hstarts,
        by decide, hfirst, rfl, rfl⟩, rfl, hstart, .start⟩
  have hinside : 0xffc + 8 ≤ 0x1000 := hinside
  exact absurd hinside (by decide)

end Grafted.Loader.ChainedFixups
