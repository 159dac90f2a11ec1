import Grafted.Loader.FixupRuns
import Grafted.Loader.FixupReads
import Grafted.Loader.MachoFile

/-! Which blobs of chained fixups are read without leaving them.

The loops trust every offset and count of the blob. What they read of it is told by
running them with the blob for the whole file: there a read outside is `wild`. Such
a run goes through, and is the run in the file, just when the blob is `WellFormed`
(`handled_iff`). -/
namespace Grafted.Loader.ChainedFixups
open ByteMemory Memory Traced Fallible

/-- What the call returns, when it does. -/
def Applied.returned {σ : Type} (r : Applied σ) : Option (Except LoaderError Unit) :=
  match r.stop with
  | none => some (.ok ())
  | some _ => none

/-- A run reads of the blob only, and the offsets it adds do not wrap. The line it
logs reads the header to its sixth field. -/
structure Contained {σ : Type} (resolveSymbol : String → String → σ → Word × σ) (fuel : Nat)
    (logged : Bool) (binary : MachOBinary) (offset size : BitVec 32) (s : σ) (memory : Memory) :
    Prop where
  range : offset.toNat + size.toNat < 2 ^ 32
  line : logged = true → 24 ≤ (blobOf binary offset size).length
  names : ∀ header, readHeader (blobOf binary offset size) 0 size = .ok header →
    ∀ i < header.importsCount.toNat, ∀ importRaw,
    u32At (blobOf binary offset size) (header.importsOffset.toNat + i * 4) = .ok importRaw →
    header.symbolsOffset.toNat + (importRaw >>> 9).toNat < 2 ^ 32
  inside : ∀ stop, (applyFixups resolveSymbol fuel (blobOnly binary offset size) s memory).stop =
    some stop → stop = .outOfFuel
  same : applyFixups resolveSymbol fuel binary s memory =
    applyFixups resolveSymbol fuel (blobOnly binary offset size) s memory

/-- Every run reads of the blob only, or returns an error. -/
def Handled (logged : Bool) (binary : MachOBinary) : Prop :=
  ∀ offset size, binary.chainedFixups = some (offset, size) →
  ∀ (σ : Type) (resolveSymbol : String → String → σ → Word × σ) (fuel : Nat) (s : σ)
    (memory : Memory),
  (∃ e, (applyFixups resolveSymbol fuel binary s memory).returned = some (.error e)) ∨
    Contained resolveSymbol fuel logged binary offset size s memory

/-- The tables lie in the blob, and so do the names. A segment that is not of the
image, or is skipped, need not have its pages there. -/
structure WellFormed (logged : Bool) (binary : MachOBinary) (offset size : BitVec 32) : Prop where
  range : offset.toNat + size.toNat < 2 ^ 32
  inFile : offset.toNat + size.toNat ≤ binary.data.length
  header : (if logged then 24 else 20) ≤ size.toNat
  imports : ∀ i < importsCount (blobOf binary offset size),
    importsOffset (blobOf binary offset size) + i * 4 + 4 ≤ size.toNat
  names : ∀ i < importsCount (blobOf binary offset size),
    nameOffset (blobOf binary offset size) i < 2 ^ 32 ∧
      NameAt (blobOf binary offset size) (nameOffset (blobOf binary offset size) i)
  starts : startsOffset (blobOf binary offset size) + 4 ≤ size.toNat
  segments : ∀ i < segCount (blobOf binary offset size),
    startsOffset (blobOf binary offset size) + 4 + i * 4 + 4 ≤ size.toNat
  pages : ∀ i < segCount (blobOf binary offset size),
    segInfoOffset (blobOf binary offset size) i ≠ 0 →
    ∀ segment, binary.segments[i]? = some segment → notPageZero segment = true →
    startsOffset (blobOf binary offset size) + segInfoOffset (blobOf binary offset size) i + 22 +
      pageCount (blobOf binary offset size) i * 2 ≤ size.toNat

/-! ### A run that reads all it needs -/

section Resolve
variable {σ : Type} (resolveSymbol : String → String → σ → Word × σ)

theorem resolveImports_ok {binary : MachOBinary} {header : Header} {is : List Nat} {s : σ} :
    (∃ addrs, (resolveImports resolveSymbol binary header is s).1 = .ok addrs) ↔
      ∀ i ∈ is, ∃ found, readImport binary header i = .ok found := by
  induction is generalizing s with
  | nil => simp [resolveImports]
  | cons i rest ih =>
    rw [List.forall_mem_cons]
    cases hread : readImport binary header i with
    | error e =>
      simp [resolveImports, hread]
    | ok found =>
      obtain ⟨dylib, name⟩ := found
      rw [resolveImports_cons resolveSymbol hread, and_iff_right ⟨_, rfl⟩, ← ih]
      dsimp only
      cases (resolveImports resolveSymbol binary header rest (resolveSymbol dylib name s).2).1 with
      | error e => simp [Except.map]
      | ok addrs => simp [Except.map]

theorem resolveImports_congr {binary binary' : MachOBinary} {header header' : Header} {is : List Nat}
    (h : ∀ i ∈ is, ∃ found, readImport binary header i = .ok found ∧
      readImport binary' header' i = .ok found) (s : σ) :
    resolveImports resolveSymbol binary header is s =
      resolveImports resolveSymbol binary' header' is s := by
  induction is generalizing s with
  | nil => rfl
  | cons i rest ih =>
    obtain ⟨⟨dylib, name⟩, hread, hread'⟩ := h i List.mem_cons_self
    rw [resolveImports_cons resolveSymbol hread, resolveImports_cons resolveSymbol hread',
      ih fun j hj => h j (List.mem_cons_of_mem i hj)]

end Resolve

section Runs
variable {imports : List Word} {load : Address} {fuel : Nat}

/-- A chain is not read from the file. -/
theorem walkChain_stop {format : BitVec 16} {chainPtr : Address} {m : Memory} {stop : Stop}
    (h : (walkChain imports load format fuel chainPtr m).value = some stop) : stop = .outOfFuel := by
  induction fuel generalizing chainPtr m with
  | zero =>
    cases h
    rfl
  | succ fuel ih =>
    rw [walkChain, bind_apply, read_apply] at h
    cases hd : decodePointer format imports load (m.readWord chainPtr) with
    | none =>
      simp only [hd, pure_apply] at h
      cases h
    | some d =>
      simp only [hd, bind_apply] at h
      split_ifs at h with hnext
      exact ih h

section Stop
variable {binary : MachOBinary} {header : Header}

theorem SegmentRead.stop {i : Nat} (h : SegmentRead binary header i) {m : Memory} {stop : Stop}
    (hrun : (fixSegment imports load fuel binary header i m).value = some stop) :
    stop = .outOfFuel := by
  obtain ⟨found, hfound, hpages⟩ := h
  rw [fixSegment, hfound] at hrun
  cases found with
  | none => cases hrun
  | some starts =>
    obtain ⟨j, hj, m', -, hpage⟩ :=
      untilSome_some (I := fun _ => True) (fun _ _ _ => trivial) trivial hrun
    obtain ⟨chainPtr, hchain⟩ := hpages starts rfl j (List.mem_range.mp hj)
    rw [fixPage, hchain] at hpage
    cases chainPtr with
    | none => cases hpage
    | some chainPtr => exact walkChain_stop hpage

theorem Readable.stop (h : Readable binary header) {m : Memory} {stop : Stop}
    (hrun : (fixSegments imports load fuel binary header m).value = some stop) :
    stop = .outOfFuel := by
  obtain ⟨count, hcount, hsegments⟩ := h.segments
  rw [fixSegments, hcount] at hrun
  obtain ⟨i, hi, m', -, hsegment⟩ :=
    untilSome_some (I := fun _ => True) (fun _ _ _ => trivial) trivial hrun
  exact (hsegments i (List.mem_range.mp hi)).stop hsegment

end Stop

section Same
variable {binary : MachOBinary} {offset size : BitVec 32} {header : Header}

theorem SegmentRead.same {i : Nat} (h : SegmentRead (blobOnly binary offset size) header i) :
    fixSegment imports load fuel binary (header.moved offset) i =
      fixSegment imports load fuel (blobOnly binary offset size) header i := by
  obtain ⟨found, hfound, hpages⟩ := h
  rw [fixSegment, fixSegment, hfound, segmentStarts_moved hfound]
  cases found with
  | none => rfl
  | some starts =>
    apply untilSome_congr
    intro j hj
    obtain ⟨chainPtr, hchain⟩ := hpages starts rfl j (List.mem_range.mp hj)
    rw [fixPage, fixPage, hchain, pageStart_moved hchain]
    rfl

theorem Readable.same (h : Readable (blobOnly binary offset size) header) :
    fixSegments imports load fuel binary (header.moved offset) =
      fixSegments imports load fuel (blobOnly binary offset size) header := by
  obtain ⟨count, hcount, hsegments⟩ := h.segments
  rw [fixSegments, fixSegments, hcount, segmentCount_moved hcount]
  apply untilSome_congr
  intro i hi
  exact (hsegments i (List.mem_range.mp hi)).same

end Same

end Runs

/-! ### A memory of zeros -/

/-- Its words are the last of their chains, and stay zero. -/
def blank : Memory := fun _ => 0

section Blank
variable {imports : List Word} {load : Address} {binary : MachOBinary}

theorem blank_readWord (a : Address) : blank.readWord a = 0 := by
  have hbytes : (List.range 8).map (fun i => blank (a + BitVec.ofNat 64 i)) = List.replicate 8 0 :=
    List.map_const'
  rw [readWord, hbytes]
  rfl

theorem blank_writeWord (a : Address) : blank.writeWord a 0 = blank := by
  funext x
  simp [writeWord, blank, byteLE]

theorem walkChain_blank (format : BitVec 16) (chainPtr : Address) :
    (walkChain imports load format 1 chainPtr blank).state = blank ∧
      (walkChain imports load format 1 chainPtr blank).value = none := by
  rw [walkChain, bind_apply, read_apply, blank_readWord]
  by_cases hformat : supported format
  · rcases hformat with rfl | rfl
    · exact ⟨blank_writeWord chainPtr, rfl⟩
    · exact ⟨blank_writeWord chainPtr, rfl⟩
  · simp only [decodePointer_unsupported imports load hformat]
    exact ⟨rfl, rfl⟩

theorem fixPage_blank (starts : SegmentStarts) (j : Nat) :
    (fixPage imports load 1 binary starts j blank).state = blank ∧
      ((fixPage imports load 1 binary starts j blank).value = none ↔
        ∃ chainPtr, pageStart binary starts j = .ok chainPtr) := by
  unfold fixPage
  cases pageStart binary starts j with
  | error e => simp
  | ok found =>
    cases found with
    | none => exact ⟨rfl, iff_of_true rfl ⟨_, rfl⟩⟩
    | some chainPtr =>
      obtain ⟨hstate, hvalue⟩ := walkChain_blank starts.pointerFormat chainPtr
      exact ⟨hstate, iff_of_true hvalue ⟨_, rfl⟩⟩

theorem fixSegment_blank (header : Header) (i : Nat) :
    (fixSegment imports load 1 binary header i blank).state = blank ∧
      ((fixSegment imports load 1 binary header i blank).value = none ↔
        SegmentRead binary header i) := by
  unfold fixSegment SegmentRead
  cases segmentStarts notPageZero binary header i with
  | error e => simp
  | ok found =>
    simp only [Except.ok.injEq, exists_eq_left']
    cases found with
    | none => simp
    | some starts =>
      have hunmoved : ∀ j ∈ List.range starts.pageCount.toNat,
          (fixPage imports load 1 binary starts j blank).state = blank :=
        fun j _ => (fixPage_blank starts j).1
      obtain ⟨hstate, hvalue⟩ := untilSome_unmoved hunmoved
      refine ⟨hstate, hvalue.trans ?_⟩
      simp only [List.mem_range, (fixPage_blank starts _).2, Option.some.injEq, forall_eq']

theorem fixSegments_blank (header : Header) :
    (fixSegments imports load 1 binary header blank).value = none ↔
      ∃ count, segmentCount binary header = .ok count ∧
        ∀ i < count.toNat, SegmentRead binary header i := by
  unfold fixSegments
  cases segmentCount binary header with
  | error e => simp
  | ok count =>
    have hunmoved : ∀ i ∈ List.range count.toNat,
        (fixSegment imports load 1 binary header i blank).state = blank :=
      fun i _ => (fixSegment_blank header i).1
    obtain ⟨-, hvalue⟩ := untilSome_unmoved hunmoved
    simp only [Except.ok.injEq, exists_eq_left']
    rw [hvalue]
    simp only [List.mem_range, (fixSegment_blank header _).2]

end Blank

section Fault
variable {binary : MachOBinary} {header : Header}

theorem resolveImports_faults {σ : Type} (resolveSymbol : String → String → σ → Word × σ)
    (is : List Nat) (s : σ) :
    FailsWith IsFault (resolveImports resolveSymbol binary header is s).1 := by
  induction is generalizing s with
  | nil => apply FailsWith.ok
  | cons i rest ih =>
    cases hread : readImport binary header i with
    | error e =>
      simp only [resolveImports, hread]
      exact FailsWith.error (readImport_faults binary header i e hread)
    | ok found =>
      obtain ⟨dylib, name⟩ := found
      rw [resolveImports_cons resolveSymbol hread]
      have hrest := ih (resolveSymbol dylib name s).2
      dsimp only
      cases hanswer : (resolveImports resolveSymbol binary header rest
          (resolveSymbol dylib name s).2).1 with
      | error e => exact FailsWith.error (hrest e hanswer)
      | ok addrs => apply FailsWith.ok

section Blank
variable {imports : List Word} {load : Address}

theorem fixPage_blank_stop (starts : SegmentStarts) (j : Nat) :
    (fixPage imports load 1 binary starts j blank).value ≠ some .outOfFuel := by
  unfold fixPage
  cases hpage : pageStart binary starts j with
  | error e =>
    intro h
    cases h
    exact pageStart_faults binary starts j _ hpage rfl
  | ok found =>
    cases found with
    | none => simp
    | some chainPtr =>
      intro h
      rw [(walkChain_blank starts.pointerFormat chainPtr).2] at h
      cases h

theorem fixSegment_blank_stop (i : Nat) :
    (fixSegment imports load 1 binary header i blank).value ≠ some .outOfFuel := by
  unfold fixSegment
  cases hstarts : segmentStarts notPageZero binary header i with
  | error e =>
    intro h
    cases h
    exact segmentStarts_faults notPageZero binary header i _ hstarts rfl
  | ok found =>
    cases found with
    | none => simp
    | some starts =>
      intro h
      obtain ⟨j, -, m, rfl, hpage⟩ := untilSome_some (I := (· = blank))
        (fun j m hm => by rw [hm]; exact (fixPage_blank starts j).1) rfl h
      exact fixPage_blank_stop starts j hpage

theorem fixSegments_blank_stop :
    (fixSegments imports load 1 binary header blank).value ≠ some .outOfFuel := by
  unfold fixSegments
  cases hcount : segmentCount binary header with
  | error e =>
    intro h
    cases h
    exact u32At_faults _ _ _ hcount rfl
  | ok count =>
    intro h
    obtain ⟨i, -, m, rfl, hsegment⟩ := untilSome_some (I := (· = blank))
      (fun i m hm => by rw [hm]; exact (fixSegment_blank header i).1) rfl h
    exact fixSegment_blank_stop i hsegment

end Blank

end Fault

/-! ### What has to be there -/

section Needs
variable {binary : MachOBinary} {offset size : BitVec 32} {header : Header}

/-- A run that meets only the zeros of memory reads everything. -/
theorem readable_of_blank {σ : Type} (resolveSymbol : String → String → σ → Word × σ) {s : σ}
    (hfixups : binary.chainedFixups = some (offset, size))
    (h : ∀ stop, (applyFixups resolveSymbol 1 binary s blank).stop = some stop → stop = .outOfFuel) :
    ∃ header, readHeader binary.data offset size = .ok header ∧ Readable binary header := by
  unfold applyFixups at h
  simp only [hfixups] at h
  cases hheader : readHeader binary.data offset size with
  | error e =>
    simp only [hheader] at h
    exact absurd (h e rfl) (readHeader_faults _ _ _ e hheader)
  | ok header =>
    simp only [hheader] at h
    refine ⟨header, rfl, ?_⟩
    cases himports : resolveImports resolveSymbol binary header
        (List.range header.importsCount.toNat) s with
    | mk answer s' =>
      have hanswer := congrArg Prod.fst himports
      simp only [himports] at h
      cases answer with
      | error e =>
        exact absurd (h e rfl) (resolveImports_faults resolveSymbol _ s e hanswer)
      | ok addrs =>
        have hall := (resolveImports_ok resolveSymbol).mp ⟨addrs, hanswer⟩
        refine ⟨fun i hi => hall i (List.mem_range.mpr hi), ?_⟩
        apply fixSegments_blank header |>.mp
        cases hvalue : (fixSegments addrs (loadAddress binary) 1 binary header blank).value with
        | none => rfl
        | some stop =>
          cases h stop hvalue
          exact absurd hvalue fixSegments_blank_stop

end Needs

/-! ### Which blobs are handled -/

section Handled
variable {logged : Bool} {binary : MachOBinary} {offset size : BitVec 32}

theorem WellFormed.length (h : WellFormed logged binary offset size) :
    (blobOf binary offset size).length = size.toNat := by
  have hin := h.inFile
  rw [blobOf, List.length_take, List.length_drop]
  omega

theorem WellFormed.long (h : WellFormed logged binary offset size) : 20 ≤ size.toNat := by
  have hlong := h.header
  split_ifs at hlong
  · omega
  · exact hlong

theorem WellFormed.readable (h : WellFormed logged binary offset size) {header : Header}
    (hof : HeaderOf (blobOf binary offset size) header) :
    Readable (blobOnly binary offset size) header := by
  constructor
  · intro i hi
    rw [hof.count] at hi
    obtain ⟨hlt, hname⟩ := h.names i hi
    exact (import_read_iff hof hlt).mpr ⟨h.length ▸ h.imports i hi, hname⟩
  · obtain ⟨count, hcount⟩ := u32At_some (h.length ▸ h.starts)
    have hcountNat : count.toNat = segCount (blobOf binary offset size) := (u32At_ok.mp hcount).2
    refine ⟨count, ?_, fun i hi => (segment_read_iff hof).mpr ?_⟩
    · rw [segmentCount, hof.base, hof.starts, Nat.zero_add]
      exact hcount
    · rw [hcountNat] at hi
      refine ⟨h.length ▸ h.segments i hi, fun hused segment hseg htake => ?_⟩
      exact h.length ▸ h.pages i hi hused segment hseg htake

/-- A run in the file is the run on the blob, and no read stops it. -/
theorem Readable.run {header : Header} (h : Readable (blobOnly binary offset size) header)
    (hfixups : binary.chainedFixups = some (offset, size))
    (hrange : offset.toNat + size.toNat < 2 ^ 32)
    (hheader : readHeader (blobOf binary offset size) 0 size = .ok header) {σ : Type}
    (resolveSymbol : String → String → σ → Word × σ) (fuel : Nat) (s : σ) (memory : Memory) :
    let r := applyFixups resolveSymbol fuel (blobOnly binary offset size) s memory
    applyFixups resolveSymbol fuel binary s memory = r ∧
      ∀ stop, r.stop = some stop → stop = .outOfFuel := by
  intro r
  obtain ⟨addrs, haddrs⟩ := (resolveImports_ok resolveSymbol (s := s)).mpr
    fun i hi => h.imports i (List.mem_range.mp hi)
  have hsame : resolveImports resolveSymbol (blobOnly binary offset size) header
      (List.range header.importsCount.toNat) s =
      resolveImports resolveSymbol binary (header.moved offset)
        (List.range header.importsCount.toNat) s := by
    apply resolveImports_congr
    intro i hi
    obtain ⟨found, hfound⟩ := h.imports i (List.mem_range.mp hi)
    exact ⟨found, hfound, readImport_moved hfound⟩
  cases hresolved : resolveImports resolveSymbol (blobOnly binary offset size) header
      (List.range header.importsCount.toNat) s with
  | mk answer s' =>
    rw [hresolved] at haddrs hsame
    cases haddrs
    let run := fixSegments addrs (loadAddress binary) fuel (blobOnly binary offset size) header memory
    have hblob : r = ⟨run.value, s', run.state, run.trace⟩ := by
      have hdata : (blobOnly binary offset size).data = blobOf binary offset size := rfl
      have hfixups' : (blobOnly binary offset size).chainedFixups = some (0, size) := rfl
      simp only [r, applyFixups, hfixups', hdata, hheader, hresolved]
      rfl
    have hfile : applyFixups resolveSymbol fuel binary s memory =
        ⟨run.value, s', run.state, run.trace⟩ := by
      have hcount : (header.moved offset).importsCount = header.importsCount := rfl
      simp only [applyFixups, hfixups, readHeader_moved hrange hheader, hcount, ← hsame, h.same]
      rfl
    constructor
    · rw [hfile, hblob]
    · intro stop hstop
      rw [hblob] at hstop
      exact h.stop hstop

/-- No offset of a name wraps. -/
theorem WellFormed.fits (h : WellFormed logged binary offset size) {header : Header}
    (hof : HeaderOf (blobOf binary offset size) header) {i : Nat}
    (hi : i < header.importsCount.toNat) {importRaw : BitVec 32}
    (hraw : u32At (blobOf binary offset size) (header.importsOffset.toNat + i * 4) = .ok importRaw) :
    header.symbolsOffset.toNat + (importRaw >>> 9).toNat < 2 ^ 32 := by
  rw [hof.count] at hi
  rw [hof.imports] at hraw
  rw [nameOffset_eq hof (u32At_ok.mp hraw).2]
  exact (h.names i hi).1

theorem WellFormed.contained (h : WellFormed logged binary offset size)
    (hfixups : binary.chainedFixups = some (offset, size)) {σ : Type}
    (resolveSymbol : String → String → σ → Word × σ) (fuel : Nat) (s : σ) (memory : Memory) :
    Contained resolveSymbol fuel logged binary offset size s memory := by
  have hlen := h.length
  have hlong := h.long
  obtain ⟨header, hheader⟩ := readHeader_some (Nat.le_of_eq hlen.symm) (by omega)
  obtain ⟨-, -, hof⟩ := readHeader_ok hheader
  obtain ⟨hsame, hstop⟩ :=
    (h.readable hof).run hfixups h.range hheader resolveSymbol fuel s memory
  constructor
  · exact h.range
  · intro hlogged
    have hline := h.header
    rw [if_pos hlogged] at hline
    omega
  · intro header' hheader' i hi importRaw hraw
    exact h.fits (readHeader_ok hheader').2.2 hi hraw
  · exact hstop
  · exact hsame

/-- What the records of the imports have to say for their names to be read. -/
theorem Contained.imports {σ : Type} {resolveSymbol : String → String → σ → Word × σ} {fuel : Nat}
    {s : σ} {memory : Memory}
    (h : Contained resolveSymbol fuel logged binary offset size s memory) {header : Header}
    (hheader : readHeader (blobOf binary offset size) 0 size = .ok header)
    (hread : Readable (blobOnly binary offset size) header) {i : Nat}
    (hi : i < importsCount (blobOf binary offset size)) :
    nameOffset (blobOf binary offset size) i < 2 ^ 32 ∧
      importsOffset (blobOf binary offset size) + i * 4 + 4 ≤ (blobOf binary offset size).length ∧
      NameAt (blobOf binary offset size) (nameOffset (blobOf binary offset size) i) := by
  obtain ⟨-, -, hof⟩ := readHeader_ok hheader
  rw [← hof.count] at hi
  obtain ⟨found, hfound⟩ := hread.imports i hi
  obtain ⟨importRaw, hraw, -⟩ := bind_ok hfound
  rw [hof.base, Nat.zero_add] at hraw
  have hlt := h.names header hheader i hi importRaw hraw
  rw [hof.imports] at hraw
  rw [nameOffset_eq hof (u32At_ok.mp hraw).2] at hlt
  exact ⟨hlt, (import_read_iff hof hlt).mp ⟨found, hfound⟩⟩

theorem Contained.wellFormed {σ : Type} {resolveSymbol : String → String → σ → Word × σ} {s : σ}
    (h : Contained resolveSymbol 1 logged binary offset size s blank) :
    WellFormed logged binary offset size := by
  obtain ⟨header, hheader, hread⟩ := readable_of_blank resolveSymbol rfl h.inside
  change readHeader (blobOf binary offset size) 0 size = .ok header at hheader
  obtain ⟨hsize, hlong, hof⟩ := readHeader_ok hheader
  have hmin : (blobOf binary offset size).length = min size.toNat (binary.data.length - offset.toNat) := by
    rw [blobOf, List.length_take, List.length_drop]
  have hlen : (blobOf binary offset size).length = size.toNat := by omega
  obtain ⟨count, hcount, hsegments⟩ := hread.segments
  rw [segmentCount, hof.base, hof.starts, Nat.zero_add] at hcount
  obtain ⟨hstarts, hcount⟩ := u32At_ok.mp hcount
  change count.toNat = segCount (blobOf binary offset size) at hcount
  have hsegment := fun i (hi : i < segCount (blobOf binary offset size)) =>
    (segment_read_iff hof).mp (hsegments i (hcount ▸ hi))
  constructor
  · exact h.range
  · omega
  · split_ifs with hlogged
    · exact hlen ▸ h.line hlogged
    · omega
  · intro i hi
    exact hlen ▸ (h.imports hheader hread hi).2.1
  · intro i hi
    obtain ⟨hlt, -, hname⟩ := h.imports hheader hread hi
    exact ⟨hlt, hname⟩
  · exact hlen ▸ hstarts
  · exact fun i hi => hlen ▸ (hsegment i hi).1
  · exact fun i hi => hlen ▸ (hsegment i hi).2

/-- There is no error to return. -/
theorem returned_ne_error {σ : Type} (r : Applied σ) (e : LoaderError) :
    r.returned ≠ some (.error e) := by
  unfold Applied.returned
  split
  · simp
  · simp

/-- **Every run stays in the blob just when the blob is well formed.** -/
theorem handled_iff (logged : Bool) (binary : MachOBinary) :
    Handled logged binary ↔ ∀ offset size, binary.chainedFixups = some (offset, size) →
      WellFormed logged binary offset size := by
  constructor
  · intro h offset size hfixups
    rcases h offset size hfixups Unit resolveNothing 1 () blank with ⟨e, herr⟩ | hcontained
    · exact absurd herr (returned_ne_error _ e)
    · exact hcontained.wellFormed
  · intro h offset size hfixups σ resolveSymbol fuel s memory
    exact .inr ((h offset size hfixups).contained hfixups resolveSymbol fuel s memory)

end Handled

/-- The blob of a library whose import table begins where the blob ends: a header, and the
count of segments; and the eight bytes of the file that follow. -/
def tableAfterBlob : List Byte :=
  MachoFile.words [0, 28, 32, 32, 1, 1, 0, 0] ++ MachoFile.words [0, 0]

/-- The blob is behind the load commands. -/
def tableAfterData : List Byte :=
  MachoFile.file 6 [MachoFile.segment64 "__TEXT" 0x100000000 0x1000 0 160 5 [],
    MachoFile.dyldChainedFixups 120 32] tableAfterBlob

def tableAfter : MachOBinary where
  path := "libone.dylib"
  fileType := 6
  cpuType := CPU_TYPE_X86_64
  entryPoint := 0
  entryIsOffset := false
  segments := [⟨"__TEXT", 0x100000000, 0x1000, 0, 160, 5, 5⟩]
  dylibDeps := []
  rpaths := []
  chainedFixups := some (120, 32)
  exportsTrie := none
  data := tableAfterData
  slide := 0

/-- What is reported of the file the library is in. -/
def tableAfterFile : Goblin where
  parseMachO _ := .ok {
    filetype := 6
    cputype := CPU_TYPE_X86_64
    name := none
    libs := ["self"]
    rpaths := []
    loadCommands := [.segment64 (some "__TEXT") 0x100000000 0x1000 0 160 5 5,
      .dyldChainedFixups 120 32]
    exports := .ok []
    symbols := []
    imports := .ok [] }
  parseMach _ := .error "not fat"

/-- The table is read from the bytes of the file that follow, and the call returns. -/
theorem table_after_not_handled : ¬ ∀ (logged : Bool) (goblin : Goblin) (path : String)
    (data : List Byte) (binary : MachOBinary), MachOBinary.parse goblin path data = .ok binary →
    Handled logged binary := by
  intro h
  have hhandled := h false tableAfterFile "libone.dylib" tableAfterData tableAfter rfl 120 32 rfl
    Unit resolveNothing 1 () blank
  rcases hhandled with ⟨e, herr⟩ | hcontained
  · exact returned_ne_error _ e herr
  · exact absurd (hcontained.inside .wild rfl) (by decide)

end Grafted.Loader.ChainedFixups
