import Grafted.Loader.ChainedFixups

/-! What is read of a file for its chained fixups, one read at a time.

A read is of bytes that are there, or fails (`u32At_ok`, `cstrAt_some`); so what the
header leads to is read just when the tables and the names lie in the file
(`import_read_iff`, `segment_read_iff`). What is read of a part of a file is read of
the file, at the offset the part has. -/
namespace Grafted.Loader.ChainedFixups
open ByteMemory Fallible

/-! ### Numbers and names -/

def u16 (data : List Byte) (k : Nat) : Nat := fromLE ((data.drop k).take 2)

def u32 (data : List Byte) (k : Nat) : Nat := fromLE ((data.drop k).take 4)

/-- A name begins here: the byte that ends it is there, and it is UTF-8. -/
def NameAt (data : List Byte) (k : Nat) : Prop :=
  let bytes := (data.drop k).takeWhile (· != 0)
  k + bytes.length < data.length ∧
    (String.fromUTF8? ⟨(bytes.map UInt8.ofBitVec).toArray⟩).isSome = true

/-- A number of any width. -/
def numberAt (w size : Nat) (data : List Byte) (k : Nat) : Except Stop (BitVec w) :=
  match readLE data k size with
  | some n => .ok (BitVec.ofNat w n)
  | none => .error .wild

section Number
variable {w size : Nat} {data : List Byte} {k : Nat}

theorem ofNat_eq_iff {n : Nat} (h : n < 2 ^ w) {v : BitVec w} : BitVec.ofNat w n = v ↔ v.toNat = n := by
  rw [← BitVec.toNat_inj, BitVec.toNat_ofNat, Nat.mod_eq_of_lt h, eq_comm]

theorem numberAt_ok (hw : 256 ^ size = 2 ^ w) {v : BitVec w} :
    numberAt w size data k = .ok v ↔
      k + size ≤ data.length ∧ v.toNat = fromLE ((data.drop k).take size) := by
  unfold numberAt
  cases h : readLE data k size with
  | none =>
    apply iff_of_false (by simp)
    rintro ⟨hin, -⟩
    rw [readLE_some.mpr ⟨hin, rfl⟩] at h
    cases h
  | some n =>
    have hlt : n < 2 ^ w := hw ▸ readLE_lt h
    obtain ⟨hin, hn⟩ := readLE_some.mp h
    rw [hn, and_iff_right hin, ← ofNat_eq_iff hlt]
    exact ⟨Except.ok.inj, congrArg Except.ok⟩

theorem numberAt_some (hw : 256 ^ size = 2 ^ w) (h : k + size ≤ data.length) :
    ∃ v, numberAt w size data k = .ok v := by
  have hread := readLE_some.mpr ⟨h, rfl⟩
  have hlt : fromLE ((data.drop k).take size) < 2 ^ w := hw ▸ readLE_lt hread
  exact ⟨BitVec.ofNat w _, (numberAt_ok hw).mpr ⟨h, (ofNat_eq_iff hlt).mp rfl⟩⟩

theorem numberAt_part (hw : 256 ^ size = 2 ^ w) (hsize : 0 < size) {offset len : Nat} {v : BitVec w}
    (h : numberAt w size ((data.drop offset).take len) k = .ok v) :
    numberAt w size data (offset + k) = .ok v := by
  obtain ⟨hin, hv⟩ := (numberAt_ok hw).mp h
  obtain ⟨hin', hv'⟩ := readLE_some.mp (readLE_part hsize (readLE_some.mpr ⟨hin, hv.symm⟩))
  exact (numberAt_ok hw).mpr ⟨hin', hv'.symm⟩

theorem u16At_ok {v : BitVec 16} :
    u16At data k = .ok v ↔ k + 2 ≤ data.length ∧ v.toNat = u16 data k := numberAt_ok rfl

theorem u32At_ok {v : BitVec 32} :
    u32At data k = .ok v ↔ k + 4 ≤ data.length ∧ v.toNat = u32 data k := numberAt_ok rfl

theorem u16At_some (h : k + 2 ≤ data.length) : ∃ v, u16At data k = .ok v := numberAt_some rfl h

theorem u32At_some (h : k + 4 ≤ data.length) : ∃ v, u32At data k = .ok v := numberAt_some rfl h

theorem cstrAt_some : (∃ name, cstrAt data k = .ok name) ↔ NameAt data k := by
  unfold cstrAt NameAt
  dsimp only
  split_ifs with hin
  · rw [and_iff_right hin]
    cases String.fromUTF8? ⟨(((data.drop k).takeWhile (· != 0)).map UInt8.ofBitVec).toArray⟩ with
    | none => simp
    | some name => simp
  · refine iff_of_false ?_ fun h => hin h.1
    rintro ⟨name, h⟩
    cases h

end Number

/-- The starts of a segment are read: they are given, of a segment that is taken. -/
def Taken (take : Segment → Bool) (binary : MachOBinary) (i : Nat) (segInfoOffset : BitVec 32)
    (segment : Segment) : Prop :=
  segInfoOffset ≠ 0 ∧ binary.segments[i]? = some segment ∧ take segment = true

theorem not_taken_iff {take : Segment → Bool} {binary : MachOBinary} {i : Nat}
    {segInfoOffset : BitVec 32} (hnone : ∀ segment, ¬ Taken take binary i segInfoOffset segment)
    {found : Option SegmentStarts} {Q : Segment → Prop} :
    (Except.ok none : Except Stop (Option SegmentStarts)) = .ok found ↔
      (∀ segment, ¬ Taken take binary i segInfoOffset segment) ∧ found = none ∨
        ∃ segment, Taken take binary i segInfoOffset segment ∧ Q segment := by
  rw [or_iff_left fun ⟨segment, htaken, _⟩ => hnone segment htaken, and_iff_right hnone,
    Except.ok.injEq, eq_comm]

theorem segmentStarts_ok {take : Segment → Bool} {binary : MachOBinary} {header : Header} {i : Nat}
    {found : Option SegmentStarts} :
    segmentStarts take binary header i = .ok found ↔
      let starts := header.base + header.startsOffset.toNat
      ∃ info, u32At binary.data (starts + 4 + i * 4) = .ok info ∧
        let seg := starts + info.toNat
        ((∀ segment, ¬ Taken take binary i info segment) ∧ found = none ∨
          ∃ segment, Taken take binary i info segment ∧ ∃ pageSize format count,
            u16At binary.data (seg + 4) = .ok pageSize ∧ u16At binary.data (seg + 6) = .ok format ∧
            u16At binary.data (seg + 20) = .ok count ∧
            found = some ⟨segment, seg + 22, pageSize, format, count⟩) := by
  dsimp only
  cases hread : u32At binary.data (header.base + header.startsOffset.toNat + 4 + i * 4) with
  | error e =>
    rw [segmentStarts, hread]
    apply iff_of_false (by simp [bind, Except.bind])
    rintro ⟨info, h, -⟩
    cases h
  | ok info =>
    simp only [Except.ok.injEq, exists_eq_left']
    rw [segmentStarts, hread]
    change (if info = 0 then Except.ok none else _) = Except.ok found ↔ _
    split_ifs with hinfo
    · have hnone : ∀ segment, ¬ Taken take binary i info segment := fun _ h => h.1 hinfo
      exact not_taken_iff hnone
    · cases hseg : binary.segments[i]? with
      | none =>
        have hnone : ∀ segment, ¬ Taken take binary i info segment := by simp [Taken, hseg]
        exact not_taken_iff hnone
      | some segment =>
        dsimp only
        split_ifs with htake
        · have hnone : ∀ segment, ¬ Taken take binary i info segment := by
            rintro segment' ⟨-, hseg', htake'⟩
            rw [hseg] at hseg'
            cases hseg'
            simp [htake'] at htake
          exact not_taken_iff hnone
        · have htaken : Taken take binary i info segment := ⟨hinfo, hseg, by simpa using htake⟩
          rw [or_iff_right fun h => h.1 segment htaken]
          constructor
          · intro h
            obtain ⟨pageSize, hsize, h⟩ := bind_ok h
            obtain ⟨format, hformat, h⟩ := bind_ok h
            obtain ⟨count, hcount, h⟩ := bind_ok h
            cases h
            exact ⟨segment, htaken, pageSize, format, count, hsize, hformat, hcount, rfl⟩
          · rintro ⟨segment', ⟨-, hseg', -⟩, pageSize, format, count, hsize, hformat, hcount, rfl⟩
            rw [hseg] at hseg'
            cases hseg'
            rw [hsize, hformat, hcount]
            rfl

/-! ### What the numbers of a blob say -/

section Layout
variable (blob : List Byte)

def startsOffset : Nat := u32 blob 4

def importsOffset : Nat := u32 blob 8

def symbolsOffset : Nat := u32 blob 12

def importsCount : Nat := u32 blob 16

def nameOffset (i : Nat) : Nat := symbolsOffset blob + u32 blob (importsOffset blob + i * 4) / 2 ^ 9

def segCount : Nat := u32 blob (startsOffset blob)

def segInfoOffset (i : Nat) : Nat := u32 blob (startsOffset blob + 4 + i * 4)

def pageCount (i : Nat) : Nat := u16 blob (startsOffset blob + segInfoOffset blob i + 20)

end Layout

/-! ### What the header leads to -/

/-- The starts of segment `i` are read, and those of its pages. -/
def SegmentRead (binary : MachOBinary) (header : Header) (i : Nat) : Prop :=
  ∃ found, segmentStarts notPageZero binary header i = .ok found ∧
    ∀ starts, found = some starts → ∀ j < starts.pageCount.toNat,
    ∃ chainPtr, pageStart binary starts j = .ok chainPtr

/-- All that the header leads to is there. -/
structure Readable (binary : MachOBinary) (header : Header) : Prop where
  imports : ∀ i < header.importsCount.toNat, ∃ found, readImport binary header i = .ok found
  segments : ∃ count, segmentCount binary header = .ok count ∧
    ∀ i < count.toNat, SegmentRead binary header i

/-- The fields of the header are the numbers of the blob. -/
structure HeaderOf (blob : List Byte) (header : Header) : Prop where
  base : header.base = 0
  starts : header.startsOffset.toNat = startsOffset blob
  imports : header.importsOffset.toNat = importsOffset blob
  symbols : header.symbolsOffset.toNat = symbolsOffset blob
  count : header.importsCount.toNat = importsCount blob

/-- The range is in the data, and the fields are the four words read. -/
structure HeaderRead (data : List Byte) (offset size : BitVec 32) (header : Header) : Prop where
  range : offset.toNat ≤ (offset + size).toNat ∧ (offset + size).toNat ≤ data.length
  base : header.base = offset.toNat
  starts : u32At data (offset.toNat + 4) = .ok header.startsOffset
  imports : u32At data (offset.toNat + 8) = .ok header.importsOffset
  symbols : u32At data (offset.toNat + 12) = .ok header.symbolsOffset
  count : u32At data (offset.toNat + 16) = .ok header.importsCount

theorem readHeader_iff {data : List Byte} {offset size : BitVec 32} {header : Header} :
    readHeader data offset size = .ok header ↔ HeaderRead data offset size header := by
  unfold readHeader
  dsimp only
  constructor
  · intro h
    split_ifs at h with hin
    obtain ⟨starts, hstarts, h⟩ := bind_ok h
    obtain ⟨imports, himports, h⟩ := bind_ok h
    obtain ⟨symbols, hsymbols, h⟩ := bind_ok h
    obtain ⟨count, hcount, h⟩ := bind_ok h
    cases h
    exact ⟨hin, rfl, hstarts, himports, hsymbols, hcount⟩
  · intro h
    obtain ⟨base, startsOffset, importsOffset, symbolsOffset, importsCount⟩ := header
    obtain ⟨hin, rfl, hstarts, himports, hsymbols, hcount⟩ := h
    rw [if_pos hin, hstarts, himports, hsymbols, hcount]
    rfl

theorem readHeader_ok {blob : List Byte} {size : BitVec 32} {header : Header}
    (h : readHeader blob 0 size = .ok header) :
    size.toNat ≤ blob.length ∧ 20 ≤ blob.length ∧ HeaderOf blob header := by
  obtain ⟨hin, hbase, hstarts, himports, hsymbols, hcount⟩ := readHeader_iff.mp h
  have hsize : ((0 : BitVec 32) + size).toNat = size.toNat := by simp
  exact ⟨by omega, (u32At_ok.mp hcount).1, hbase, (u32At_ok.mp hstarts).2, (u32At_ok.mp himports).2,
    (u32At_ok.mp hsymbols).2, (u32At_ok.mp hcount).2⟩

theorem readHeader_some {blob : List Byte} {size : BitVec 32} (hsize : size.toNat ≤ blob.length)
    (hlen : 20 ≤ blob.length) : ∃ header, readHeader blob 0 size = .ok header := by
  have hend : ((0 : BitVec 32) + size).toNat = size.toNat := by simp
  have hzero : (0 : BitVec 32).toNat = 0 := rfl
  have hread : ∀ k ≤ 16, ∃ v, u32At blob ((0 : BitVec 32).toNat + k) = .ok v :=
    fun k hk => u32At_some (by omega)
  obtain ⟨starts, hstarts⟩ := hread 4 (by decide)
  obtain ⟨imports, himports⟩ := hread 8 (by decide)
  obtain ⟨symbols, hsymbols⟩ := hread 12 (by decide)
  obtain ⟨count, hcount⟩ := hread 16 (by decide)
  refine ⟨⟨0, starts, imports, symbols, count⟩, readHeader_iff.mpr ?_⟩
  exact ⟨⟨by omega, by omega⟩, rfl, hstarts, himports, hsymbols, hcount⟩

theorem nameOffset_eq {blob : List Byte} {header : Header} (hof : HeaderOf blob header) {i : Nat}
    {importRaw : BitVec 32} (hraw : importRaw.toNat = u32 blob (importsOffset blob + i * 4)) :
    header.symbolsOffset.toNat + (importRaw >>> 9).toNat = nameOffset blob i := by
  rw [BitVec.toNat_ushiftRight, Nat.shiftRight_eq_div_pow, hraw, hof.symbols, nameOffset]

section Layout
variable {binary : MachOBinary} {header : Header}

theorem import_read_iff (hof : HeaderOf binary.data header) {i : Nat}
    (hlt : nameOffset binary.data i < 2 ^ 32) :
    (∃ found, readImport binary header i = .ok found) ↔
      importsOffset binary.data + i * 4 + 4 ≤ binary.data.length ∧
        NameAt binary.data (nameOffset binary.data i) := by
  have hat : header.base + header.importsOffset.toNat + i * 4 = importsOffset binary.data + i * 4 := by
    rw [hof.base, hof.imports, Nat.zero_add]
  have hname : ∀ importRaw, u32At binary.data (importsOffset binary.data + i * 4) = .ok importRaw →
      header.base + (header.symbolsOffset + (importRaw >>> 9)).toNat = nameOffset binary.data i := by
    intro importRaw hraw
    have heq := nameOffset_eq hof (u32At_ok.mp hraw).2
    rw [hof.base, Nat.zero_add, BitVec.toNat_add, heq, Nat.mod_eq_of_lt hlt]
  constructor
  · rintro ⟨found, h⟩
    obtain ⟨importRaw, hraw, h⟩ := bind_ok h
    obtain ⟨name, hcstr, -⟩ := bind_ok h
    rw [hat] at hraw
    rw [hname importRaw hraw] at hcstr
    exact ⟨(u32At_ok.mp hraw).1, cstrAt_some.mp ⟨name, hcstr⟩⟩
  · rintro ⟨hin, hnamed⟩
    obtain ⟨importRaw, hraw⟩ := u32At_some hin
    obtain ⟨name, hcstr⟩ := cstrAt_some.mpr hnamed
    refine ⟨(dylibName binary (importRaw &&& 0xFF).toNat, name), ?_⟩
    unfold readImport
    rw [hat, hraw]
    show cstrAt _ _ >>= _ = _
    rw [hname importRaw hraw, hcstr]
    rfl

theorem page_read_iff {starts : SegmentStarts} {j : Nat} :
    (∃ chainPtr, pageStart binary starts j = .ok chainPtr) ↔
      starts.pageStarts + j * 2 + 2 ≤ binary.data.length := by
  constructor
  · rintro ⟨chainPtr, h⟩
    obtain ⟨start, hstart, -⟩ := bind_ok h
    exact (u16At_ok.mp hstart).1
  · intro h
    obtain ⟨start, hstart⟩ := u16At_some h
    unfold pageStart
    rw [hstart]
    change ∃ chainPtr, (if start = 0xFFFF then Except.ok none else Except.ok (some _)) = _
    split_ifs with hnone
    · exact ⟨_, rfl⟩
    · exact ⟨_, rfl⟩

theorem HeaderOf.startsAt (hof : HeaderOf binary.data header) :
    header.base + header.startsOffset.toNat = startsOffset binary.data := by
  rw [hof.base, hof.starts, Nat.zero_add]

/-- The starts that are given are read when their pages end in the file. -/
theorem taken_read (hof : HeaderOf binary.data header) {i : Nat} {info : BitVec 32}
    {segment : Segment} (htaken : Taken notPageZero binary i info segment)
    (hinfo : u32At binary.data (startsOffset binary.data + 4 + i * 4) = .ok info)
    (hend : startsOffset binary.data + segInfoOffset binary.data i + 22 +
      pageCount binary.data i * 2 ≤ binary.data.length) : SegmentRead binary header i := by
  have hinfoNat : info.toNat = segInfoOffset binary.data i := (u32At_ok.mp hinfo).2
  have hfield : ∀ k ≤ 20, ∃ v, u16At binary.data (startsOffset binary.data + info.toNat + k) = .ok v :=
    fun k hk => u16At_some (by omega)
  obtain ⟨pageSize, hsize⟩ := hfield 4 (by decide)
  obtain ⟨format, hformat⟩ := hfield 6 (by decide)
  obtain ⟨count, hcount⟩ := hfield 20 (by decide)
  have hcountNat := (u16At_ok.mp hcount).2
  rw [hinfoNat] at hcountNat
  change count.toNat = pageCount binary.data i at hcountNat
  refine ⟨some ⟨segment, startsOffset binary.data + info.toNat + 22, pageSize, format, count⟩,
    segmentStarts_ok.mpr ⟨info, ?_, .inr ⟨segment, htaken, pageSize, format, count, ?_⟩⟩, ?_⟩
  · rw [hof.startsAt]
    exact hinfo
  · rw [hof.startsAt]
    exact ⟨hsize, hformat, hcount, rfl⟩
  · intro starts h j hj
    cases h
    apply page_read_iff.mpr
    simp only at hj ⊢
    rw [hinfoNat]
    omega

theorem segment_read_iff (hof : HeaderOf binary.data header) {i : Nat} :
    SegmentRead binary header i ↔
      startsOffset binary.data + 4 + i * 4 + 4 ≤ binary.data.length ∧
        (segInfoOffset binary.data i ≠ 0 →
          ∀ segment, binary.segments[i]? = some segment → notPageZero segment = true →
          startsOffset binary.data + segInfoOffset binary.data i + 22 +
            pageCount binary.data i * 2 ≤ binary.data.length) := by
  have hzero : ∀ info : BitVec 32, info.toNat = segInfoOffset binary.data i →
      (info = 0 ↔ segInfoOffset binary.data i = 0) := by
    intro info hinfo
    rw [← hinfo, ← BitVec.toNat_inj]
    rfl
  constructor
  · rintro ⟨found, hfound, hpages⟩
    obtain ⟨info, hinfo, h⟩ := segmentStarts_ok.mp hfound
    rw [hof.startsAt] at hinfo h
    obtain ⟨hin, hinfo⟩ := u32At_ok.mp hinfo
    change info.toNat = segInfoOffset binary.data i at hinfo
    refine ⟨hin, fun hused segment hseg htake => ?_⟩
    have htaken : Taken notPageZero binary i info segment :=
      ⟨fun h0 => hused ((hzero info hinfo).mp h0), hseg, htake⟩
    rcases h with ⟨hnone, -⟩ | ⟨segment', htaken', pageSize, format, count, -, -, hcount, rfl⟩
    · exact absurd htaken (hnone segment)
    · rw [hinfo] at hcount
      obtain ⟨hfields, hcount⟩ := u16At_ok.mp hcount
      change count.toNat = pageCount binary.data i at hcount
      -- the last page decides
      by_cases hpage : count.toNat = 0
      · omega
      · have hlast := page_read_iff.mp (hpages _ rfl (count.toNat - 1) (by simp only; omega))
        simp only at hlast
        omega
  · rintro ⟨hin, hpages⟩
    obtain ⟨info, hinfo⟩ := u32At_some hin
    by_cases htaken : ∃ segment, Taken notPageZero binary i info segment
    · obtain ⟨segment, htaken⟩ := htaken
      have hused : segInfoOffset binary.data i ≠ 0 :=
        fun h0 => htaken.1 ((hzero info (u32At_ok.mp hinfo).2).mpr h0)
      exact taken_read hof htaken hinfo (hpages hused segment htaken.2.1 htaken.2.2)
    · refine ⟨none, segmentStarts_ok.mpr ⟨info, ?_, .inl ⟨not_exists.mp htaken, rfl⟩⟩, ?_⟩
      · rw [hof.startsAt]
        exact hinfo
      · intro starts h
        cases h

end Layout

/-! ### The same reads in the file -/

def blobOf (binary : MachOBinary) (offset size : BitVec 32) : List Byte :=
  (binary.data.drop offset.toNat).take size.toNat

def blobOnly (binary : MachOBinary) (offset size : BitVec 32) : MachOBinary :=
  { binary with data := blobOf binary offset size, chainedFixups := some (0, size) }

section Moved
variable {binary : MachOBinary} {offset size : BitVec 32}

theorem u16At_moved {k k' : Nat} {v : BitVec 16} (h : u16At (blobOf binary offset size) k = .ok v)
    (hk : k' = offset.toNat + k) : u16At binary.data k' = .ok v := by
  rw [hk]
  exact numberAt_part rfl (by decide) h

theorem u32At_moved {k k' : Nat} {v : BitVec 32} (h : u32At (blobOf binary offset size) k = .ok v)
    (hk : k' = offset.toNat + k) : u32At binary.data k' = .ok v := by
  rw [hk]
  exact numberAt_part rfl (by decide) h

/-- A string that ends in a list ends there in a longer one. -/
theorem takeWhile_append {xs : List Byte} (h : (xs.takeWhile (· != 0)).length < xs.length)
    (ys : List Byte) : (xs ++ ys).takeWhile (· != 0) = xs.takeWhile (· != 0) := by
  induction xs with
  | nil => exact absurd h (Nat.lt_irrefl _)
  | cons x rest ih =>
    rw [List.cons_append, List.takeWhile_cons, List.takeWhile_cons]
    split_ifs with hx
    · rw [List.takeWhile_cons, if_pos hx] at h
      rw [ih (Nat.lt_of_succ_lt_succ h)]
    · rfl

theorem cstrAt_moved {k k' : Nat} {name : String}
    (h : cstrAt (blobOf binary offset size) k = .ok name) (hk : k' = offset.toNat + k) :
    cstrAt binary.data k' = .ok name := by
  unfold cstrAt at h ⊢
  dsimp only at h ⊢
  split_ifs at h with hin
  have hlonger : binary.data.drop k' =
      (blobOf binary offset size).drop k ++ (binary.data.drop offset.toNat).drop size.toNat := by
    rw [hk, ← List.drop_drop, ← List.drop_append_of_le_length (by omega), blobOf, List.take_append_drop]
  have hend : (((blobOf binary offset size).drop k).takeWhile (· != 0)).length <
      ((blobOf binary offset size).drop k).length := by
    rw [List.length_drop]
    omega
  have hlen := congrArg List.length hlonger
  rw [List.length_append, List.length_drop] at hlen
  rw [hlonger, takeWhile_append hend, if_pos (by omega)]
  exact h

def Header.moved (header : Header) (offset : BitVec 32) : Header :=
  { header with base := offset.toNat + header.base }

def SegmentStarts.moved (starts : SegmentStarts) (offset : BitVec 32) : SegmentStarts :=
  { starts with pageStarts := offset.toNat + starts.pageStarts }

theorem readHeader_moved {header : Header} (hrange : offset.toNat + size.toNat < 2 ^ 32)
    (h : readHeader (blobOf binary offset size) 0 size = .ok header) :
    readHeader binary.data offset size = .ok (header.moved offset) := by
  obtain ⟨hin, hbase, hstarts, himports, hsymbols, hcount⟩ := readHeader_iff.mp h
  have hend : (offset + size).toNat = offset.toNat + size.toNat := by
    rw [BitVec.toNat_add, Nat.mod_eq_of_lt hrange]
  have hlen := (u32At_ok.mp hcount).1
  have hblob : (blobOf binary offset size).length ≤ binary.data.length - offset.toNat := by
    rw [blobOf, List.length_take, List.length_drop]
    exact Nat.min_le_right _ _
  have hsize : ((0 : BitVec 32) + size).toNat = size.toNat := by simp
  refine readHeader_iff.mpr ⟨⟨by omega, by omega⟩, ?_, u32At_moved hstarts (by simp),
    u32At_moved himports (by simp), u32At_moved hsymbols (by simp), u32At_moved hcount (by simp)⟩
  rw [Header.moved, hbase]
  rfl

theorem readImport_moved {header : Header} {i : Nat} {found : String × String}
    (h : readImport (blobOnly binary offset size) header i = .ok found) :
    readImport binary (header.moved offset) i = .ok found := by
  obtain ⟨importRaw, hraw, h⟩ := bind_ok h
  obtain ⟨name, hname, h⟩ := bind_ok h
  cases h
  unfold readImport
  rw [u32At_moved hraw (by simp only [Header.moved]; omega)]
  show cstrAt _ _ >>= _ = _
  rw [cstrAt_moved hname (by simp only [Header.moved]; omega)]
  rfl

theorem segmentCount_moved {header : Header} {count : BitVec 32}
    (h : segmentCount (blobOnly binary offset size) header = .ok count) :
    segmentCount binary (header.moved offset) = .ok count :=
  u32At_moved h (by simp only [Header.moved]; omega)

theorem segmentStarts_moved {header : Header} {i : Nat} {found : Option SegmentStarts}
    (h : segmentStarts notPageZero (blobOnly binary offset size) header i = .ok found) :
    segmentStarts notPageZero binary (header.moved offset) i =
      .ok (found.map (·.moved offset)) := by
  obtain ⟨info, hinfo, h⟩ := segmentStarts_ok.mp h
  apply segmentStarts_ok.mpr
  refine ⟨info, u32At_moved hinfo (by simp only [Header.moved]; omega), ?_⟩
  rcases h with ⟨hnone, rfl⟩ | ⟨segment, htaken, pageSize, format, count, hsize, hformat, hcount, rfl⟩
  · exact .inl ⟨hnone, rfl⟩
  · refine .inr ⟨segment, htaken, pageSize, format, count,
      u16At_moved hsize (by simp only [Header.moved]; omega),
      u16At_moved hformat (by simp only [Header.moved]; omega),
      u16At_moved hcount (by simp only [Header.moved]; omega), ?_⟩
    simp only [Header.moved, SegmentStarts.moved, Option.map_some, Nat.add_assoc]

theorem pageStart_moved {starts : SegmentStarts} {j : Nat} {found : Option Address}
    (h : pageStart (blobOnly binary offset size) starts j = .ok found) :
    pageStart binary (starts.moved offset) j = .ok found := by
  obtain ⟨start, hstart, h⟩ := bind_ok h
  unfold pageStart
  rw [u16At_moved hstart (by simp only [SegmentStarts.moved]; omega)]
  exact h

end Moved

/-! ### A read that fails is a panic or wild -/

def IsFault (stop : Stop) : Prop := stop ≠ .outOfFuel

theorem numberAt_faults (w size : Nat) (data : List Byte) (k : Nat) :
    FailsWith IsFault (numberAt w size data k) := by
  unfold numberAt
  split
  · apply FailsWith.ok
  · exact FailsWith.error (by simp [IsFault])

theorem u16At_faults (data : List Byte) (k : Nat) : FailsWith IsFault (u16At data k) :=
  numberAt_faults 16 2 data k

theorem u32At_faults (data : List Byte) (k : Nat) : FailsWith IsFault (u32At data k) :=
  numberAt_faults 32 4 data k

theorem cstrAt_faults (data : List Byte) (k : Nat) : FailsWith IsFault (cstrAt data k) := by
  unfold cstrAt
  dsimp only
  split_ifs with hin
  · split
    · apply FailsWith.ok
    · exact FailsWith.error (by simp [IsFault])
  · exact FailsWith.error (by simp [IsFault])

theorem readHeader_faults (data : List Byte) (offset size : BitVec 32) :
    FailsWith IsFault (readHeader data offset size) := by
  unfold readHeader
  dsimp only
  split_ifs with hin
  · apply FailsWith.bind (u32At_faults _ _)
    intro starts _
    apply FailsWith.bind (u32At_faults _ _)
    intro imports _
    apply FailsWith.bind (u32At_faults _ _)
    intro symbols _
    apply FailsWith.bind (u32At_faults _ _)
    intro count _
    apply FailsWith.ok
  · exact FailsWith.error (by simp [IsFault])

theorem readImport_faults (binary : MachOBinary) (header : Header) (i : Nat) :
    FailsWith IsFault (readImport binary header i) := by
  apply FailsWith.bind (u32At_faults _ _)
  intro importRaw _
  apply FailsWith.bind (cstrAt_faults _ _)
  intro name _
  apply FailsWith.ok

theorem segmentStarts_faults (take : Segment → Bool) (binary : MachOBinary) (header : Header)
    (i : Nat) : FailsWith IsFault (segmentStarts take binary header i) := by
  unfold segmentStarts
  apply FailsWith.bind (u32At_faults _ _)
  intro info _
  split_ifs with hinfo
  · apply FailsWith.ok
  · dsimp only
    split
    · apply FailsWith.ok
    · split_ifs with htake
      · apply FailsWith.ok
      · apply FailsWith.bind (u16At_faults _ _)
        intro pageSize _
        apply FailsWith.bind (u16At_faults _ _)
        intro format _
        apply FailsWith.bind (u16At_faults _ _)
        intro count _
        apply FailsWith.ok

theorem pageStart_faults (binary : MachOBinary) (starts : SegmentStarts) (j : Nat) :
    FailsWith IsFault (pageStart binary starts j) := by
  unfold pageStart
  apply FailsWith.bind (u16At_faults _ _)
  intro start _
  split_ifs with hnone
  · apply FailsWith.ok
  · apply FailsWith.ok

end Grafted.Loader.ChainedFixups
