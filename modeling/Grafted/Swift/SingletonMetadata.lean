import Grafted.Base.ByteRanges
import Grafted.Base.PartialMaps

/-! The metadata of a struct that is built where there is no runtime.

A block of 512 bytes gets a header and the offsets of the fields, and a value witness table gets
the size. At most 16 offsets are written, at an offset that the descriptor gives, and the size
counts all fields. All fields have their place exactly when there are at most 16 and the block
has room for their offsets (`fieldsPlaced_iff`). -/
namespace Grafted.Swift.SingletonMetadata
open ByteMemory Memory PartialMaps
open X86 (Within)

/-- Where the functions of the value witness table are. -/
structure Witnesses where
  initcopy : Address
  destroy : Address
  enumTag : Address
  storeEnumTag : Address

def vwtWords (w : Witnesses) (vwt : Address) : List (Address × Word) :=
  [(vwt, w.initcopy), (vwt + 8, w.destroy), (vwt + 16, w.initcopy), (vwt + 24, w.initcopy),
    (vwt + 32, w.initcopy), (vwt + 40, w.initcopy), (vwt + 48, w.enumTag),
    (vwt + 56, w.storeEnumTag), (vwt + 64, 8), (vwt + 72, 8), (vwt + 80, 7), (vwt + 88, 0)]

/-- The metadata is 16 bytes into its block. -/
def metadataWords (descriptor vwt raw : Address) : List (Address × Word) :=
  [(raw + 8, vwt), (raw + 16, 0x200), (raw + 24, descriptor)]

/-- Both blocks, before the fields. -/
def allocate (w : Witnesses) (m : Memory) (descriptor vwt raw : Address) : Memory :=
  (((m.calloc vwt 256).writeWords (vwtWords w vwt)).calloc raw 512).writeWords
    (metadataWords descriptor vwt raw)

def kind (m : Memory) (descriptor : Address) : BitVec 32 := m.readU32 descriptor &&& 0x1F

/-- The pointer to the fields is relative. -/
def fieldsAddr (m : Memory) (descriptor : Address) : Address :=
  descriptor + 16 + (m.readU32 (descriptor + 16)).signExtend 64

def numFields (m : Memory) (descriptor : Address) : BitVec 32 :=
  m.readU32 (fieldsAddr m descriptor + 12)

def fovOffset (m : Memory) (descriptor : Address) : BitVec 32 := m.readU32 (descriptor + 20)

/-- Where the offset of field `i` is. -/
def fieldEntry (metadata : Address) (fov i : Nat) : Address :=
  metadata + BitVec.ofNat 64 (4 * (2 * fov + i))

/-- The offset grows by 8 a field. -/
def populate (m : Memory) (metadata : Address) (fov : Nat) : Nat → Memory
  | 0 => m
  | fi + 1 =>
    (populate m metadata fov fi).writeU32 (fieldEntry metadata fov fi) (BitVec.ofNat 32 (8 * fi))

/-- The product is of 32 bits. -/
def totalSize (numFields : BitVec 32) : Word := (numFields * 8).setWidth 64

def isStruct (m : Memory) (descriptor : Address) : Prop :=
  kind m descriptor = 17 ∧ 0x100000000 < fieldsAddr m descriptor ∧ 0 < fovOffset m descriptor ∧
    fovOffset m descriptor < 100

instance (m : Memory) (descriptor : Address) : Decidable (isStruct m descriptor) :=
  inferInstanceAs (Decidable (_ ∧ _ ∧ _ ∧ _))

def fillFields (m : Memory) (descriptor vwt metadata : Address) : Memory :=
  if isStruct m descriptor then
    (populate m metadata (fovOffset m descriptor).toNat
      (min (numFields m descriptor).toNat 16)).writeWords
      [(vwt + 64, totalSize (numFields m descriptor)),
        (vwt + 72, totalSize (numFields m descriptor))]
  else m

structure Runtime where
  memory : Memory
  cache : Address → Option Address

/-- `vwt` and `raw` are what the allocator gives, if it is asked. -/
def swiftGetSingletonMetadata (w : Witnesses) (r : Runtime) (descriptor vwt raw : Address) :
    Runtime × Address :=
  match r.cache descriptor with
  | some ptr => (r, ptr)
  | none =>
    (⟨fillFields (allocate w r.memory descriptor vwt raw) descriptor vwt (raw + 16),
      insertAt r.cache descriptor (raw + 16)⟩, raw + 16)

/-! ### What is to be there -/

/-- The descriptor of a struct with `n` fields, whose offsets go to word `fov`. -/
structure Describes (m : Memory) (descriptor : Address) (n fov : Nat) : Prop where
  accepted : isStruct m descriptor
  fields : (numFields m descriptor).toNat = n
  vector : (fovOffset m descriptor).toNat = fov

/-- The allocator gives blocks that are apart, and not where the descriptor is. -/
structure Blocks (m : Memory) (descriptor vwt raw : Address) : Prop where
  apart : ∀ x, Within vwt 256 x → ¬Within raw 512 x
  offDescriptor : ∀ x, Within descriptor 24 x → ¬Within vwt 256 x ∧ ¬Within raw 512 x
  offFields : ∀ x, Within (fieldsAddr m descriptor + 12) 4 x → ¬Within vwt 256 x ∧ ¬Within raw 512 x

def fieldOffset (m : Memory) (raw : Address) (fov i : Nat) : Nat :=
  (m.readU32 (fieldEntry (raw + 16) fov i)).toNat

/-- Every field has its own 8 bytes, in the size that is recorded, and its offset is in the
block. -/
structure FieldsPlaced (m : Memory) (vwt raw : Address) (n fov : Nat) : Prop where
  inside : ∀ i < n, ∀ x, Within (fieldEntry (raw + 16) fov i) 4 x → Within raw 512 x
  sized : ∀ i < n, fieldOffset m raw fov i + 8 ≤ (m.readWord (vwt + 64)).toNat
  apart : ∀ i < n, ∀ j < n, i ≠ j → fieldOffset m raw fov i + 8 ≤ fieldOffset m raw fov j ∨
    fieldOffset m raw fov j + 8 ≤ fieldOffset m raw fov i
  /-- No overflow. -/
  exact : n * 8 < 2 ^ 32

/-! ### The blocks -/

section Blocks
variable {w : Witnesses} {m : Memory} {descriptor vwt raw : Address}

theorem vwtWords_off {x : Address} (hx : ¬Within vwt 256 x) :
    ∀ store ∈ vwtWords w vwt, 8 ≤ (x - store.1).toNat := by
  simp only [Within] at hx
  simp only [vwtWords, List.forall_mem_cons, List.not_mem_nil, false_implies, implies_true, and_true]
  refine ⟨?_, ?_, ?_, ?_, ?_, ?_, ?_, ?_, ?_, ?_, ?_, ?_⟩ <;> bv_omega

theorem metadataWords_off {x : Address} (hx : ¬Within raw 32 x) :
    ∀ store ∈ metadataWords descriptor vwt raw, 8 ≤ (x - store.1).toNat := by
  simp only [Within] at hx
  simp only [metadataWords, List.forall_mem_cons, List.not_mem_nil, false_implies, implies_true,
    and_true]
  refine ⟨?_, ?_, ?_⟩ <;> bv_omega

/-- Only the blocks are written. -/
theorem allocate_off {x : Address} (hvwt : ¬Within vwt 256 x) (hraw : ¬Within raw 512 x) :
    allocate w m descriptor vwt raw x = m x := by
  have hheader : ¬Within raw 32 x := fun hin => hraw (Nat.lt_of_lt_of_le hin (by decide))
  rw [allocate, writeWords_outside (metadataWords_off hheader), calloc_off hraw,
    writeWords_outside (vwtWords_off hvwt), calloc_off hvwt]

/-- After its header the block is zero. -/
theorem allocate_zero {x : Address} (hraw : Within raw 512 x) (hheader : ¬Within raw 32 x) :
    allocate w m descriptor vwt raw x = 0 := by
  rw [allocate, writeWords_outside (metadataWords_off hheader)]
  exact if_pos hraw

/-- The descriptor is read as it was before. -/
theorem describes_allocate {n fov : Nat} (h : Describes m descriptor n fov)
    (hblocks : Blocks m descriptor vwt raw) :
    Describes (allocate w m descriptor vwt raw) descriptor n fov := by
  have hsame (a : Address) (ha : ∀ x, Within a 4 x → Within descriptor 24 x) :
      (allocate w m descriptor vwt raw).readU32 a = m.readU32 a := by
    refine readU32_congr fun x hx => ?_
    obtain ⟨hvwt, hraw⟩ := hblocks.offDescriptor x (ha x hx)
    exact allocate_off hvwt hraw
  have hflags := hsame descriptor fun x hx => Nat.lt_of_lt_of_le hx (by decide)
  have hrel := hsame (descriptor + 16) fun x hx => by
    simp only [Within] at hx ⊢
    bv_omega
  have hvector : fovOffset (allocate w m descriptor vwt raw) descriptor = fovOffset m descriptor :=
    hsame (descriptor + 20) fun x hx => by
      simp only [Within] at hx ⊢
      bv_omega
  have hkind : kind (allocate w m descriptor vwt raw) descriptor = kind m descriptor := by
    rw [kind, kind, hflags]
  have haddr : fieldsAddr (allocate w m descriptor vwt raw) descriptor = fieldsAddr m descriptor := by
    rw [fieldsAddr, fieldsAddr, hrel]
  have hfields : numFields (allocate w m descriptor vwt raw) descriptor = numFields m descriptor := by
    rw [numFields, numFields, haddr]
    refine readU32_congr fun x hx => ?_
    obtain ⟨hvwt, hraw⟩ := hblocks.offFields x hx
    exact allocate_off hvwt hraw
  refine ⟨?_, ?_, ?_⟩
  · rw [isStruct, hkind, haddr, hvector]
    exact h.accepted
  · rw [hfields]
    exact h.fields
  · rw [hvector]
    exact h.vector

end Blocks

/-! ### The offsets -/

section Offsets
variable {m : Memory} {metadata : Address} {fov : Nat}

/-- Entries do not overlap. -/
theorem entries_apart {i j : Nat} (hne : i ≠ j) (hi : i < 2 ^ 32) (hj : j < 2 ^ 32) {x : Address}
    (hx : Within (fieldEntry metadata fov i) 4 x) :
    ¬Within (fieldEntry metadata fov j) 4 x := by
  intro hx'
  simp only [Within, fieldEntry] at hx hx'
  bv_omega

/-- What was written is there, and what was not is as before. -/
theorem readU32_populate {k i : Nat} (hk : k ≤ 16) (hi : i < 2 ^ 32) :
    (populate m metadata fov k).readU32 (fieldEntry metadata fov i) =
      if i < k then BitVec.ofNat 32 (8 * i) else m.readU32 (fieldEntry metadata fov i) := by
  induction k with
  | zero => rfl
  | succ k ih =>
    rw [populate]
    by_cases hik : i = k
    · subst hik
      rw [readU32_writeU32, if_pos (Nat.lt_succ_self i)]
    · have hother : ((populate m metadata fov k).writeU32 (fieldEntry metadata fov k)
          (BitVec.ofNat 32 (8 * k))).readU32 (fieldEntry metadata fov i) =
          (populate m metadata fov k).readU32 (fieldEntry metadata fov i) :=
        readU32_congr fun x hx => writeU32_off (entries_apart hik hi (by omega) hx)
      rw [hother, ih (by omega)]
      exact if_congr (by omega) rfl rfl

/-- The entry is in the block, by numbers. -/
theorem inside_iff (raw : Address) {i : Nat} (hi : i < 2 ^ 32) (hfov : fov < 100) :
    (∀ x, Within (fieldEntry (raw + 16) fov i) 4 x → Within raw 512 x) ↔
      20 + 8 * fov + 4 * i ≤ 512 := by
  constructor
  · intro h
    have hlast := h (fieldEntry (raw + 16) fov i + 3)
    simp only [Within, fieldEntry] at hlast
    bv_omega
  · intro h x hx
    simp only [Within, fieldEntry] at hx ⊢
    bv_omega

end Offsets

/-! ### The metadata -/

section Built
variable {w : Witnesses} {m : Memory} {descriptor vwt raw : Address} {n fov : Nat}

theorem Describes.bounds (h : Describes m descriptor n fov) : 0 < fov ∧ fov < 100 ∧ n < 2 ^ 32 := by
  obtain ⟨-, -, hpos, hlt⟩ := h.accepted
  have hn := (numFields m descriptor).isLt
  rw [← h.vector, ← h.fields]
  refine ⟨?_, ?_, hn⟩ <;> bv_omega

theorem fillFields_eq (h : Describes m descriptor n fov) : fillFields m descriptor vwt (raw + 16) =
    (populate m (raw + 16) fov (min n 16)).writeWords
      [(vwt + 64, totalSize (BitVec.ofNat 32 n)), (vwt + 72, totalSize (BitVec.ofNat 32 n))] := by
  have hnumber : numFields m descriptor = BitVec.ofNat 32 n := by
    rw [← h.fields, BitVec.ofNat_toNat, BitVec.setWidth_eq]
  rw [fillFields, if_pos h.accepted, h.vector, h.fields, hnumber]

theorem toNat_totalSize : (totalSize (BitVec.ofNat 32 n)).toNat = n * 8 % 2 ^ 32 := by
  rw [totalSize, BitVec.toNat_setWidth, BitVec.toNat_mul, BitVec.toNat_ofNat]
  show n % 2 ^ 32 * 8 % 2 ^ 32 % 2 ^ 64 = _
  omega

theorem size_built (h : Describes m descriptor n fov) (vwt raw : Address) :
    ((fillFields m descriptor vwt (raw + 16)).readWord (vwt + 64)).toNat = n * 8 % 2 ^ 32 := by
  have hapart : Apart (vwt + 64) (vwt + 72) := by
    constructor <;> bv_omega
  have hpairwise : [(vwt + 64, totalSize (BitVec.ofNat 32 n)),
      (vwt + 72, totalSize (BitVec.ofNat 32 n))].Pairwise fun s s' => Apart s.1 s'.1 :=
    List.pairwise_pair.mpr hapart
  have hread := readWord_writeWords (m := populate m (raw + 16) fov (min n 16)) hpairwise
    List.mem_cons_self
  rw [fillFields_eq h, hread, toNat_totalSize]

/-- The offset of a field with its entry in the block. -/
theorem fieldOffset_built (h : Describes m descriptor n fov) (hblocks : Blocks m descriptor vwt raw)
    {i : Nat} (hin : 20 + 8 * fov + 4 * i ≤ 512) (hi : i < n ∨ 16 ≤ i) :
    fieldOffset (fillFields (allocate w m descriptor vwt raw) descriptor vwt (raw + 16)) raw fov i =
      if i < min n 16 then 8 * i else 0 := by
  obtain ⟨hpos, hfov, -⟩ := h.bounds
  have hsmall : i < 2 ^ 32 := by
    omega
  have hwindow := (inside_iff raw hsmall hfov).mpr hin
  rw [fieldOffset, fillFields_eq (describes_allocate h hblocks)]
  -- the sizes are in the other block
  have hsizes (m : Memory) (v : Word) :
      (m.writeWords [(vwt + 64, v), (vwt + 72, v)]).readU32 (fieldEntry (raw + 16) fov i) =
        m.readU32 (fieldEntry (raw + 16) fov i) := by
    refine readU32_congr fun x hx => ?_
    have hvwt : ¬Within vwt 256 x := fun hx' => hblocks.apart x hx' (hwindow x hx)
    simp only [Within] at hvwt
    refine writeWords_outside ?_
    simp only [List.forall_mem_cons, List.not_mem_nil, false_implies, implies_true, and_true]
    constructor <;> bv_omega
  rw [hsizes, readU32_populate (Nat.min_le_right n 16) hsmall]
  by_cases hwritten : i < min n 16
  · rw [if_pos hwritten, if_pos hwritten, BitVec.toNat_ofNat]
    omega
  · rw [if_neg hwritten, if_neg hwritten]
    have hzero : (allocate w m descriptor vwt raw).readU32 (fieldEntry (raw + 16) fov i) =
        Memory.readU32 (fun _ => 0) (fieldEntry (raw + 16) fov i) := by
      refine readU32_congr fun x hx => allocate_zero (hwindow x hx) fun hheader => ?_
      simp only [Within, fieldEntry] at hx hheader
      bv_omega
    rw [hzero]
    rfl

/-- All fields have their place exactly when there are at most 16, and none or the block has room
for their offsets. -/
theorem fieldsPlaced_iff {r : Runtime} (hnew : r.cache descriptor = none)
    (h : Describes r.memory descriptor n fov) (hblocks : Blocks r.memory descriptor vwt raw) :
    FieldsPlaced (swiftGetSingletonMetadata w r descriptor vwt raw).1.memory vwt raw n fov ↔
      n ≤ 16 ∧ (n = 0 ∨ 16 + 8 * fov + 4 * n ≤ 512) := by
  obtain ⟨hpos, hfov, hn⟩ := h.bounds
  have hmemory : (swiftGetSingletonMetadata w r descriptor vwt raw).1.memory =
      fillFields (allocate w r.memory descriptor vwt raw) descriptor vwt (raw + 16) := by
    rw [swiftGetSingletonMetadata, hnew]
  have hoffset (i : Nat) (hi : i < n ∨ 16 ≤ i) (hin : 20 + 8 * fov + 4 * i ≤ 512) :=
    fieldOffset_built (w := w) h hblocks hin hi
  have hsize := size_built (describes_allocate (w := w) h hblocks) vwt raw
  rw [hmemory]
  constructor
  · intro hplaced
    have hentry (i : Nat) (hi : i < n) : 20 + 8 * fov + 4 * i ≤ 512 :=
      (inside_iff raw (by omega) hfov).mp (hplaced.inside i hi)
    by_cases hmany : n ≤ 16
    · refine ⟨hmany, ?_⟩
      rcases Nat.eq_zero_or_pos n with hzero | hsome
      · exact .inl hzero
      · have hlast := hentry (n - 1) (by omega)
        omega
    · -- the offset of field 16 is that of field 0
      have hcollide := hplaced.apart 0 (by omega) 16 (by omega) (by decide)
      rw [hoffset 0 (by omega) (hentry 0 (by omega)), hoffset 16 (by omega) (hentry 16 (by omega)),
        if_pos (by omega), if_neg (by omega)] at hcollide
      omega
  · rintro ⟨hmany, hroom⟩
    have hentry (i : Nat) (hi : i < n) : 20 + 8 * fov + 4 * i ≤ 512 := by
      omega
    have height (i : Nat) (hi : i < n) := (hoffset i (.inl hi) (hentry i hi)).trans
      (if_pos (by omega : i < min n 16))
    refine ⟨fun i hi => (inside_iff raw (by omega) hfov).mpr (hentry i hi), fun i hi => ?_,
      fun i hi j hj hne => ?_, by omega⟩
    · rw [height i hi, hsize]
      omega
    · rw [height i hi, height j hj]
      omega

end Built

/-! ### Two structs -/

/-- The descriptor of a struct at `0x100001000`, with its offsets from word 2 on. -/
def structAt (numFields : BitVec 32) : Memory :=
  (((Memory.writeU32 (fun _ => 0) 0x100001000 17).writeU32 0x100001010 0x100).writeU32
    0x100001014 2).writeU32 0x10000111c numFields

def someWitnesses : Witnesses := ⟨0x7000, 0x7100, 0x7200, 0x7300⟩

def noCache (m : Memory) : Runtime := ⟨m, fun _ => none⟩

theorem describes_structAt {n : BitVec 32} (h : n = 3 ∨ n = 17) :
    Describes (structAt n) 0x100001000 n.toNat 2 := by
  rcases h with rfl | rfl
  · exact ⟨by decide +kernel, by decide +kernel, by decide +kernel⟩
  · exact ⟨by decide +kernel, by decide +kernel, by decide +kernel⟩

theorem blocks_structAt {n : BitVec 32} (h : n = 3 ∨ n = 17) :
    Blocks (structAt n) 0x100001000 0x5000 0x6000 := by
  have haddr : fieldsAddr (structAt n) 0x100001000 = 0x100001110 := by
    rcases h with rfl | rfl
    · decide +kernel
    · decide +kernel
  refine ⟨?_, ?_, ?_⟩
  · intro x hx
    simp only [Within] at hx ⊢
    bv_omega
  · intro x hx
    simp only [Within] at hx ⊢
    constructor <;> bv_omega
  · intro x hx
    rw [haddr] at hx
    simp only [Within] at hx ⊢
    constructor <;> bv_omega

theorem fieldsPlaced_three : FieldsPlaced (swiftGetSingletonMetadata someWitnesses
    (noCache (structAt 3)) 0x100001000 0x5000 0x6000).1.memory 0x5000 0x6000 3 2 :=
  (fieldsPlaced_iff rfl (describes_structAt (.inl rfl)) (blocks_structAt (.inl rfl))).mpr (by decide)

/-- Of 17 fields the last is where the first is. -/
theorem seventeen_collide : ¬FieldsPlaced (swiftGetSingletonMetadata someWitnesses
    (noCache (structAt 17)) 0x100001000 0x5000 0x6000).1.memory 0x5000 0x6000 17 2 := by
  intro hplaced
  have hdescribes := describes_structAt (.inr rfl)
  have hblocks := blocks_structAt (.inr rfl)
  have hfirst := fieldOffset_built (w := someWitnesses) hdescribes hblocks (i := 0) (by decide)
    (by decide)
  have hlast := fieldOffset_built (w := someWitnesses) hdescribes hblocks (i := 16) (by decide)
    (by decide)
  have hcollide := hplaced.apart 0 (by decide) 16 (by decide) (by decide)
  rw [swiftGetSingletonMetadata] at hcollide
  simp only [noCache, hfirst, hlast] at hcollide
  exact absurd hcollide (by decide)

end Grafted.Swift.SingletonMetadata
