import Mathlib.Tactic.IntervalCases
import Grafted.Base.ByteRanges
import Grafted.Base.Slides

/-! Class metadata, moved from the layout of Darwin to that of Linux.

A record is translated by moving 40 bytes of it down by 24. The test for a record reads what is
not moved, so it does not tell whether that was done, and a record that is translated again is
moved again. As long as no test reads a byte that is moved, once is what was meant and
twice is as once exactly when the bytes in question are level (`translatedOnce_iff`). -/
namespace Grafted.Swift.ClassMetadata
open ByteMemory Memory
open X86 (Within readWord_within)

/-- A section of the binary, as far as it is read here. -/
structure Section where
  name : String
  addr : Word
  size : Word

/-! ### Records -/

/-- `ptr::copy` from the Darwin offsets to the Linux offsets. -/
def translateRecord (m : Memory) (record : Address) : Memory := m.move (record + 16) (record + 40) 40

/-- The description pointer, at the Darwin offset. -/
def descVal (m : Memory) (cls : Address) : Word := m.readWord (cls + 64)

/-- The lowest bits of the flags. -/
def kind (m : Memory) (descriptor : Address) : BitVec 32 := m.readU32 descriptor &&& 0x1F

/-- The address and the descriptor look like those of a Swift class. -/
def isClass (m : Memory) (cls : Address) : Prop :=
  0x1000 ≤ cls ∧ 0x100000000 ≤ descVal m cls ∧ descVal m cls ≤ 0x200000000 ∧
    kind m (descVal m cls) = 16

instance (m : Memory) (cls : Address) : Decidable (isClass m cls) :=
  inferInstanceAs (Decidable (_ ∧ _ ∧ _ ∧ _))

def isMetaclass (m : Memory) (isa : Address) : Prop :=
  (0x100000000 < isa ∧ isa < 0x200000000) ∧
    0x100000000 ≤ descVal m isa ∧ descVal m isa < 0x200000000

instance (m : Memory) (isa : Address) : Decidable (isMetaclass m isa) :=
  inferInstanceAs (Decidable ((_ ∧ _) ∧ _ ∧ _))

def fixMetaclass (m : Memory) (isa : Address) : Memory :=
  if isMetaclass m isa then translateRecord m isa else m

/-- The metaclass is looked for after the class is moved. -/
def fixObjcClassPrefix (m : Memory) (cls : Address) : Memory × Bool :=
  if isClass m cls then
    (fixMetaclass (translateRecord m cls) ((translateRecord m cls).readWord cls), true)
  else (m, false)

/-- A turn of the loop over the class list. -/
def fixEntry (m : Memory) (entry : Address) : Memory :=
  if m.readWord entry = 0 then m else (fixObjcClassPrefix m (m.readWord entry)).1

/-- Where the entries of the class lists are. -/
def classlist (slide : Word) (sections : List Section) : List Address :=
  sections.flatMap fun s =>
    if s.name = "__objc_classlist" then
      (List.range (s.size.toNat / 8)).map fun i => s.addr + slide + BitVec.ofNat 64 (8 * i)
    else []

/-- The other sections are read at most. -/
def translateSwiftMetadata (slide : Word) (sections : List Section) (m : Memory) : Memory :=
  (classlist slide sections).foldl fixEntry m

/-! ### What it is to do -/

/-- The metaclass of a record, where it is one of Swift. -/
def metaclassAt (m : Memory) (cls : Address) : List Address :=
  if isMetaclass m (m.readWord cls) then [m.readWord cls] else []

/-- The records of an entry. -/
def recordsAt (m : Memory) (entry : Address) : List Address :=
  if m.readWord entry ≠ 0 ∧ isClass m (m.readWord entry) then
    m.readWord entry :: metaclassAt m (m.readWord entry)
  else []

def records (m : Memory) (entries : List Address) : List Address := entries.flatMap (recordsAt m)

/-- The bytes at the Linux offsets of a record. -/
def linuxFields (record x : Address) : Prop := Within (record + 16) 40 x

instance (record x : Address) : Decidable (linuxFields record x) :=
  inferInstanceAs (Decidable (Within _ _ _))

/-- The byte is at a Linux offset of some record. -/
def Moved (m : Memory) (entries : List Address) (x : Address) : Prop :=
  ∃ record ∈ records m entries, linuxFields record x

/-- Every record is translated, once, and nothing else is changed. -/
structure TranslatedOnce (slide : Word) (sections : List Section) (m : Memory) : Prop where
  fields : ∀ record ∈ records m (classlist slide sections), ∀ o, 40 ≤ o → o < 80 →
    translateSwiftMetadata slide sections m (record + BitVec.ofNat 64 (o - 24)) =
      m (record + BitVec.ofNat 64 o)
  others : ∀ x, ¬Moved m (classlist slide sections) x → translateSwiftMetadata slide sections m x = m x
  again : translateSwiftMetadata slide sections (translateSwiftMetadata slide sections m) =
    translateSwiftMetadata slide sections m

/-- The records do not depend on the bytes that are moved. -/
def Steady (m : Memory) (entries : List Address) : Prop :=
  ∀ m' : Memory, (∀ x, ¬Moved m entries x → m' x = m x) →
    ∀ entry ∈ entries, recordsAt m' entry = recordsAt m entry

/-! ### Moves as slides -/

def next (x : Address) : Address := x + 24

theorem translateRecord_eq (m : Memory) (record : Address) :
    translateRecord m record = Slides.slide next linuxFields m record := by
  funext x
  have hmove := move_apply m (record + 16) (record + 40) (by decide : 40 ≤ 2 ^ 64) x
  have hslide : Slides.slide next linuxFields m record x =
      if linuxFields record x then m (next x) else m x := rfl
  by_cases hx : linuxFields record x
  · have hsource : record + 40 + BitVec.ofNat 64 (x - (record + 16)).toNat = next x := by
      rw [BitVec.ofNat_toNat, BitVec.setWidth_eq, next]
      bv_omega
    rw [hslide, if_pos hx, ← hsource]
    exact hmove.trans (if_pos hx)
  · rw [hslide, if_neg hx]
    exact hmove.trans (if_neg hx)

theorem translateRecord_off {m : Memory} {record x : Address} (hx : ¬linuxFields record x) :
    translateRecord m record x = m x := by
  rw [translateRecord_eq]
  exact if_neg hx

theorem foldl_translateRecord (m : Memory) (rs : List Address) :
    rs.foldl translateRecord m = Slides.slideAll next linuxFields m rs := by
  induction rs generalizing m with
  | nil => rfl
  | cons record rest ih =>
    rw [List.foldl_cons, ih, translateRecord_eq]
    rfl

theorem iterate_next (n : Nat) (x : Address) : next^[n] x = x + BitVec.ofNat 64 (24 * n) := by
  induction n with
  | zero => exact (BitVec.add_zero x).symm
  | succ n ih =>
    rw [Function.iterate_succ_apply', ih, next, Nat.mul_succ, BitVec.ofNat_add, BitVec.add_assoc]
    rfl

/-- No record is below the first page, so going on from anywhere leaves them. -/
theorem leaves {rs : List Address} (h : ∀ record ∈ rs, 0x1000 ≤ record.toNat) :
    Slides.Leaves next linuxFields rs := by
  intro x
  have hx := x.isLt
  refine ⟨(2 ^ 64 - x.toNat + 87) / 24, ?_⟩
  rw [iterate_next]
  generalize hy : x + BitVec.ofNat 64 (24 * ((2 ^ 64 - x.toNat + 87) / 24)) = y
  have hlow : 64 ≤ y.toNat ∧ y.toNat < 88 := by
    rw [← hy, BitVec.toNat_add, BitVec.toNat_ofNat]
    omega
  rintro ⟨record, hrecord, hin⟩
  have hpage := h record hrecord
  simp only [linuxFields, Within] at hin
  bv_omega

/-! ### A run -/

/-- Of an entry with records, the first is the class and the others its metaclass. -/
theorem metaclassAt_of_recordsAt {m : Memory} {entry cls : Address} {rest : List Address}
    (h : recordsAt m entry = cls :: rest) : metaclassAt m cls = rest := by
  by_cases hclass : m.readWord entry ≠ 0 ∧ isClass m (m.readWord entry)
  · rw [recordsAt, if_pos hclass] at h
    obtain ⟨rfl, hrest⟩ := List.cons.inj h
    exact hrest
  · rw [recordsAt, if_neg hclass] at h
    exact nomatch h

theorem recordsAt_page {m : Memory} {entry record : Address} (h : record ∈ recordsAt m entry) :
    0x1000 ≤ record.toNat := by
  unfold recordsAt at h
  split_ifs at h with hclass
  · rcases List.mem_cons.mp h with rfl | hmeta
    · exact hclass.2.1
    · unfold metaclassAt at hmeta
      split_ifs at hmeta with hisa
      · obtain rfl := List.mem_singleton.mp hmeta
        have hlow := hisa.1.1
        bv_omega
      · exact nomatch hmeta
  · exact nomatch h

theorem fixMetaclass_eq (m : Memory) (cls : Address) :
    fixMetaclass m (m.readWord cls) = (metaclassAt m cls).foldl translateRecord m := by
  by_cases h : isMetaclass m (m.readWord cls)
  · have hone : metaclassAt m cls = [m.readWord cls] := if_pos h
    rw [fixMetaclass, if_pos h, hone, List.foldl_cons, List.foldl_nil]
  · have hnone : metaclassAt m cls = [] := if_neg h
    rw [fixMetaclass, if_neg h, hnone, List.foldl_nil]

theorem fixObjcClassPrefix_class {m : Memory} {cls : Address} (h : isClass m cls) :
    (fixObjcClassPrefix m cls).1 =
      (metaclassAt (translateRecord m cls) cls).foldl translateRecord (translateRecord m cls) := by
  rw [fixObjcClassPrefix, if_pos h]
  dsimp only
  exact fixMetaclass_eq (translateRecord m cls) cls

section Run
variable {m : Memory} {entries : List Address}

/-- Only bytes that are moved differ. -/
def Agrees (m : Memory) (entries : List Address) (m' : Memory) : Prop :=
  ∀ x, ¬Moved m entries x → m' x = m x

theorem Agrees.translateRecord {m' : Memory} (h : Agrees m entries m') {record : Address}
    (hrecord : record ∈ records m entries) : Agrees m entries (translateRecord m' record) := by
  intro x hx
  rw [translateRecord_off fun hin => hx ⟨record, hrecord, hin⟩]
  exact h x hx

theorem Agrees.foldl {m' : Memory} (h : Agrees m entries m') {rs : List Address}
    (hrs : ∀ record ∈ rs, record ∈ records m entries) :
    Agrees m entries (rs.foldl ClassMetadata.translateRecord m') := by
  induction rs generalizing m' with
  | nil => exact h
  | cons record rest ih =>
    exact ih (h.translateRecord (hrs record List.mem_cons_self))
      fun record' hmem => hrs record' (List.mem_cons_of_mem record hmem)

theorem mem_records {entry record : Address} (hentry : entry ∈ entries)
    (h : record ∈ recordsAt m entry) : record ∈ records m entries :=
  List.mem_flatMap.mpr ⟨entry, hentry, h⟩

/-- The turn of an entry moves the records that the entry had in the beginning. -/
theorem fixEntry_eq (hsteady : Steady m entries) {m' : Memory} (h : Agrees m entries m')
    {entry : Address} (hentry : entry ∈ entries) :
    fixEntry m' entry = (recordsAt m entry).foldl translateRecord m' := by
  have hthis := hsteady m' h entry hentry
  by_cases hnull : m'.readWord entry = 0
  · have hnone : recordsAt m' entry = [] := if_neg fun hboth => hboth.1 hnull
    rw [← hthis, hnone, fixEntry, if_pos hnull, List.foldl_nil]
  · by_cases hclass : isClass m' (m'.readWord entry)
    · have hrecords : recordsAt m' entry =
          m'.readWord entry :: metaclassAt m' (m'.readWord entry) := if_pos ⟨hnull, hclass⟩
      have hcls : m'.readWord entry ∈ records m entries := by
        refine mem_records hentry ?_
        rw [← hthis, hrecords]
        exact List.mem_cons_self
      -- after the class is moved the entry still has the same records
      have hmoved := hsteady _ (h.translateRecord hcls) entry hentry
      rw [← hthis, hrecords] at hmoved
      have hmeta := metaclassAt_of_recordsAt hmoved
      rw [fixEntry, if_neg hnull, fixObjcClassPrefix_class hclass, ← hthis, hrecords, hmeta,
        List.foldl_cons]
    · have hnone : recordsAt m' entry = [] := if_neg fun hboth => hclass hboth.2
      rw [← hthis, hnone, fixEntry, if_neg hnull, fixObjcClassPrefix, if_neg hclass, List.foldl_nil]

theorem foldl_fixEntry (hsteady : Steady m entries) {m' : Memory} (h : Agrees m entries m')
    {es : List Address} (hes : ∀ entry ∈ es, entry ∈ entries) :
    es.foldl fixEntry m' = (records m es).foldl translateRecord m' := by
  induction es generalizing m' with
  | nil => rw [records, List.flatMap_nil, List.foldl_nil, List.foldl_nil]
  | cons entry rest ih =>
    have hentry := hes entry List.mem_cons_self
    have hfirst : ∀ record ∈ recordsAt m entry, record ∈ records m entries :=
      fun record hrecord => mem_records hentry hrecord
    rw [List.foldl_cons, fixEntry_eq hsteady h hentry,
      ih (h.foldl hfirst) fun entry' hmem => hes entry' (List.mem_cons_of_mem entry hmem)]
    rw [records, records, List.flatMap_cons, List.foldl_append]

/-- From a memory that differs only in bytes that are moved, the translation is the slides
at the records of the first. -/
theorem run_eq (hsteady : Steady m entries) {m' : Memory} (h : Agrees m entries m') :
    entries.foldl fixEntry m' = Slides.slideAll next linuxFields m' (records m entries) := by
  rw [foldl_fixEntry hsteady h fun _ hentry => hentry]
  exact foldl_translateRecord m' (records m entries)

theorem agrees_run (hsteady : Steady m entries) : Agrees m entries (entries.foldl fixEntry m) := by
  have hsame : Agrees m entries m := fun _ _ => rfl
  rw [foldl_fixEntry hsteady hsame fun _ hentry => hentry]
  exact hsame.foldl fun _ hrecord => hrecord

end Run

/-! ### Once and twice -/

/-- The fields at the Linux offsets, byte by byte, are a slide. -/
theorem fields_iff (m g : Memory) (rs : List Address) :
    (∀ record ∈ rs, ∀ o, 40 ≤ o → o < 80 →
      g (record + BitVec.ofNat 64 (o - 24)) = m (record + BitVec.ofNat 64 o)) ↔
    ∀ x, Slides.Covered linuxFields rs x → g x = m (next x) := by
  constructor
  · rintro h x ⟨record, hrecord, hin⟩
    have hfield := h record hrecord ((x - (record + 16)).toNat + 40) (Nat.le_add_left 40 _)
      (Nat.add_lt_add_right hin 40)
    generalize hk : (x - (record + 16)).toNat = k at hfield
    have hdst : record + BitVec.ofNat 64 (k + 40 - 24) = x := by
      bv_omega
    have hsrc : record + BitVec.ofNat 64 (k + 40) = next x := by
      rw [next]
      bv_omega
    rw [hdst, hsrc] at hfield
    exact hfield
  · intro h record hrecord o hlo hhi
    have hin : linuxFields record (record + BitVec.ofNat 64 (o - 24)) := by
      simp only [linuxFields, Within]
      bv_omega
    have hsrc : next (record + BitVec.ofNat 64 (o - 24)) = record + BitVec.ofNat 64 o := by
      rw [next]
      bv_omega
    rw [← hsrc]
    exact h _ ⟨record, hrecord, hin⟩

theorem translatedOnce_slides {slide : Word} {sections : List Section} {m : Memory}
    (hsteady : Steady m (classlist slide sections)) :
    TranslatedOnce slide sections m ↔
      Slides.Slid next linuxFields m (records m (classlist slide sections))
          (Slides.slideAll next linuxFields m (records m (classlist slide sections))) ∧
        Slides.slideAll next linuxFields
            (Slides.slideAll next linuxFields m (records m (classlist slide sections)))
            (records m (classlist slide sections)) =
          Slides.slideAll next linuxFields m (records m (classlist slide sections)) := by
  have honce : translateSwiftMetadata slide sections m =
      Slides.slideAll next linuxFields m (records m (classlist slide sections)) :=
    run_eq hsteady fun _ _ => rfl
  have htwice : translateSwiftMetadata slide sections (translateSwiftMetadata slide sections m) =
      Slides.slideAll next linuxFields (translateSwiftMetadata slide sections m)
        (records m (classlist slide sections)) := run_eq hsteady (agrees_run hsteady)
  constructor
  · rintro ⟨hfields, hothers, hagain⟩
    rw [htwice, honce] at hagain
    rw [honce] at hfields hothers
    exact ⟨⟨(fields_iff m _ _).mp hfields, hothers⟩, hagain⟩
  · rintro ⟨⟨hinside, houtside⟩, hagain⟩
    refine ⟨?_, ?_, ?_⟩
    · rw [honce]
      exact (fields_iff m _ _).mpr hinside
    · rw [honce]
      exact houtside
    · rw [htwice, honce]
      exact hagain

theorem page_records (m : Memory) (entries : List Address) :
    ∀ record ∈ records m entries, 0x1000 ≤ record.toNat := by
  intro record h
  obtain ⟨entry, -, hrecord⟩ := List.mem_flatMap.mp h
  exact recordsAt_page hrecord

/-- The bytes in question are level. -/
theorem translatedOnce_level_iff {slide : Word} {sections : List Section} {m : Memory}
    (hsteady : Steady m (classlist slide sections)) :
    TranslatedOnce slide sections m ↔
      Slides.Level next linuxFields m (records m (classlist slide sections)) :=
  (translatedOnce_slides hsteady).trans (Slides.slid_twice_iff (leaves (page_records m _)))

theorem next_next (x : Address) : next (next x) = x + 48 := BitVec.add_assoc x 24 24

/-- The records are translated once, by one application and by two, exactly when wherever a byte
and the one 24 after it are both moved to, the two bytes that are moved there are the same. -/
theorem translatedOnce_iff {slide : Word} {sections : List Section} {m : Memory}
    (hsteady : Steady m (classlist slide sections)) :
    TranslatedOnce slide sections m ↔
      ∀ x, Moved m (classlist slide sections) x → Moved m (classlist slide sections) (x + 24) →
        m (x + 48) = m (x + 24) := by
  rw [translatedOnce_level_iff hsteady]
  constructor
  · intro h x hx hnext
    rw [← next_next]
    exact h x hx hnext
  · intro h x hx hnext
    rw [next_next]
    exact h x hx hnext

/-! ### An image -/

/-- The bytes that the tests of an entry may read. -/
def Tested (m : Memory) (entry x : Address) : Prop :=
  Within entry 8 x ∨ Within (m.readWord entry) 8 x ∨ Within (m.readWord entry + 64) 8 x ∨
    Within (descVal m (m.readWord entry)) 4 x ∨
    Within (m.readWord (m.readWord entry) + 64) 8 x

/-- What is tested is not moved. -/
theorem steady_of_apart {m : Memory} {entries : List Address}
    (h : ∀ entry ∈ entries, ∀ x, Tested m entry x → ¬Moved m entries x) : Steady m entries := by
  intro m' hsame entry hentry
  have htested (x : Address) (hx : Tested m entry x) : m' x = m x := hsame x (h entry hentry x hx)
  have hcls : m'.readWord entry = m.readWord entry :=
    readWord_within fun x hx => htested x (.inl hx)
  have hisa : m'.readWord (m.readWord entry) = m.readWord (m.readWord entry) :=
    readWord_within fun x hx => htested x (.inr (.inl hx))
  have hdesc : descVal m' (m.readWord entry) = descVal m (m.readWord entry) :=
    readWord_within fun x hx => htested x (.inr (.inr (.inl hx)))
  have hkind : kind m' (descVal m (m.readWord entry)) = kind m (descVal m (m.readWord entry)) := by
    unfold kind
    rw [readU32_congr fun x hx => htested x (.inr (.inr (.inr (.inl hx))))]
  have hmeta : descVal m' (m.readWord (m.readWord entry)) =
      descVal m (m.readWord (m.readWord entry)) :=
    readWord_within fun x hx => htested x (.inr (.inr (.inr (.inr hx))))
  have hclass : isClass m' (m.readWord entry) ↔ isClass m (m.readWord entry) := by
    simp only [isClass, hdesc, hkind]
  have hismeta : isMetaclass m' (m.readWord (m.readWord entry)) ↔
      isMetaclass m (m.readWord (m.readWord entry)) := by
    simp only [isMetaclass, hmeta]
  have hmetas : metaclassAt m' (m.readWord entry) = metaclassAt m (m.readWord entry) := by
    unfold metaclassAt
    rw [hisa]
    exact if_congr hismeta rfl rfl
  unfold recordsAt
  rw [hcls, hmetas]
  exact if_congr (and_congr_right fun _ => hclass) rfl rfl

def oneClass : List Section := [⟨"__objc_classlist", 0x100003000, 8⟩]

/-- A class with its descriptor, and a word at the first of the Darwin offsets. -/
def imageWith (field : Word) : Memory :=
  (((Memory.writeWord (fun _ => 0) 0x100003000 0x100001000).writeWord 0x100001040
    0x100002000).writeWord 0x100002000 16).writeWord 0x100001028 field

theorem classlist_oneClass : classlist 0 oneClass = [0x100003000] := by
  simp [classlist, oneClass]

theorem records_imageWith {field : Word} (h : field = 0 ∨ field = 0x100002000) :
    records (imageWith field) [0x100003000] = [0x100001000] := by
  rcases h with rfl | rfl
  · decide +kernel
  · decide +kernel

theorem moved_imageWith {field : Word} (h : field = 0 ∨ field = 0x100002000) (x : Address) :
    Moved (imageWith field) [0x100003000] x ↔ Within 0x100001010 40 x := by
  unfold Moved
  rw [records_imageWith h]
  constructor
  · rintro ⟨record, hrecord, hin⟩
    obtain rfl := List.mem_singleton.mp hrecord
    exact hin
  · intro hin
    exact ⟨0x100001000, List.mem_singleton_self _, hin⟩

/-- What the tests read. -/
theorem words_imageWith {field : Word} (h : field = 0 ∨ field = 0x100002000) :
    (imageWith field).readWord 0x100003000 = 0x100001000 ∧
      (imageWith field).readWord 0x100001000 = 0 ∧
      descVal (imageWith field) 0x100001000 = 0x100002000 := by
  rcases h with rfl | rfl
  · decide +kernel
  · decide +kernel

theorem steady_imageWith {field : Word} (h : field = 0 ∨ field = 0x100002000) :
    Steady (imageWith field) (classlist 0 oneClass) := by
  rw [classlist_oneClass]
  refine steady_of_apart fun entry hentry x htested => ?_
  obtain rfl := List.mem_singleton.mp hentry
  obtain ⟨hcls, hisa, hdesc⟩ := words_imageWith h
  rw [moved_imageWith h]
  unfold Tested at htested
  rw [hcls, hisa, hdesc] at htested
  simp only [Within] at htested ⊢
  bv_omega

/-- The first Darwin fields are the bytes of the description pointer. -/
theorem translatedOnce_level : TranslatedOnce 0 oneClass (imageWith 0x100002000) := by
  refine (translatedOnce_iff (steady_imageWith (.inr rfl))).mpr fun x hx hnext => ?_
  rw [classlist_oneClass, moved_imageWith (.inr rfl)] at hx hnext
  obtain ⟨j, hj, rfl⟩ : ∃ j < 16, x = 0x100001010 + BitVec.ofNat 64 j := by
    refine ⟨(x - 0x100001010).toNat, ?_, (add_offset 0x100001010 x).symm⟩
    simp only [Within] at hx hnext
    bv_omega
  clear hx hnext
  interval_cases j <;> decide +kernel

/-- With other fields a second translation takes the description pointer for them. -/
theorem retranslated : ¬TranslatedOnce 0 oneClass (imageWith 0) := by
  intro h
  have hsteady := steady_imageWith (.inl rfl)
  have hlevel := (translatedOnce_level_iff hsteady).mp h 0x100001011
  rw [classlist_oneClass] at hlevel
  have hx := (moved_imageWith (.inl rfl) 0x100001011).mpr (by decide)
  have hnext := (moved_imageWith (.inl rfl) 0x100001029).mpr (by decide)
  exact absurd (hlevel hx hnext) (by decide +kernel)

end Grafted.Swift.ClassMetadata
