import Grafted.Cf.Strings

/-! NSString: the other view of a CFString.

The two views count, compare and hash each in their own way. `viewsAgree_iff` is where
they agree; `pointers_iff` is when a pointer to the content can be read as a C string, with
no terminator behind it. -/
namespace Grafted.Foundation.Strings
open ByteMemory Cf.Strings
open Utf16 (Ascii)
open X86 (readBytes readBytes_append length_readBytes)

/-! ### The functions -/

/-- `ns_string_length`, in bytes. -/
def nsStringLength (h : Heap) (self : Ref) : Nat :=
  if self = K_CF_NULL then 0
  else
    match h.deref self with
    | some cf => cf.bytes.length
    | none => 0

def nsStringUtf8 (h : Heap) (self : Ref) : Address :=
  if self = K_CF_NULL then 0
  else
    match h.deref self with
    | some cf => cf.asPtr
    | none => 0

def nsStringIsEqual (h : Heap) (self other : Ref) : Bool :=
  if self = K_CF_NULL ∨ other = K_CF_NULL then self == other
  else
    match h.deref self, h.deref other with
    | some s1, some s2 => s1.bytes == s2.bytes
    | _, _ => false

/-- The loop of `ns_string_hash`. -/
def fnv (bytes : List Byte) : BitVec 64 :=
  bytes.foldl (fun h b => (h ^^^ b.setWidth 64) * 1099511628211) 14695981039346656037

def nsStringHash (h : Heap) (self : Ref) : BitVec 64 :=
  if self = K_CF_NULL then 0
  else
    match h.deref self with
    | some cf => fnv cf.bytes
    | none => 0

/-! ### The two views -/

section Views
variable {h : Heap} {cf cf1 cf2 : Ref} {s s1 s2 : CFStringInner}

theorem nsStringLength_string (hs : h.IsString cf s) : nsStringLength h cf = s.bytes.length := by
  rw [nsStringLength, if_neg hs.nonNull, hs.deref]

theorem cfStringGetLength_string (hs : h.IsString cf s) :
    cfStringGetLength h cf = (Utf16.units s.bytes).length := by
  rw [cfStringGetLength, if_neg hs.nonNull, hs.deref, ← asStr_bytes s]

/-- Bytes are as many as UTF-16 code units in ASCII only. -/
theorem length_iff (hs : h.IsString cf s) :
    nsStringLength h cf = cfStringGetLength h cf ↔ Ascii s.bytes := by
  rw [nsStringLength_string hs, cfStringGetLength_string hs, eq_comm]
  exact Utf16.length_units_iff s.utf8

theorem nsStringIsEqual_iff (hs1 : h.IsString cf1 s1) (hs2 : h.IsString cf2 s2) :
    nsStringIsEqual h cf1 cf2 = true ↔ s1.bytes = s2.bytes := by
  have hnull : ¬(cf1 = K_CF_NULL ∨ cf2 = K_CF_NULL) := not_or.mpr ⟨hs1.nonNull, hs2.nonNull⟩
  rw [nsStringIsEqual, if_neg hnull, hs1.deref, hs2.deref]
  exact beq_iff_eq

theorem cfHash_string (hs : h.IsString cf s) : cfHash cf = cf := if_neg hs.nonNull

theorem nsStringHash_string (hs : h.IsString cf s) : nsStringHash h cf = fnv s.bytes := by
  rw [nsStringHash, if_neg hs.nonNull, hs.deref]

/-- What the two views of a pair of strings have in common. -/
structure ViewsAgree (h : Heap) (cf1 cf2 : Ref) : Prop where
  length1 : nsStringLength h cf1 = cfStringGetLength h cf1
  length2 : nsStringLength h cf2 = cfStringGetLength h cf2
  equal : nsStringIsEqual h cf1 cf2 = true ↔ cfEqual h cf1 cf2 = K_CF_BOOLEAN_TRUE
  hash : cfEqual h cf1 cf2 = K_CF_BOOLEAN_TRUE →
    cfHash cf1 = cfHash cf2 ∧ nsStringHash h cf1 = nsStringHash h cf2

/-- Equality is the same in both views. The lengths are in ASCII only, and `CFHash` tells
apart two objects with one content. -/
theorem viewsAgree_iff (hs1 : h.IsString cf1 s1) (hs2 : h.IsString cf2 s2) :
    ViewsAgree h cf1 cf2 ↔
      Ascii s1.bytes ∧ Ascii s2.bytes ∧ (cf1 = cf2 ∨ s1.bytes ≠ s2.bytes) := by
  have hequal := cfEqual_iff hs1 hs2
  constructor
  · intro hagree
    refine ⟨(length_iff hs1).mp hagree.length1, (length_iff hs2).mp hagree.length2, ?_⟩
    by_cases hbytes : s1.bytes = s2.bytes
    · have hhash := (hagree.hash (hequal.mpr hbytes)).1
      rw [cfHash_string hs1, cfHash_string hs2] at hhash
      exact .inl hhash
    · exact .inr hbytes
  · rintro ⟨hascii1, hascii2, hapart⟩
    refine ⟨(length_iff hs1).mpr hascii1, (length_iff hs2).mpr hascii2, ?_, fun htrue => ?_⟩
    · rw [nsStringIsEqual_iff hs1 hs2, hequal]
    · have hbytes := hequal.mp htrue
      have hsame : cf1 = cf2 := hapart.resolve_right (not_not_intro hbytes)
      rw [nsStringHash_string hs1, nsStringHash_string hs2, hbytes, hsame]
      exact ⟨rfl, rfl⟩

end Views

/-- `"ab"` and `"cd"`. -/
theorem viewsAgree_ascii :
    ViewsAgree ((oneString 0x2000 ⟨[0x61, 0x62], 0x3000, rfl⟩).into 0x2100
      (some ⟨[0x63, 0x64], 0x3100, rfl⟩)).1 0x2000 0x2100 := by
  have hfirst := oneString_isString (by decide : (0x2000 : Ref) ≠ K_CF_NULL)
    ⟨[0x61, 0x62], 0x3000, rfl⟩
  have hsecond := into_isString (oneString 0x2000 ⟨[0x61, 0x62], 0x3000, rfl⟩)
    (by decide : (0x2100 : Ref) ≠ K_CF_NULL) ⟨[0x63, 0x64], 0x3100, rfl⟩
  refine (viewsAgree_iff (hfirst.into (by decide) _) hsecond).mpr ⟨?_, ?_, by decide⟩
  · unfold Ascii
    decide
  · unfold Ascii
    decide

/-- `"é"` has two bytes and one code unit. -/
theorem accent_views : ¬ViewsAgree (oneString 0x2000 accent) 0x2000 0x2000 := by
  intro hagree
  have hlength := hagree.length1
  rw [nsStringLength_string accent_isString, cfStringGetLength_string accent_isString] at hlength
  exact absurd hlength (by decide)

/-! ### Pointers to the content -/

/-- Reading a C string ends within `n` bytes exactly when one of them is zero. -/
theorem readCString_isSome (m : Memory) (n : Nat) (a : Address) :
    (m.readCString n a).isSome ↔ 0 ∈ readBytes m a n := by
  induction n generalizing a with
  | zero => exact ⟨fun h => (nomatch h), fun h => (nomatch h)⟩
  | succ n ih =>
    rw [Memory.readCString, readBytes, List.mem_cons, ← ih (a + 1)]
    split_ifs with hzero
    · exact ⟨fun _ => .inl hzero.symm, fun _ => rfl⟩
    · rw [Option.isSome_map]
      exact ⟨.inr, fun hor => hor.resolve_left fun heq => hzero heq.symm⟩

/-- Reading the pointer as a C string ends in the bytes the string owns, and gives the
content if that has no NUL. -/
def ReadsInside (m : Memory) (s : CFStringInner) (p : Address) : Prop :=
  ∃ n text, (p - s.asPtr).toNat + n ≤ s.storage ∧ m.readCString n p = some text ∧
    (0 ∉ s.bytes → text = s.bytes)

/-- There is a zero after the content, in what the string owns. -/
def Terminated (m : Memory) (s : CFStringInner) : Prop :=
  s.bytes.length < s.storage ∧ m (s.asPtr + BitVec.ofNat 64 s.bytes.length) = 0

/-- Both pointers can be read; a null pointer is not. -/
structure PointersReadable (h : Heap) (m : Memory) (cf : Ref) (s : CFStringInner) : Prop where
  cStringPtr : cfStringGetCStringPtr h cf ≠ 0 → ReadsInside m s (cfStringGetCStringPtr h cf)
  utf8String : ReadsInside m s (nsStringUtf8 h cf)

section Pointers
variable {h : Heap} {m : Memory} {cf : Ref} {s : CFStringInner}

/-- Every constructor allocates what the content needs, and no byte for a zero. -/
theorem not_terminated (m : Memory) (s : CFStringInner) : ¬Terminated m s :=
  fun hzero => absurd hzero.1 (Nat.lt_irrefl _)

/-- The only zeros in what the string owns are in its content. -/
theorem readsInside_iff (hstored : readBytes m s.asPtr s.bytes.length = s.bytes) :
    ReadsInside m s s.asPtr ↔ 0 ∈ s.bytes := by
  constructor
  · rintro ⟨n, text, hinside, hread, -⟩
    have hle : n ≤ s.bytes.length := Nat.le_of_add_left_le hinside
    have hsome : (m.readCString n s.asPtr).isSome := by
      rw [hread]
      rfl
    have hmem := (readCString_isSome m n s.asPtr).mp hsome
    obtain ⟨k, hk⟩ := Nat.exists_eq_add_of_le hle
    rw [hk, readBytes_append] at hstored
    rw [← hstored]
    exact List.mem_append_left _ hmem
  · intro hmem
    have hsome := (readCString_isSome m s.bytes.length s.asPtr).mpr (hstored.symm ▸ hmem)
    obtain ⟨text, hread⟩ := Option.isSome_iff_exists.mp hsome
    refine ⟨s.bytes.length, text, ?_, hread, fun hnul => absurd hmem hnul⟩
    rw [BitVec.sub_self, BitVec.toNat_zero, Nat.zero_add]
    exact Nat.le_refl _

theorem nsStringUtf8_string (hs : h.IsString cf s) : nsStringUtf8 h cf = s.asPtr := by
  rw [nsStringUtf8, if_neg hs.nonNull, hs.deref]

/-- `CFStringGetCStringPtr` refuses the strings that could be read. -/
theorem cStringPtr_refused (hs : h.IsString cf s) (hmem : 0 ∈ s.bytes) :
    cfStringGetCStringPtr h cf = 0 := by
  rw [cfStringGetCStringPtr, if_neg hs.nonNull, hs.deref]
  exact if_pos (List.contains_iff_mem.mpr hmem)

/-- A string has no terminator, so reading it stays inside what it owns only when it ends
at a NUL of the content. -/
theorem pointers_iff (hs : h.IsString cf s)
    (hstored : readBytes m s.asPtr s.bytes.length = s.bytes) :
    (PointersReadable h m cf s ↔ 0 ∈ s.bytes) ∧ ¬Terminated m s := by
  refine ⟨⟨fun hreadable => ?_, fun hmem => ⟨fun hptr => ?_, ?_⟩⟩, not_terminated m s⟩
  · have hutf8 := hreadable.utf8String
    rw [nsStringUtf8_string hs] at hutf8
    exact (readsInside_iff hstored).mp hutf8
  · exact absurd (cStringPtr_refused hs hmem) hptr
  · rw [nsStringUtf8_string hs]
    exact (readsInside_iff hstored).mpr hmem

end Pointers

/-- `"a\0b"`: the content ends the read. -/
def embedded : CFStringInner := ⟨[0x61, 0, 0x62], 0x3000, rfl⟩

theorem pointers_embedded :
    PointersReadable (oneString 0x2000 embedded) (blank.writeBytes 0x3000 embedded.bytes) 0x2000
      embedded := by
  have hs := oneString_isString (by decide : (0x2000 : Ref) ≠ K_CF_NULL) embedded
  exact (pointers_iff hs (by decide)).1.mpr (by decide)

/-- Reading `"é"` takes the byte after what the string owns. -/
theorem accent_unterminated :
    ¬PointersReadable (oneString 0x2000 accent) (blank.writeBytes 0x3000 accent.bytes) 0x2000
      accent := by
  intro hreadable
  have hutf8 := hreadable.utf8String
  rw [nsStringUtf8_string accent_isString] at hutf8
  exact absurd ((readsInside_iff (by decide)).mp hutf8) (by decide)

end Grafted.Foundation.Strings
