import Grafted.Base.CStrings
import Grafted.Base.Utf16
import Grafted.Base.X86

/-! CFString: the constructors, equality, and the copy to a caller's buffer.

A string is UTF-8 by construction: every constructor goes through a `&str`. What the two
constructors from bytes make of the same bytes is `createWithCString_bytes` and
`createWithBytes_bytes`, and what the buffer holds after the copy is `getCString_written`. -/
namespace Grafted.Cf.Strings
open ByteMemory Utf8
open X86 (readBytes length_readBytes)

abbrev Ref := BitVec 64
abbrev CFTypeID := Nat
abbrev CFBoolean := BitVec 8
abbrev CFHashCode := BitVec 64

def K_CF_NULL : Ref := 0
def K_CF_BOOLEAN_TRUE : CFBoolean := 1
def K_CF_BOOLEAN_FALSE : CFBoolean := 0
def CF_STRING_TYPE_ID : CFTypeID := 7

theorem false_ne_true : K_CF_BOOLEAN_FALSE ≠ K_CF_BOOLEAN_TRUE := by decide

/-- A `&str`. -/
structure Str where
  bytes : List Byte
  utf8 : valid bytes

def Str.empty : Str := ⟨[], rfl⟩

/-- `from_utf8`. -/
def fromUtf8 (bytes : List Byte) : Option Str := if h : valid bytes then some ⟨bytes, h⟩ else none

/-- `String::from_utf8_lossy`. -/
def fromUtf8Lossy (bytes : List Byte) : Str := ⟨lossy bytes, valid_lossy bytes⟩

/-- The bytes, and where the buffer that holds them is. -/
structure CFStringInner where
  bytes : List Byte
  asPtr : Address
  utf8 : valid bytes

namespace CFStringInner

/-- `to_vec` copies to a buffer at the address the allocator picks. -/
def new (s : Str) (address : Address) : CFStringInner := ⟨s.bytes, address, s.utf8⟩

def asStr (s : CFStringInner) : Str := (fromUtf8 s.bytes).getD .empty

/-- How many bytes of memory `to_vec` allocated. -/
def storage (s : CFStringInner) : Nat := s.bytes.length

end CFStringInner

inductive Object where
  | string (s : CFStringInner)
  /-- An object of another type. -/
  | other (typeId : CFTypeID) (h : typeId ≠ CF_STRING_TYPE_ID)

def Object.typeId : Object → CFTypeID
  | .string _ => CF_STRING_TYPE_ID
  | .other typeId _ => typeId

abbrev Heap := Ref → Option Object

namespace Heap

/-- `&*s`. -/
def deref (h : Heap) (s : Ref) : Option CFStringInner :=
  match h s with
  | some (.string inner) => some inner
  | _ => none

/-- What a constructor returns: null, or the new object at the address the allocator picks. -/
def into (h : Heap) (address : Ref) (s : Option CFStringInner) : Heap × Ref :=
  match s with
  | some s => (Function.update h address (some (.string s)), address)
  | none => (h, K_CF_NULL)

/-- The reference is to the string. -/
structure IsString (h : Heap) (cf : Ref) (s : CFStringInner) : Prop where
  nonNull : cf ≠ K_CF_NULL
  object : h cf = some (.string s)

end Heap

/-! ### The functions -/

/-- `CStr::from_ptr`, of memory that has a NUL. -/
def cStr (m : Memory) (cstr : Address) : List Byte := (m.readCString (2 ^ 64) cstr).getD []

def cfStringCreateWithCString (m : Memory) (cstr : Address) (address : Address) :
    Option CFStringInner :=
  if cstr = 0 then none else some (.new ((fromUtf8 (cStr m cstr)).getD .empty) address)

def cfStringCreateWithBytes (m : Memory) (bytes : Address) (numBytes : Int) (address : Address) :
    Option CFStringInner :=
  if bytes = 0 ∨ numBytes ≤ 0 then none
  else some (.new (fromUtf8Lossy (readBytes m bytes numBytes.toNat)) address)

def cfStringCreateWithFormat (h : Heap) (format : Ref) (address : Address) : Option CFStringInner :=
  if format = K_CF_NULL then none else (h.deref format).map fun fmt => .new fmt.asStr address

def cfGetTypeID (h : Heap) (cf : Ref) : CFTypeID :=
  if cf = K_CF_NULL then 0 else ((h cf).map Object.typeId).getD 0

def cfEqual (h : Heap) (cf1 cf2 : Ref) : CFBoolean :=
  if cf1 = cf2 then K_CF_BOOLEAN_TRUE
  else if cf1 = K_CF_NULL ∨ cf2 = K_CF_NULL then K_CF_BOOLEAN_FALSE
  else if cfGetTypeID h cf1 ≠ cfGetTypeID h cf2 then K_CF_BOOLEAN_FALSE
  else
    match h.deref cf1, h.deref cf2 with
    | some s1, some s2 => if s1.bytes = s2.bytes then K_CF_BOOLEAN_TRUE else K_CF_BOOLEAN_FALSE
    | _, _ => K_CF_BOOLEAN_FALSE

/-- The pointer. -/
def cfHash (cf : Ref) : CFHashCode := if cf = K_CF_NULL then 0 else cf

/-- A `Vec` has less than 2^63 bytes, so the cast to `CFIndex` keeps the count. -/
def cfStringGetLength (h : Heap) (s : Ref) : Nat :=
  if s = K_CF_NULL then 0
  else
    match h.deref s with
    | some inner => (Utf16.units inner.asStr.bytes).length
    | none => 0

def cfStringGetCStringPtr (h : Heap) (s : Ref) : Address :=
  if s = K_CF_NULL then 0
  else
    match h.deref s with
    | some inner => if inner.bytes.contains 0 then 0 else inner.asPtr
    | none => 0

/-- How much of the content is copied to a buffer of the size. -/
def maxCopy (bufferSize : Int) (inner : CFStringInner) : Nat :=
  min (bufferSize.toNat - 1) inner.bytes.length

def cfStringGetCString (h : Heap) (m : Memory) (s : Ref) (buffer : Address) (bufferSize : Int) :
    Memory × CFBoolean :=
  if s = K_CF_NULL ∨ buffer = 0 ∨ bufferSize ≤ 0 then (m, K_CF_BOOLEAN_FALSE)
  else
    match h.deref s with
    | some inner =>
      let copied := inner.bytes.take (maxCopy bufferSize inner)
      ((m.writeBytes buffer copied).writeByte (buffer + BitVec.ofNat 64 (maxCopy bufferSize inner)) 0,
        K_CF_BOOLEAN_TRUE)
    | none => (m, K_CF_BOOLEAN_FALSE)

/-! ### Strings in the heap -/

theorem Heap.IsString.deref {h : Heap} {cf : Ref} {s : CFStringInner} (hs : h.IsString cf s) :
    h.deref cf = some s := by
  rw [Heap.deref, hs.object]

theorem Heap.IsString.unique {h : Heap} {cf : Ref} {s t : CFStringInner} (hs : h.IsString cf s)
    (ht : h.IsString cf t) : s = t :=
  Option.some.inj (hs.deref.symm.trans ht.deref)

theorem into_isString (h : Heap) {address : Ref} (haddress : address ≠ K_CF_NULL)
    (s : CFStringInner) : (h.into address (some s)).1.IsString address s :=
  ⟨haddress, Function.update_self ..⟩

/-- The other objects stay. -/
theorem Heap.IsString.into {h : Heap} {cf address : Ref} {s : CFStringInner} (hs : h.IsString cf s)
    (hne : cf ≠ address) (created : Option CFStringInner) :
    (h.into address created).1.IsString cf s := by
  refine ⟨hs.nonNull, ?_⟩
  cases created with
  | none => exact hs.object
  | some _ => exact (Function.update_of_ne hne ..).trans hs.object

theorem fromUtf8_valid {bytes : List Byte} (h : valid bytes) : fromUtf8 bytes = some ⟨bytes, h⟩ :=
  dif_pos h

/-- Every string is UTF-8, so the `""` of `as_str` is never used. -/
theorem asStr_bytes (s : CFStringInner) : s.asStr.bytes = s.bytes := by
  rw [CFStringInner.asStr, fromUtf8_valid s.utf8]
  rfl

theorem cfGetTypeID_string {h : Heap} {cf : Ref} {s : CFStringInner} (hs : h.IsString cf s) :
    cfGetTypeID h cf = CF_STRING_TYPE_ID := by
  rw [cfGetTypeID, if_neg hs.nonNull, hs.object]
  rfl

/-- Strings are equal when their bytes are. -/
theorem cfEqual_iff {h : Heap} {cf1 cf2 : Ref} {s1 s2 : CFStringInner} (hs1 : h.IsString cf1 s1)
    (hs2 : h.IsString cf2 s2) : cfEqual h cf1 cf2 = K_CF_BOOLEAN_TRUE ↔ s1.bytes = s2.bytes := by
  unfold cfEqual
  by_cases hsame : cf1 = cf2
  · subst hsame
    rw [if_pos rfl, hs1.unique hs2]
    exact ⟨fun _ => rfl, fun _ => rfl⟩
  · have hnull : ¬(cf1 = K_CF_NULL ∨ cf2 = K_CF_NULL) := not_or.mpr ⟨hs1.nonNull, hs2.nonNull⟩
    have htypes : ¬cfGetTypeID h cf1 ≠ cfGetTypeID h cf2 := by
      rw [cfGetTypeID_string hs1, cfGetTypeID_string hs2]
      exact not_not_intro rfl
    rw [if_neg hsame, if_neg hnull, if_neg htypes, hs1.deref, hs2.deref]
    simp only
    split_ifs with hbytes
    · exact ⟨fun _ => hbytes, fun _ => rfl⟩
    · exact ⟨fun htrue => absurd htrue false_ne_true, fun heq => absurd heq hbytes⟩

/-! ### What the constructors make of bytes -/

/-- The bytes with a NUL after them, and the bytes alone. -/
structure Given (m : Memory) (cstr bytes : Address) (b : List Byte) : Prop where
  string : m.CString cstr b
  slice : readBytes m bytes b.length = b
  cstrNonNull : cstr ≠ 0
  bytesNonNull : bytes ≠ 0
  fits : cstr.toNat + b.length < 2 ^ 64

theorem cStr_eq {m : Memory} {cstr : Address} {b : List Byte} (h : m.CString cstr b)
    (hfits : cstr.toNat + b.length < 2 ^ 64) : cStr m cstr = b := by
  rw [cStr, Memory.readCString_eq h (Nat.lt_of_le_of_lt (Nat.le_add_left ..) hfits)]
  rfl

/-- What is not UTF-8 becomes `""`. -/
theorem createWithCString_bytes {m : Memory} {cstr : Address} {b : List Byte}
    (h : m.CString cstr b) (hfits : cstr.toNat + b.length < 2 ^ 64) (hcstr : cstr ≠ 0)
    (address : Address) :
    ∃ s, cfStringCreateWithCString m cstr address = some s ∧
      s.bytes = if valid b then b else [] := by
  refine ⟨_, if_neg hcstr, ?_⟩
  rw [cStr_eq h hfits, fromUtf8]
  split_ifs
  · rfl
  · rfl

/-- What is not UTF-8 is replaced; there is no string of no bytes. -/
theorem createWithBytes_bytes {m : Memory} {bytes : Address} {b : List Byte}
    (h : readBytes m bytes b.length = b) (hbytes : bytes ≠ 0) (address : Address) :
    if b = [] then cfStringCreateWithBytes m bytes b.length address = none
    else ∃ s, cfStringCreateWithBytes m bytes b.length address = some s ∧ s.bytes = lossy b := by
  unfold cfStringCreateWithBytes
  split_ifs with hempty hnone hnone
  · rfl
  · subst hempty
    exact absurd (Or.inr (Int.le_refl 0)) hnone
  · have hlength := List.length_pos_iff.mpr hempty
    obtain hnull | hle := hnone
    · exact absurd hnull hbytes
    · omega
  · refine ⟨_, rfl, ?_⟩
    show lossy (readBytes m bytes (b.length : Int).toNat) = lossy b
    rw [Int.toNat_natCast, h]

/-- The string made from a format is the format. -/
theorem createWithFormat_equal {h : Heap} {format address : Ref} {s : CFStringInner}
    (hs : h.IsString format s) (haddress : address ≠ K_CF_NULL) (hne : format ≠ address)
    (asPtr : Address) :
    cfEqual (h.into address (cfStringCreateWithFormat h format asPtr)).1 format address =
      K_CF_BOOLEAN_TRUE := by
  rw [cfStringCreateWithFormat, if_neg hs.nonNull, hs.deref, Option.map_some]
  refine (cfEqual_iff (hs.into hne _) (into_isString h haddress _)).mpr ?_
  exact (asStr_bytes s).symm

/-- Both constructors return null, or strings that are equal. The allocator picks the
addresses. -/
def SameString (h : Heap) (m : Memory) (cstr bytes : Address) (numBytes : Int)
    (address address' : Ref) (asPtr asPtr' : Address) : Prop :=
  let first := h.into address (cfStringCreateWithCString m cstr asPtr)
  let second := first.1.into address' (cfStringCreateWithBytes m bytes numBytes asPtr')
  (first.2 = K_CF_NULL ∧ second.2 = K_CF_NULL) ∨
    (first.2 ≠ K_CF_NULL ∧ second.2 ≠ K_CF_NULL ∧
      cfEqual second.1 first.2 second.2 = K_CF_BOOLEAN_TRUE)

/-- The constructors agree on what is UTF-8 and not empty, and on nothing else. -/
theorem sameString_iff {m : Memory} {cstr bytes : Address} {b : List Byte}
    (hgiven : Given m cstr bytes b) (h : Heap) {address address' : Ref}
    (haddress : address ≠ K_CF_NULL) (haddress' : address' ≠ K_CF_NULL) (hne : address ≠ address')
    (asPtr asPtr' : Address) :
    SameString h m cstr bytes b.length address address' asPtr asPtr' ↔ b ≠ [] ∧ valid b := by
  obtain ⟨s, hs, hsbytes⟩ :=
    createWithCString_bytes hgiven.string hgiven.fits hgiven.cstrNonNull asPtr
  have hcreated := createWithBytes_bytes hgiven.slice hgiven.bytesNonNull asPtr'
  rw [SameString, hs]
  split_ifs at hcreated with hempty
  · rw [hcreated]
    constructor
    · rintro (hnull | hboth)
      · exact absurd hnull.1 haddress
      · exact absurd rfl hboth.2.1
    · exact fun hgood => absurd hempty hgood.1
  · obtain ⟨t, ht, htbytes⟩ := hcreated
    have hfirst := (into_isString h haddress s).into hne (some t)
    have hsecond := into_isString (h.into address (some s)).1 haddress' t
    rw [ht]
    constructor
    · rintro (hnull | hboth)
      · exact absurd hnull.1 haddress
      · have heq := (cfEqual_iff hfirst hsecond).mp hboth.2.2
        rw [hsbytes, htbytes] at heq
        refine ⟨hempty, ?_⟩
        by_contra hill
        rw [if_neg hill] at heq
        exact lossy_ne_nil hempty heq.symm
    · intro hgood
      refine .inr ⟨haddress, haddress', (cfEqual_iff hfirst hsecond).mpr ?_⟩
      rw [hsbytes, htbytes, if_pos hgood.2, lossy_of_valid hgood.2]

def blank : Memory := fun _ => 0

/-- A memory with `"é"` at an address. -/
def accented : Memory := (blank.writeBytes 0x1000 [0xc3, 0xa9]).writeByte 0x1002 0

theorem sameString_accented :
    SameString (fun _ => none) accented 0x1000 0x1000 2 0x2000 0x2100 0x3000 0x3100 := by
  have hstring : accented.CString 0x1000 [0xc3, 0xa9] :=
    Memory.cString_written blank (a := 0x1000) (by decide) (by decide)
  have hgiven : Given accented 0x1000 0x1000 [0xc3, 0xa9] :=
    ⟨hstring, by decide, by decide, by decide, by decide⟩
  exact (sameString_iff hgiven _ (by decide) (by decide) (by decide) _ _).mpr (by decide)

/-- Of no bytes, one makes `""` and the other returns null. -/
theorem empty_not_same : ¬SameString (fun _ => none) blank 0x1000 0x1000 0 0x2000 0x2100
    0x3000 0x3100 := by
  unfold SameString
  decide +kernel

/-! ### The copy to a buffer -/

theorem not_within {a x : Address} {n : Nat} (h : ¬X86.Within a n x) :
    x.toNat < a.toNat ∨ a.toNat + n ≤ x.toNat := by
  unfold X86.Within at h
  bv_omega

theorem maxCopy_lt {bufferSize : Int} (h : 0 < bufferSize) (inner : CFStringInner) :
    maxCopy bufferSize inner + 1 ≤ bufferSize.toNat := by
  have hle : maxCopy bufferSize inner ≤ bufferSize.toNat - 1 := Nat.min_le_left ..
  omega

/-- The call on a string, with a buffer. -/
theorem getCString_eq {h : Heap} {m : Memory} {cf : Ref} {s : CFStringInner} (hs : h.IsString cf s)
    {buffer : Address} (hbuffer : buffer ≠ 0) {bufferSize : Int} (hsize : 0 < bufferSize) :
    cfStringGetCString h m cf buffer bufferSize =
      ((m.writeBytes buffer (s.bytes.take (maxCopy bufferSize s))).writeByte
        (buffer + BitVec.ofNat 64 (maxCopy bufferSize s)) 0, K_CF_BOOLEAN_TRUE) := by
  have hgiven : ¬(cf = K_CF_NULL ∨ buffer = 0 ∨ bufferSize ≤ 0) :=
    not_or.mpr ⟨hs.nonNull, not_or.mpr ⟨hbuffer, Int.not_le.mpr hsize⟩⟩
  rw [cfStringGetCString, if_neg hgiven, hs.deref]

/-- A call without a buffer does nothing and returns false. -/
theorem getCString_refused (h : Heap) (m : Memory) (cf : Ref) {buffer : Address} {bufferSize : Int}
    (hnone : buffer = 0 ∨ bufferSize ≤ 0) :
    cfStringGetCString h m cf buffer bufferSize = (m, K_CF_BOOLEAN_FALSE) := if_pos (.inr hnone)

theorem length_copied (bufferSize : Int) (s : CFStringInner) :
    (s.bytes.take (maxCopy bufferSize s)).length = maxCopy bufferSize s :=
  (List.length_take ..).trans (Nat.min_eq_left (Nat.min_le_right ..))

/-- No byte outside the buffer is written, whatever the content. -/
theorem getCString_outside {h : Heap} {m : Memory} {cf : Ref} {s : CFStringInner}
    (hs : h.IsString cf s) {buffer : Address} {bufferSize : Int}
    (hroom : buffer.toNat + bufferSize.toNat ≤ 2 ^ 64) {x : Address}
    (hx : ¬X86.Within buffer bufferSize.toNat x) :
    (cfStringGetCString h m cf buffer bufferSize).1 x = m x := by
  by_cases hnone : buffer = 0 ∨ bufferSize ≤ 0
  · rw [getCString_refused h m cf hnone]
  · obtain ⟨hbuffer, hsize⟩ := not_or.mp hnone
    have hlt := maxCopy_lt (Int.not_le.mp hsize) s
    have hlen := length_copied bufferSize s
    have hout := not_within hx
    have hend : (buffer + BitVec.ofNat 64 (maxCopy bufferSize s)).toNat =
        buffer.toNat + maxCopy bufferSize s := toNat_add_ofNat (by omega)
    have hne : x ≠ buffer + BitVec.ofNat 64 (maxCopy bufferSize s) := by
      intro heq
      rw [heq, hend] at hout
      omega
    rw [getCString_eq hs hbuffer (Int.not_le.mp hsize)]
    show Memory.writeByte _ _ _ x = m x
    rw [Memory.writeByte_of_ne _ 0 hne, Memory.writeBytes_outside (by omega) (by omega)]

/-- What the buffer holds afterwards is the start of the content. -/
theorem getCString_written {h : Heap} {m : Memory} {cf : Ref} {s : CFStringInner}
    (hs : h.IsString cf s) (hnul : 0 ∉ s.bytes) {buffer : Address} (hbuffer : buffer ≠ 0)
    {bufferSize : Int} (hsize : 0 < bufferSize)
    (hroom : buffer.toNat + bufferSize.toNat ≤ 2 ^ 64) :
    (cfStringGetCString h m cf buffer bufferSize).1.CString buffer
      (s.bytes.take (maxCopy bufferSize s)) := by
  have hlt := maxCopy_lt hsize s
  have hlen := length_copied bufferSize s
  have hcopied : 0 ∉ s.bytes.take (maxCopy bufferSize s) :=
    fun hmem => hnul (List.mem_of_mem_take hmem)
  have hstring := Memory.cString_written m (a := buffer) hcopied (by omega)
  rw [hlen] at hstring
  rw [getCString_eq hs hbuffer hsize]
  exact hstring

/-- What the copy of a string to a buffer is to do. -/
structure CopiesOut (h : Heap) (m : Memory) (cf : Ref) (s : CFStringInner) (buffer : Address)
    (bufferSize : Int) : Prop where
  /-- The buffer makes an equal string, wherever the allocator puts it. -/
  equal : (cfStringGetCString h m cf buffer bufferSize).2 = K_CF_BOOLEAN_TRUE →
    ∀ address asPtr, address ≠ K_CF_NULL → h address = none →
      let created := h.into address (cfStringCreateWithCString
        (cfStringGetCString h m cf buffer bufferSize).1 buffer asPtr)
      created.2 ≠ K_CF_NULL ∧ cfEqual created.1 cf created.2 = K_CF_BOOLEAN_TRUE
  refused : bufferSize < s.bytes.length + 1 ∨ 0 ∈ s.bytes →
    (cfStringGetCString h m cf buffer bufferSize).2 = K_CF_BOOLEAN_FALSE
  outside : ∀ x, ¬X86.Within buffer bufferSize.toNat x →
    (cfStringGetCString h m cf buffer bufferSize).1 x = m x

/-- The whole content comes back from the buffer. -/
theorem getCString_equal {h : Heap} {m : Memory} {cf : Ref} {s : CFStringInner}
    (hs : h.IsString cf s) (hnul : 0 ∉ s.bytes) {buffer : Address} (hbuffer : buffer ≠ 0)
    {bufferSize : Int} (hfits : (s.bytes.length : Int) < bufferSize)
    (hroom : buffer.toNat + bufferSize.toNat ≤ 2 ^ 64) {address : Ref}
    (haddress : address ≠ K_CF_NULL) (hfresh : h address = none) (asPtr : Address) :
    let created := h.into address (cfStringCreateWithCString
      (cfStringGetCString h m cf buffer bufferSize).1 buffer asPtr)
    created.2 ≠ K_CF_NULL ∧ cfEqual created.1 cf created.2 = K_CF_BOOLEAN_TRUE := by
  have hcopy : maxCopy bufferSize s = s.bytes.length := Nat.min_eq_right (by omega)
  have hwritten := getCString_written (m := m) hs hnul hbuffer (by omega) hroom
  rw [hcopy, List.take_length] at hwritten
  have hne : cf ≠ address := by
    rintro rfl
    cases hs.object.symm.trans hfresh
  obtain ⟨t, ht, hbytes⟩ := createWithCString_bytes hwritten (by omega) hbuffer asPtr
  rw [if_pos s.utf8] at hbytes
  rw [ht]
  exact ⟨haddress, (cfEqual_iff (hs.into hne _) (into_isString h haddress t)).mpr hbytes.symm⟩

/-- A buffer gets a whole string exactly when it has room for it and the content no NUL; a
call without a buffer returns false. -/
theorem copiesOut_iff {h : Heap} (m : Memory) {cf : Ref} {s : CFStringInner} (hs : h.IsString cf s)
    {buffer : Address} {bufferSize : Int} (hroom : buffer.toNat + bufferSize.toNat ≤ 2 ^ 64) :
    CopiesOut h m cf s buffer bufferSize ↔
      buffer = 0 ∨ bufferSize ≤ 0 ∨ ((s.bytes.length : Int) < bufferSize ∧ 0 ∉ s.bytes) := by
  by_cases hnone : buffer = 0 ∨ bufferSize ≤ 0
  · have hfalse := getCString_refused h m cf hnone
    refine ⟨fun _ => or_assoc.mp (.inl hnone), fun _ => ⟨?_, ?_, fun x hx => ?_⟩⟩
    · intro htrue
      rw [hfalse] at htrue
      exact absurd htrue false_ne_true
    · intro _
      rw [hfalse]
    · exact getCString_outside hs hroom hx
  · obtain ⟨hbuffer, hle⟩ := not_or.mp hnone
    have hsize : 0 < bufferSize := Int.not_le.mp hle
    have htrue : (cfStringGetCString h m cf buffer bufferSize).2 = K_CF_BOOLEAN_TRUE := by
      rw [getCString_eq hs hbuffer hsize]
    have hkept : CopiesOut h m cf s buffer bufferSize ↔
        (s.bytes.length : Int) < bufferSize ∧ 0 ∉ s.bytes := by
      constructor
      · intro hcopies
        by_contra hbad
        have hrefusable : bufferSize < s.bytes.length + 1 ∨ 0 ∈ s.bytes := by
          by_contra hneither
          obtain ⟨hlong, hmem⟩ := not_or.mp hneither
          exact hbad ⟨by omega, hmem⟩
        have hfalse := hcopies.refused hrefusable
        exact false_ne_true (hfalse.symm.trans htrue)
      · intro hgood
        refine ⟨fun _ address asPtr haddress hfresh => ?_, fun hbad => ?_, fun x hx => ?_⟩
        · exact getCString_equal hs hgood.2 hbuffer hgood.1 hroom haddress hfresh asPtr
        · obtain hlong | hmem := hbad
          · omega
          · exact absurd hmem hgood.2
        · exact getCString_outside hs hroom hx
    rw [hkept]
    exact ⟨fun hgood => .inr (.inr hgood), fun hor => (or_assoc.mpr hor).resolve_left hnone⟩

/-- The heap with one string. -/
def oneString (cf : Ref) (s : CFStringInner) : Heap := (Heap.into (fun _ => none) cf (some s)).1

theorem oneString_isString {cf : Ref} (h : cf ≠ K_CF_NULL) (s : CFStringInner) :
    (oneString cf s).IsString cf s := into_isString _ h s

def accent : CFStringInner := ⟨[0xc3, 0xa9], 0x3000, rfl⟩

theorem accent_isString : (oneString 0x2000 accent).IsString 0x2000 accent :=
  oneString_isString (by decide) accent

theorem copiesOut_accent : CopiesOut (oneString 0x2000 accent) blank 0x2000 accent 0x1000 3 :=
  (copiesOut_iff blank accent_isString (by decide)).mpr (by decide)

/-- A buffer for two bytes gets one byte of `"é"` and its NUL, and true is returned. -/
theorem accent_cut : ¬CopiesOut (oneString 0x2000 accent) blank 0x2000 accent 0x1000 2 := by
  intro hcopies
  have htrue : (cfStringGetCString (oneString 0x2000 accent) blank 0x2000 0x1000 2).2 =
      K_CF_BOOLEAN_TRUE :=
    congrArg Prod.snd (getCString_eq accent_isString (by decide) (by decide))
  exact false_ne_true ((hcopies.refused (by decide)).symm.trans htrue)

end Grafted.Cf.Strings
