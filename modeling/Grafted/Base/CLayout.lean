import Grafted.Base.X86

/-! Structures of C, in bytes.

Each field is put at the next offset of its alignment, and the structure is padded to that of
the most aligned one. Fields do not overlap, so what is stored in a structure is loaded again
(`decodeFrom_encodeFrom`), and a store to one field is one to its value and to no other
(`decodeFrom_store`). -/
namespace CLayout
open ByteMemory
open X86 (length_bytesLE)

structure Field where
  size : Nat
  align : Nat
  pos : 0 < align

/-- An integer of `2 ^ n` bytes is aligned to its size. -/
def integer (n : Nat) : Field := ⟨2 ^ n, 2 ^ n, Nat.two_pow_pos n⟩

def u8 : Field := integer 0
def u16 : Field := integer 1
def u32 : Field := integer 2
def u64 : Field := integer 3

def alignUp (n align : Nat) : Nat := (n + align - 1) / align * align

theorem le_alignUp (n : Nat) {align : Nat} (h : 0 < align) : n ≤ alignUp n align := by
  have hdiv := Nat.div_add_mod (n + align - 1) align
  have hmod := Nat.mod_lt (n + align - 1) h
  rw [Nat.mul_comm] at hdiv
  unfold alignUp
  omega

/-- Where the fields are that come from an offset on. -/
def offsetsFrom (start : Nat) : List Field → List Nat
  | [] => []
  | f :: rest => alignUp start f.align :: offsetsFrom (alignUp start f.align + f.size) rest

def endFrom (start : Nat) : List Field → Nat
  | [] => start
  | f :: rest => endFrom (alignUp start f.align + f.size) rest

def alignOf (fields : List Field) : Nat := fields.foldr (fun f a => max f.align a) 1

/-- `sizeof` -/
def sizeOf (fields : List Field) : Nat := alignUp (endFrom 0 fields) (alignOf fields)

theorem le_endFrom (start : Nat) (fields : List Field) : start ≤ endFrom start fields := by
  induction fields generalizing start with
  | nil => exact Nat.le_refl start
  | cons f rest ih =>
    have hle := le_alignUp start f.pos
    have hrest := ih (alignUp start f.align + f.size)
    unfold endFrom
    omega

/-! ### Loads and stores -/

def load (bytes : List Byte) (offset size : Nat) : Nat := fromLE ((bytes.drop offset).take size)

def store (bytes : List Byte) (offset size n : Nat) : List Byte :=
  bytes.take offset ++ bytesLE n size ++ bytes.drop (offset + size)

theorem length_store {bytes : List Byte} {offset size : Nat} (h : offset + size ≤ bytes.length)
    (n : Nat) : (store bytes offset size n).length = bytes.length := by
  rw [store, List.length_append, List.length_append, length_bytesLE, List.length_take,
    List.length_drop]
  omega

/-- A byte outside the field. -/
theorem getElem?_store_apart {bytes : List Byte} {offset size i : Nat}
    (h : offset + size ≤ bytes.length) (n : Nat) (hi : i < offset ∨ offset + size ≤ i) :
    (store bytes offset size n)[i]? = bytes[i]? := by
  unfold store
  rcases hi with hi | hi
  · rw [List.append_assoc, List.getElem?_append_left (by rw [List.length_take]; omega),
      List.getElem?_take_of_lt hi]
  · have hlength : (bytes.take offset ++ bytesLE n size).length = offset + size := by
      rw [List.length_append, length_bytesLE, List.length_take]
      omega
    rw [List.getElem?_append_right (by omega), hlength, List.getElem?_drop]
    congr 1
    omega

/-- The bytes that are loaded decide what is. -/
theorem load_congr {bytes bytes' : List Byte} {offset size : Nat}
    (h : ∀ i, offset ≤ i → i < offset + size → bytes'[i]? = bytes[i]?) :
    load bytes' offset size = load bytes offset size := by
  unfold load
  congr 1
  refine List.ext_getElem? fun i => ?_
  by_cases hi : i < size
  · rw [List.getElem?_take_of_lt hi, List.getElem?_take_of_lt hi, List.getElem?_drop,
      List.getElem?_drop, h (offset + i) (by omega) (by omega)]
  · have hlate (bytes : List Byte) : ((bytes.drop offset).take size)[i]? = none :=
      List.getElem?_eq_none (by rw [List.length_take]; omega)
    rw [hlate, hlate]

theorem load_store {bytes : List Byte} {offset size n : Nat} (h : offset + size ≤ bytes.length)
    (hn : n < 256 ^ size) : load (store bytes offset size n) offset size = n := by
  unfold load store
  have htake : (bytes.take offset).length = offset := by
    rw [List.length_take]
    omega
  have hdrop : (bytes.take offset ++ (bytesLE n size ++ bytes.drop (offset + size))).drop offset =
      bytesLE n size ++ bytes.drop (offset + size) := by
    rw [List.drop_append_of_le_length (by omega), List.drop_eq_nil_of_le (by omega),
      List.nil_append]
  have hlength := length_bytesLE n size
  rw [List.append_assoc, hdrop, List.take_append_of_le_length (Nat.le_of_eq hlength.symm),
    List.take_of_length_le (Nat.le_of_eq hlength), fromLE_bytesLE, Nat.mod_eq_of_lt hn]

theorem load_store_apart {bytes : List Byte} {offset size offset' size' : Nat}
    (h : offset + size ≤ bytes.length) (n : Nat)
    (hapart : offset' + size' ≤ offset ∨ offset + size ≤ offset') :
    load (store bytes offset size n) offset' size' = load bytes offset' size' :=
  load_congr fun i _ _ => getElem?_store_apart h n (by omega)

/-! ### Structures -/

/-- The values, stored one after the other over what is there. -/
def encodeFrom (start : Nat) : List Field → List Nat → List Byte → List Byte
  | f :: fields, n :: values, bytes =>
    let offset := alignUp start f.align
    encodeFrom (offset + f.size) fields values (store bytes offset f.size n)
  | _, _, bytes => bytes

def decodeFrom (start : Nat) : List Field → List Byte → List Nat
  | [], _ => []
  | f :: fields, bytes =>
    let offset := alignUp start f.align
    load bytes offset f.size :: decodeFrom (offset + f.size) fields bytes

/-- Each value is a number of its field. -/
def Fits : List Field → List Nat → Prop
  | [], [] => True
  | f :: fields, n :: values => n < 256 ^ f.size ∧ Fits fields values
  | _, _ => False

theorem length_encodeFrom {start : Nat} {fields : List Field} {values : List Nat}
    {bytes : List Byte} (h : endFrom start fields ≤ bytes.length) :
    (encodeFrom start fields values bytes).length = bytes.length := by
  induction fields generalizing start values bytes with
  | nil => rfl
  | cons f fields ih =>
    cases values with
    | nil => rfl
    | cons n values =>
      have hend := le_endFrom (alignUp start f.align + f.size) fields
      have hstore : (store bytes (alignUp start f.align) f.size n).length = bytes.length :=
        length_store (Nat.le_trans hend h) n
      exact (ih (hstore.symm ▸ h)).trans hstore

/-- The bytes before the fields are not stored to. -/
theorem getElem?_encodeFrom {start : Nat} {fields : List Field} {values : List Nat}
    {bytes : List Byte} (h : endFrom start fields ≤ bytes.length) {i : Nat} (hi : i < start) :
    (encodeFrom start fields values bytes)[i]? = bytes[i]? := by
  induction fields generalizing start values bytes with
  | nil => rfl
  | cons f fields ih =>
    cases values with
    | nil => rfl
    | cons n values =>
      have hend := le_endFrom (alignUp start f.align + f.size) fields
      have hle := le_alignUp start f.pos
      have hinside : alignUp start f.align + f.size ≤ bytes.length := Nat.le_trans hend h
      have hlength := length_store hinside n
      refine (ih (by rw [hlength]; exact h) (by omega)).trans ?_
      exact getElem?_store_apart hinside n (.inl (by omega))

theorem decodeFrom_congr {start : Nat} {fields : List Field} {bytes bytes' : List Byte}
    (h : ∀ i, start ≤ i → bytes'[i]? = bytes[i]?) :
    decodeFrom start fields bytes' = decodeFrom start fields bytes := by
  induction fields generalizing start with
  | nil => rfl
  | cons f fields ih =>
    have hle := le_alignUp start f.pos
    unfold decodeFrom
    dsimp only
    rw [ih fun i hi => h i (by omega), load_congr fun i hi _ => h i (by omega)]

/-- What was stored is loaded. -/
theorem decodeFrom_encodeFrom {start : Nat} {fields : List Field} {values : List Nat}
    {bytes : List Byte} (h : endFrom start fields ≤ bytes.length) (hfits : Fits fields values) :
    decodeFrom start fields (encodeFrom start fields values bytes) = values := by
  induction fields generalizing start values bytes with
  | nil =>
    cases values with
    | nil => rfl
    | cons n values => exact hfits.elim
  | cons f fields ih =>
    cases values with
    | nil => exact hfits.elim
    | cons n values =>
      have hend := le_endFrom (alignUp start f.align + f.size) fields
      have hinside : alignUp start f.align + f.size ≤ bytes.length := Nat.le_trans hend h
      have hlength := length_store hinside n
      have hrest : endFrom (alignUp start f.align + f.size) fields ≤
          (store bytes (alignUp start f.align) f.size n).length := by
        rw [hlength]
        exact h
      unfold encodeFrom decodeFrom
      dsimp only
      rw [ih hrest hfits.2, load_congr fun i _ hi => getElem?_encodeFrom hrest hi,
        load_store hinside hfits.1]

/-- A field is after those before it. -/
theorem le_offset {start : Nat} {fields : List Field} {k offset : Nat}
    (h : (offsetsFrom start fields)[k]? = some offset) : start ≤ offset := by
  induction fields generalizing start k with
  | nil => exact nomatch h
  | cons f fields ih =>
    have hle := le_alignUp start f.pos
    cases k with
    | zero =>
      obtain rfl := Option.some.inj h
      exact hle
    | succ k =>
      have hrest := ih h
      omega

theorem offset_inside {start : Nat} {fields : List Field} {k offset : Nat} {f : Field}
    (h : (offsetsFrom start fields)[k]? = some offset) (hf : fields[k]? = some f) :
    offset + f.size ≤ endFrom start fields := by
  induction fields generalizing start k with
  | nil => exact nomatch h
  | cons g fields ih =>
    cases k with
    | zero =>
      obtain rfl := Option.some.inj h
      obtain rfl := Option.some.inj hf
      exact le_endFrom _ fields
    | succ k => exact ih h hf

/-- A store to a field changes its value. -/
theorem decodeFrom_store {start : Nat} {fields : List Field} {bytes : List Byte} {k offset n : Nat}
    {f : Field} (hend : endFrom start fields ≤ bytes.length)
    (h : (offsetsFrom start fields)[k]? = some offset) (hf : fields[k]? = some f)
    (hn : n < 256 ^ f.size) : decodeFrom start fields (store bytes offset f.size n) =
      (decodeFrom start fields bytes).set k n := by
  have hinside := Nat.le_trans (offset_inside h hf) hend
  induction fields generalizing start k with
  | nil => exact nomatch h
  | cons g fields ih =>
    unfold decodeFrom
    dsimp only
    cases k with
    | zero =>
      obtain rfl : alignUp start g.align = offset := Option.some.inj h
      obtain rfl := Option.some.inj hf
      rw [load_store hinside hn, List.set_cons_zero]
      congr 1
      exact decodeFrom_congr fun i hi => getElem?_store_apart hinside n (.inr hi)
    | succ k =>
      have hle : alignUp start g.align + g.size ≤ offset := le_offset h
      rw [load_store_apart hinside n (.inl hle), List.set_cons_succ, ih hend h hf]

end CLayout
