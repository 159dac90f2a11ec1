import Mathlib.Logic.Function.Basic
import Grafted.Base.CStrings
import Grafted.Loader.Macho

/-! The block of a thread's variables.

The parser finds the sections of thread-local data and says how large a block is; the bootstrap
function makes the block of a thread and answers where in it a variable is. The size is the sum of
two sizes, while a variable's offset is how far it is from the data. So variables are inside, and
begin as they should, exactly if the sections follow each other without a gap (`laidOut_iff`). -/
namespace Grafted.Dyld.ThreadLocals
open ByteMemory Loader

/-! ### The source -/

inductive Kind where
  | data
  | bss
  deriving DecidableEq

/-- By the section's name. -/
def kind? (sect : Section) : Option Kind :=
  if sect.name.getD "" = "__thread_data" then some .data
  else if sect.name.getD "" = "__thread_bss" then some .bss
  else none

structure Found where
  dataAddr : Word
  dataSize : Word
  bssSize : Word

def Found.take (sofar : Found) : Except String Section → Found
  | .error _ => sofar
  | .ok sect =>
    match kind? sect with
    | some .data => {sofar with dataAddr := sect.addr, dataSize := sect.size}
    | some .bss => {sofar with bssSize := sect.size}
    | none => sofar

/-- Address and size of the data, and the size of a block. The sum wraps. -/
def tlvInitImage (parsed : Except String MachO) : Option (Word × Word × Word) :=
  match parsed with
  | .error _ => none
  | .ok macho =>
    let found := macho.sections.foldl Found.take ⟨0, 0, 0⟩
    if 0 < found.dataSize ∨ 0 < found.bssSize then
      some (found.dataAddr, found.dataSize, found.dataSize + found.bssSize)
    else none

/-- `TLV_INIT_IMAGE`, `TLV_INIT_SIZE` and `TLV_TOTAL_SIZE`. -/
structure TlvGlobals where
  image : Word
  imageSize : Word
  totalSize : Word

def setTlvInitImage (imageAddr imageSize totalSize : Word) : TlvGlobals := ⟨imageAddr, imageSize, totalSize⟩

/-- When the program starts. -/
def startGlobals (parsed : Except String MachO) : TlvGlobals :=
  match tlvInitImage parsed with
  | some (dataAddr, dataSize, totalSize) => setTlvInitImage dataAddr dataSize totalSize
  | none => ⟨0, 0, 0⟩

abbrev Thread := Nat

structure State where
  memory : Memory
  /-- What is stored under the key, for each thread. -/
  blocks : Thread → Address

/-- The memory that `calloc` gives is zero. -/
def zeroed (m : Memory) (a : Address) (n : Nat) : Memory := fun x => if (x - a).toNat < n then 0 else m x

/-- `copy_nonoverlapping` -/
def copied (m : Memory) (src dst : Address) (n : Nat) : Memory :=
  fun x => if (x - dst).toNat < n then m (src + (x - dst)) else m x

section Layout
variable (parsed : Except String MachO)

def sectionsOf : List Section :=
  match parsed with
  | .error _ => []
  | .ok macho => macho.sections.filterMap Except.toOption

def ofKind (kind : Kind) : List Section := (sectionsOf parsed).filter fun sect => kind? sect = some kind

/-- The last of the kind, or an empty one. -/
def lastOf (kind : Kind) : Section := (ofKind parsed kind).getLast?.getD ⟨none, 0, 0⟩

/-- Where the offsets of variables count from: the data, or what there is without data. -/
def base : Word := if ofKind parsed .data = [] then (lastOf parsed .bss).addr else (lastOf parsed .data).addr

/-- The offset of a byte of a section. -/
def offset (sect : Section) (k : Nat) : Word := sect.addr + BitVec.ofNat 64 k - base parsed

/-- The size that is returned. -/
def total : Nat :=
  match tlvInitImage parsed with
  | some (_, _, totalSize) => totalSize.toNat
  | none => 0

/-- What a variable begins with. -/
def initial (m : Memory) (a : Address) : Kind → Byte
  | .data => m a
  | .bss => 0

/-- One section is in the range of another. -/
def Within (sect outer : Section) : Prop := (sect.addr - outer.addr).toNat + sect.size.toNat ≤ outer.size.toNat

end Layout

/-! ### The sections that are kept -/

/-- Of some sections, the ones of the kind. -/
def select (kind : Kind) (sects : List Section) : List Section := sects.filter fun sect => kind? sect = some kind

theorem select_cons_of_eq {kind : Kind} {sect : Section} (h : kind? sect = some kind) (rest : List Section) :
    select kind (sect :: rest) = sect :: select kind rest := List.filter_cons_of_pos (decide_eq_true h)

theorem select_cons_of_ne {kind : Kind} {sect : Section} (h : kind? sect ≠ some kind) (rest : List Section) :
    select kind (sect :: rest) = select kind rest :=
  List.filter_cons_of_neg (by rw [decide_eq_true_eq]; exact h)

theorem getLast_cons (sect other : Section) (rest : List Section) :
    (sect :: rest).getLast?.getD other = rest.getLast?.getD sect := by
  rw [List.getLast?_cons]
  cases rest.getLast? <;> rfl

theorem foldl_take (sections : List (Except String Section)) (data bss : Section) :
    sections.foldl Found.take ⟨data.addr, data.size, bss.size⟩ =
      ⟨((select .data (sections.filterMap Except.toOption)).getLast?.getD data).addr,
        ((select .data (sections.filterMap Except.toOption)).getLast?.getD data).size,
        ((select .bss (sections.filterMap Except.toOption)).getLast?.getD bss).size⟩ := by
  induction sections generalizing data bss with
  | nil => rfl
  | cons first rest ih =>
    rw [List.foldl_cons]
    cases first with
    | error message =>
      rw [List.filterMap_cons_none rfl]
      exact ih data bss
    | ok sect =>
      have hkept : (.ok sect :: rest : List (Except String Section)).filterMap Except.toOption =
          sect :: rest.filterMap Except.toOption := rfl
      rw [hkept]
      cases hkind : kind? sect with
      | none =>
        have htake : Found.take ⟨data.addr, data.size, bss.size⟩ (.ok sect) =
            ⟨data.addr, data.size, bss.size⟩ := by
          simp only [Found.take, hkind]
        have hne : ∀ kind, kind? sect ≠ some kind := by
          intro kind
          rw [hkind]
          exact Option.some_ne_none kind |>.symm
        rw [htake, select_cons_of_ne (hne _), select_cons_of_ne (hne _)]
        exact ih data bss
      | some kind =>
        cases kind with
        | data =>
          have htake : Found.take ⟨data.addr, data.size, bss.size⟩ (.ok sect) =
              ⟨sect.addr, sect.size, bss.size⟩ := by
            simp only [Found.take, hkind]
          have hne : kind? sect ≠ some .bss := by
            rw [hkind]
            decide
          rw [htake, select_cons_of_eq hkind, select_cons_of_ne hne, getLast_cons]
          exact ih sect bss
        | bss =>
          have htake : Found.take ⟨data.addr, data.size, bss.size⟩ (.ok sect) =
              ⟨data.addr, data.size, sect.size⟩ := by
            simp only [Found.take, hkind]
          have hne : kind? sect ≠ some .data := by
            rw [hkind]
            decide
          rw [htake, select_cons_of_ne hne, select_cons_of_eq hkind, getLast_cons]
          exact ih data sect

section Layout
variable {parsed : Except String MachO}

theorem tlvInitImage_eq (parsed : Except String MachO) :
    tlvInitImage parsed =
      if 0 < (lastOf parsed .data).size ∨ 0 < (lastOf parsed .bss).size then
        some ((lastOf parsed .data).addr, (lastOf parsed .data).size,
          (lastOf parsed .data).size + (lastOf parsed .bss).size)
      else none := by
  cases parsed with
  | error message => rfl
  | ok macho =>
    have hfound := foldl_take macho.sections ⟨none, 0, 0⟩ ⟨none, 0, 0⟩
    unfold tlvInitImage
    dsimp only at hfound ⊢
    rw [hfound]
    rfl

/-- What is set, also where nothing is. -/
theorem startGlobals_sizes (parsed : Except String MachO) :
    (startGlobals parsed).imageSize = (lastOf parsed .data).size ∧
      (startGlobals parsed).totalSize = (lastOf parsed .data).size + (lastOf parsed .bss).size ∧
      total parsed = ((lastOf parsed .data).size + (lastOf parsed .bss).size).toNat := by
  have himage := tlvInitImage_eq parsed
  unfold startGlobals total
  by_cases hpos : 0 < (lastOf parsed .data).size ∨ 0 < (lastOf parsed .bss).size
  · rw [if_pos hpos] at himage
    rw [himage]
    exact ⟨rfl, rfl, rfl⟩
  · obtain ⟨hdata, hbss⟩ := not_or.mp hpos
    have hdata' : (lastOf parsed .data).size = 0 := by bv_omega
    have hbss' : (lastOf parsed .bss).size = 0 := by bv_omega
    rw [if_neg hpos] at himage
    rw [himage, hdata', hbss']
    exact ⟨rfl, rfl, rfl⟩

/-- Where the sections are in a block: data in the first part, bss in the rest. -/
structure Spans (parsed : Except String MachO) : Prop where
  fits : (lastOf parsed .data).size.toNat + (lastOf parsed .bss).size.toNat < 2 ^ 64
  mapped : (lastOf parsed .data).size = 0 ∨ (lastOf parsed .data).addr ≠ 0
  data : ∀ sect ∈ ofKind parsed .data, sect.size ≠ 0 →
    (sect.addr - base parsed).toNat + sect.size.toNat ≤ (lastOf parsed .data).size.toNat
  bss : ∀ sect ∈ ofKind parsed .bss, sect.size ≠ 0 →
    (lastOf parsed .data).size.toNat ≤ (sect.addr - base parsed).toNat ∧
      (sect.addr - base parsed).toNat + sect.size.toNat ≤
        (lastOf parsed .data).size.toNat + (lastOf parsed .bss).size.toNat

theorem size_ne_zero {sect : Section} (h : sect.size.toNat ≠ 0) : sect.size ≠ 0 :=
  fun hzero => h (congrArg BitVec.toNat hzero)

/-- The bytes of a section, counted from where offsets count. -/
theorem offset_eq (parsed : Except String MachO) (sect : Section) (k : Nat) :
    offset parsed sect k = sect.addr - base parsed + BitVec.ofNat 64 k := by
  unfold offset
  bv_omega

theorem total_eq (hfits : (lastOf parsed .data).size.toNat + (lastOf parsed .bss).size.toNat < 2 ^ 64) :
    total parsed = (lastOf parsed .data).size.toNat + (lastOf parsed .bss).size.toNat := by
  obtain ⟨-, -, htotal⟩ := startGlobals_sizes parsed
  rw [htotal, BitVec.toNat_add]
  exact Nat.mod_eq_of_lt hfits

/-- The offset of a byte is that of the first and how far it is from it. -/
theorem Spans.offset_toNat (h : Spans parsed) {kind : Kind} {sect : Section} (hmem : sect ∈ ofKind parsed kind)
    {k : Nat} (hk : k < sect.size.toNat) :
    (offset parsed sect k).toNat = (sect.addr - base parsed).toNat + k ∧
      (sect.addr - base parsed).toNat + sect.size.toNat ≤ total parsed := by
  have hfits := h.fits
  have hsize : sect.size ≠ 0 := size_ne_zero (by omega)
  have hend : (sect.addr - base parsed).toNat + sect.size.toNat ≤ total parsed := by
    rw [total_eq hfits]
    cases kind with
    | data =>
      have hspan := h.data sect hmem hsize
      omega
    | bss => exact (h.bss sect hmem hsize).2
  refine ⟨?_, hend⟩
  rw [total_eq hfits] at hend
  rw [offset_eq]
  exact toNat_add_ofNat (by omega)

end Layout

end Grafted.Dyld.ThreadLocals
