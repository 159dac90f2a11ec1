import Grafted.Base.Blocks
import Grafted.Base.CLayout
import Grafted.Base.X86Asm

/-! NSMenu: the menus of an application.

A menu keeps the pointers of its items in its own object, and a call writes to one object
(`keeps_perform`). -/
namespace Grafted.Appkit.Menu
open ByteMemory CLayout
open X86 (Within)

/-! ### The source -/

def MENU_DATA_OFFSET : Nat := 16

/-- `[u8; n]` -/
def byteArray (n : Nat) : Field := ⟨n, 1, Nat.one_pos⟩

theorem pointer_pos : 0 < 8 := Nat.succ_pos 7

/-- `[*mut u8; n]` -/
def pointers (n : Nat) : Field := ⟨8 * n, 8, pointer_pos⟩

/-- `NSMenuData`: the title, its length, the pointers of the items and their count. -/
def menuFields : List Field := [byteArray 256, u64, pointers 64, u32]

/-- `NSMenuItemData`: the title, its length, the key equivalent, its length, the action, the target,
the tag, whether it is enabled, the submenu, and whether it is a separator. -/
def itemFields : List Field :=
  [byteArray 256, u64, byteArray 16, u64, u64, u64, u64, u8, u64, u8]

/-- In both. -/
def title : Nat := 0
def title_len : Nat := 256

def items : Nat := 264
def item_count : Nat := 776

def key_equiv : Nat := 264
def key_equiv_len : Nat := 280
def action : Nat := 288
def target : Nat := 296
def tag : Nat := 304
def enabled : Nat := 312
def submenu : Nat := 320
def separator : Nat := 328

example : offsetsFrom 0 menuFields = [title, title_len, items, item_count] := by decide

example : offsetsFrom 0 itemFields = [title, title_len, key_equiv, key_equiv_len, action, target,
    tag, enabled, submenu, separator] := by decide

/-- A field of the data of an object. -/
def field (obj : Address) (offset : Nat) : Address :=
  obj + BitVec.ofNat 64 (MENU_DATA_OFFSET + offset)

/-- The bytes of a string, cut, and their number; nothing for the null pointer. -/
def copyString (m : Memory) (self_ : Address) (bytesField lenField cap : Nat) :
    Option (List Byte) → Memory
  | none => m
  | some bytes =>
    (m.writeBytes (field self_ bytesField) (bytes.take cap)).writeWord (field self_ lenField)
      (BitVec.ofNat 64 (min bytes.length cap))

section Menus
variable (m : Memory) (self_ : Address)

def nsMenuInitWithTitle (str : Option (List Byte)) : Memory :=
  copyString (m.writeU32 (field self_ item_count) 0) self_ title title_len 255 str

def nsMenuAddItem (item : Address) : Memory :=
  if self_ = 0 ∨ item = 0 then m
  else
    let idx := (m.readU32 (field self_ item_count)).toNat
    if idx < 64 then
      let listed := m.writeWord (field self_ (items + 8 * idx)) item
      listed.writeU32 (field self_ item_count) (listed.readU32 (field self_ item_count) + 1)
    else m

def nsMenuItemCount : BitVec 64 :=
  if self_ = 0 then 0 else (m.readU32 (field self_ item_count)).setWidth 64

def nsMenuItemInit (str : Option (List Byte)) (act : Word) (keyEquiv : Option (List Byte)) :
    Memory :=
  let acted := m.writeWord (field self_ action) act
  let able := acted.writeByte (field self_ enabled) 1
  let plain := able.writeByte (field self_ separator) 0
  copyString (copyString plain self_ title title_len 255 str) self_ key_equiv key_equiv_len 15
    keyEquiv

/-- A new object, where the allocator put it. -/
def nsMenuItemSeparator : Memory := (m.calloc self_ 512).writeByte (field self_ separator) 1

def setField (offset : Nat) (value : Word) : Memory :=
  if self_ = 0 then m else m.writeWord (field self_ offset) value

def nsMenuItemSetTarget (value : Word) : Memory := setField m self_ target value

/-- `setSubmenu:forItem:` of a menu does the same, to the item. -/
def nsMenuItemSetSubmenu (value : Word) : Memory := setField m self_ submenu value

def nsMenuItemSetTag (value : Word) : Memory := setField m self_ tag value

def nsMenuItemSetEnabled (flag : Bool) : Memory :=
  if self_ = 0 then m else m.writeByte (field self_ enabled) (if flag then 1 else 0)

end Menus

inductive Action where
  | initWithTitle (self_ : Address) (str : Option (List Byte))
  | addItem (self_ item : Address)
  | setSubmenuForItem (value : Word) (item : Address)
  | itemInit (self_ : Address) (str : Option (List Byte)) (act : Word)
    (keyEquiv : Option (List Byte))
  | separatorItem (obj : Address)
  | itemSetTarget (self_ : Address) (value : Word)
  | itemSetSubmenu (self_ : Address) (value : Word)
  | itemSetEnabled (self_ : Address) (flag : Bool)
  | itemSetTag (self_ : Address) (value : Word)

def perform (m : Memory) : Action → Memory
  | .initWithTitle self_ str => nsMenuInitWithTitle m self_ str
  | .addItem self_ item => nsMenuAddItem m self_ item
  | .setSubmenuForItem value item => nsMenuItemSetSubmenu m item value
  | .itemInit self_ str act keyEquiv => nsMenuItemInit m self_ str act keyEquiv
  | .separatorItem obj => nsMenuItemSeparator m obj
  | .itemSetTarget self_ value => nsMenuItemSetTarget m self_ value
  | .itemSetSubmenu self_ value => nsMenuItemSetSubmenu m self_ value
  | .itemSetEnabled self_ flag => nsMenuItemSetEnabled m self_ flag
  | .itemSetTag self_ value => nsMenuItemSetTag m self_ value

/-! ### What a call writes to -/

/-- The object and what the source lays over it. -/
def menuBlock (obj : Address) : Block := ⟨obj, 796⟩
def itemBlock (obj : Address) : Block := ⟨obj, 345⟩

example : MENU_DATA_OFFSET + endFrom 0 menuFields = 796 := by decide

example : MENU_DATA_OFFSET + endFrom 0 itemFields = 345 := by decide

/-- The messages to the null object write nothing. -/
def unlessNull (b : Block) : Block := if b.base = 0 then ⟨0, 0⟩ else b

def Action.block : Action → Block
  | .initWithTitle self_ _ => menuBlock self_
  | .addItem self_ _ => unlessNull (menuBlock self_)
  | .setSubmenuForItem _ item => unlessNull (itemBlock item)
  | .itemInit self_ _ _ _ => itemBlock self_
  | .separatorItem obj => ⟨obj, 512⟩
  | .itemSetTarget self_ _ => unlessNull (itemBlock self_)
  | .itemSetSubmenu self_ _ => unlessNull (itemBlock self_)
  | .itemSetEnabled self_ _ => unlessNull (itemBlock self_)
  | .itemSetTag self_ _ => unlessNull (itemBlock self_)

section Writes
variable {m : Memory} {self_ : Address} {size : Nat} {b : Block}

theorem toNat_field {obj : Address} {offset : Nat}
    (h : obj.toNat + (MENU_DATA_OFFSET + offset) < 2 ^ 64) :
    (field obj offset).toNat = obj.toNat + (MENU_DATA_OFFSET + offset) := toNat_add_ofNat h

theorem field_add (obj : Address) (offset n : Nat) :
    field obj (offset + n) = field obj offset + BitVec.ofNat 64 n := by
  rw [field, field, ← Nat.add_assoc, BitVec.ofNat_add, BitVec.add_assoc]

/-- A field of an object is off what the object is off. -/
theorem off_field (hfits : Block.Fits ⟨self_, size⟩) (hoff : Block.Off ⟨self_, size⟩ b)
    {offset n : Nat} (h : MENU_DATA_OFFSET + offset + n ≤ size) :
    Block.Off ⟨field self_ offset, n⟩ b := by
  unfold Block.Fits at hfits
  dsimp only at hfits
  have hfield : (field self_ offset).toNat = self_.toNat + (MENU_DATA_OFFSET + offset) :=
    toNat_field (by omega)
  refine hoff.part ?_ ?_
  · dsimp only
    omega
  · dsimp only
    omega

/-- What writes to a field of an object only. -/
theorem keeps_field {m' : Memory} (hfits : Block.Fits ⟨self_, size⟩)
    (hoff : Block.Off ⟨self_, size⟩ b) {offset n : Nat} (h : MENU_DATA_OFFSET + offset + n ≤ size)
    (hwrite : ∀ x, ¬ Within (field self_ offset) n x → m' x = m x) : m.Keeps m' b := by
  have hfield := off_field hfits hoff h
  unfold Block.Fits at hfits
  dsimp only at hfits
  have hat : (field self_ offset).toNat = self_.toNat + (MENU_DATA_OFFSET + offset) :=
    toNat_field (by omega)
  intro x hlo hhi
  refine hwrite x fun hx => ?_
  unfold Within at hx
  simp only [Block.Off] at hfield
  bv_omega

theorem keeps_copyString (m : Memory) {bytesField lenField cap : Nat}
    (hbytes : Block.Off ⟨field self_ bytesField, cap⟩ b)
    (hlen : Block.Off ⟨field self_ lenField, 8⟩ b)
    (hbytesFits : (field self_ bytesField).toNat + cap < 2 ^ 64)
    (hlenFits : (field self_ lenField).toNat + 8 ≤ 2 ^ 64) (str : Option (List Byte)) :
    m.Keeps (copyString m self_ bytesField lenField cap str) b := by
  cases str with
  | none => exact Memory.Keeps.refl m b
  | some bytes =>
    have hlength : (bytes.take cap).length ≤ cap := List.length_take_le cap bytes
    have hcopied : m.Keeps (m.writeBytes (field self_ bytesField) (bytes.take cap)) b := by
      refine Memory.keeps_writeBytes (by omega) ?_
      refine hbytes.part (Nat.le_refl _) ?_
      exact Nat.add_le_add_left hlength _
    exact hcopied.trans (Memory.keeps_writeWord hlenFits hlen)

/-- A string that is copied into an object. -/
theorem keeps_string (m : Memory) (hfits : Block.Fits ⟨self_, size⟩)
    (hoff : Block.Off ⟨self_, size⟩ b) {bytesField lenField cap : Nat}
    (hbytes : MENU_DATA_OFFSET + bytesField + cap ≤ size)
    (hlen : MENU_DATA_OFFSET + lenField + 8 ≤ size) (str : Option (List Byte)) :
    m.Keeps (copyString m self_ bytesField lenField cap str) b := by
  have hbytesOff := off_field hfits hoff hbytes
  have hlenOff := off_field hfits hoff hlen
  unfold Block.Fits at hfits
  dsimp only at hfits
  refine keeps_copyString m hbytesOff hlenOff ?_ ?_ str
  · rw [toNat_field (by omega)]
    omega
  · rw [toNat_field (by omega)]
    omega

end Writes

section Calls
variable {self_ : Address} {b : Block}

/-- A message to an item that writes to a field, and nothing where the item is null. -/
theorem keeps_itemField {m m' : Memory} (hfits : (unlessNull (itemBlock self_)).Fits)
    (hoff : Block.Off (unlessNull (itemBlock self_)) b) {offset n : Nat}
    (h : MENU_DATA_OFFSET + offset + n ≤ 345)
    (hwrite : ∀ x, ¬ Within (field self_ offset) n x → m' x = m x) :
    m.Keeps (if self_ = 0 then m else m') b := by
  by_cases hnull : self_ = 0
  · rw [if_pos hnull]
    exact Memory.Keeps.refl m b
  · have hblock : unlessNull (itemBlock self_) = ⟨self_, 345⟩ := if_neg hnull
    rw [hblock] at hfits hoff
    rw [if_neg hnull]
    exact keeps_field hfits hoff h hwrite

theorem keeps_setField (m : Memory) (hfits : (unlessNull (itemBlock self_)).Fits)
    (hoff : Block.Off (unlessNull (itemBlock self_)) b) {offset : Nat}
    (h : MENU_DATA_OFFSET + offset + 8 ≤ 345) (value : Word) :
    m.Keeps (setField m self_ offset value) b :=
  keeps_itemField hfits hoff h fun _ hx => Memory.writeWord_outside m value (Nat.le_of_not_lt hx)

theorem keeps_setEnabled (m : Memory) (hfits : (unlessNull (itemBlock self_)).Fits)
    (hoff : Block.Off (unlessNull (itemBlock self_)) b) (flag : Bool) :
    m.Keeps (nsMenuItemSetEnabled m self_ flag) b := by
  have henabledIn : MENU_DATA_OFFSET + enabled + 1 ≤ 345 := by decide
  exact keeps_itemField hfits hoff henabledIn fun _ => Memory.writeByte_off

theorem keeps_initWithTitle (m : Memory) (hfits : (menuBlock self_).Fits)
    (hoff : Block.Off (menuBlock self_) b) (str : Option (List Byte)) :
    m.Keeps (nsMenuInitWithTitle m self_ str) b := by
  have hcountIn : MENU_DATA_OFFSET + item_count + 4 ≤ 796 := by decide
  have htitleIn : MENU_DATA_OFFSET + title + 255 ≤ 796 := by decide
  have hlenIn : MENU_DATA_OFFSET + title_len + 8 ≤ 796 := by decide
  have hcount : m.Keeps (m.writeU32 (field self_ item_count) 0) b :=
    keeps_field hfits hoff hcountIn fun _ => Memory.writeU32_off
  exact hcount.trans (keeps_string _ hfits hoff htitleIn hlenIn str)

theorem nsMenuAddItem_null (m : Memory) {item : Address} (h : self_ = 0 ∨ item = 0) :
    nsMenuAddItem m self_ item = m := if_pos h

theorem nsMenuAddItem_full {m : Memory} (item : Address)
    (h : ¬(m.readU32 (field self_ item_count)).toNat < 64) : nsMenuAddItem m self_ item = m := by
  unfold nsMenuAddItem
  by_cases hnull : self_ = 0 ∨ item = 0
  · exact if_pos hnull
  · rw [if_neg hnull]
    exact if_neg h

/-- The object with one more item. -/
def appended (m : Memory) (self_ item : Address) (idx : Nat) : Memory :=
  let listed := m.writeWord (field self_ (items + 8 * idx)) item
  listed.writeU32 (field self_ item_count) (listed.readU32 (field self_ item_count) + 1)

theorem nsMenuAddItem_room {m : Memory} {item : Address} (hnull : ¬(self_ = 0 ∨ item = 0))
    (h : (m.readU32 (field self_ item_count)).toNat < 64) :
    nsMenuAddItem m self_ item =
      appended m self_ item (m.readU32 (field self_ item_count)).toNat := by
  unfold nsMenuAddItem
  rw [if_neg hnull]
  exact if_pos h

theorem keeps_appended (m : Memory) (hfits : Block.Fits ⟨self_, 796⟩)
    (hoff : Block.Off ⟨self_, 796⟩ b) (item : Address) {idx : Nat} (hidx : idx < 64) :
    m.Keeps (appended m self_ item idx) b := by
  have hslotIn : MENU_DATA_OFFSET + (items + 8 * idx) + 8 ≤ 796 := by
    unfold MENU_DATA_OFFSET items
    omega
  have hcountIn : MENU_DATA_OFFSET + item_count + 4 ≤ 796 := by decide
  have hlisted : m.Keeps (m.writeWord (field self_ (items + 8 * idx)) item) b :=
    keeps_field hfits hoff hslotIn fun _ hx => Memory.writeWord_outside m item (Nat.le_of_not_lt hx)
  exact hlisted.trans (keeps_field hfits hoff hcountIn fun _ => Memory.writeU32_off)

theorem keeps_addItem (m : Memory) (hfits : (unlessNull (menuBlock self_)).Fits)
    (hoff : Block.Off (unlessNull (menuBlock self_)) b) (item : Address) :
    m.Keeps (nsMenuAddItem m self_ item) b := by
  by_cases hnull : self_ = 0 ∨ item = 0
  · rw [nsMenuAddItem_null m hnull]
    exact Memory.Keeps.refl m b
  · have hblock : unlessNull (menuBlock self_) = ⟨self_, 796⟩ :=
      if_neg fun hself => hnull (.inl hself)
    rw [hblock] at hfits hoff
    by_cases hroom : (m.readU32 (field self_ item_count)).toNat < 64
    · rw [nsMenuAddItem_room hnull hroom]
      exact keeps_appended m hfits hoff item hroom
    · rw [nsMenuAddItem_full item hroom]
      exact Memory.Keeps.refl m b

theorem keeps_itemInit (m : Memory) (hfits : (itemBlock self_).Fits)
    (hoff : Block.Off (itemBlock self_) b) (str : Option (List Byte)) (act : Word)
    (keyEquiv : Option (List Byte)) : m.Keeps (nsMenuItemInit m self_ str act keyEquiv) b := by
  have hactionIn : MENU_DATA_OFFSET + action + 8 ≤ 345 := by decide
  have henabledIn : MENU_DATA_OFFSET + enabled + 1 ≤ 345 := by decide
  have hseparatorIn : MENU_DATA_OFFSET + separator + 1 ≤ 345 := by decide
  have htitleIn : MENU_DATA_OFFSET + title + 255 ≤ 345 := by decide
  have hlenIn : MENU_DATA_OFFSET + title_len + 8 ≤ 345 := by decide
  have hkeyIn : MENU_DATA_OFFSET + key_equiv + 15 ≤ 345 := by decide
  have hkeyLenIn : MENU_DATA_OFFSET + key_equiv_len + 8 ≤ 345 := by decide
  have hflag (m : Memory) {offset : Nat} (h : MENU_DATA_OFFSET + offset + 1 ≤ 345) (v : Byte) :
      m.Keeps (m.writeByte (field self_ offset) v) b :=
    keeps_field hfits hoff h fun _ => Memory.writeByte_off
  have hacted : m.Keeps (m.writeWord (field self_ action) act) b :=
    keeps_field hfits hoff hactionIn fun _ hx => Memory.writeWord_outside m act (Nat.le_of_not_lt hx)
  have hplain := (hacted.trans (hflag _ henabledIn 1)).trans (hflag _ hseparatorIn 0)
  have htitle := hplain.trans (keeps_string _ hfits hoff htitleIn hlenIn str)
  exact htitle.trans (keeps_string _ hfits hoff hkeyIn hkeyLenIn keyEquiv)

theorem keeps_separator (m : Memory) (hfits : Block.Fits ⟨self_, 512⟩)
    (hoff : Block.Off ⟨self_, 512⟩ b) : m.Keeps (nsMenuItemSeparator m self_) b := by
  have hseparatorIn : MENU_DATA_OFFSET + separator + 1 ≤ 512 := by decide
  have hzeroed : m.Keeps (m.calloc self_ 512) b := by
    intro x hlo hhi
    refine Memory.calloc_off fun hx => ?_
    unfold Block.Fits at hfits
    unfold Within at hx
    simp only [Block.Off] at hoff hfits
    bv_omega
  exact hzeroed.trans (keeps_field hfits hoff hseparatorIn fun _ => Memory.writeByte_off)

/-- A call leaves the blocks that its own is off. -/
theorem keeps_perform (m : Memory) {a : Action} (hfits : a.block.Fits)
    (hoff : Block.Off a.block b) : m.Keeps (perform m a) b := by
  have htargetIn : MENU_DATA_OFFSET + target + 8 ≤ 345 := by decide
  have hsubmenuIn : MENU_DATA_OFFSET + submenu + 8 ≤ 345 := by decide
  have htagIn : MENU_DATA_OFFSET + tag + 8 ≤ 345 := by decide
  cases a with
  | initWithTitle self_ str => exact keeps_initWithTitle m hfits hoff str
  | addItem self_ item => exact keeps_addItem m hfits hoff item
  | setSubmenuForItem value item => exact keeps_setField m hfits hoff hsubmenuIn value
  | itemInit self_ str act keyEquiv => exact keeps_itemInit m hfits hoff str act keyEquiv
  | separatorItem obj => exact keeps_separator m hfits hoff
  | itemSetTarget self_ value => exact keeps_setField m hfits hoff htargetIn value
  | itemSetSubmenu self_ value => exact keeps_setField m hfits hoff hsubmenuIn value
  | itemSetEnabled self_ flag => exact keeps_setEnabled m hfits hoff flag
  | itemSetTag self_ value => exact keeps_setField m hfits hoff htagIn value

end Calls

end Grafted.Appkit.Menu
