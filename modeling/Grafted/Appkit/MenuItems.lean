import Grafted.Appkit.Menu

/-! The items of a menu.

Where the object of a menu has no byte in common with the others, a menu holds the first 64 of the
items that were added since it was made, in order (`menu_holds`). The allocator gives an object 512
bytes and a menu writes 796: the title of an object after it is read as its count
(`itemCount_title`). -/
namespace Grafted.Appkit.Menu
open ByteMemory
open X86 (Within readBytes words_append)

/-! ### What a menu holds -/

structure Holds (m : Memory) (menu : Address) (held : List Word) : Prop where
  count : m.readU32 (field menu item_count) = BitVec.ofNat 32 held.length
  words : m.Words (field menu items) held
  room : held.length ≤ 64

section Holding
variable {m m' : Memory} {menu : Address} {held : List Word}

theorem toNat_count (hfits : (menuBlock menu).Fits) :
    (field menu item_count).toNat = menu.toNat + 792 := by
  have hspace : menu.toNat + 796 < 2 ^ 64 := hfits
  refine toNat_field ?_
  unfold MENU_DATA_OFFSET item_count
  omega

theorem toNat_items (hfits : (menuBlock menu).Fits) :
    (field menu items).toNat = menu.toNat + 280 := by
  have hspace : menu.toNat + 796 < 2 ^ 64 := hfits
  refine toNat_field ?_
  unfold MENU_DATA_OFFSET items
  omega

theorem toNat_slot (hfits : (menuBlock menu).Fits) {idx : Nat} (hidx : idx < 64) :
    (field menu (items + 8 * idx)).toNat = menu.toNat + 280 + 8 * idx := by
  have hspace : menu.toNat + 796 < 2 ^ 64 := hfits
  have hitemsAt := toNat_items hfits
  rw [field_add, toNat_add_ofNat (by omega), hitemsAt]

theorem Holds.keep (h : Holds m menu held) (hfits : (menuBlock menu).Fits)
    (hkeeps : m.Keeps m' (menuBlock menu)) : Holds m' menu held := by
  have hroom := h.room
  have hspace : menu.toNat + 796 < 2 ^ 64 := hfits
  have hcountAt := toNat_count hfits
  have hitemsAt := toNat_items hfits
  have hbase : (menuBlock menu).base = menu := rfl
  have hsize : (menuBlock menu).size = 796 := rfl
  refine ⟨?_, ?_, hroom⟩
  · rw [hkeeps.readU32 hfits, h.count]
    · rw [hbase]
      omega
    · rw [hbase, hsize]
      omega
  · refine hkeeps.words hfits h.words ?_ ?_
    · rw [hbase]
      omega
    · rw [hbase, hsize]
      omega

theorem Holds.count_toNat (h : Holds m menu held) :
    (m.readU32 (field menu item_count)).toNat = held.length := by
  have hroom := h.room
  rw [h.count, BitVec.toNat_ofNat]
  omega

theorem Holds.itemCount (h : Holds m menu held) (hmenu : menu ≠ 0) :
    nsMenuItemCount m menu = BitVec.ofNat 64 held.length := by
  have hroom := h.room
  have hcount := h.count_toNat
  rw [nsMenuItemCount, if_neg hmenu]
  refine BitVec.eq_of_toNat_eq ?_
  rw [BitVec.toNat_setWidth, hcount, BitVec.toNat_ofNat]

/-- A menu that was made has no items. -/
theorem holds_initWithTitle (m : Memory) (hfits : (menuBlock menu).Fits)
    (str : Option (List Byte)) : Holds (nsMenuInitWithTitle m menu str) menu [] := by
  have hspace : menu.toNat + 796 < 2 ^ 64 := hfits
  have hcountAt := toNat_count hfits
  have htitleAt : (field menu title).toNat = menu.toNat + 16 := toNat_field
    (by unfold MENU_DATA_OFFSET title; omega)
  have hlenAt : (field menu title_len).toNat = menu.toNat + 272 := toNat_field
    (by unfold MENU_DATA_OFFSET title_len; omega)
  refine ⟨?_, trivial, Nat.zero_le 64⟩
  have hkeeps : Memory.Keeps (m.writeU32 (field menu item_count) 0)
      (nsMenuInitWithTitle m menu str) ⟨field menu item_count, 4⟩ := by
    refine keeps_copyString _ ?_ ?_ ?_ ?_ str
    · left
      dsimp only
      omega
    · left
      dsimp only
      omega
    · omega
    · omega
  rw [hkeeps.readU32 _ (Nat.le_refl _) (Nat.le_refl _), Memory.readU32_writeU32]
  · rfl
  · unfold Block.Fits
    dsimp only
    omega

/-- A pointer is stored in the next slot. -/
theorem words_listed (h : m.Words (field menu items) held) (hfits : (menuBlock menu).Fits)
    (hroom : held.length < 64) (item : Address) :
    (m.writeWord (field menu (items + 8 * held.length)) item).Words (field menu items)
      (held ++ [item]) := by
  have hspace : menu.toNat + 796 < 2 ^ 64 := hfits
  have hitemsAt := toNat_items hfits
  have hslotAt := toNat_slot hfits hroom
  have hkept : m.Keeps (m.writeWord (field menu (items + 8 * held.length)) item)
      ⟨field menu items, 8 * held.length⟩ := by
    refine Memory.keeps_writeWord (by omega) (.inr ?_)
    dsimp only
    omega
  have hheld := hkept.words (by unfold Block.Fits; dsimp only; omega) h
    (Nat.le_refl _) (Nat.le_refl _)
  refine words_append.mpr ⟨hheld, ?_, trivial⟩
  rw [← field_add, Memory.readWord_writeWord]

/-- The count is after the slots. -/
theorem readU32_listed (m : Memory) (hfits : (menuBlock menu).Fits) {idx : Nat} (hidx : idx < 64)
    (item : Address) :
    (m.writeWord (field menu (items + 8 * idx)) item).readU32 (field menu item_count) =
      m.readU32 (field menu item_count) := by
  have hspace : menu.toNat + 796 < 2 ^ 64 := hfits
  have hcountAt := toNat_count hfits
  have hslotAt := toNat_slot hfits hidx
  have hkept : m.Keeps (m.writeWord (field menu (items + 8 * idx)) item)
      ⟨field menu item_count, 4⟩ := by
    refine Memory.keeps_writeWord (by omega) (.inl ?_)
    dsimp only
    omega
  refine hkept.readU32 ?_ (Nat.le_refl _) (Nat.le_refl _)
  unfold Block.Fits
  dsimp only
  omega

theorem holds_appended (h : Holds m menu held) (hfits : (menuBlock menu).Fits)
    (hroom : held.length < 64) (item : Address) :
    Holds (appended m menu item held.length) menu (held ++ [item]) := by
  have hspace : menu.toNat + 796 < 2 ^ 64 := hfits
  have hcountAt := toNat_count hfits
  have hitemsAt := toNat_items hfits
  have hlength : (held ++ [item]).length = held.length + 1 := List.length_append
  have hlisted := words_listed h.words hfits hroom item
  have hkept : Memory.Keeps (m.writeWord (field menu (items + 8 * held.length)) item)
      (appended m menu item held.length) ⟨field menu items, 8 * (held.length + 1)⟩ := by
    refine Memory.keeps_writeU32 (by omega) (.inr ?_)
    dsimp only
    omega
  refine ⟨?_, ?_, ?_⟩
  · rw [appended, Memory.readU32_writeU32, readU32_listed m hfits hroom, h.count, hlength,
      BitVec.ofNat_add]
    rfl
  · refine hkept.words (by unfold Block.Fits; dsimp only; omega) hlisted (Nat.le_refl _) ?_
    exact Nat.le_of_eq (by rw [hlength])
  · rw [hlength]
    exact hroom

theorem holds_addItem (h : Holds m menu held) (hfits : (menuBlock menu).Fits) (hmenu : menu ≠ 0)
    {item : Address} (hitem : item ≠ 0) :
    Holds (nsMenuAddItem m menu item) menu
      (if held.length < 64 then held ++ [item] else held) := by
  have hcount := h.count_toNat
  have hnull : ¬(menu = 0 ∨ item = 0) := not_or.mpr ⟨hmenu, hitem⟩
  by_cases hroom : held.length < 64
  · rw [if_pos hroom, nsMenuAddItem_room hnull (by rw [hcount]; exact hroom), hcount]
    exact holds_appended h hfits hroom item
  · rw [if_neg hroom, nsMenuAddItem_full item (by rw [hcount]; exact hroom)]
    exact h

end Holding

/-! ### Runs -/

/-- The items that were added since the menu was made. -/
def added (menu : Address) (held : List Word) : Action → List Word
  | .initWithTitle self_ _ => if self_ = menu then [] else held
  | .addItem self_ item => if self_ = menu ∧ item ≠ 0 then held ++ [item] else held
  | _ => held

/-- A call on the menu. -/
def Action.On (menu : Address) : Action → Prop
  | .initWithTitle self_ _ => self_ = menu
  | .addItem self_ _ => self_ = menu
  | _ => False

instance (menu : Address) (a : Action) : Decidable (a.On menu) :=
  match a with
  | .initWithTitle self_ _ => inferInstanceAs (Decidable (self_ = menu))
  | .addItem self_ _ => inferInstanceAs (Decidable (self_ = menu))
  | .setSubmenuForItem _ _ => .isFalse id
  | .itemInit _ _ _ _ => .isFalse id
  | .separatorItem _ => .isFalse id
  | .itemSetTarget _ _ => .isFalse id
  | .itemSetSubmenu _ _ => .isFalse id
  | .itemSetEnabled _ _ => .isFalse id
  | .itemSetTag _ _ => .isFalse id

/-- It is on the menu, or on an object that has no byte in common with it. -/
def Action.Clear (menu : Address) (a : Action) : Prop :=
  a.On menu ∨ a.block.Fits ∧ Block.Off a.block (menuBlock menu)

instance (menu : Address) (a : Action) : Decidable (a.Clear menu) :=
  inferInstanceAs (Decidable (_ ∨ _))

theorem take_append_one {α : Type} (l : List α) (x : α) (n : Nat) :
    (l ++ [x]).take n = if (l.take n).length < n then l.take n ++ [x] else l.take n := by
  rw [List.length_take]
  by_cases h : l.length < n
  · have hlength : (l ++ [x]).length ≤ n := by
      rw [List.length_append]
      exact h
    rw [List.take_of_length_le hlength, List.take_of_length_le (Nat.le_of_lt h), if_pos (by omega)]
  · rw [List.take_append_of_le_length (Nat.le_of_not_lt h), if_neg (by omega)]

section Runs
variable {menu : Address}

theorem added_off {a : Action} (h : ¬a.On menu) (held : List Word) : added menu held a = held := by
  cases a with
  | initWithTitle self_ str => exact if_neg h
  | addItem self_ item => exact if_neg fun hself => h hself.1
  | _ => rfl

theorem holds_step {m : Memory} {held : List Word} (h : Holds m menu (held.take 64))
    (hfits : (menuBlock menu).Fits) (hmenu : menu ≠ 0) {a : Action} (hclear : a.Clear menu) :
    Holds (perform m a) menu ((added menu held a).take 64) := by
  by_cases hon : a.On menu
  · cases a with
    | initWithTitle self_ str =>
      obtain rfl : self_ = menu := hon
      rw [added, if_pos rfl, List.take_nil]
      exact holds_initWithTitle m hfits str
    | addItem self_ item =>
      obtain rfl : self_ = menu := hon
      by_cases hitem : item = 0
      · rw [added, if_neg fun hne => hne.2 hitem, perform, nsMenuAddItem_null m (.inr hitem)]
        exact h
      · rw [added, if_pos ⟨rfl, hitem⟩, take_append_one]
        exact holds_addItem h hfits hmenu hitem
    | _ => exact absurd hon id
  · obtain ⟨hblock, hoff⟩ := hclear.resolve_left hon
    rw [added_off hon]
    exact h.keep hfits (keeps_perform m hblock hoff)

theorem holds_run {m : Memory} {held : List Word} (h : Holds m menu (held.take 64))
    (hfits : (menuBlock menu).Fits) (hmenu : menu ≠ 0) {actions : List Action}
    (hclear : ∀ a ∈ actions, a.Clear menu) :
    Holds (actions.foldl perform m) menu ((actions.foldl (added menu) held).take 64) := by
  induction actions generalizing m held with
  | nil => exact h
  | cons a rest ih =>
    have hstep := holds_step h hfits hmenu (hclear a List.mem_cons_self)
    exact ih hstep fun a' ha => hclear a' (List.mem_cons_of_mem a ha)

/-- From the call that made it, in any memory, whatever is called in any order: a menu holds the
first 64 of the items that were added since it was made, and answers how many these are. -/
theorem menu_holds (m : Memory) (hmenu : menu ≠ 0) (hfits : (menuBlock menu).Fits)
    (str : Option (List Byte)) {actions : List Action} (hclear : ∀ a ∈ actions, a.Clear menu) :
    Holds (actions.foldl perform (nsMenuInitWithTitle m menu str)) menu
        ((actions.foldl (added menu) []).take 64) ∧
      nsMenuItemCount (actions.foldl perform (nsMenuInitWithTitle m menu str)) menu =
        BitVec.ofNat 64 (min 64 (actions.foldl (added menu) []).length) := by
  have hmade : Holds (nsMenuInitWithTitle m menu str) menu (([] : List Word).take 64) :=
    holds_initWithTitle m hfits str
  have hrun := holds_run hmade hfits hmenu hclear
  have hcount := hrun.itemCount hmenu
  rw [List.length_take] at hcount
  exact ⟨hrun, hcount⟩

/-- Two menus that lie apart, with a null item and an item that is made in between. -/
def twoMenus : List Action :=
  [.initWithTitle 0x2000 none, .addItem 0x1000 0x3000, .addItem 0x2000 0x4000,
    .itemInit 0x4000 (some [70]) 0 none, .addItem 0x1000 0, .addItem 0x1000 0x4000]

theorem menu_holds_two :
    Holds (twoMenus.foldl perform (nsMenuInitWithTitle (fun _ => 0) 0x1000 none)) 0x1000
        [0x3000, 0x4000] ∧
      nsMenuItemCount (twoMenus.foldl perform (nsMenuInitWithTitle (fun _ => 0) 0x1000 none))
        0x1000 = 2 :=
  menu_holds (fun _ => 0) (by decide) (by decide) none (by decide)

end Runs

/-! ### Objects of 512 bytes -/

/-- The count of a menu is after the 512 bytes that the allocator gives it. Where the next object
is so near that its title is there, four bytes of the title are the count. -/
theorem itemCount_title (m : Memory) {menu other : Address} {bytes : List Byte} {k : Nat}
    (hfits : (menuBlock other).Fits) (hmenu : (menuBlock menu).Fits)
    (hat : other.toNat + k = menu.toNat + 776) (hk : k + 4 ≤ min bytes.length 255) :
    (nsMenuInitWithTitle m other (some bytes)).readU32 (field menu item_count) =
      BitVec.ofNat 32 (fromLE ((bytes.drop k).take 4)) := by
  have hspace : other.toNat + 796 < 2 ^ 64 := hfits
  have hcountAt := toNat_count hmenu
  have htitleAt : (field other title).toNat = other.toNat + 16 := toNat_field
    (by unfold MENU_DATA_OFFSET title; omega)
  have hlenAt : (field other title_len).toNat = other.toNat + 272 := toNat_field
    (by unfold MENU_DATA_OFFSET title_len; omega)
  have hcount : field menu item_count = field other title + BitVec.ofNat 64 k := by
    refine BitVec.eq_of_toNat_eq ?_
    rw [toNat_add_ofNat (by omega), hcountAt, htitleAt]
    omega
  have hlength : (bytes.take 255).length = min 255 bytes.length := List.length_take
  have hcopied : readBytes ((m.writeU32 (field other item_count) 0).writeBytes (field other title)
      (bytes.take 255)) (field menu item_count) 4 = (bytes.drop k).take 4 := by
    rw [hcount, Memory.readBytes_written _ _ (by omega) (by omega), List.drop_take, List.take_take,
      Nat.min_eq_left (by omega)]
  have hlen : Memory.Keeps ((m.writeU32 (field other item_count) 0).writeBytes
      (field other title) (bytes.take 255)) (nsMenuInitWithTitle m other (some bytes))
      ⟨field menu item_count, 4⟩ := by
    refine Memory.keeps_writeWord (by omega) (.inr ?_)
    dsimp only
    omega
  rw [hlen.readU32 _ (Nat.le_refl _) (Nat.le_refl _), Memory.readU32, hcopied]
  unfold Block.Fits
  dsimp only
  omega

end Grafted.Appkit.Menu
