import Mathlib.Data.List.Range
import Mathlib.Data.List.Nodup
import Grafted.Base.ByteMemory
import Grafted.Base.PartialMaps
import Grafted.Base.Transition

/-! Windows, and the X windows they are on.

Two maps are kept: a window by its id, and the id by the X window. As long as the X server
gives a new window an id that no live one has, they are mutually inverse after every call, and
an event is of the live window that owns the X window it names (`windows_tracked`). The ids
given out are the numbers from 1 on (`createdIds_eq`). -/
namespace Grafted.Ws.Windows
open ByteMemory PartialMaps Transition Transition.System

/-- `u32`. -/
abbrev WindowID := BitVec 32
/-- `x11::Window`. -/
abbrev Window := BitVec 64
abbrev Atom := BitVec 64

structure ManagedWindow where
  x11Window : Window
  visible : Bool

structure DisplayState where
  wmDelete : Atom
  windows : WindowID → Option ManagedWindow
  nextId : WindowID
  x11ToId : Window → Option WindowID

namespace DisplayState

def opened (wmDelete : Atom) : DisplayState := ⟨wmDelete, fun _ => none, 1, fun _ => none⟩

/-- `xwin` is what the X server gives. -/
def createWindow (ds : DisplayState) (xwin : Window) : DisplayState × WindowID :=
  ({ds with
    nextId := ds.nextId + 1
    x11ToId := insertAt ds.x11ToId xwin ds.nextId
    windows := insertAt ds.windows ds.nextId ⟨xwin, false⟩}, ds.nextId)

def setVisible (ds : DisplayState) (id : WindowID) (visible : Bool) : DisplayState × Bool :=
  match ds.windows id with
  | none => (ds, false)
  | some win => ({ds with windows := insertAt ds.windows id {win with visible := visible}}, true)

def showWindow (ds : DisplayState) (id : WindowID) : DisplayState × Bool := ds.setVisible id true

def hideWindow (ds : DisplayState) (id : WindowID) : DisplayState × Bool := ds.setVisible id false

def destroyWindow (ds : DisplayState) (id : WindowID) : DisplayState × Bool :=
  match ds.windows id with
  | none => (ds, false)
  | some win =>
    ({ds with
      windows := removeAt ds.windows id
      x11ToId := removeAt ds.x11ToId win.x11Window}, true)

/-- The X window a window is on. -/
def x11Of (ds : DisplayState) : WindowID → Option Window :=
  Option.map ManagedWindow.x11Window ∘ ds.windows

end DisplayState

/-! ### Events -/

/-- An event of X, as it is in memory. -/
abbrev XEvent := Vector Byte 192

namespace XEvent

/-- The number of `size` bytes at an offset. -/
def field (xev : XEvent) (offset size : Nat) : Nat :=
  fromLE ((xev.toList.drop offset).take size)

/-- Both `i32` and `u32`. -/
def u32 (xev : XEvent) (offset : Nat) : BitVec 32 := BitVec.ofNat 32 (xev.field offset 4)

def u64 (xev : XEvent) (offset : Nat) : BitVec 64 := BitVec.ofNat 64 (xev.field offset 8)

def evType (xev : XEvent) : BitVec 32 := xev.u32 0

/-- The X window the event names. -/
def xwin (xev : XEvent) : Window := xev.u64 32

end XEvent

inductive DisplayEvent where
  | expose (window : WindowID)
  | keyDown (window : WindowID) (keycode : BitVec 32)
  | keyUp (window : WindowID) (keycode : BitVec 32)
  | mouseDown (window : WindowID) (x y button : BitVec 32)
  | mouseUp (window : WindowID) (x y button : BitVec 32)
  | mouseMove (window : WindowID) (x y : BitVec 32)
  | windowClose (window : WindowID)
  | resize (window : WindowID) (width height : BitVec 32)
deriving DecidableEq

def DisplayEvent.window : DisplayEvent → WindowID
  | .expose window | .keyDown window _ | .keyUp window _ | .mouseDown window _ _ _
  | .mouseUp window _ _ _ | .mouseMove window _ _ | .windowClose window | .resize window _ _ => window

def EXPOSE : BitVec 32 := 12
def KEY_PRESS : BitVec 32 := 2
def KEY_RELEASE : BitVec 32 := 3
def BUTTON_PRESS : BitVec 32 := 4
def BUTTON_RELEASE : BitVec 32 := 5
def MOTION_NOTIFY : BitVec 32 := 6
def CONFIGURE_NOTIFY : BitVec 32 := 22
def CLIENT_MESSAGE : BitVec 32 := 33

/-- The event for the application, of a window that is known. -/
def translate (wmDelete : Atom) (xev : XEvent) (wid : WindowID) : Option DisplayEvent :=
  if xev.evType = EXPOSE then some (.expose wid)
  else if xev.evType = KEY_PRESS then some (.keyDown wid (xev.u32 84))
  else if xev.evType = KEY_RELEASE then some (.keyUp wid (xev.u32 84))
  else if xev.evType = BUTTON_PRESS then
    some (.mouseDown wid (xev.u32 64) (xev.u32 68) (xev.u32 84))
  else if xev.evType = BUTTON_RELEASE then
    some (.mouseUp wid (xev.u32 64) (xev.u32 68) (xev.u32 84))
  else if xev.evType = MOTION_NOTIFY then some (.mouseMove wid (xev.u32 64) (xev.u32 68))
  else if xev.evType = CONFIGURE_NOTIFY then some (.resize wid (xev.u32 56) (xev.u32 60))
  else if xev.evType = CLIENT_MESSAGE then
    if xev.u64 56 = wmDelete then some (.windowClose wid) else none
  else none

/-- A branch was taken, or what comes after it. -/
theorem eq_or_of_ite {c : Prop} [Decidable c] {first event : DisplayEvent}
    {later : Option DisplayEvent} (h : (if c then some first else later) = some event) :
    first = event ∨ later = some event := by
  by_cases hc : c
  · rw [if_pos hc] at h
    exact .inl (Option.some.inj h)
  · rw [if_neg hc] at h
    exact .inr h

theorem window_translate {wmDelete : Atom} {xev : XEvent} {wid : WindowID} {event : DisplayEvent}
    (h : translate wmDelete xev wid = some event) : event.window = wid := by
  unfold translate at h
  iterate 7
    rcases eq_or_of_ite h with rfl | h
    · rfl
  split_ifs at h
  obtain rfl := Option.some.inj h
  rfl

/-- The turns of the loop: what was pending, in order. -/
def DisplayState.pollEvents (ds : DisplayState) : List XEvent → List DisplayEvent
  | [] => []
  | xev :: pending =>
    match ds.x11ToId xev.xwin with
    | none => ds.pollEvents pending
    | some wid => (translate ds.wmDelete xev wid).toList ++ ds.pollEvents pending

/-- An event comes from one of X, of a window that is known. -/
theorem DisplayState.mem_pollEvents {ds : DisplayState} {pending : List XEvent}
    {event : DisplayEvent} (h : event ∈ ds.pollEvents pending) :
    ∃ xev ∈ pending, ∃ wid, ds.x11ToId xev.xwin = some wid ∧
      translate ds.wmDelete xev wid = some event := by
  induction pending with
  | nil => exact nomatch h
  | cons xev rest ih =>
    have later (hrest : event ∈ ds.pollEvents rest) : ∃ xev' ∈ xev :: rest, ∃ wid,
        ds.x11ToId xev'.xwin = some wid ∧ translate ds.wmDelete xev' wid = some event := by
      obtain ⟨xev', hmem, hxev'⟩ := ih hrest
      exact ⟨xev', List.mem_cons_of_mem xev hmem, hxev'⟩
    unfold pollEvents at h
    cases hid : ds.x11ToId xev.xwin with
    | none =>
      rw [hid] at h
      exact later h
    | some wid =>
      rw [hid] at h
      rcases List.mem_append.mp h with h | h
      · exact ⟨xev, List.mem_cons_self, wid, hid, Option.mem_toList.mp h⟩
      · exact later h

/-! ### Calls -/

inductive Action where
  /-- With the atom of `WM_DELETE_WINDOW`, where a display can be opened. -/
  | initDisplay (display : Option Atom)
  | createWindow (xwin : Window)
  | showWindow (id : WindowID)
  | hideWindow (id : WindowID)
  | destroyWindow (id : WindowID)
  | pollEvents (pending : List XEvent)

inductive Answer where
  | ok (value : Bool)
  | created (id : Option WindowID)
  | events (events : List DisplayEvent)

def Action.isCreate : Action → Bool
  | .createWindow _ => true
  | _ => false

def Answer.ids : Answer → List WindowID
  | .created id => id.toList
  | _ => []

/-- What a call does to the state of an open display, and what it answers. -/
def DisplayState.call (ds : DisplayState) : Action → DisplayState × Answer
  | .initDisplay _ => (ds, .ok true)
  | .createWindow xwin => ((ds.createWindow xwin).1, .created (some (ds.createWindow xwin).2))
  | .showWindow id => ((ds.showWindow id).1, .ok (ds.showWindow id).2)
  | .hideWindow id => ((ds.hideWindow id).1, .ok (ds.hideWindow id).2)
  | .destroyWindow id => ((ds.destroyWindow id).1, .ok (ds.destroyWindow id).2)
  | .pollEvents pending => (ds, .events (ds.pollEvents pending))

/-- What is answered before there is one. -/
def closed : Action → Answer
  | .createWindow _ => .created none
  | .pollEvents _ => .events []
  | _ => .ok false

/-- A call, with the state behind the lock. -/
def step : Option DisplayState → Action → Option DisplayState × Answer
  | some ds, action => (some (ds.call action).1, (ds.call action).2)
  | none, .initDisplay (some wmDelete) => (some (.opened wmDelete), .ok true)
  | none, action => (none, closed action)

def display : System (Option DisplayState) Action Answer := ⟨step⟩

abbrev Call := Event (Option DisplayState) Action Answer

/-- The X server gives a new window an id that no live one has. -/
def FreshWindow (e : Call) : Prop :=
  ∀ ds xwin, e.before = some ds → e.action = .createWindow xwin →
    ∀ id win, ds.windows id = some win → win.x11Window ≠ xwin

/-- The maps are mutually inverse. -/
def Tracked (s : Option DisplayState) : Prop := ∀ ds, s = some ds → Inverse ds.x11Of ds.x11ToId

/-- Every event polled carries the id of a window that is live and owns the X window that
one of the pending events names. -/
def EventsLive (e : Call) : Prop :=
  ∀ ds pending events, e.before = some ds → e.action = .pollEvents pending →
    e.answer = .events events → ∀ event ∈ events, ∃ xev ∈ pending, ∃ win,
      translate ds.wmDelete xev event.window = some event ∧
        ds.windows event.window = some win ∧ win.x11Window = xev.xwin

/-- The ids that were given out. -/
def createdIds (actions : List Action) : List WindowID :=
  (display.events none actions).flatMap fun e => e.answer.ids

/-! ### The ids -/

/-- The next window is the `n`th, and the ids of the live ones are numbers before it. -/
structure Numbered (n : Nat) (ds : DisplayState) : Prop where
  pos : 1 ≤ n
  next : ds.nextId = BitVec.ofNat 32 n
  live : ∀ id win, ds.windows id = some win → ∃ k, 1 ≤ k ∧ k < n ∧ id = BitVec.ofNat 32 k

/-- No window is new. -/
theorem Numbered.same {n : Nat} {ds ds' : DisplayState} (h : Numbered n ds)
    (hnext : ds'.nextId = ds.nextId)
    (hlive : ∀ id win, ds'.windows id = some win → ∃ win', ds.windows id = some win') :
    Numbered n ds' := by
  refine ⟨h.pos, hnext.trans h.next, fun id win hid => ?_⟩
  obtain ⟨win', hid'⟩ := hlive id win hid
  exact h.live id win' hid'

theorem numbered_createWindow {n : Nat} {ds : DisplayState} (h : Numbered n ds) (xwin : Window) :
    Numbered (n + 1) (ds.createWindow xwin).1 := by
  refine ⟨Nat.le_add_left 1 n, ?_, fun id win hid => ?_⟩
  · show ds.nextId + 1 = _
    rw [h.next, BitVec.ofNat_add]
    rfl
  · rcases insertAt_eq_some.mp hid with ⟨rfl, -⟩ | ⟨-, hold⟩
    · exact ⟨n, h.pos, Nat.lt_succ_self n, h.next⟩
    · obtain ⟨k, hpos, hk, hid⟩ := h.live id win hold
      exact ⟨k, hpos, Nat.lt_succ_of_lt hk, hid⟩

theorem numbered_setVisible {n : Nat} {ds : DisplayState} (h : Numbered n ds) (id : WindowID)
    (visible : Bool) : Numbered n (ds.setVisible id visible).1 := by
  unfold DisplayState.setVisible
  cases hwin : ds.windows id with
  | none => exact h
  | some win =>
    refine h.same rfl fun id' win' hid' => ?_
    rcases insertAt_eq_some.mp hid' with ⟨rfl, -⟩ | ⟨-, hold⟩
    · exact ⟨win, hwin⟩
    · exact ⟨win', hold⟩

theorem numbered_destroyWindow {n : Nat} {ds : DisplayState} (h : Numbered n ds) (id : WindowID) :
    Numbered n (ds.destroyWindow id).1 := by
  unfold DisplayState.destroyWindow
  cases hwin : ds.windows id with
  | none => exact h
  | some win => exact h.same rfl fun id' win' hid' => ⟨win', (removeAt_eq_some.mp hid').2⟩

/-- A call gives out the next number or none. -/
theorem numbered_call {n : Nat} {ds : DisplayState} (h : Numbered n ds) (action : Action) :
    Numbered (n + (ds.call action).2.ids.length) (ds.call action).1 ∧
      (ds.call action).2.ids =
        (List.range' n (ds.call action).2.ids.length).map (BitVec.ofNat 32) := by
  cases action with
  | initDisplay display => exact ⟨h, rfl⟩
  | createWindow xwin => exact ⟨numbered_createWindow h xwin, congrArg (fun id => [id]) h.next⟩
  | showWindow id => exact ⟨numbered_setVisible h id true, rfl⟩
  | hideWindow id => exact ⟨numbered_setVisible h id false, rfl⟩
  | destroyWindow id => exact ⟨numbered_destroyWindow h id, rfl⟩
  | pollEvents pending => exact ⟨h, rfl⟩

/-- Before the display is open none is given out. -/
def NumberedState (n : Nat) : Option DisplayState → Prop
  | none => n = 1
  | some ds => Numbered n ds

theorem numbered_opened (wmDelete : Atom) : Numbered 1 (.opened wmDelete) :=
  ⟨Nat.le_refl 1, rfl, fun _ _ h => nomatch h⟩

theorem numbered_step {n : Nat} {s : Option DisplayState} (h : NumberedState n s)
    (action : Action) : NumberedState (n + (step s action).2.ids.length) (step s action).1 ∧
      (step s action).2.ids =
        (List.range' n (step s action).2.ids.length).map (BitVec.ofNat 32) := by
  cases s with
  | some ds => exact numbered_call h action
  | none =>
    obtain rfl : n = 1 := h
    cases action with
    | initDisplay display =>
      cases display with
      | none => exact ⟨rfl, rfl⟩
      | some wmDelete => exact ⟨numbered_opened wmDelete, rfl⟩
    | _ => exact ⟨rfl, rfl⟩

theorem ids_events {n : Nat} {s : Option DisplayState} (h : NumberedState n s)
    (actions : List Action) :
    ((display.events s actions).flatMap fun e => e.answer.ids) = (List.range' n
      ((display.events s actions).flatMap fun e => e.answer.ids).length).map (BitVec.ofNat 32) := by
  induction actions generalizing n s with
  | nil => rfl
  | cons action rest ih =>
    obtain ⟨hnumbered, hids⟩ := numbered_step h action
    have hrest := ih hnumbered
    simp only [events, List.flatMap_cons, List.length_append]
    rw [← List.range'_append_1, List.map_append]
    exact congrArg₂ (· ++ ·) hids hrest

/-- The ids are the numbers from 1 on. -/
theorem createdIds_eq (actions : List Action) :
    createdIds actions = (List.range' 1 (createdIds actions).length).map (BitVec.ofNat 32) :=
  ids_events (n := 1) (s := none) rfl actions

theorem length_ids_le (s : Option DisplayState) (action : Action) :
    (step s action).2.ids.length ≤ if action.isCreate then 1 else 0 := by
  cases s with
  | some ds => cases action <;> exact Nat.le_refl _
  | none =>
    cases action with
    | initDisplay display => cases display <;> exact Nat.le_refl _
    | createWindow xwin => exact Nat.zero_le 1
    | _ => exact Nat.le_refl _

theorem length_createdIds_le (s : Option DisplayState) (actions : List Action) :
    ((display.events s actions).flatMap fun e => e.answer.ids).length ≤
      actions.countP Action.isCreate := by
  induction actions generalizing s with
  | nil => exact Nat.le_refl 0
  | cons action rest ih =>
    simp only [events, List.flatMap_cons, List.length_append]
    rw [List.countP_cons, Nat.add_comm]
    exact Nat.add_le_add (ih _) (length_ids_le s action)

theorem nodup_createdIds {actions : List Action} (hcount : actions.countP Action.isCreate < 2 ^ 32) :
    (createdIds actions).Nodup := by
  have hlength : (createdIds actions).length ≤ actions.countP Action.isCreate :=
    length_createdIds_le none actions
  rw [createdIds_eq]
  have hrange : (List.range' 1 (createdIds actions).length).Nodup := List.nodup_range'
  refine hrange.map_on fun k hk k' hk' heq => ?_
  rw [List.mem_range'_1] at hk hk'
  have hnat := congrArg BitVec.toNat heq
  rw [BitVec.toNat_ofNat, BitVec.toNat_ofNat] at hnat
  omega

/-! ### The maps -/

theorem tracked_createWindow {n : Nat} {ds : DisplayState} {xwin : Window}
    (h : Inverse ds.x11Of ds.x11ToId) (hnumbered : Numbered n ds) (hn : n < 2 ^ 32)
    (hfresh : ∀ id win, ds.windows id = some win → win.x11Window ≠ xwin) :
    Inverse (ds.createWindow xwin).1.x11Of (ds.createWindow xwin).1.x11ToId := by
  have hid : ds.x11Of ds.nextId = none := by
    cases hwin : ds.windows ds.nextId with
    | none => simp [DisplayState.x11Of, hwin]
    | some win =>
      obtain ⟨k, hpos, hk, heq⟩ := hnumbered.live _ _ hwin
      have hnat := congrArg BitVec.toNat (hnumbered.next.symm.trans heq)
      rw [BitVec.toNat_ofNat, BitVec.toNat_ofNat] at hnat
      omega
  have hxwin : ds.x11ToId xwin = none := by
    cases hold : ds.x11ToId xwin with
    | none => rfl
    | some id =>
      obtain ⟨win, hwin, hx⟩ := Option.map_eq_some_iff.mp ((h id xwin).mpr hold)
      exact absurd hx (hfresh id win hwin)
  have hmap : (ds.createWindow xwin).1.x11Of = insertAt ds.x11Of ds.nextId xwin :=
    Function.comp_update ..
  rw [hmap]
  exact h.insertAt hid hxwin

theorem x11Of_setVisible (ds : DisplayState) (id : WindowID) (visible : Bool) :
    (ds.setVisible id visible).1.x11Of = ds.x11Of := by
  unfold DisplayState.setVisible
  cases hwin : ds.windows id with
  | none => rfl
  | some win =>
    have hsame : some win.x11Window = ds.x11Of id := by
      simp [DisplayState.x11Of, hwin]
    calc Option.map ManagedWindow.x11Window ∘ insertAt ds.windows id {win with visible := visible}
        = Function.update ds.x11Of id (some win.x11Window) := Function.comp_update ..
      _ = ds.x11Of := by rw [hsame, Function.update_eq_self]

theorem x11ToId_setVisible (ds : DisplayState) (id : WindowID) (visible : Bool) :
    (ds.setVisible id visible).1.x11ToId = ds.x11ToId := by
  unfold DisplayState.setVisible
  cases ds.windows id <;> rfl

theorem tracked_setVisible {ds : DisplayState} (h : Inverse ds.x11Of ds.x11ToId) (id : WindowID)
    (visible : Bool) :
    Inverse (ds.setVisible id visible).1.x11Of (ds.setVisible id visible).1.x11ToId := by
  rw [x11Of_setVisible, x11ToId_setVisible]
  exact h

theorem tracked_destroyWindow {ds : DisplayState} (h : Inverse ds.x11Of ds.x11ToId)
    (id : WindowID) : Inverse (ds.destroyWindow id).1.x11Of (ds.destroyWindow id).1.x11ToId := by
  unfold DisplayState.destroyWindow
  cases hwin : ds.windows id with
  | none => exact h
  | some win =>
    have hx : ds.x11Of id = some win.x11Window := by
      simp [DisplayState.x11Of, hwin]
    have hmap : Option.map ManagedWindow.x11Window ∘ removeAt ds.windows id =
        removeAt ds.x11Of id := Function.comp_update ..
    show Inverse (Option.map ManagedWindow.x11Window ∘ removeAt ds.windows id) _
    rw [hmap]
    exact h.removeAt hx

/-- An event that is polled is of a window that is live. -/
theorem pollEvents_live {ds : DisplayState} (h : Inverse ds.x11Of ds.x11ToId)
    {pending : List XEvent} {event : DisplayEvent} (hmem : event ∈ ds.pollEvents pending) :
    ∃ xev ∈ pending, ∃ win, translate ds.wmDelete xev event.window = some event ∧
      ds.windows event.window = some win ∧ win.x11Window = xev.xwin := by
  obtain ⟨xev, hxev, wid, hid, hevent⟩ := DisplayState.mem_pollEvents hmem
  obtain ⟨win, hwin, hx⟩ := Option.map_eq_some_iff.mp ((h wid xev.xwin).mpr hid)
  rw [window_translate hevent]
  exact ⟨xev, hxev, win, hevent, hwin, hx⟩

/-! ### Runs -/

theorem tracked_step {n : Nat} {s : Option DisplayState} {action : Action} (h : Tracked s)
    (hnumbered : NumberedState n s) (hn : action.isCreate = true → n < 2 ^ 32)
    (hfresh : FreshWindow (display.event s action)) : Tracked (step s action).1 := by
  rintro ds' heq
  cases s with
  | none =>
    cases action with
    | initDisplay display =>
      cases display with
      | none => exact nomatch heq
      | some wmDelete =>
        obtain rfl := Option.some.inj heq
        exact Inverse.empty
    | _ => exact nomatch heq
  | some ds =>
    obtain rfl := Option.some.inj heq
    have hds : Inverse ds.x11Of ds.x11ToId := h ds rfl
    cases action with
    | initDisplay display => exact hds
    | createWindow xwin =>
      exact tracked_createWindow hds hnumbered (hn rfl) (hfresh ds xwin rfl rfl)
    | showWindow id => exact tracked_setVisible hds id true
    | hideWindow id => exact tracked_setVisible hds id false
    | destroyWindow id => exact tracked_destroyWindow hds id
    | pollEvents pending => exact hds

theorem eventsLive_step {s : Option DisplayState} (action : Action) (h : Tracked s) :
    EventsLive (display.event s action) := by
  rintro ds pending events rfl rfl hanswer event hevent
  cases hanswer
  exact pollEvents_live (h ds rfl) hevent

theorem along_tracked {n : Nat} {s : Option DisplayState} {actions : List Action}
    (h : Tracked s) (hnumbered : NumberedState n s)
    (hcount : n + actions.countP Action.isCreate ≤ 2 ^ 32)
    (hfresh : display.Along FreshWindow s actions) :
    display.Along (fun e => Tracked e.after ∧ EventsLive e) s actions := by
  induction actions generalizing n s with
  | nil => exact along_nil _ s
  | cons action rest ih =>
    obtain ⟨hfirst, hrest⟩ := along_cons.mp hfresh
    rw [List.countP_cons] at hcount
    have hn (hcreate : action.isCreate = true) : n < 2 ^ 32 := by
      rw [if_pos hcreate] at hcount
      omega
    have hlength := length_ids_le s action
    have htracked := tracked_step h hnumbered hn hfirst
    refine along_cons.mpr ⟨⟨htracked, eventsLive_step action h⟩, ?_⟩
    exact ih htracked (numbered_step hnumbered action).1 (by omega) hrest

/-- However windows come and go, the maps are mutually inverse, an event that is polled
is of the live window that owns the X window, and no id is given out twice. -/
theorem windows_tracked {actions : List Action} (hcount : actions.countP Action.isCreate < 2 ^ 32)
    (hfresh : display.Along FreshWindow none actions) :
    display.Along (fun e => Tracked e.after ∧ EventsLive e) none actions ∧
      (createdIds actions).Nodup := by
  refine ⟨along_tracked (n := 1) (fun _ h => nomatch h) rfl (by omega) hfresh, ?_⟩
  exact nodup_createdIds hcount

/-- An `Expose` of X window 5. -/
def exposed : XEvent := Vector.ofFn fun i => if i = 0 then 12 else if i = 32 then 5 else 0

/-- The X server gives the number of a window that is gone to the next one. -/
def recurring : List Action :=
  [.initDisplay (some 9), .createWindow 5, .showWindow 1, .destroyWindow 1, .createWindow 5,
    .pollEvents [exposed]]

theorem windows_tracked_recurring :
    display.Along (fun e => Tracked e.after ∧ EventsLive e) none recurring ∧
      (createdIds recurring).Nodup := by
  have hfresh : display.Along FreshWindow none recurring := by
    simp only [recurring, along_cons]
    refine ⟨?_, ?_, ?_, ?_, ?_, ?_, along_nil _ _⟩
    · exact fun _ _ _ h => nomatch h
    · rintro ds xwin heq - id win hwin
      obtain rfl := Option.some.inj heq
      exact nomatch hwin
    · exact fun _ _ _ h => nomatch h
    · exact fun _ _ _ h => nomatch h
    · rintro ds xwin heq - id win hwin
      obtain rfl := Option.some.inj heq
      obtain ⟨hne, hshown⟩ := removeAt_eq_some.mp hwin
      rcases insertAt_eq_some.mp hshown with ⟨rfl, -⟩ | ⟨-, hcreated⟩
      · exact absurd rfl hne
      · rcases insertAt_eq_some.mp hcreated with ⟨rfl, -⟩ | ⟨-, hnone⟩
        · exact absurd rfl hne
        · exact nomatch hnone
    · exact fun _ _ _ h => nomatch h
  exact windows_tracked (by decide) hfresh

end Grafted.Ws.Windows
