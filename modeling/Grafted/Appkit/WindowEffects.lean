import Grafted.Appkit.Window

/-! What a call leaves as it was.

Most calls change no window (`SameWindows`), a call of the display changes the window it names,
and painting puts images of one window (`put_flushWindow`). -/
namespace Grafted.Appkit.Window
open ByteMemory PartialMaps Cg.Context
open Ws.Windows (WindowID Window Atom DisplayEvent ManagedWindow DisplayState)

section Holding
variable {F : Type}

/-! ### Windows -/

/-- Nothing about windows is changed. -/
structure SameWindows (s s' : App F) : Prop where
  display : s'.display = s.display
  held : ∀ h, s'.held h = s.held h

theorem SameWindows.refl (s : App F) : SameWindows s s := ⟨rfl, fun _ => rfl⟩

theorem SameWindows.trans {s s' s'' : App F} (h : SameWindows s s') (h' : SameWindows s' s'') :
    SameWindows s s'' :=
  ⟨h'.display.trans h.display, fun holder => (h'.held holder).trans (h.held holder)⟩

theorem SameWindows.findWindow {s s' : App F} (h : SameWindows s s') (id : WindowID) :
    s'.findWindow id = s.findWindow id := by
  unfold App.findWindow
  rw [h.display]

theorem SameWindows.windowOf {s s' : App F} (h : SameWindows s s') (holder : Option Id) :
    s'.windowOf holder = s.windowOf holder := by
  unfold App.windowOf
  rw [h.held, h.findWindow]

/-- An object is changed and keeps its window. -/
theorem sameWindows_withObject (s : App F) (self_ : Id) (data : NSWindowData F)
    (h : data.windowId = (s.objects self_).windowId) : SameWindows s (s.withObject self_ data) := by
  refine ⟨rfl, fun holder => ?_⟩
  cases holder with
  | none => rfl
  | some o =>
    show (Function.update s.objects self_ data o).windowId = (s.objects o).windowId
    by_cases ho : o = self_
    · rw [ho, Function.update_self, h]
    · rw [Function.update_of_ne ho]

theorem sameWindows_setTitle (s : App F) (self_ : Id) (title : Option (List Byte)) :
    SameWindows s (nsWindowSetTitle s self_ title) := by
  cases title with
  | none => exact .refl s
  | some bytes => exact sameWindows_withObject s self_ _ rfl

theorem sameWindows_flushWindow (image : CGContextRef → Bool) (s : App F) (id : WindowID)
    (ctx : CGContextRef) : SameWindows s (flushWindow image s id ctx) := by
  unfold flushWindow
  by_cases hctx : ctx = 0
  · rw [if_pos hctx]
    exact .refl s
  · rw [if_neg hctx]
    cases s.findWindow id with
    | none => exact .refl s
    | some win =>
      dsimp only
      split_ifs
      · exact ⟨rfl, fun holder => by cases holder <;> rfl⟩
      · exact .refl s

theorem sameWindows_handleEvent (image : CGContextRef → Bool) (s : App F) (event : DisplayEvent) :
    SameWindows s (handleEvent image s event) := by
  have hterminated : SameWindows s {s with terminated := true} :=
    ⟨rfl, fun holder => by cases holder <;> rfl⟩
  cases event with
  | windowClose window => exact hterminated
  | expose window =>
    show SameWindows s (if s.mainWindowCtx = 0 then s else flushWindow image s window _)
    split_ifs
    · exact .refl s
    · exact sameWindows_flushWindow image s window _
  | keyDown window keycode =>
    show SameWindows s (if keycode = 9 then {s with terminated := true} else s)
    split_ifs
    · exact hterminated
    · exact .refl s
  | _ => exact .refl s

theorem sameWindows_foldl (image : CGContextRef → Bool) (s : App F) (events : List DisplayEvent) :
    SameWindows s (events.foldl (handleEvent image) s) := by
  induction events generalizing s with
  | nil => exact .refl s
  | cons event rest ih => exact (sameWindows_handleEvent image s event).trans (ih _)

/-! ### The display under the calls -/

theorem held_onDisplay (s : App F) (action : Ws.Windows.Action) (h : Option Id) :
    (s.onDisplay action).held h = s.held h := by
  cases h <;> rfl

theorem held_withObject_self (s : App F) (self_ : Id) (data : NSWindowData F) :
    (s.withObject self_ data).held (some self_) = data.windowId := by
  show (Function.update s.objects self_ data self_).windowId = _
  rw [Function.update_self]

theorem held_withObject_of_ne (s : App F) {self_ : Id} (data : NSWindowData F)
    {holder : Option Id} (h : holder ≠ some self_) :
    (s.withObject self_ data).held holder = s.held holder := by
  cases holder with
  | none => rfl
  | some o =>
    show (Function.update s.objects self_ data o).windowId = _
    rw [Function.update_of_ne fun heq => h (congrArg some heq)]
    rfl

theorem findWindow_onDisplay {s : App F} {ds : DisplayState} (hds : s.display = some ds)
    (action : Ws.Windows.Action) (id : WindowID) :
    (s.onDisplay action).findWindow id = (ds.call action).1.windows id := by
  simp only [App.findWindow, App.onDisplay, hds]
  rfl

theorem findWindow_closed {s : App F} (hds : s.display = none) (id : WindowID) :
    s.findWindow id = none := by
  simp only [App.findWindow, hds]
  rfl

/-- The windows a call of the display does not name. -/
theorem findWindow_other (s : App F) {action : Ws.Windows.Action} {id other : WindowID}
    (haction : action = .showWindow id ∨ action = .hideWindow id ∨ action = .destroyWindow id)
    (hother : other ≠ id) : (s.onDisplay action).findWindow other = s.findWindow other := by
  cases hds : s.display with
  | none =>
    have hclosed : (s.onDisplay action).display = none := by
      obtain rfl | rfl | rfl := haction <;> simp only [App.onDisplay, hds] <;> rfl
    rw [findWindow_closed hds, findWindow_closed hclosed]
  | some ds =>
    have hfind : s.findWindow other = ds.windows other := by
      simp only [App.findWindow, hds]
      rfl
    have hvisible (visible : Bool) :
        (ds.setVisible id visible).1.windows other = ds.windows other := by
      unfold DisplayState.setVisible
      cases ds.windows id with
      | none => rfl
      | some win => exact insertAt_of_ne _ _ hother
    rw [findWindow_onDisplay hds, hfind]
    obtain rfl | rfl | rfl := haction
    · exact hvisible true
    · exact hvisible false
    · show (ds.destroyWindow id).1.windows other = _
      unfold DisplayState.destroyWindow
      cases ds.windows id with
      | none => rfl
      | some win => exact Function.update_of_ne hother ..

theorem findWindow_initDisplay (s : App F) (display : Option Atom) (id : WindowID) :
    (s.onDisplay (.initDisplay display)).findWindow id = s.findWindow id := by
  cases hds : s.display with
  | some ds =>
    rw [findWindow_onDisplay hds]
    simp only [App.findWindow, hds]
    rfl
  | none =>
    rw [findWindow_closed hds]
    simp only [App.findWindow, App.onDisplay, hds]
    cases display <;> rfl

/-! ### Images and objects -/

/-- One image at most is put, of the window that is named. -/
theorem put_flushWindow (image : CGContextRef → Bool) (s : App F) (id : WindowID)
    (ctx : CGContextRef) : ∃ new, (flushWindow image s id ctx).put = s.put ++ new ∧
      ∀ p ∈ new, ∃ win, s.findWindow id = some win ∧ p.1 = win.x11Window := by
  have none_put : ∃ new, s.put = s.put ++ new ∧
      ∀ p ∈ new, ∃ win, s.findWindow id = some win ∧ p.1 = win.x11Window :=
    ⟨[], (List.append_nil _).symm, fun _ h => nomatch h⟩
  unfold flushWindow
  by_cases hctx : ctx = 0
  · rw [if_pos hctx]
    exact none_put
  · rw [if_neg hctx]
    cases hwin : s.findWindow id with
    | none =>
      rw [hwin] at none_put
      exact none_put
    | some win =>
      rw [hwin] at none_put
      dsimp only
      split_ifs
      · refine ⟨[(win.x11Window, ctx)], rfl, fun p hp => ⟨win, rfl, ?_⟩⟩
        rw [List.mem_singleton.mp hp]
      · exact none_put

theorem objects_withObject_of_ne (s : App F) {self_ o : Id} (data : NSWindowData F)
    (h : o ≠ self_) : (s.withObject self_ data).objects o = s.objects o :=
  Function.update_of_ne h ..

theorem objects_flushWindow (image : CGContextRef → Bool) (s : App F) (id : WindowID)
    (ctx : CGContextRef) : (flushWindow image s id ctx).objects = s.objects := by
  unfold flushWindow
  by_cases hctx : ctx = 0
  · rw [if_pos hctx]
  · rw [if_neg hctx]
    cases s.findWindow id with
    | none => rfl
    | some win =>
      dsimp only
      split_ifs
      · rfl
      · rfl

theorem objects_handleEvent (image : CGContextRef → Bool) (s : App F) (event : DisplayEvent) :
    (handleEvent image s event).objects = s.objects := by
  cases event with
  | expose window =>
    show (if s.mainWindowCtx = 0 then s else flushWindow image s window _).objects = _
    split_ifs
    · rfl
    · exact objects_flushWindow image s window _
  | keyDown window keycode =>
    show (if keycode = 9 then {s with terminated := true} else s).objects = _
    split_ifs
    · rfl
    · rfl
  | _ => rfl

theorem objects_foldl (image : CGContextRef → Bool) (s : App F) (events : List DisplayEvent) :
    (events.foldl (handleEvent image) s).objects = s.objects := by
  induction events generalizing s with
  | nil => rfl
  | cons event rest ih => exact (ih _).trans (objects_handleEvent image s event)

/-! ### The main window -/

theorem objects_showMain (image : CGContextRef → Bool) (s : App F) (wid : WindowID)
    (ctx : CGContextRef) : (showMain image s wid ctx).objects = s.objects := by
  show (if ctx = 0 then s
    else flushWindow image (s.onDisplay (.showWindow wid)) wid ctx).objects = _
  split_ifs
  · rfl
  · exact objects_flushWindow image _ wid ctx

theorem findWindow_showMain (image : CGContextRef → Bool) (s : App F) {wid id : WindowID}
    (ctx : CGContextRef) (h : id ≠ wid) :
    (showMain image s wid ctx).findWindow id = s.findWindow id := by
  show (if ctx = 0 then s
    else flushWindow image (s.onDisplay (.showWindow wid)) wid ctx).findWindow id = _
  split_ifs
  · rfl
  · rw [(sameWindows_flushWindow image _ wid ctx).findWindow]
    exact findWindow_other s (.inl rfl) h

theorem put_showMain (image : CGContextRef → Bool) (s : App F) (wid : WindowID)
    (ctx : CGContextRef) : ∃ new, (showMain image s wid ctx).put = s.put ++ new ∧
      ∀ p ∈ new, ∃ win, (showMain image s wid ctx).windowOf none = some win ∧
        p.1 = win.x11Window := by
  have hwindow : (showMain image s wid ctx).windowOf none =
      (if ctx = 0 then s
        else flushWindow image (s.onDisplay (.showWindow wid)) wid ctx).findWindow wid := rfl
  rw [hwindow]
  unfold showMain
  dsimp only
  split_ifs
  · exact ⟨[], (List.append_nil _).symm, fun _ h => nomatch h⟩
  · rw [(sameWindows_flushWindow image _ wid ctx).findWindow]
    exact put_flushWindow image (s.onDisplay (.showWindow wid)) wid ctx

theorem graftedSwiftuiCreateWindow_some (image : CGContextRef → Bool) {s s' : App F}
    {display : Option Atom} (hopen : s.onDisplay (.initDisplay display) = s') {xwin : Window}
    {wid : WindowID} (hid : (s'.createWindow xwin).2 = some wid) (ctx : CGContextRef) :
    graftedSwiftuiCreateWindow image s display xwin ctx =
      showMain image (s'.createWindow xwin).1 wid ctx := by
  unfold graftedSwiftuiCreateWindow
  rw [hopen]
  simp only [hid]

/-- Without a display nothing is made. -/
theorem sameWindows_graftedSwiftuiCreateWindow (image : CGContextRef → Bool) {s : App F}
    {display : Option Atom} (hopen : (s.onDisplay (.initDisplay display)).display = none)
    (xwin : Window) (ctx : CGContextRef) :
    SameWindows s (graftedSwiftuiCreateWindow image s display xwin ctx) ∧
      (graftedSwiftuiCreateWindow image s display xwin ctx).objects = s.objects ∧
      (graftedSwiftuiCreateWindow image s display xwin ctx).put = s.put := by
  have hds : s.display = none := by
    cases hds : s.display with
    | none => rfl
    | some ds =>
      simp only [App.onDisplay, hds] at hopen
      cases hopen
  have hid : ((s.onDisplay (.initDisplay display)).createWindow xwin).2 = none := by
    simp only [App.createWindow, hopen]
    rfl
  have hclosed : ((s.onDisplay (.initDisplay display)).createWindow xwin).1.display = none := by
    simp only [App.createWindow]
    unfold App.onDisplay at hopen ⊢
    dsimp only at hopen ⊢
    rw [hopen]
    rfl
  have heq : graftedSwiftuiCreateWindow image s display xwin ctx =
      ((s.onDisplay (.initDisplay display)).createWindow xwin).1 := by
    unfold graftedSwiftuiCreateWindow
    simp only [hid]
  rw [heq]
  refine ⟨⟨hclosed.trans hds.symm, fun holder => ?_⟩, rfl, rfl⟩
  cases holder <;> rfl

end Holding

end Grafted.Appkit.Window
