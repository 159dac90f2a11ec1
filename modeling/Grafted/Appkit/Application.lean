import Grafted.Appkit.WindowOwners

/-! NSApplication: the main loop.

A turn handles what is pending and then runs the run loop, whose callbacks make calls of
their own. The loop returns after the first turn in which one of them or an event asks for it,
and that turn is done to its end (`nsApplicationRun_eq_some`). An exposed window gets the
bitmap of the main window, whichever it is (`put_handleEvents`). -/
namespace Grafted.Appkit.Application
open Cg.Context Transition Transition.System Appkit.Window
open Ws.Windows (WindowID Window XEvent DisplayEvent DisplayState EXPOSE translate)

/-- What is pending in a turn, and what the callbacks of the run loop call. -/
structure Turn (F : Type) where
  pending : List XEvent
  inRunLoop : List (Call F)

section Loop
variable {F : Type} [Zero F] (image : CGContextRef → Bool)

def Turn.calls (turn : Turn F) : List (Call F) := .handleEvents turn.pending :: turn.inRunLoop

/-- The `while`. `none` is that it has not been left after these turns. -/
def mainLoop (s : App F) : List (Turn F) → Option (App F)
  | [] => if s.terminated then some s else none
  | turn :: rest =>
    if s.terminated then some s else mainLoop ((app image).run s turn.calls) rest

def nsApplicationRun (s : App F) (turns : List (Turn F)) : Option (App F) :=
  (mainLoop image {s with running := true} turns).map fun s => {s with running := false}

end Loop

/-- Escape, or the button of a window. -/
def quits : DisplayEvent → Bool
  | .windowClose _ => true
  | .keyDown _ keycode => keycode = 9
  | _ => false

/-- A call that ends the application. -/
def Quits {F : Type} (e : Event (App F) (Call F) Unit) : Prop :=
  e.action = .terminate ∨ ∃ pending, e.action = .handleEvents pending ∧
    ∃ event ∈ e.before.pollEvents pending, quits event = true

/-! ### When the loop is left -/

section Leaving
variable {F : Type} (image : CGContextRef → Bool)

theorem terminated_flushWindow (s : App F) (id : WindowID) (ctx : CGContextRef) :
    (flushWindow image s id ctx).terminated = s.terminated := by
  unfold flushWindow
  by_cases hctx : ctx = 0
  · rw [if_pos hctx]
  · rw [if_neg hctx]
    cases s.findWindow id with
    | none => rfl
    | some win =>
      dsimp only
      split_ifs
      · rfl
      · rfl

theorem terminated_handleEvent (s : App F) (event : DisplayEvent) :
    (handleEvent image s event).terminated = (s.terminated || quits event) := by
  cases event with
  | windowClose window => exact (Bool.or_true _).symm
  | expose window =>
    have hquits : quits (.expose window) = false := rfl
    show (if s.mainWindowCtx = 0 then s else flushWindow image s window _).terminated = _
    rw [hquits, Bool.or_false]
    split_ifs
    · rfl
    · exact terminated_flushWindow image s window _
  | keyDown window keycode =>
    show (if keycode = 9 then {s with terminated := true} else s).terminated = _
    by_cases h : keycode = 9
    · rw [if_pos h, quits, decide_eq_true h, Bool.or_true]
    · rw [if_neg h, quits, decide_eq_false h, Bool.or_false]
  | _ => exact (Bool.or_false _).symm

theorem terminated_foldl (s : App F) (events : List DisplayEvent) :
    (events.foldl (handleEvent image) s).terminated = (s.terminated || events.any quits) := by
  induction events generalizing s with
  | nil => exact (Bool.or_false _).symm
  | cons event rest ih =>
    rw [List.foldl_cons, ih, terminated_handleEvent, List.any_cons, Bool.or_assoc]

theorem terminated_showMain (s : App F) (wid : WindowID) (ctx : CGContextRef) :
    (showMain image s wid ctx).terminated = s.terminated := by
  show (if ctx = 0 then s
    else flushWindow image (s.onDisplay (.showWindow wid)) wid ctx).terminated = _
  split_ifs
  · rfl
  · exact terminated_flushWindow image _ wid ctx

theorem terminated_graftedSwiftuiCreateWindow (s : App F) (display : Option Ws.Windows.Atom)
    (xwin : Window) (ctx : CGContextRef) :
    (graftedSwiftuiCreateWindow image s display xwin ctx).terminated = s.terminated := by
  unfold graftedSwiftuiCreateWindow
  dsimp only
  cases ((s.onDisplay (.initDisplay display)).createWindow xwin).2 with
  | none => rfl
  | some wid => exact terminated_showMain image _ wid ctx

variable [Zero F]

theorem terminated_step (s : App F) (call : Call F) :
    (step image s call).terminated = true ↔
      s.terminated = true ∨ Quits ((app image).event s call) := by
  have stays (hstep : (step image s call).terminated = s.terminated)
      (hcall : ¬ Quits ((app image).event s call)) : (step image s call).terminated = true ↔
        s.terminated = true ∨ Quits ((app image).event s call) := by
    rw [hstep]
    exact (or_iff_left hcall).symm
  have plain (hterminate : call ≠ .terminate) (hevents : ∀ pending, call ≠ .handleEvents pending) :
      ¬ Quits ((app image).event s call) := by
    rintro (h | ⟨pending, h, -⟩)
    · exact hterminate h
    · exact hevents pending h
  cases call with
  | terminate => exact iff_of_true rfl (.inr (.inl rfl))
  | handleEvents pending =>
    show ((s.pollEvents pending).foldl (handleEvent image) s).terminated = true ↔ _
    rw [terminated_foldl, Bool.or_eq_true, List.any_eq_true]
    refine or_congr_right ⟨fun h => .inr ⟨pending, rfl, h⟩, ?_⟩
    rintro (h | ⟨pending', h, hquits⟩)
    · exact nomatch h
    · obtain rfl : pending = pending' := Call.handleEvents.inj h
      exact hquits
  | sharedApplication obj display =>
    refine stays ?_ (plain (fun h => nomatch h) fun _ h => nomatch h)
    show (nsApplicationShared s obj display).terminated = _
    unfold nsApplicationShared
    split_ifs
    · rfl
    · rfl
  | setTitle self_ title =>
    refine stays ?_ (plain (fun h => nomatch h) fun _ h => nomatch h)
    cases title <;> rfl
  | display self_ =>
    refine stays ?_ (plain (fun h => nomatch h) fun _ h => nomatch h)
    show (nsWindowDisplay image s self_).terminated = _
    unfold nsWindowDisplay
    dsimp only
    split_ifs
    · rfl
    · exact terminated_flushWindow image s _ _
  | graftedSwiftuiCreateWindow display xwin ctx =>
    refine stays ?_ (plain (fun h => nomatch h) fun _ h => nomatch h)
    exact terminated_graftedSwiftuiCreateWindow image s display xwin ctx
  | _ => exact stays rfl (plain (fun h => nomatch h) fun _ h => nomatch h)

/-- The application is ended before, or by one of the calls. -/
def Ended (s : App F) (calls : List (Call F)) : Prop :=
  s.terminated = true ∨ ∃ e ∈ (app image).events s calls, Quits e

theorem terminated_run (s : App F) (calls : List (Call F)) :
    ((app image).run s calls).terminated = true ↔ Ended image s calls := by
  induction calls generalizing s with
  | nil =>
    refine (or_iff_left ?_).symm
    rintro ⟨e, he, -⟩
    exact nomatch he
  | cons call rest ih =>
    have hrest : ((app image).run (step image s call) rest).terminated = true ↔
        Ended image (step image s call) rest := ih _
    show ((app image).run (step image s call) rest).terminated = true ↔ _
    rw [hrest, Ended, Ended, terminated_step, or_assoc]
    refine or_congr_right ?_
    show _ ↔ ∃ e ∈ (app image).event s call :: (app image).events (step image s call) rest, Quits e
    simp only [List.mem_cons, exists_eq_or_imp]

/-- What the first turns call. -/
def callsOf (turns : List (Turn F)) (k : Nat) : List (Call F) := (turns.take k).flatMap Turn.calls

theorem mainLoop_eq_some (s s' : App F) (turns : List (Turn F)) :
    mainLoop image s turns = some s' ↔
      ∃ k ≤ turns.length, Ended image s (callsOf turns k) ∧
        (∀ j < k, ¬ Ended image s (callsOf turns j)) ∧
        s' = (app image).run s (callsOf turns k) := by
  have hnone {s : App F} (h : ¬ s.terminated = true) : ¬ Ended image s [] := fun hended =>
    h ((terminated_run image s []).mpr hended)
  induction turns generalizing s with
  | nil =>
    unfold mainLoop
    by_cases h : s.terminated = true
    · rw [if_pos h]
      constructor
      · intro heq
        exact ⟨0, Nat.le_refl 0, .inl h, fun j hj => absurd hj (Nat.not_lt_zero j),
          (Option.some.inj heq).symm⟩
      · rintro ⟨k, hk, -, -, rfl⟩
        rw [Nat.le_zero.mp hk]
        rfl
    · rw [if_neg h]
      refine iff_of_false (fun heq => nomatch heq) ?_
      rintro ⟨k, hk, hended, -⟩
      rw [Nat.le_zero.mp hk] at hended
      exact hnone h hended
  | cons turn rest ih =>
    unfold mainLoop
    by_cases h : s.terminated = true
    · rw [if_pos h]
      constructor
      · intro heq
        exact ⟨0, Nat.zero_le _, .inl h, fun j hj => absurd hj (Nat.not_lt_zero j),
          (Option.some.inj heq).symm⟩
      · rintro ⟨k, -, -, hfirst, rfl⟩
        obtain rfl : k = 0 := by
          by_contra hk
          exact hfirst 0 (Nat.pos_of_ne_zero hk) (.inl h)
        rfl
    · rw [if_neg h]
      have hcalls (k : Nat) : callsOf (turn :: rest) (k + 1) = turn.calls ++ callsOf rest k := rfl
      have hended (k : Nat) : Ended image s (callsOf (turn :: rest) (k + 1)) ↔
          Ended image ((app image).run s turn.calls) (callsOf rest k) := by
        rw [hcalls, ← terminated_run, ← terminated_run, run_append]
      refine (ih _).trans ?_
      constructor
      · rintro ⟨k, hk, hquit, hfirst, rfl⟩
        refine ⟨k + 1, Nat.succ_le_succ hk, (hended k).mpr hquit, fun j hj => ?_, ?_⟩
        · cases j with
          | zero => exact hnone h
          | succ j => exact fun hquit' => hfirst j (Nat.lt_of_succ_lt_succ hj) ((hended j).mp hquit')
        · rw [hcalls, run_append]
      · rintro ⟨k, hk, hquit, hfirst, rfl⟩
        cases k with
        | zero => exact absurd hquit (hnone h)
        | succ k =>
          refine ⟨k, Nat.le_of_succ_le_succ hk, (hended k).mp hquit, fun j hj hquit' => ?_, ?_⟩
          · exact hfirst (j + 1) (Nat.succ_lt_succ hj) ((hended j).mpr hquit')
          · rw [hcalls, run_append]

/-- `run` returns after the first turn in which an event or a callback ends the application,
with everything in that turn done, and after no turn where it was ended before. -/
theorem nsApplicationRun_eq_some (s s' : App F) (turns : List (Turn F)) :
    nsApplicationRun image s turns = some s' ↔
      ∃ k ≤ turns.length, Ended image {s with running := true} (callsOf turns k) ∧
        (∀ j < k, ¬ Ended image {s with running := true} (callsOf turns j)) ∧
        s' = {(app image).run {s with running := true} (callsOf turns k) with running := false} := by
  unfold nsApplicationRun
  rw [Option.map_eq_some_iff]
  constructor
  · rintro ⟨left, hleft, rfl⟩
    obtain ⟨k, hk, hquit, hfirst, rfl⟩ := (mainLoop_eq_some image _ left turns).mp hleft
    exact ⟨k, hk, hquit, hfirst, rfl⟩
  · rintro ⟨k, hk, hquit, hfirst, rfl⟩
    exact ⟨_, (mainLoop_eq_some image _ _ turns).mpr ⟨k, hk, hquit, hfirst, rfl⟩, rfl⟩

end Leaving

/-! ### What is painted -/

section Painting
variable {F : Type} (image : CGContextRef → Bool)

/-- What an event may change is not the display or the main window. -/
structure OnlyPut (s s' : App F) : Prop where
  display : s'.display = s.display
  mainWindowCtx : s'.mainWindowCtx = s.mainWindowCtx

theorem onlyPut_flushWindow (s : App F) (id : WindowID) (ctx : CGContextRef) :
    OnlyPut s (flushWindow image s id ctx) := by
  unfold flushWindow
  by_cases hctx : ctx = 0
  · rw [if_pos hctx]
    exact ⟨rfl, rfl⟩
  · rw [if_neg hctx]
    cases s.findWindow id with
    | none => exact ⟨rfl, rfl⟩
    | some win =>
      dsimp only
      split_ifs
      · exact ⟨rfl, rfl⟩
      · exact ⟨rfl, rfl⟩

theorem onlyPut_handleEvent (s : App F) (event : DisplayEvent) :
    OnlyPut s (handleEvent image s event) := by
  cases event with
  | expose window =>
    show OnlyPut s (if s.mainWindowCtx = 0 then s else flushWindow image s window _)
    split_ifs
    · exact ⟨rfl, rfl⟩
    · exact onlyPut_flushWindow image s window _
  | keyDown window keycode =>
    show OnlyPut s (if keycode = 9 then {s with terminated := true} else s)
    split_ifs
    · exact ⟨rfl, rfl⟩
    · exact ⟨rfl, rfl⟩
  | _ => exact ⟨rfl, rfl⟩

/-- Whether the bitmap of the main window can be put. -/
def paints (ctx : CGContextRef) : Bool := decide (ctx ≠ 0) && image ctx

/-- The pending events that have a window painted. -/
def exposes (ds : DisplayState) (xev : XEvent) : Bool :=
  decide (xev.evType = EXPOSE) && (ds.x11ToId xev.xwin).isSome

/-- The main window's bitmap on each X window. -/
def painted (ctx : CGContextRef) (exposed : List XEvent) : List (Window × CGContextRef) :=
  if paints image ctx then exposed.map fun xev => (xev.xwin, ctx) else []

theorem painted_cons (ctx : CGContextRef) (xev : XEvent) (exposed : List XEvent) :
    painted image ctx (xev :: exposed) = painted image ctx [xev] ++ painted image ctx exposed := by
  unfold painted
  split_ifs
  · rfl
  · rfl

theorem put_handleEvent_expose {s : App F} {wid : WindowID} {win : Ws.Windows.ManagedWindow}
    (hwin : s.findWindow wid = some win) {xev : XEvent} (hx : win.x11Window = xev.xwin) :
    (handleEvent image s (.expose wid)).put = s.put ++ painted image s.mainWindowCtx [xev] := by
  show (if s.mainWindowCtx = 0 then s else flushWindow image s wid s.mainWindowCtx).put = _
  unfold painted paints
  by_cases hctx : s.mainWindowCtx = 0
  · simp [hctx]
  · rw [if_neg hctx, decide_eq_true hctx, Bool.true_and]
    unfold flushWindow
    rw [if_neg hctx, hwin]
    dsimp only
    split_ifs
    · rw [hx]
      rfl
    · exact (List.append_nil _).symm

theorem put_handleEvent_of_ne (s : App F) {event : DisplayEvent}
    (h : ∀ wid, event ≠ .expose wid) : (handleEvent image s event).put = s.put := by
  cases event with
  | expose window => exact absurd rfl (h window)
  | keyDown window keycode =>
    show (if keycode = 9 then {s with terminated := true} else s).put = _
    split_ifs
    · rfl
    · rfl
  | _ => rfl

/-- Only an `Expose` of X is one for the application. -/
theorem ne_expose_of_translate {wmDelete : Ws.Windows.Atom} {xev : XEvent} {wid : WindowID}
    {event : DisplayEvent} (htype : xev.evType ≠ EXPOSE)
    (h : translate wmDelete xev wid = some event) (window : WindowID) : event ≠ .expose window := by
  unfold Ws.Windows.translate at h
  rw [if_neg htype] at h
  iterate 6
    rcases Ws.Windows.eq_or_of_ite h with rfl | h
    · exact fun heq => nomatch heq
  split_ifs at h
  obtain rfl := Option.some.inj h
  exact fun heq => nomatch heq

/-- The turns of the loops of polling and of handling, together. -/
theorem put_foldl {ds : DisplayState} (hinverse : PartialMaps.Inverse ds.x11Of ds.x11ToId)
    {s : App F} (hds : s.display = some ds) (pending : List XEvent) :
    ((ds.pollEvents pending).foldl (handleEvent image) s).put =
      s.put ++ painted image s.mainWindowCtx (pending.filter (exposes ds)) := by
  induction pending generalizing s with
  | nil =>
    show s.put = s.put ++ painted image s.mainWindowCtx []
    unfold painted
    split_ifs <;> exact (List.append_nil _).symm
  | cons xev rest ih =>
    unfold DisplayState.pollEvents
    cases hid : ds.x11ToId xev.xwin with
    | none =>
      have hno : exposes ds xev = false := by
        rw [exposes, hid]
        exact Bool.and_false _
      rw [List.filter_cons_of_neg (by rw [hno]; exact Bool.false_ne_true)]
      exact ih hds
    | some wid =>
      dsimp only
      rw [List.foldl_append]
      by_cases htype : xev.evType = EXPOSE
      · have hyes : exposes ds xev = true := by
          rw [exposes, hid, decide_eq_true htype]
          rfl
        have htranslate : translate ds.wmDelete xev wid = some (.expose wid) := if_pos htype
        obtain ⟨win, hwin, hx⟩ := Option.map_eq_some_iff.mp ((hinverse wid xev.xwin).mpr hid)
        have hfind : s.findWindow wid = some win := by
          simp only [App.findWindow, hds]
          exact hwin
        obtain ⟨hdisplay, hctx⟩ := onlyPut_handleEvent image s (.expose wid)
        rw [List.filter_cons_of_pos hyes, htranslate]
        refine (ih (s := handleEvent image s (.expose wid)) (hdisplay.trans hds)).trans ?_
        rw [put_handleEvent_expose image hfind hx, hctx, List.append_assoc,
          ← painted_cons image _ xev (rest.filter (exposes ds))]
      · have hno : exposes ds xev = false := by
          rw [exposes, decide_eq_false htype]
          rfl
        rw [List.filter_cons_of_neg (by rw [hno]; exact Bool.false_ne_true)]
        cases hevent : translate ds.wmDelete xev wid with
        | none => exact ih hds
        | some event =>
          obtain ⟨hdisplay, hctx⟩ := onlyPut_handleEvent image s event
          refine (ih (s := handleEvent image s event) (hdisplay.trans hds)).trans ?_
          rw [put_handleEvent_of_ne image s (ne_expose_of_translate htype hevent), hctx]

/-- Whatever was called before, each pending `Expose` of a live window has the bitmap of the
main window put on that window once, in order, and nothing else is painted. -/
theorem exposed_get_main [Zero F] {calls : List (Call F)}
    (hcount : calls.countP Call.makes < 2 ^ 32) (hfresh : (app image).Along Fresh launched calls)
    {ds : DisplayState} (hds : ((app image).run launched calls).display = some ds)
    (pending : List XEvent) :
    (handleEvents image ((app image).run launched calls) pending).put =
      ((app image).run launched calls).put ++
        painted image ((app image).run launched calls).mainWindowCtx
          (pending.filter (exposes ds)) := by
  obtain ⟨n, -, -, howned⟩ := owned_run image owned_launched (by omega) hfresh
  generalize (app image).run launched calls = s at hds howned ⊢
  unfold handleEvents App.pollEvents
  rw [hds]
  exact put_foldl image (howned.tracked ds hds) hds pending

/-- A window of an object, and then the main window. -/
def withMain : List (Call ℕ) :=
  [.sharedApplication 16 (some 9), .alloc 32,
    .initWithContentRect 32 ⟨⟨0, 0⟩, ⟨640, 480⟩⟩ 1 5 64, .graftedSwiftuiCreateWindow (some 9) 7 96]

def mainMade : App ℕ := (app fun _ => true).run launched withMain

theorem fresh_withMain : (app fun _ => true).Along Fresh launched withMain := by
  simp only [withMain, along_cons]
  refine ⟨fresh_of_none rfl, fresh_of_none rfl, ?_, ?_, along_nil _ _⟩
  · intro xwin hxwin ds id win hds hwin
    obtain rfl := Option.some.inj hds
    exact nomatch hwin
  · intro xwin hxwin ds id win hds hwin
    obtain rfl : 7 = xwin := Option.some.inj hxwin
    obtain rfl := Option.some.inj hds
    rcases PartialMaps.insertAt_eq_some.mp hwin with ⟨-, rfl⟩ | ⟨-, hnone⟩
    · show (5 : BitVec 64) ≠ 7
      decide
    · exact nomatch hnone

/-- The object's window is exposed, and has the bitmap of the main one. -/
theorem exposed_get_main_withMain :
    (handleEvents (fun _ => true) mainMade [Ws.Windows.exposed]).put =
      mainMade.put ++ painted (fun _ => true) mainMade.mainWindowCtx
        ([Ws.Windows.exposed].filter (exposes (mainMade.display.get rfl))) :=
  exposed_get_main (fun _ => true) (by decide) fresh_withMain rfl _

end Painting

end Grafted.Appkit.Application
