import Mathlib.Algebra.Ring.Nat
import Grafted.Cg.Context
import Grafted.Ws.Windows

/-! NSWindow: objects, and the windows of the display they hold.

An object holds a window by its id, and so does the application its main one. This is the source,
as a system of calls. What a call leaves as it was is in `Appkit/WindowEffects.lean`, who holds
which window in `Appkit/WindowOwners.lean`. -/
namespace Grafted.Appkit.Window
open ByteMemory Cg.Context Transition
open Ws.Windows (WindowID Window Atom XEvent DisplayEvent ManagedWindow DisplayState)

/-- A pointer to an object. -/
abbrev Id := BitVec 64
abbrev CGContextRef := BitVec 64

/-- What an instance has from offset 16 on. -/
structure NSWindowData (F : Type) where
  windowId : WindowID
  frame : CGRect F
  styleMask : BitVec 64
  title : Vector Byte 256
  titleLen : Nat
  context : CGContextRef
  contentView : Id

/-- The `calloc` of `class_createInstance`. -/
def NSWindowData.zeroed {F : Type} [Zero F] : NSWindowData F :=
  ⟨0, ⟨⟨0, 0⟩, ⟨0, 0⟩⟩, 0, Vector.replicate 256 0, 0, 0, 0⟩

/-- An application: its display, its objects and its statics. -/
structure App (F : Type) where
  display : Option DisplayState
  objects : Id → NSWindowData F
  /-- What `XPutImage` was given: the X window and the bitmap. -/
  put : List (Window × CGContextRef)
  running : Bool
  terminated : Bool
  sharedApp : Id
  mainWindowId : WindowID
  mainWindowCtx : CGContextRef

/-- Before anything is called. -/
def launched {F : Type} [Zero F] : App F := ⟨none, fun _ => .zeroed, [], false, false, 0, 0, 0⟩

inductive Call (F : Type) where
  /-- With the instance that is made, and the atom where a display can be opened. -/
  | sharedApplication (obj : Id) (display : Option Atom)
  | alloc (self_ : Id)
  /-- With what the X server gives, and the bitmap. -/
  | initWithContentRect (self_ : Id) (contentRect : CGRect F) (styleMask : BitVec 64)
      (xwin : Window) (ctx : CGContextRef)
  | setTitle (self_ : Id) (title : Option (List Byte))
  | makeKeyAndOrderFront (self_ : Id)
  | orderOut (self_ : Id)
  | close (self_ : Id)
  | display (self_ : Id)
  | setContentView (self_ view : Id)
  | terminate
  | graftedSwiftuiCreateWindow (display : Option Atom) (xwin : Window) (ctx : CGContextRef)
  /-- The `for` of a turn of the main loop, with what is pending. -/
  | handleEvents (pending : List XEvent)

/-- Who holds a window: an object, or the application its main one. -/
def Call.holder {F : Type} : Call F → Option (Option Id)
  | .alloc self_ | .initWithContentRect self_ _ _ _ _ | .setTitle self_ _
  | .makeKeyAndOrderFront self_ | .orderOut self_ | .close self_ | .display self_
  | .setContentView self_ _ => some (some self_)
  | .graftedSwiftuiCreateWindow _ _ _ => some none
  | .sharedApplication _ _ | .terminate | .handleEvents _ => none

/-- The X window that is made. -/
def Call.xwin {F : Type} : Call F → Option Window
  | .initWithContentRect _ _ _ xwin _ | .graftedSwiftuiCreateWindow _ xwin _ => some xwin
  | _ => none

def Call.makes {F : Type} (call : Call F) : Bool := call.xwin.isSome

/-- The calls that take an object's window from it. -/
def Call.renews {F : Type} : Call F → Bool
  | .alloc _ | .initWithContentRect _ _ _ _ _ => true
  | _ => false

namespace App
variable {F : Type}

/-- A call of the display. -/
def onDisplay (s : App F) (action : Ws.Windows.Action) : App F :=
  {s with display := (Ws.Windows.step s.display action).1}

def createWindow (s : App F) (xwin : Window) : App F × Option WindowID :=
  (s.onDisplay (.createWindow xwin), s.display.map fun ds => (ds.createWindow xwin).2)

def findWindow (s : App F) (id : WindowID) : Option ManagedWindow :=
  s.display.bind fun ds => ds.windows id

/-- The id of the window that is held, or 0. -/
def held (s : App F) : Option Id → WindowID
  | none => s.mainWindowId
  | some o => (s.objects o).windowId

def windowOf (s : App F) (h : Option Id) : Option ManagedWindow := s.findWindow (s.held h)

def withObject (s : App F) (self_ : Id) (data : NSWindowData F) : App F :=
  {s with objects := Function.update s.objects self_ data}

def pollEvents (s : App F) (pending : List XEvent) : List DisplayEvent :=
  match s.display with
  | none => []
  | some ds => ds.pollEvents pending

end App

/-- `title[..len].copy_from_slice(&bytes[..len])` -/
def writeTitle (title : Vector Byte 256) (bytes : List Byte) : Vector Byte 256 :=
  Vector.ofFn fun i => bytes[i.val]?.getD (title.get i)

/-- `Untitled` -/
def untitled : List Byte := [0x55, 0x6e, 0x74, 0x69, 0x74, 0x6c, 0x65, 0x64]

section Calls
variable {F : Type}

def nsApplicationShared (s : App F) (obj : Id) (display : Option Atom) : App F :=
  if s.sharedApp ≠ 0 then s else {s with sharedApp := obj}.onDisplay (.initDisplay display)

/-- With no display, the id stays what it is. -/
def nsWindowInit (s : App F) (self_ : Id) (contentRect : CGRect F) (styleMask : BitVec 64)
    (xwin : Window) (ctx : CGContextRef) : App F :=
  let data := s.objects self_
  let (s', id) := s.createWindow xwin
  s'.withObject self_
    { windowId := id.getD data.windowId
      frame := contentRect
      styleMask := styleMask
      title := writeTitle data.title untitled
      titleLen := untitled.length
      context := ctx
      contentView := 0 }

def nsWindowSetTitle (s : App F) (self_ : Id) : Option (List Byte) → App F
  | none => s
  | some bytes =>
    let data := s.objects self_
    let len := min bytes.length 255
    s.withObject self_ {data with title := writeTitle data.title (bytes.take len), titleLen := len}

def nsWindowMakeKeyAndOrderFront (s : App F) (self_ : Id) : App F :=
  s.onDisplay (.showWindow (s.objects self_).windowId)

def nsWindowOrderOut (s : App F) (self_ : Id) : App F :=
  s.onDisplay (.hideWindow (s.objects self_).windowId)

def nsWindowClose (s : App F) (self_ : Id) : App F :=
  s.onDisplay (.destroyWindow (s.objects self_).windowId)

def nsWindowSetContentView (s : App F) (self_ view : Id) : App F :=
  s.withObject self_ {s.objects self_ with contentView := view}

-- whether `malloc` and `XCreateImage` give an image of a bitmap
variable (image : CGContextRef → Bool)

def flushWindow (s : App F) (id : WindowID) (ctx : CGContextRef) : App F :=
  if ctx = 0 then s
  else
    match s.findWindow id with
    | none => s
    | some win => if image ctx then {s with put := s.put ++ [(win.x11Window, ctx)]} else s

def nsWindowDisplay (s : App F) (self_ : Id) : App F :=
  let data := s.objects self_
  if data.context = 0 then s else flushWindow image s data.windowId data.context

/-- The `if let` of `grafted_swiftui_create_window`. -/
def showMain (s : App F) (wid : WindowID) (ctx : CGContextRef) : App F :=
  let shown := if ctx = 0 then s else flushWindow image (s.onDisplay (.showWindow wid)) wid ctx
  {shown with mainWindowId := wid, mainWindowCtx := ctx}

def graftedSwiftuiCreateWindow (s : App F) (display : Option Atom) (xwin : Window)
    (ctx : CGContextRef) : App F :=
  let (s', id) := (s.onDisplay (.initDisplay display)).createWindow xwin
  match id with
  | none => s'
  | some wid => showMain image s' wid ctx

/-- The arms of the `match` of the main loop. -/
def handleEvent (s : App F) : DisplayEvent → App F
  | .windowClose _ => {s with terminated := true}
  | .expose window =>
    if s.mainWindowCtx = 0 then s else flushWindow image s window s.mainWindowCtx
  | .keyDown _ keycode => if keycode = 9 then {s with terminated := true} else s
  | _ => s

def handleEvents (s : App F) (pending : List XEvent) : App F :=
  (s.pollEvents pending).foldl (handleEvent image) s

def step [Zero F] (s : App F) : Call F → App F
  | .sharedApplication obj display => nsApplicationShared s obj display
  | .alloc self_ => s.withObject self_ .zeroed
  | .initWithContentRect self_ rect mask xwin ctx => nsWindowInit s self_ rect mask xwin ctx
  | .setTitle self_ title => nsWindowSetTitle s self_ title
  | .makeKeyAndOrderFront self_ => nsWindowMakeKeyAndOrderFront s self_
  | .orderOut self_ => nsWindowOrderOut s self_
  | .close self_ => nsWindowClose s self_
  | .display self_ => nsWindowDisplay image s self_
  | .setContentView self_ view => nsWindowSetContentView s self_ view
  | .terminate => {s with terminated := true}
  | .graftedSwiftuiCreateWindow display xwin ctx =>
    graftedSwiftuiCreateWindow image s display xwin ctx
  | .handleEvents pending => handleEvents image s pending

def app [Zero F] : System (App F) (Call F) Unit := ⟨fun s call => (step image s call, ())⟩

end Calls

end Grafted.Appkit.Window
