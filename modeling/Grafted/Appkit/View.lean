import Grafted.Base.Forests
import Grafted.Base.Transition
import Grafted.Cg.StrokeRect

/-! NSView: the view hierarchy.

A view has its superview and the list of its subviews. `addSubview:` appends to one list and
sets the superview of the view that is added, and `initWithFrame:` clears both of the view; neither
looks at what they were. So the hierarchy stays a forest exactly when a view that is
added is a root that the other is not below, and one that is initialized is in no hierarchy
(`hierarchy_iff`). -/
namespace Grafted.Appkit.View
open Cg.Context Forests Relation Transition Transition.System

structure NSViewData (View F : Type) where
  frame : CGRect F
  bounds : CGRect F
  /-- `none` is the null pointer. -/
  superview : Option View
  /-- The first `subview_count` of the 64. -/
  subviews : List View
  needsDisplay : Bool
  hidden : Bool
  alpha : F
  backgroundColor : Color F
  room : subviews.length ≤ 64

/-- The objects, each with its own memory. -/
abbrev Heap (View F : Type) := View → NSViewData View F

variable {View F : Type}

/-- `data.subviews[idx] = subview` -/
def NSViewData.push (data : NSViewData View F) (subview : View) (h : data.subviews.length < 64) :
    NSViewData View F :=
  {data with
    subviews := data.subviews ++ [subview]
    room := by
      rw [List.length_append]
      exact h}

def nsViewSuperview (heap : Heap View F) (self_ : View) : Option View := (heap self_).superview

def subviews (heap : Heap View F) (self_ : View) : List View := (heap self_).subviews

inductive Action (View F : Type) where
  | initWithFrame (self_ : View) (frame : CGRect F)
  | addSubview (self_ : View) (subview : Option View)

/-- The superviews and the lists of subviews are those of one forest. -/
def Hierarchy (heap : Heap View F) : Prop := Forest (nsViewSuperview heap) (subviews heap)

/-- What a call asks of the hierarchy that it finds. -/
def Fits (heap : Heap View F) : Action View F → Prop
  | .initWithFrame self_ _ => nsViewSuperview heap self_ = none ∧ subviews heap self_ = []
  | .addSubview _ none => True
  | .addSubview self_ (some subview) =>
    (subviews heap self_).length < 64 →
      nsViewSuperview heap subview = none ∧
        ¬ ReflTransGen (ChildOf (nsViewSuperview heap)) self_ subview

section Zeroed
variable [CGFloat F]

/-- `CGRectZero` -/
def zeroRect : CGRect F := ⟨⟨0, 0⟩, ⟨0, 0⟩⟩

/-- A new object is zeroed. -/
def NSViewData.zeroed : NSViewData View F where
  frame := zeroRect
  bounds := zeroRect
  superview := none
  subviews := []
  needsDisplay := false
  hidden := false
  alpha := 0
  backgroundColor := ⟨0, 0, 0, 0⟩
  room := Nat.zero_le 64

def allocated : Heap View F := fun _ => .zeroed

theorem hierarchy_allocated : Hierarchy (allocated : Heap View F) := forest_empty

end Zeroed

section Calls
variable [DecidableEq View]

def nsViewAddSubview (heap : Heap View F) (self_ : View) : Option View → Heap View F
  | none => heap
  | some subview =>
    if h : (heap self_).subviews.length < 64 then
      let listed := Function.update heap self_ ((heap self_).push subview h)
      Function.update listed subview {listed subview with superview := some self_}
    else heap

/-! ### What a call does to the hierarchy -/

theorem nsViewSuperview_addSubview {heap : Heap View F} {self_ : View}
    (h : (heap self_).subviews.length < 64) (subview : View) :
    nsViewSuperview (nsViewAddSubview heap self_ (some subview)) =
      Function.update (nsViewSuperview heap) subview (some self_) := by
  rw [nsViewAddSubview, dif_pos h]
  have hpush : NSViewData.superview ∘
      Function.update heap self_ ((heap self_).push subview h) = nsViewSuperview heap := by
    rw [Function.comp_update]
    exact Function.update_eq_self self_ (nsViewSuperview heap)
  rw [← hpush]
  exact Function.comp_update NSViewData.superview _ subview _

theorem subviews_addSubview {heap : Heap View F} {self_ : View}
    (h : (heap self_).subviews.length < 64) (subview : View) :
    subviews (nsViewAddSubview heap self_ (some subview)) =
      Function.update (subviews heap) self_ (subviews heap self_ ++ [subview]) := by
  rw [nsViewAddSubview, dif_pos h]
  have hlisted : NSViewData.subviews ∘
      Function.update heap self_ ((heap self_).push subview h) =
        Function.update (subviews heap) self_ (subviews heap self_ ++ [subview]) :=
    Function.comp_update NSViewData.subviews heap self_ _
  rw [← hlisted]
  refine (Function.comp_update NSViewData.subviews _ subview _).trans ?_
  exact Function.update_eq_self subview _

theorem nsViewAddSubview_full {heap : Heap View F} {self_ : View}
    (h : ¬ (heap self_).subviews.length < 64) (subview : View) :
    nsViewAddSubview heap self_ (some subview) = heap := dif_neg h

theorem hierarchy_addSubview {heap : Heap View F} (h : Hierarchy heap) (self_ : View)
    (subview : Option View) :
    Hierarchy (nsViewAddSubview heap self_ subview) ↔ Fits heap (.addSubview self_ subview) := by
  cases subview with
  | none => exact iff_of_true h trivial
  | some subview =>
    by_cases hroom : (heap self_).subviews.length < 64
    · unfold Hierarchy
      rw [nsViewSuperview_addSubview hroom, subviews_addSubview hroom]
      exact (h.attach_iff self_ subview).trans (imp_iff_right hroom).symm
    · rw [nsViewAddSubview_full hroom]
      exact iff_of_true h fun hlt => absurd hlt hroom

variable [CGFloat F]

def nsViewInitWithFrame (heap : Heap View F) (self_ : View) (frame : CGRect F) :
    Heap View F × View :=
  (Function.update heap self_
    { frame := frame
      bounds := ⟨⟨0, 0⟩, frame.size⟩
      superview := none
      subviews := []
      needsDisplay := true
      hidden := false
      alpha := 1
      backgroundColor := ⟨1, 1, 1, 1⟩
      room := Nat.zero_le 64 }, self_)

theorem nsViewSuperview_initWithFrame (heap : Heap View F) (self_ : View) (frame : CGRect F) :
    nsViewSuperview (nsViewInitWithFrame heap self_ frame).1 =
      Function.update (nsViewSuperview heap) self_ none :=
  Function.comp_update NSViewData.superview heap self_ _

theorem subviews_initWithFrame (heap : Heap View F) (self_ : View) (frame : CGRect F) :
    subviews (nsViewInitWithFrame heap self_ frame).1 =
      Function.update (subviews heap) self_ [] :=
  Function.comp_update NSViewData.subviews heap self_ _

theorem hierarchy_initWithFrame {heap : Heap View F} (h : Hierarchy heap) (self_ : View)
    (frame : CGRect F) :
    Hierarchy (nsViewInitWithFrame heap self_ frame).1 ↔ Fits heap (.initWithFrame self_ frame) := by
  unfold Hierarchy
  rw [nsViewSuperview_initWithFrame, subviews_initWithFrame]
  exact h.reset_iff self_

/-! ### Runs -/

/-- `initWithFrame:` answers the view. -/
def step (heap : Heap View F) : Action View F → Heap View F × Option View
  | .initWithFrame self_ frame =>
    ((nsViewInitWithFrame heap self_ frame).1, some (nsViewInitWithFrame heap self_ frame).2)
  | .addSubview self_ subview => (nsViewAddSubview heap self_ subview, none)

def views : System (Heap View F) (Action View F) (Option View) := ⟨step⟩

theorem hierarchy_step (heap : Heap View F) (action : Action View F) (h : Hierarchy heap) :
    Hierarchy (step heap action).1 ↔ Fits heap action := by
  cases action with
  | initWithFrame self_ frame => exact hierarchy_initWithFrame h self_ frame
  | addSubview self_ subview => exact hierarchy_addSubview h self_ subview

/-- However views are initialized and added, the hierarchy is a forest throughout exactly when
every call fits what it finds. -/
theorem hierarchy_iff (actions : List (Action View F)) :
    views.Along (fun e => Hierarchy e.after) allocated actions ↔
      views.Along (fun e => Fits e.before e.action) allocated actions :=
  along_after_iff hierarchy_step hierarchy_allocated

end Calls

/-- View 3 is added to view 1 and then to view 2. -/
def moved : List (Action ℕ ℚ) :=
  [.initWithFrame 1 zeroRect, .initWithFrame 2 zeroRect, .initWithFrame 3 zeroRect,
    .addSubview 1 (some 3), .addSubview 2 (some 3)]

theorem moved_listed_twice : ¬ views.Along (fun e => Hierarchy e.after) allocated moved := by
  intro h
  simp only [moved, along_cons] at h
  obtain ⟨-, -, -, -, hlast, -⟩ := h
  have hone : (1 : ℕ) = 2 := hlast.one 1 2 3 List.mem_cons_self List.mem_cons_self
  exact nomatch hone

end Grafted.Appkit.View
