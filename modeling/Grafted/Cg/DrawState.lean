import Mathlib.Tactic.LinearCombination
import Grafted.Base.Brackets
import Grafted.Cg.Context

/-! The drawing state of a context: saved and restored, and the transform that is in it.

Save and restore are brackets over the stack of states, so a restore brings back what was
there at its save (`gState_restored`). The transform after translations and scalings is
off by what each translation lacks of the scalings before it (`apply_calls`). -/
namespace Grafted.Cg.DrawState
open Context Brackets

section Runs
variable {F : Type}

/-- A graphics operation. -/
inductive Op (F : Type) where
  | setRGBFillColor (r g b a : F)
  | setRGBStrokeColor (r g b a : F)
  | setGrayFillColor (gray a : F)
  | setLineWidth (width : F)
  | translateCTM (tx ty : F)
  | scaleCTM (sx sy : F)
  | fillRect (rect : CGRect F)
  | clearRect (rect : CGRect F)
  | strokeRect (rect : CGRect F)
  | saveGState
  | restoreGState

def Op.kind : Op F → Kind
  | .saveGState => .opens
  | .restoreGState => .closes
  | _ => .plain

/-! ### Save and restore -/

theorem kind_opens {o : Op F} (h : o.kind = .opens) : o = .saveGState := by
  cases o <;> first | rfl | cases h

theorem kind_closes {o : Op F} (h : o.kind = .closes) : o = .restoreGState := by
  cases o <;> first | rfl | cases h

theorem setPixels_stateStack (c : CGContextInner F) (cells : List (Nat × Nat)) (color : Rgba) :
    (c.setPixels cells color).stateStack = c.stateStack := by
  obtain ⟨pixels, sized, heq⟩ := c.setPixels_onlyPixels cells color
  rw [heq]

theorem restore_empty {c : CGContextInner F} (h : c.stateStack = []) :
    cgContextRestoreGState c = c := by
  rw [cgContextRestoreGState, h]

theorem restore_cons {c : CGContextInner F} {state : DrawState F} {rest : List (DrawState F)}
    (h : c.stateStack = state :: rest) :
    (cgContextRestoreGState c).stateStack = rest ∧ (cgContextRestoreGState c).drawState = state := by
  rw [cgContextRestoreGState, h]
  exact ⟨rfl, rfl⟩

/-- The bitmap, without the state. -/
structure SameBitmap (c c' : CGContextInner F) : Prop where
  width : c'.width = c.width
  height : c'.height = c.height
  stride : c'.stride = c.stride
  bitsPerComponent : c'.bitsPerComponent = c.bitsPerComponent
  pixels : c'.pixels = c.pixels

theorem sameBitmap_save (c : CGContextInner F) : SameBitmap c (cgContextSaveGState c) :=
  ⟨rfl, rfl, rfl, rfl, rfl⟩

theorem sameBitmap_restore (c : CGContextInner F) : SameBitmap c (cgContextRestoreGState c) := by
  unfold cgContextRestoreGState
  cases c.stateStack with
  | nil => exact ⟨rfl, rfl, rfl, rfl, rfl⟩
  | cons state rest => exact ⟨rfl, rfl, rfl, rfl, rfl⟩

variable [CGFloat F]

def perform (c : CGContextInner F) : Op F → CGContextInner F
  | .setRGBFillColor r g b a => cgContextSetRGBFillColor c r g b a
  | .setRGBStrokeColor r g b a => cgContextSetRGBStrokeColor c r g b a
  | .setGrayFillColor gray a => cgContextSetGrayFillColor c gray a
  | .setLineWidth width => cgContextSetLineWidth c width
  | .translateCTM tx ty => cgContextTranslateCTM c tx ty
  | .scaleCTM sx sy => cgContextScaleCTM c sx sy
  | .fillRect rect => cgContextFillRect c rect
  | .clearRect rect => cgContextClearRect c rect
  | .strokeRect rect => cgContextStrokeRect c rect
  | .saveGState => cgContextSaveGState c
  | .restoreGState => cgContextRestoreGState c

def run (c : CGContextInner F) (ops : List (Op F)) : CGContextInner F := ops.foldl perform c

/-- The stack is as it was after everything but a save and a restore. -/
theorem perform_plain (c : CGContextInner F) {o : Op F} (h : o.kind = .plain) :
    (perform c o).stateStack = c.stateStack := by
  cases o with
  | saveGState => cases h
  | restoreGState => cases h
  | fillRect rect => exact setPixels_stateStack ..
  | clearRect rect => exact setPixels_stateStack ..
  | strokeRect rect => exact setPixels_stateStack ..
  | _ => rfl

theorem discipline :
    Discipline Op.kind perform (CGContextInner.stateStack (F := F)) CGContextInner.drawState where
  opens c o ho := by
    rw [kind_opens ho]
    rfl
  closes c o ho state rest hstack := by
    rw [kind_closes ho]
    exact restore_cons hstack
  empty c o ho hstack := by
    rw [kind_closes ho]
    exact (congrArg CGContextInner.stateStack (restore_empty hstack)).trans hstack
  plain c o ho := perform_plain c ho

/-- A restore with no save pending finds the stack empty. -/
theorem restore_unmatched {c : CGContextInner F} (hempty : c.stateStack = []) {ops : List (Op F)}
    (h : pending Op.kind 0 ops = 0) : perform (run c ops) .restoreGState = run c ops := by
  have hlength := discipline.length_stack ops c
  rw [hempty, List.length_nil, h] at hlength
  exact restore_empty (List.length_eq_zero_iff.mp hlength)

theorem drawState_bracket (c : CGContextInner F) (earlier : List (Op F)) {body : List (Op F)}
    (hbody : Balanced Op.kind body) :
    (run c (earlier ++ .saveGState :: body ++ [.restoreGState])).drawState =
      (run c earlier).drawState := by
  unfold run
  rw [List.append_assoc, List.foldl_append]
  have hopens : Op.kind (.saveGState : Op F) = .opens := rfl
  have hcloses : Op.kind (.restoreGState : Op F) = .closes := rfl
  exact discipline.run_bracket hopens hcloses hbody (earlier.foldl perform c)

/-- After a restore the state is that at the matching save, whatever was drawn and set in
between; every restore of a nested sequence has one. Neither call touches the bitmap, and a
restore without a save changes nothing. -/
theorem gState_restored (c : CGContextInner F) :
    (∀ ops : List (Op F), Balanced Op.kind ops → ∀ before after,
      ops = before ++ .restoreGState :: after →
        ∃ earlier body, before = earlier ++ .saveGState :: body ∧ Balanced Op.kind body ∧
          (run c (before ++ [.restoreGState])).drawState = (run c earlier).drawState) ∧
    (∀ earlier body : List (Op F), Balanced Op.kind body →
      (run c (earlier ++ .saveGState :: body ++ [.restoreGState])).drawState =
        (run c earlier).drawState) ∧
    (∀ ops : List (Op F), SameBitmap (run c ops) (run c (ops ++ [.saveGState])) ∧
      SameBitmap (run c ops) (run c (ops ++ [.restoreGState]))) ∧
    (c.stateStack = [] → ∀ ops : List (Op F), pending Op.kind 0 ops = 0 →
      run c (ops ++ [.restoreGState]) = run c ops) := by
  refine ⟨fun ops hops before after hsplit => ?_, fun earlier body hbody => ?_,
    fun ops => ⟨?_, ?_⟩, fun hempty ops hpending => ?_⟩
  · obtain ⟨earlier, o, body, rfl, ho, hbody⟩ :=
      hops.matching (rfl : Op.kind (.restoreGState : Op F) = .closes) hsplit
    rw [kind_opens ho]
    exact ⟨earlier, body, rfl, hbody, drawState_bracket c earlier hbody⟩
  · exact drawState_bracket c earlier hbody
  · unfold run
    rw [List.foldl_append]
    exact sameBitmap_save _
  · unfold run
    rw [List.foldl_append]
    exact sameBitmap_restore _
  · have hunmatched := restore_unmatched hempty hpending
    unfold run at hunmatched ⊢
    rw [List.foldl_append]
    exact hunmatched

end Runs

/-! ### The transform -/

section Transform
variable {F : Type}

/-- A call that changes the transform. -/
inductive CtmCall (F : Type) where
  | translate (tx ty : F)
  | scale (sx sy : F)

/-- What a call does to one coordinate. -/
inductive Axis (F : Type) where
  | shift (t : F)
  | stretch (s : F)

def CtmCall.x : CtmCall F → Axis F
  | .translate tx _ => .shift tx
  | .scale sx _ => .stretch sx

def CtmCall.y : CtmCall F → Axis F
  | .translate _ ty => .shift ty
  | .scale _ sy => .stretch sy

variable [CommRing F]

def CtmCall.perform (c : CGContextInner F) : CtmCall F → CGContextInner F
  | .translate tx ty => cgContextTranslateCTM c tx ty
  | .scale sx sy => cgContextScaleCTM c sx sy

def Axis.apply : Axis F → F → F
  | .shift t, p => p + t
  | .stretch s, p => s * p

/-- The translation or scaling alone. -/
def CtmCall.apply (call : CtmCall F) (p : CGPoint F) : CGPoint F :=
  ⟨call.x.apply p.x, call.y.apply p.y⟩

/-- The maps one after another, that of the last call first. -/
def concatenated (calls : List (CtmCall F)) (p : CGPoint F) : CGPoint F := calls.foldr CtmCall.apply p

/-- What the shifts lack of the stretches before them, from a stretch on. -/
def drift (s : F) : List (Axis F) → F
  | [] => 0
  | .shift t :: rest => (s - 1) * t + drift s rest
  | .stretch k :: rest => drift (s * k) rest

theorem concatenated_x (calls : List (CtmCall F)) (p : CGPoint F) :
    (concatenated calls p).x = (calls.map CtmCall.x).foldr Axis.apply p.x := by
  induction calls with
  | nil => rfl
  | cons call rest ih => exact congrArg call.x.apply ih

theorem concatenated_y (calls : List (CtmCall F)) (p : CGPoint F) :
    (concatenated calls p).y = (calls.map CtmCall.y).foldr Axis.apply p.y := by
  induction calls with
  | nil => rfl
  | cons call rest ih => exact congrArg call.y.apply ih

/-- What the calls do to a stretch and a shift of one coordinate. -/
def settle (st : F × F) : List (Axis F) → F × F
  | [] => st
  | .shift t :: rest => settle (st.1, st.2 + t) rest
  | .stretch k :: rest => settle (st.1 * k, st.2) rest

theorem settle_apply (axes : List (Axis F)) (s t p : F) :
    s * axes.foldr Axis.apply p + t =
      (settle (s, t) axes).1 * p + (settle (s, t) axes).2 + drift s axes := by
  induction axes generalizing s t with
  | nil => exact (add_zero _).symm
  | cons axis rest ih =>
    cases axis with
    | shift t' =>
      have hrest := ih s (t + t')
      simp only [List.foldr_cons, Axis.apply, settle, drift]
      linear_combination hrest
    | stretch k =>
      have hrest := ih (s * k) t
      simp only [List.foldr_cons, Axis.apply, settle, drift]
      linear_combination hrest

/-- The calls work on each coordinate by itself. -/
theorem transform_calls (calls : List (CtmCall F)) (c : CGContextInner F) :
    (calls.foldl CtmCall.perform c).transform =
      { c.transform with
        a := (settle (c.transform.a, c.transform.tx) (calls.map CtmCall.x)).1
        tx := (settle (c.transform.a, c.transform.tx) (calls.map CtmCall.x)).2
        d := (settle (c.transform.d, c.transform.ty) (calls.map CtmCall.y)).1
        ty := (settle (c.transform.d, c.transform.ty) (calls.map CtmCall.y)).2 } := by
  induction calls generalizing c with
  | nil => rfl
  | cons call rest ih =>
    rw [List.foldl_cons, ih]
    cases call with
    | translate tx ty => rfl
    | scale sx sy => rfl

/-- The transform of a context that starts with the identity is off by the drifts. -/
theorem apply_calls {c : CGContextInner F} (hfresh : c.transform = .identity)
    (calls : List (CtmCall F)) (p : CGPoint F) :
    (concatenated calls p).x =
        ((calls.foldl CtmCall.perform c).transform.apply p).x + drift 1 (calls.map CtmCall.x) ∧
      (concatenated calls p).y =
        ((calls.foldl CtmCall.perform c).transform.apply p).y + drift 1 (calls.map CtmCall.y) := by
  have hx := settle_apply (calls.map CtmCall.x) 1 0 p.x
  have hy := settle_apply (calls.map CtmCall.y) 1 0 p.y
  rw [transform_calls, hfresh, concatenated_x, concatenated_y]
  simp only [CGAffineTransform.apply, CGAffineTransform.identity]
  constructor
  · linear_combination hx
  · linear_combination hy

theorem create_transform {data : Option (Nat → ByteMemory.Byte)}
    {width height bitsPerComponent bytesPerRow : Nat} {c : CGContextInner F}
    (hc : cgBitmapContextCreate data width height bitsPerComponent bytesPerRow = some c) :
    c.transform = .identity := by
  simp only [cgBitmapContextCreate] at hc
  split_ifs at hc
  all_goals
    obtain rfl := Option.some.inj hc
    rfl

/-- A new context's transform is the concatenation of the calls exactly when no translation
lacks anything of the scalings before it, taken together. -/
theorem getCTM_concatenated_iff {data : Option (Nat → ByteMemory.Byte)}
    {width height bitsPerComponent bytesPerRow : Nat} {c : CGContextInner F}
    (hc : cgBitmapContextCreate data width height bitsPerComponent bytesPerRow = some c)
    (calls : List (CtmCall F)) :
    (∀ p, (cgContextGetCTM (calls.foldl CtmCall.perform c)).apply p = concatenated calls p) ↔
      drift 1 (calls.map CtmCall.x) = 0 ∧ drift 1 (calls.map CtmCall.y) = 0 := by
  have hfresh := create_transform hc
  constructor
  · intro hsame
    obtain ⟨hx, hy⟩ := apply_calls hfresh calls ⟨0, 0⟩
    rw [← hsame] at hx hy
    exact ⟨left_eq_add.mp hx, left_eq_add.mp hy⟩
  · rintro ⟨hx, hy⟩ p
    obtain ⟨hpx, hpy⟩ := apply_calls hfresh calls p
    rw [hx, add_zero] at hpx
    rw [hy, add_zero] at hpy
    exact (CGPoint.ext hpx hpy).symm

end Transform

/-- A bitmap of one pixel. -/
def small : CGContextInner ℤ := (cgBitmapContextCreate none 1 1 8 0).get rfl

theorem small_created : cgBitmapContextCreate none 1 1 8 0 = some small := (Option.some_get _).symm

theorem translated_then_scaled :
    (cgContextGetCTM ([.translate 1 2, .scale 3 4].foldl CtmCall.perform small)).apply ⟨5, 6⟩ =
      concatenated [.translate 1 2, .scale 3 4] ⟨5, 6⟩ :=
  (getCTM_concatenated_iff small_created _).mpr ⟨rfl, rfl⟩ ⟨5, 6⟩

/-- A translation by 1 at scale 2 is one by 1, not by 2. -/
theorem scaled_then_translated :
    ¬∀ p, (cgContextGetCTM ([.scale 2 2, .translate 1 0].foldl CtmCall.perform small)).apply p =
      concatenated [.scale 2 2, .translate 1 0] p := by
  intro hsame
  exact absurd (congrArg CGPoint.x (hsame ⟨0, 0⟩)) (by decide)

end Grafted.Cg.DrawState
