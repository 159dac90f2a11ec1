import Mathlib.Data.List.Basic
import Grafted.Base.ByteMemory

/-! CGContext: a bitmap, and the state it is drawn with.

The calls are for any type of floats that has the operations the source uses, so what is
proved of them holds with rounding. In a bitmap whose rows are as long as it is wide, no
two pixels share a byte, and setting one leaves the others (`pixel_setPixel`). -/
namespace Grafted.Cg.Context
open ByteMemory

/-- A `CGFloat`, by what the drawing does with it. -/
class CGFloat (F : Type) extends Add F, Mul F, Zero F, One F where
  max : F → F → F
  /-- `255.0` -/
  full : F
  asUsize : F → Nat
  asU8 : F → Byte

@[ext] structure CGPoint (F : Type) where
  x : F
  y : F
  deriving DecidableEq

structure CGSize (F : Type) where
  width : F
  height : F

structure CGRect (F : Type) where
  origin : CGPoint F
  size : CGSize F

structure CGAffineTransform (F : Type) where
  a : F
  b : F
  c : F
  d : F
  tx : F
  ty : F
  deriving DecidableEq

namespace CGAffineTransform
variable {F : Type}

def identity [Zero F] [One F] : CGAffineTransform F := ⟨1, 0, 0, 1, 0, 0⟩

/-- The image of a point. -/
def apply [Add F] [Mul F] (t : CGAffineTransform F) (p : CGPoint F) : CGPoint F :=
  ⟨t.a * p.x + t.c * p.y + t.tx, t.b * p.x + t.d * p.y + t.ty⟩

end CGAffineTransform

/-- `[f64; 4]` -/
structure Color (F : Type) where
  r : F
  g : F
  b : F
  a : F

/-- The arguments of `set_pixel`. -/
structure Rgba where
  r : Byte
  g : Byte
  b : Byte
  a : Byte

structure DrawState (F : Type) where
  fillColor : Color F
  strokeColor : Color F
  lineWidth : F
  transform : CGAffineTransform F

/-- The buffer has the rows it was made for. -/
structure CGContextInner (F : Type) where
  width : Nat
  height : Nat
  /-- Bytes per row. -/
  stride : Nat
  bitsPerComponent : Nat
  pixels : List Byte
  fillColor : Color F
  strokeColor : Color F
  lineWidth : F
  transform : CGAffineTransform F
  /-- The last pushed first. -/
  stateStack : List (DrawState F)
  sized : pixels.length = stride * height

/-! ### Pixels -/

/-- The four stores of `set_pixel`. -/
def patch (pixels : List Byte) (off : Nat) (color : Rgba) : List Byte :=
  (((pixels.set off color.b).set (off + 1) color.g).set (off + 2) color.r).set (off + 3) color.a

theorem length_patch (pixels : List Byte) (off : Nat) (color : Rgba) :
    (patch pixels off color).length = pixels.length := by
  simp only [patch, List.length_set]

namespace CGContextInner
variable {F : Type}

def pixelOffset (c : CGContextInner F) (x y : Nat) : Nat := y * c.stride + x * 4

/-- The buffer after a `set_pixel`. -/
def painted (c : CGContextInner F) (x y : Nat) (color : Rgba) : List Byte :=
  if c.width ≤ x ∨ c.height ≤ y then c.pixels
  else if c.pixelOffset x y + 3 < c.pixels.length then patch c.pixels (c.pixelOffset x y) color
  else c.pixels

theorem length_painted (c : CGContextInner F) (x y : Nat) (color : Rgba) :
    (c.painted x y color).length = c.pixels.length := by
  unfold painted
  split_ifs
  · rfl
  · exact length_patch ..
  · rfl

def setPixel (c : CGContextInner F) (x y : Nat) (color : Rgba) : CGContextInner F :=
  {c with pixels := c.painted x y color, sized := (c.length_painted x y color).trans c.sized}

/-- One `set_pixel` for each cell, in order. -/
def setPixels (c : CGContextInner F) (cells : List (Nat × Nat)) (color : Rgba) : CGContextInner F :=
  cells.foldl (fun c cell => c.setPixel cell.1 cell.2 color) c

end CGContextInner

/-- `x0..x1` -/
def upTo (x0 x1 : Nat) : List Nat := List.range' x0 (x1 - x0)

/-- `x0..=x1` -/
def through (x0 x1 : Nat) : List Nat := List.range' x0 (x1 + 1 - x0)

/-! ### The calls -/

section Calls
variable {F : Type}

/-- `none` is the panic: a product that is not a `usize`, or a buffer over `isize::MAX`. The
caller's data is the bytes from a pointer on. -/
def cgBitmapContextCreate [Zero F] [One F] (data : Option (Nat → Byte))
    (width height bitsPerComponent bytesPerRow : Nat) : Option (CGContextInner F) :=
  let stride := if 0 < bytesPerRow then bytesPerRow else width * 4
  let size := stride * height
  if stride < 2 ^ 64 ∧ size < 2 ^ 63 then
    some
      { width, height, stride, bitsPerComponent
        pixels := (List.range size).map (data.getD fun _ => 0)
        fillColor := ⟨0, 0, 0, 1⟩
        strokeColor := ⟨0, 0, 0, 1⟩
        lineWidth := 1
        transform := .identity
        stateStack := []
        sized := (List.length_map ..).trans (List.length_range ..) }
  else none

namespace CGContextInner

def drawState (c : CGContextInner F) : DrawState F :=
  ⟨c.fillColor, c.strokeColor, c.lineWidth, c.transform⟩

end CGContextInner

def cgContextSaveGState (c : CGContextInner F) : CGContextInner F :=
  {c with stateStack := c.drawState :: c.stateStack}

def cgContextRestoreGState (c : CGContextInner F) : CGContextInner F :=
  match c.stateStack with
  | [] => c
  | state :: rest =>
    {c with
      stateStack := rest
      fillColor := state.fillColor
      strokeColor := state.strokeColor
      lineWidth := state.lineWidth
      transform := state.transform}

def cgContextSetRGBFillColor (c : CGContextInner F) (r g b a : F) : CGContextInner F :=
  {c with fillColor := ⟨r, g, b, a⟩}

def cgContextSetRGBStrokeColor (c : CGContextInner F) (r g b a : F) : CGContextInner F :=
  {c with strokeColor := ⟨r, g, b, a⟩}

def cgContextSetGrayFillColor (c : CGContextInner F) (gray a : F) : CGContextInner F :=
  cgContextSetRGBFillColor c gray gray gray a

def cgContextTranslateCTM [Add F] (c : CGContextInner F) (tx ty : F) : CGContextInner F :=
  {c with transform := {c.transform with tx := c.transform.tx + tx, ty := c.transform.ty + ty}}

def cgContextScaleCTM [Mul F] (c : CGContextInner F) (sx sy : F) : CGContextInner F :=
  {c with transform := {c.transform with a := c.transform.a * sx, d := c.transform.d * sy}}

def cgContextGetCTM (c : CGContextInner F) : CGAffineTransform F := c.transform

def cgContextSetLineWidth (c : CGContextInner F) (width : F) : CGContextInner F :=
  {c with lineWidth := width}

variable [CGFloat F]
open CGFloat

/-- `(r * 255.0) as u8`, for each component. -/
def Color.bytes (color : Color F) : Rgba :=
  ⟨asU8 (color.r * full), asU8 (color.g * full), asU8 (color.b * full), asU8 (color.a * full)⟩

/-- The loops of `CGContextFillRect` and `CGContextClearRect`. -/
def rectCells (c : CGContextInner F) (rect : CGRect F) : List (Nat × Nat) :=
  let x0 := asUsize (max rect.origin.x 0)
  let y0 := asUsize (max rect.origin.y 0)
  let x1 := min (asUsize (rect.origin.x + rect.size.width)) c.width
  let y1 := min (asUsize (rect.origin.y + rect.size.height)) c.height
  (upTo y0 y1).flatMap fun y => (upTo x0 x1).map fun x => (x, y)

def cgContextFillRect (c : CGContextInner F) (rect : CGRect F) : CGContextInner F :=
  c.setPixels (rectCells c rect) c.fillColor.bytes

def cgContextClearRect (c : CGContextInner F) (rect : CGRect F) : CGContextInner F :=
  c.setPixels (rectCells c rect) ⟨0, 0, 0, 0⟩

/-- The loops of `CGContextStrokeRect`. -/
def edgeCells (x0 y0 x1 y1 : Nat) : List (Nat × Nat) :=
  (through x0 x1).flatMap (fun x => [(x, y0), (x, y1)]) ++
    (through y0 y1).flatMap (fun y => [(x0, y), (x1, y)])

def cgContextStrokeRect (c : CGContextInner F) (rect : CGRect F) : CGContextInner F :=
  let x0 := asUsize (max rect.origin.x 0)
  let y0 := asUsize (max rect.origin.y 0)
  let x1 := min (asUsize (rect.origin.x + rect.size.width)) (c.width - 1)
  let y1 := min (asUsize (rect.origin.y + rect.size.height)) (c.height - 1)
  c.setPixels (edgeCells x0 y0 x1 y1) c.strokeColor.bytes

end Calls

/-! ### What a call does to the pixels -/

/-- The bytes of a pixel, as far as they are in the buffer. -/
def bytesAt (pixels : List Byte) (off : Nat) : List (Option Byte) :=
  [pixels[off]?, pixels[off + 1]?, pixels[off + 2]?, pixels[off + 3]?]

/-- In the order X11 expects. -/
def Rgba.bgra (color : Rgba) : List (Option Byte) :=
  [some color.b, some color.g, some color.r, some color.a]

theorem getElem?_patch_apart {pixels : List Byte} {off i : Nat} (color : Rgba)
    (h : i < off ∨ off + 4 ≤ i) : (patch pixels off color)[i]? = pixels[i]? := by
  have h0 : off ≠ i := by omega
  have h1 : off + 1 ≠ i := by omega
  have h2 : off + 2 ≠ i := by omega
  have h3 : off + 3 ≠ i := by omega
  rw [patch, List.getElem?_set_ne h3, List.getElem?_set_ne h2, List.getElem?_set_ne h1,
    List.getElem?_set_ne h0]

theorem bytesAt_patch_apart {pixels : List Byte} {off off' : Nat} (color : Rgba)
    (h : off' + 4 ≤ off ∨ off + 4 ≤ off') :
    bytesAt (patch pixels off color) off' = bytesAt pixels off' := by
  unfold bytesAt
  rw [getElem?_patch_apart color (by omega), getElem?_patch_apart color (by omega),
    getElem?_patch_apart color (by omega), getElem?_patch_apart color (by omega)]

theorem bytesAt_patch_self {pixels : List Byte} {off : Nat} (color : Rgba)
    (h : off + 3 < pixels.length) : bytesAt (patch pixels off color) off = color.bgra := by
  have h0 : off < pixels.length := by omega
  have h1 : off + 1 < pixels.length := by omega
  have h2 : off + 2 < pixels.length := by omega
  simp [bytesAt, patch, Rgba.bgra, h0, h1, h2, h]

namespace CGContextInner
variable {F : Type}

def pixel (c : CGContextInner F) (x y : Nat) : List (Option Byte) := bytesAt c.pixels (c.pixelOffset x y)

/-- The rows are as long as the bitmap is wide. -/
def Wide (c : CGContextInner F) : Prop := c.width * 4 ≤ c.stride

/-- A pixel's row ends before the next one begins. -/
theorem pixelOffset_lt {c : CGContextInner F} (hwide : c.Wide) {x y : Nat} (hx : x < c.width)
    {n : Nat} (hy : y < n) : c.pixelOffset x y + 4 ≤ n * c.stride := by
  have hrow : (y + 1) * c.stride ≤ n * c.stride := Nat.mul_le_mul_right _ hy
  unfold Wide at hwide
  rw [Nat.succ_mul] at hrow
  unfold pixelOffset
  omega

theorem pixelOffset_in {c : CGContextInner F} (hwide : c.Wide) {x y : Nat} (hx : x < c.width)
    (hy : y < c.height) : c.pixelOffset x y + 3 < c.pixels.length := by
  have hlt := pixelOffset_lt hwide hx hy
  rw [c.sized, Nat.mul_comm c.stride]
  omega

/-- No two pixels share a byte. -/
theorem pixelOffset_apart {c : CGContextInner F} (hwide : c.Wide) {x y x' y' : Nat}
    (hx : x < c.width) (hx' : x' < c.width) (hne : ¬(x = x' ∧ y = y')) :
    c.pixelOffset x' y' + 4 ≤ c.pixelOffset x y ∨ c.pixelOffset x y + 4 ≤ c.pixelOffset x' y' := by
  obtain hlt | heq | hgt := Nat.lt_trichotomy y y'
  · exact .inr (Nat.le_trans (pixelOffset_lt hwide hx hlt) (Nat.le_add_right ..))
  · unfold pixelOffset
    rw [heq]
    omega
  · exact .inl (Nat.le_trans (pixelOffset_lt hwide hx' hgt) (Nat.le_add_right ..))

theorem pixel_setPixel {c : CGContextInner F} (hwide : c.Wide) {x' y' : Nat} (hx' : x' < c.width)
    (hy' : y' < c.height) (x y : Nat) (color : Rgba) :
    (c.setPixel x y color).pixel x' y' =
      if x = x' ∧ y = y' then color.bgra else c.pixel x' y' := by
  show bytesAt (c.painted x y color) (c.pixelOffset x' y') = _
  unfold painted
  by_cases hout : c.width ≤ x ∨ c.height ≤ y
  · rw [if_pos hout, if_neg (by omega)]
    rfl
  · obtain ⟨hx, hy⟩ := not_or.mp hout
    have hin := pixelOffset_in hwide (Nat.not_le.mp hx) (Nat.not_le.mp hy)
    rw [if_neg hout, if_pos hin]
    split_ifs with hsame
    · obtain ⟨rfl, rfl⟩ := hsame
      exact bytesAt_patch_self color hin
    · exact bytesAt_patch_apart color (pixelOffset_apart hwide (Nat.not_le.mp hx) hx' hsame)

/-- A byte that changes is of the pixel that is set. -/
theorem painted_changed {c : CGContextInner F} {x y : Nat} {color : Rgba} {i : Nat}
    (h : (c.painted x y color)[i]? ≠ c.pixels[i]?) :
    x < c.width ∧ y < c.height ∧ c.pixelOffset x y ≤ i ∧ i < c.pixelOffset x y + 4 := by
  unfold painted at h
  split_ifs at h with hout hin
  · exact absurd rfl h
  · have hnear : ¬(i < c.pixelOffset x y ∨ c.pixelOffset x y + 4 ≤ i) :=
      fun hapart => h (getElem?_patch_apart color hapart)
    omega
  · exact absurd rfl h

/-- Only the pixels differ. -/
def OnlyPixels (c c' : CGContextInner F) : Prop :=
  ∃ pixels sized, c' = {c with pixels := pixels, sized := sized}

theorem setPixels_onlyPixels (c : CGContextInner F) (cells : List (Nat × Nat)) (color : Rgba) :
    c.OnlyPixels (c.setPixels cells color) := by
  induction cells generalizing c with
  | nil => exact ⟨c.pixels, c.sized, rfl⟩
  | cons cell rest ih =>
    obtain ⟨pixels, sized, heq⟩ := ih (c.setPixel cell.1 cell.2 color)
    exact ⟨pixels, sized, heq⟩

theorem pixelOffset_setPixels (c : CGContextInner F) (cells : List (Nat × Nat)) (color : Rgba)
    (x y : Nat) : (c.setPixels cells color).pixelOffset x y = c.pixelOffset x y := by
  obtain ⟨pixels, sized, heq⟩ := c.setPixels_onlyPixels cells color
  rw [heq]
  rfl

/-- The cells have the color, and the other pixels are as before. -/
theorem pixel_setPixels {c : CGContextInner F} (hwide : c.Wide) {x y : Nat} (hx : x < c.width)
    (hy : y < c.height) (cells : List (Nat × Nat)) (color : Rgba) :
    (c.setPixels cells color).pixel x y =
      if (x, y) ∈ cells then color.bgra else c.pixel x y := by
  induction cells generalizing c with
  | nil => rfl
  | cons cell rest ih =>
    have hlater := ih (c := c.setPixel cell.1 cell.2 color) hwide hx hy
    have hfirst := pixel_setPixel hwide hx hy cell.1 cell.2 color
    show ((c.setPixel cell.1 cell.2 color).setPixels rest color).pixel x y = _
    rw [hlater, hfirst]
    by_cases hrest : (x, y) ∈ rest
    · rw [if_pos hrest, if_pos (List.mem_cons_of_mem cell hrest)]
    · have hmem : (x, y) ∈ cell :: rest ↔ cell.1 = x ∧ cell.2 = y := by
        simp [hrest, Prod.ext_iff, eq_comm]
      simp only [if_neg hrest, hmem]

theorem setPixels_changed {c : CGContextInner F} {cells : List (Nat × Nat)} {color : Rgba} {i : Nat}
    (h : (c.setPixels cells color).pixels[i]? ≠ c.pixels[i]?) :
    ∃ x y, (x, y) ∈ cells ∧ x < c.width ∧ y < c.height ∧
      c.pixelOffset x y ≤ i ∧ i < c.pixelOffset x y + 4 := by
  induction cells generalizing c with
  | nil => exact absurd rfl h
  | cons cell rest ih =>
    by_cases hfirst : (c.painted cell.1 cell.2 color)[i]? = c.pixels[i]?
    · have hlater : ((c.setPixel cell.1 cell.2 color).setPixels rest color).pixels[i]? ≠
          (c.setPixel cell.1 cell.2 color).pixels[i]? := fun heq => h (heq.trans hfirst)
      obtain ⟨x, y, hmem, hpixel⟩ := ih hlater
      exact ⟨x, y, List.mem_cons_of_mem cell hmem, hpixel⟩
    · exact ⟨cell.1, cell.2, List.mem_cons_self, painted_changed hfirst⟩

end CGContextInner

end Grafted.Cg.Context
