import Mathlib.Data.Rat.Floor
import Grafted.Cg.Context

/-! CGContextStrokeRect: the pixels it changes, and the border of the rectangle.

The corners are moved into the bitmap before the edges are drawn, and an edge that was
outside is drawn where the bitmap ends. `strokeRect_iff` says for which rectangles that makes
no difference. -/
namespace Grafted.Cg.StrokeRect
open ByteMemory Context

/-- Exact numbers. Integers and their sums are exact as `f64` up to 2^53. -/
instance : CGFloat ℚ where
  max := fun x y => if x ≤ y then y else x
  full := 255
  asUsize := fun x => min x.floor.toNat (2 ^ 64 - 1)
  asU8 := fun x => BitVec.ofNat 8 (min x.floor.toNat 255)

theorem asUsize_intCast (n : ℤ) : CGFloat.asUsize (n : ℚ) = min n.toNat (2 ^ 64 - 1) := by
  show min (n : ℚ).floor.toNat _ = _
  rw [Rat.floor_intCast]

theorem max_intCast (m n : ℤ) : CGFloat.max (m : ℚ) n = ((max m n : ℤ) : ℚ) := by
  show (if (m : ℚ) ≤ n then (n : ℚ) else m) = _
  by_cases hle : m ≤ n
  · rw [if_pos (Int.cast_le.mpr hle), max_eq_right hle]
  · rw [if_neg fun h => hle (Int.cast_le.mp h), max_eq_left (Int.le_of_lt (Int.not_le.mp hle))]

/-! ### One axis -/

/-- A rectangle and a bitmap along one axis. -/
structure Axis where
  origin : ℤ
  size : ℤ
  extent : ℕ

namespace Axis

/-- The corner at the origin, as the call has it. -/
def first (a : Axis) : ℕ := min (max a.origin 0).toNat (2 ^ 64 - 1)

/-- The other corner. -/
def last (a : Axis) : ℕ := min (min (a.origin + a.size).toNat (2 ^ 64 - 1)) (a.extent - 1)

def Spans (a : Axis) (x : ℕ) : Prop := a.origin ≤ x ∧ (x : ℤ) ≤ a.origin + a.size

def IsEdge (a : Axis) (x : ℕ) : Prop := (x : ℤ) = a.origin ∨ (x : ℤ) = a.origin + a.size

/-- The rectangle is not all before the bitmap, nor all after it. -/
def Meets (a : Axis) : Prop := a.origin < a.extent ∧ 0 ≤ a.origin + a.size

/-- Both edges are in the bitmap. -/
def Inside (a : Axis) : Prop := 0 ≤ a.origin ∧ a.origin + a.size < a.extent

/-- Only one edge of the rectangle is in the bitmap, at its end. -/
def Touches (a : Axis) : Prop := a.origin = a.extent - 1 ∨ a.origin + a.size = 0

variable {a : Axis}

theorem first_eq (h : a.origin < a.extent) (hextent : a.extent < 2 ^ 64) :
    (a.first : ℤ) = max a.origin 0 := by
  unfold first
  omega

theorem extent_le_first (h : a.extent ≤ a.origin) (hextent : a.extent < 2 ^ 64) :
    a.extent ≤ a.first := by
  unfold first
  omega

theorem last_eq (h : 0 < a.extent) (hextent : a.extent < 2 ^ 64) :
    (a.last : ℤ) = min (max (a.origin + a.size) 0) (a.extent - 1) := by
  unfold last
  omega

/-- Where no point between the corners is off the edges. -/
theorem edge_of_thin (h : 0 < a.extent) (hextent : a.extent < 2 ^ 64) (hmeets : a.Meets)
    (hthin : a.size ≤ 1 ∨ a.Touches) {x : ℕ} (hfirst : a.first ≤ x) (hlast : x ≤ a.last) :
    a.IsEdge x := by
  have hf := first_eq hmeets.1 hextent
  have hl := last_eq h hextent
  unfold Meets at hmeets
  unfold Touches at hthin
  unfold IsEdge
  omega

/-- And where some is. -/
theorem exists_off_edge (h : 0 < a.extent) (hextent : a.extent < 2 ^ 64) (hmeets : a.Meets)
    (hthick : ¬(a.size ≤ 1 ∨ a.Touches)) :
    ∃ x, a.first ≤ x ∧ x ≤ a.last ∧ x < a.extent ∧ ¬a.IsEdge x := by
  have hf := first_eq hmeets.1 hextent
  have hl := last_eq h hextent
  unfold Meets at hmeets
  unfold Touches at hthick
  unfold IsEdge
  by_cases hbefore : a.origin < 0
  · exact ⟨a.first, by omega, by omega, by omega, by omega⟩
  · by_cases hafter : a.extent ≤ a.origin + a.size
    · exact ⟨a.last, by omega, by omega, by omega, by omega⟩
    · exact ⟨a.first + 1, by omega, by omega, by omega, by omega⟩

/-- The corners are on the edges exactly when the edges are in the bitmap, or the one that is. -/
theorem corners_iff (h : 0 < a.extent) (hextent : a.extent < 2 ^ 64) (hmeets : a.Meets) :
    (a.IsEdge a.first ∧ a.IsEdge a.last) ↔ a.Inside ∨ a.Touches := by
  have hf := first_eq hmeets.1 hextent
  have hl := last_eq h hextent
  unfold Meets at hmeets
  unfold IsEdge Inside Touches
  omega

/-- The corners are in the bitmap and between the edges, when any point is. -/
theorem corners_in (h : 0 < a.extent) (hextent : a.extent < 2 ^ 64) (hsize : 0 ≤ a.size)
    (hin : a.origin < a.extent) : a.first ≤ a.last ∧ a.last < a.extent := by
  have hf := first_eq hin hextent
  have hl := last_eq h hextent
  omega

theorem spans_between (h : 0 < a.extent) (hextent : a.extent < 2 ^ 64) (hmeets : a.Meets) {x : ℕ}
    (hfirst : a.first ≤ x) (hlast : x ≤ a.last) : a.Spans x := by
  have hf := first_eq hmeets.1 hextent
  have hl := last_eq h hextent
  unfold Meets at hmeets
  unfold Spans
  omega

theorem meets_of_spans {x : ℕ} (hspans : a.Spans x) (hx : x < a.extent) : a.Meets := by
  unfold Spans at hspans
  unfold Meets
  omega

end Axis

/-! ### The edges along one axis -/

/-- On one of the four edges of the rectangle. -/
def OnBorder (a b : Axis) (x y : ℕ) : Prop := a.Spans x ∧ b.Spans y ∧ (a.IsEdge x ∨ b.IsEdge y)

/-- The edges drawn along the first axis are on the border. -/
def EdgesOk (a b : Axis) : Prop :=
  ∀ x y, x < a.extent → y < b.extent → a.first ≤ x → x ≤ a.last → (y = b.first ∨ y = b.last) →
    OnBorder a b x y

theorem edgesOk_iff {a b : Axis} (ha : 0 < a.extent) (hb : 0 < b.extent)
    (hafits : a.extent < 2 ^ 64) (hbfits : b.extent < 2 ^ 64) (hasize : 0 ≤ a.size)
    (hbsize : 0 ≤ b.size) :
    EdgesOk a b ↔ (a.extent : ℤ) ≤ a.origin ∨
      (a.Meets ∧ b.Meets ∧ ((b.Inside ∨ b.Touches) ∨ (a.size ≤ 1 ∨ a.Touches))) := by
  constructor
  · intro hok
    by_cases hafter : (a.extent : ℤ) ≤ a.origin
    · exact .inl hafter
    · have hin : a.origin < a.extent := Int.not_le.mp hafter
      obtain ⟨hle, hlast⟩ := Axis.corners_in ha hafits hasize hin
      have hblast : b.last < b.extent := by
        have hl := Axis.last_eq hb hbfits
        omega
      have hcorner := hok a.last b.last hlast hblast hle (Nat.le_refl _) (.inr rfl)
      have hmeets := Axis.meets_of_spans hcorner.1 hlast
      have hmeets' := Axis.meets_of_spans hcorner.2.1 hblast
      refine .inr ⟨hmeets, hmeets', ?_⟩
      by_contra hbad
      obtain ⟨hcorners, hthick⟩ := not_or.mp hbad
      obtain ⟨x, hfirst, hx, hxin, hoff⟩ := Axis.exists_off_edge ha hafits hmeets hthick
      -- a point off the edges makes both corners of the other axis edges
      have hbfirst : b.first < b.extent :=
        Nat.lt_of_le_of_lt (Axis.corners_in hb hbfits hbsize hmeets'.1).1 hblast
      have hfirstEdge := (hok x b.first hxin hbfirst hfirst hx (.inl rfl)).2.2.resolve_left hoff
      have hlastEdge := (hok x b.last hxin hblast hfirst hx (.inr rfl)).2.2.resolve_left hoff
      exact hcorners ((Axis.corners_iff hb hbfits hmeets').mp ⟨hfirstEdge, hlastEdge⟩)
  · intro hgood x y hx hy hfirst hlast hcorner
    obtain hafter | ⟨hmeets, hmeets', hedges⟩ := hgood
    · have hle := Axis.extent_le_first hafter hafits
      omega
    · have hbetween : b.first ≤ y ∧ y ≤ b.last := by
        have hle := (Axis.corners_in hb hbfits hbsize hmeets'.1).1
        omega
      refine ⟨Axis.spans_between ha hafits hmeets hfirst hlast,
        Axis.spans_between hb hbfits hmeets' hbetween.1 hbetween.2, ?_⟩
      obtain hcorners | hthin := hedges
      · obtain ⟨hfirstEdge, hlastEdge⟩ := (Axis.corners_iff hb hbfits hmeets').mpr hcorners
        obtain rfl | rfl := hcorner
        · exact .inr hfirstEdge
        · exact .inr hlastEdge
      · exact .inl (Axis.edge_of_thin ha hafits hmeets hthin hfirst hlast)

/-! ### The call -/

/-- A rectangle with integer coordinates. -/
structure IntRect where
  x : ℤ
  y : ℤ
  width : ℤ
  height : ℤ

def IntRect.rect (r : IntRect) : CGRect ℚ := ⟨⟨r.x, r.y⟩, ⟨r.width, r.height⟩⟩

def xAxis (c : CGContextInner ℚ) (r : IntRect) : Axis := ⟨r.x, r.width, c.width⟩

def yAxis (c : CGContextInner ℚ) (r : IntRect) : Axis := ⟨r.y, r.height, c.height⟩

def drawn (c : CGContextInner ℚ) (r : IntRect) : List (Nat × Nat) :=
  edgeCells (xAxis c r).first (yAxis c r).first (xAxis c r).last (yAxis c r).last

theorem strokeRect_eq (c : CGContextInner ℚ) (r : IntRect) :
    cgContextStrokeRect c r.rect = c.setPixels (drawn c r) c.strokeColor.bytes := by
  have hfirst : ∀ n : ℤ, CGFloat.asUsize (CGFloat.max (n : ℚ) 0) =
      min (max n 0).toNat (2 ^ 64 - 1) := by
    intro n
    rw [← Int.cast_zero, max_intCast, asUsize_intCast]
  have hlast : ∀ n k : ℤ, CGFloat.asUsize ((n : ℚ) + k) = min (n + k).toNat (2 ^ 64 - 1) := by
    intro n k
    rw [← Int.cast_add, asUsize_intCast]
  simp only [cgContextStrokeRect, IntRect.rect, hfirst]
  rw [hlast, hlast]
  rfl

theorem mem_through {x0 x1 x : ℕ} : x ∈ through x0 x1 ↔ x0 ≤ x ∧ x ≤ x1 := by
  rw [through, List.mem_range'_1]
  omega

theorem mem_edgeCells {x0 y0 x1 y1 x y : ℕ} : (x, y) ∈ edgeCells x0 y0 x1 y1 ↔
    ((x0 ≤ x ∧ x ≤ x1) ∧ (y = y0 ∨ y = y1)) ∨ ((y0 ≤ y ∧ y ≤ y1) ∧ (x = x0 ∨ x = x1)) := by
  simp only [edgeCells, List.mem_append, List.mem_flatMap, mem_through, List.mem_cons,
    List.not_mem_nil, or_false, Prod.mk.injEq]
  constructor
  · rintro (⟨x', hx', ⟨rfl, hy⟩ | ⟨rfl, hy⟩⟩ | ⟨y', hy', ⟨hx, rfl⟩ | ⟨hx, rfl⟩⟩)
    · exact .inl ⟨hx', .inl hy⟩
    · exact .inl ⟨hx', .inr hy⟩
    · exact .inr ⟨hy', .inl hx⟩
    · exact .inr ⟨hy', .inr hx⟩
  · rintro (⟨hx, hy⟩ | ⟨hy, hx⟩)
    · obtain hy | hy := hy
      · exact .inl ⟨x, hx, .inl ⟨rfl, hy⟩⟩
      · exact .inl ⟨x, hx, .inr ⟨rfl, hy⟩⟩
    · obtain hx | hx := hx
      · exact .inr ⟨y, hy, .inl ⟨hx, rfl⟩⟩
      · exact .inr ⟨y, hy, .inr ⟨hx, rfl⟩⟩

/-- What the call may change. -/
structure KeepsToBorder (c : CGContextInner ℚ) (r : IntRect) : Prop where
  /-- A byte that changes is of a pixel of the bitmap on the border. -/
  border : ∀ i : ℕ, (cgContextStrokeRect c r.rect).pixels[i]? ≠ c.pixels[i]? →
    ∃ x y, x < c.width ∧ y < c.height ∧ OnBorder (xAxis c r) (yAxis c r) x y ∧
      c.pixelOffset x y ≤ i ∧ i < c.pixelOffset x y + 4
  /-- A rectangle outside the bitmap changes nothing. -/
  outside : (∀ x y, x < c.width → y < c.height → ¬((xAxis c r).Spans x ∧ (yAxis c r).Spans y)) →
    (cgContextStrokeRect c r.rect).pixels = c.pixels

/-- A bitmap of the same dimensions. -/
structure SameDimensions (c c' : CGContextInner ℚ) : Prop where
  width : c'.width = c.width
  height : c'.height = c.height
  stride : c'.stride = c.stride

/-- The bitmap all of one byte. -/
def flooded (c : CGContextInner ℚ) (b : Byte) : CGContextInner ℚ :=
  {c with
    pixels := List.replicate c.pixels.length b
    sized := (List.length_replicate ..).trans c.sized}

/-- Whatever the bitmap holds, the call keeps to the border when what it draws does. -/
theorem keepsToBorder_of_drawn {c : CGContextInner ℚ} {r : IntRect}
    (h : ∀ x y, x < c.width → y < c.height → (x, y) ∈ drawn c r →
      OnBorder (xAxis c r) (yAxis c r) x y) : KeepsToBorder c r := by
  have hborder : ∀ i : ℕ, (cgContextStrokeRect c r.rect).pixels[i]? ≠ c.pixels[i]? →
      ∃ x y, x < c.width ∧ y < c.height ∧ OnBorder (xAxis c r) (yAxis c r) x y ∧
        c.pixelOffset x y ≤ i ∧ i < c.pixelOffset x y + 4 := by
    intro i hchanged
    rw [strokeRect_eq] at hchanged
    obtain ⟨x, y, hmem, hx, hy, hin⟩ := CGContextInner.setPixels_changed hchanged
    exact ⟨x, y, hx, hy, h x y hx hy hmem, hin⟩
  refine ⟨hborder, fun houtside => ?_⟩
  apply List.ext_getElem?
  intro i
  by_contra hchanged
  obtain ⟨x, y, hx, hy, hon, -⟩ := hborder i hchanged
  exact houtside x y hx hy ⟨hon.1, hon.2.1⟩

theorem drawn_of_keepsToBorder {c : CGContextInner ℚ} (hwide : c.Wide) {r : IntRect}
    (h : ∀ c', SameDimensions c c' → KeepsToBorder c' r) {x y : ℕ} (hx : x < c.width)
    (hy : y < c.height) (hmem : (x, y) ∈ drawn c r) : OnBorder (xAxis c r) (yAxis c r) x y := by
  -- a bitmap in which the pixel has another color
  let other : CGContextInner ℚ := flooded c (c.strokeColor.bytes.b + 1)
  have hkeeps : KeepsToBorder other r := h other ⟨rfl, rfl, rfl⟩
  have hpixel := CGContextInner.pixel_setPixels (c := other) hwide hx hy (drawn c r)
    c.strokeColor.bytes
  rw [if_pos hmem, CGContextInner.pixel, CGContextInner.pixelOffset_setPixels] at hpixel
  have hset : (cgContextStrokeRect other r.rect).pixels[c.pixelOffset x y]? =
      some c.strokeColor.bytes.b := by
    rw [strokeRect_eq]
    exact (List.cons.inj hpixel).1
  have hin := CGContextInner.pixelOffset_in hwide hx hy
  have hwas : other.pixels[c.pixelOffset x y]? = some (c.strokeColor.bytes.b + 1) := by
    show (List.replicate c.pixels.length _)[_]? = _
    rw [List.getElem?_replicate, if_pos (by omega)]
  have hchanged : (cgContextStrokeRect other r.rect).pixels[c.pixelOffset x y]? ≠
      other.pixels[c.pixelOffset x y]? := by
    rw [hset, hwas]
    intro heq
    have hb := Option.some.inj heq
    bv_omega
  obtain ⟨x', y', hx', hy', hon, hle, hlt⟩ := hkeeps.border _ hchanged
  have hsame : x = x' ∧ y = y' := by
    by_contra hne
    have hapart := CGContextInner.pixelOffset_apart hwide hx hx' hne
    have hoff : other.pixelOffset x' y' = c.pixelOffset x' y' := rfl
    omega
  rw [hsame.1, hsame.2]
  exact hon

/-- What is drawn is on the border exactly when the edges along both axes are. -/
theorem drawn_iff_edgesOk (c : CGContextInner ℚ) (r : IntRect) :
    (∀ x y, x < c.width → y < c.height → (x, y) ∈ drawn c r →
      OnBorder (xAxis c r) (yAxis c r) x y) ↔
    EdgesOk (xAxis c r) (yAxis c r) ∧ EdgesOk (yAxis c r) (xAxis c r) := by
  constructor
  · intro h
    refine ⟨fun x y hx hy hfirst hlast hcorner => ?_, fun y x hy hx hfirst hlast hcorner => ?_⟩
    · exact h x y hx hy (mem_edgeCells.mpr (.inl ⟨⟨hfirst, hlast⟩, hcorner⟩))
    · obtain ⟨hspansX, hspansY, hedge⟩ :=
        h x y hx hy (mem_edgeCells.mpr (.inr ⟨⟨hfirst, hlast⟩, hcorner⟩))
      exact ⟨hspansY, hspansX, hedge.symm⟩
  · rintro ⟨hrows, hcolumns⟩ x y hx hy hmem
    obtain ⟨hbetween, hcorner⟩ | ⟨hbetween, hcorner⟩ := mem_edgeCells.mp hmem
    · exact hrows x y hx hy hbetween.1 hbetween.2 hcorner
    · obtain ⟨hspansY, hspansX, hedge⟩ := hcolumns y x hy hx hbetween.1 hbetween.2 hcorner
      exact ⟨hspansX, hspansY, hedge.symm⟩

/-- The conditions of both axes in one. -/
theorem edgesOk_both {a b : Axis} (ha : 0 < a.extent) (hb : 0 < b.extent)
    (hafits : a.extent < 2 ^ 64) (hbfits : b.extent < 2 ^ 64) (hasize : 0 ≤ a.size)
    (hbsize : 0 ≤ b.size) :
    EdgesOk a b ∧ EdgesOk b a ↔
      ((a.extent : ℤ) ≤ a.origin ∧ (b.extent : ℤ) ≤ b.origin) ∨
      (a.Meets ∧ b.Meets ∧
        (a.Touches ∨ b.Touches ∨ ((b.Inside ∨ a.size ≤ 1) ∧ (a.Inside ∨ b.size ≤ 1)))) := by
  have hmeetsA : a.Meets → ¬(a.extent : ℤ) ≤ a.origin := fun hmeets => Int.not_le.mpr hmeets.1
  have hmeetsB : b.Meets → ¬(b.extent : ℤ) ≤ b.origin := fun hmeets => Int.not_le.mpr hmeets.1
  rw [edgesOk_iff ha hb hafits hbfits hasize hbsize, edgesOk_iff hb ha hbfits hafits hbsize hasize]
  constructor
  · rintro ⟨hafterA | ⟨hmeets, hmeets', hrows⟩, hafterB | ⟨hmeetsY, hmeetsX, hcolumns⟩⟩
    · exact .inl ⟨hafterA, hafterB⟩
    · exact absurd hafterA (hmeetsA hmeetsX)
    · exact absurd hafterB (hmeetsB hmeets')
    · refine .inr ⟨hmeets, hmeets', ?_⟩
      obtain (hinB | htouchB) | (hthinA | htouchA) := hrows
      · obtain (hinA | htouchA) | (hthinB | htouchB) := hcolumns
        · exact .inr (.inr ⟨.inl hinB, .inl hinA⟩)
        · exact .inl htouchA
        · exact .inr (.inr ⟨.inl hinB, .inr hthinB⟩)
        · exact .inr (.inl htouchB)
      · exact .inr (.inl htouchB)
      · obtain (hinA | htouchA) | (hthinB | htouchB) := hcolumns
        · exact .inr (.inr ⟨.inr hthinA, .inl hinA⟩)
        · exact .inl htouchA
        · exact .inr (.inr ⟨.inr hthinA, .inr hthinB⟩)
        · exact .inr (.inl htouchB)
      · exact .inl htouchA
  · rintro (⟨hafterA, hafterB⟩ | ⟨hmeets, hmeets', htouchA | htouchB | ⟨hrows, hcolumns⟩⟩)
    · exact ⟨.inl hafterA, .inl hafterB⟩
    · exact ⟨.inr ⟨hmeets, hmeets', .inr (.inr htouchA)⟩, .inr ⟨hmeets', hmeets, .inl (.inr htouchA)⟩⟩
    · exact ⟨.inr ⟨hmeets, hmeets', .inl (.inr htouchB)⟩, .inr ⟨hmeets', hmeets, .inr (.inr htouchB)⟩⟩
    · exact ⟨.inr ⟨hmeets, hmeets', hrows.imp .inl .inl⟩, .inr ⟨hmeets', hmeets, hcolumns.imp .inl .inl⟩⟩

/-- The call keeps to the border of a rectangle, whatever the bitmap holds, exactly when the
bitmap is empty, or the rectangle is beyond its last corner, or it meets the bitmap and
either ends where the bitmap begins, or has its edges in the bitmap or no inside. -/
theorem strokeRect_iff {c : CGContextInner ℚ} (hwide : c.Wide) (hw : c.width < 2 ^ 64)
    (hh : c.height < 2 ^ 64) {r : IntRect} (hrw : 0 ≤ r.width) (hrh : 0 ≤ r.height) :
    (∀ c', SameDimensions c c' → KeepsToBorder c' r) ↔
      c.width = 0 ∨ c.height = 0 ∨ ((c.width : ℤ) ≤ r.x ∧ (c.height : ℤ) ≤ r.y) ∨
      ((xAxis c r).Meets ∧ (yAxis c r).Meets ∧
        ((xAxis c r).Touches ∨ (yAxis c r).Touches ∨
          (((yAxis c r).Inside ∨ r.width ≤ 1) ∧ ((xAxis c r).Inside ∨ r.height ≤ 1)))) := by
  have hdrawn : (∀ c', SameDimensions c c' → KeepsToBorder c' r) ↔
      ∀ x y, x < c.width → y < c.height → (x, y) ∈ drawn c r →
        OnBorder (xAxis c r) (yAxis c r) x y := by
    constructor
    · intro h x y hx hy hmem
      exact drawn_of_keepsToBorder hwide h hx hy hmem
    · intro h c' hsame
      have hxAxis : xAxis c' r = xAxis c r := by rw [xAxis, hsame.width, xAxis]
      have hyAxis : yAxis c' r = yAxis c r := by rw [yAxis, hsame.height, yAxis]
      apply keepsToBorder_of_drawn
      intro x y hx hy hmem
      rw [drawn, hxAxis, hyAxis] at hmem
      rw [hxAxis, hyAxis]
      exact h x y (hsame.width ▸ hx) (hsame.height ▸ hy) hmem
  rw [hdrawn]
  by_cases hempty : c.width = 0 ∨ c.height = 0
  · refine ⟨fun _ => or_assoc.mp (.inl hempty), fun _ x y hx hy => ?_⟩
    omega
  · obtain ⟨hw0, hh0⟩ := not_or.mp hempty
    have hboth := edgesOk_both (a := xAxis c r) (b := yAxis c r) (Nat.pos_of_ne_zero hw0)
      (Nat.pos_of_ne_zero hh0) hw hh hrw hrh
    rw [drawn_iff_edgesOk, hboth]
    exact ⟨fun hgood => .inr (.inr hgood), fun hor => (hor.resolve_left hw0).resolve_left hh0⟩

/-- A bitmap of two by two pixels. -/
def square : CGContextInner ℚ := (cgBitmapContextCreate none 2 2 8 0).get rfl

theorem square_outline : KeepsToBorder square ⟨0, 0, 1, 1⟩ := by
  have hmeets : (xAxis square ⟨0, 0, 1, 1⟩).Meets ∧ (yAxis square ⟨0, 0, 1, 1⟩).Meets := by
    unfold Axis.Meets
    decide
  have hgood := (strokeRect_iff (c := square) (r := ⟨0, 0, 1, 1⟩) (Nat.le_refl _) (by decide)
    (by decide) (by decide) (by decide)).mpr
    (.inr (.inr (.inr ⟨hmeets.1, hmeets.2, .inr (.inr ⟨.inr (by decide), .inr (by decide)⟩)⟩)))
  exact hgood square ⟨rfl, rfl, rfl⟩

/-- A rectangle to the right of the bitmap is drawn in its last column. -/
theorem beside_square : ¬KeepsToBorder square ⟨5, 0, 1, 1⟩ := by
  intro hkeeps
  have houtside : ∀ x y, x < square.width → y < square.height →
      ¬((xAxis square ⟨5, 0, 1, 1⟩).Spans x ∧ (yAxis square ⟨5, 0, 1, 1⟩).Spans y) := by
    intro x y hx _ hspans
    have hleft : (5 : ℤ) ≤ x := hspans.1.1
    have hwidth : x < 2 := hx
    omega
  exact absurd (hkeeps.outside houtside) (by decide +kernel)

end Grafted.Cg.StrokeRect
