import Grafted.Cg.StrokeRect

/-! CTFont: text drawn with the bitmap font.

The loops set a block of pixels for each dot of each glyph. At an integral scale the blocks
are disjoint and side by side: a pixel has the color exactly when the dot it falls on is lit
(`pixel_drawTextBitmap`), as far as the bitmap goes. -/
namespace Grafted.Ct.Font
open ByteMemory Cg.Context

/-- What the scaling of text does with floats. -/
class CGScale (F : Type) extends CGFloat F where
  /-- `as f64` -/
  ofNat : Nat → F
  ceil : F → F

instance : CGScale ℚ where
  ofNat n := n
  ceil q := ⌈q⌉

/-- `BITMAP_FONT`: 16 bytes a glyph, one for each row, from the space on. -/
abbrev BitmapFont := Vector Byte 1520

/-- Any byte that is not a printable one is drawn as a space. -/
def charBitmap (font : BitmapFont) (ch : Byte) : List Byte :=
  if ch < 32 ∨ 126 < ch then font.toList.take 16
  else
    let idx := (ch.toNat - 32) * 16
    if idx + 16 ≤ font.size then (font.toList.drop idx).take 16 else font.toList.take 16

/-- `bits & (0x80 >> col) != 0` -/
def dot (bits : Byte) (col : Nat) : Bool := bits &&& ((0x80 : Byte) >>> col) ≠ 0

section Drawing
variable {F : Type} [CGScale F] (font : BitmapFont)
open CGFloat CGScale

/-- The two inner loops. The sums are of `usize`. -/
def blockCells (n x y : Nat) : List (Nat × Nat) :=
  (List.range n).flatMap fun sy =>
    (List.range n).map fun sx => ((x + sx) % 2 ^ 64, (y + sy) % 2 ^ 64)

/-- The loops over the rows and columns of a glyph. -/
def glyphCells (bitmap : List Byte) (cx cy : Nat) (scale : F) : List (Nat × Nat) :=
  (List.range 16).flatMap fun row =>
    (List.range 8).flatMap fun col =>
      if dot (bitmap[row]?.getD 0) col then
        blockCells (asUsize (ceil scale)) (cx + asUsize (ofNat col * scale))
          (cy + asUsize (ofNat row * scale))
      else []

/-- The loop over `text.bytes().enumerate()`. -/
def textCells (text : List Byte) (x y scale : F) : List (Nat × Nat) :=
  text.zipIdx.flatMap fun (ch, ci) =>
    glyphCells (charBitmap font ch) (asUsize x + ci * asUsize (ofNat 8 * scale)) (asUsize y) scale

def drawTextBitmap (c : CGContextInner F) (text : List Byte) (x y : F) (color : Color F)
    (scale : F) : CGContextInner F :=
  c.setPixels (textCells font text x y scale) color.bytes

/-- In opaque black, at the origin. -/
def ctLineDraw (c : CGContextInner F) (text : List Byte) : CGContextInner F :=
  drawTextBitmap font c text 0 0 ⟨0, 0, 0, 1⟩ 1

end Drawing

/-! ### The text as an image -/

section Image
variable {F : Type} [CGScale F] {font : BitmapFont}
open CGFloat CGScale

/-- Whether the dot in a column and a row of the line of text is lit. -/
def lit (font : BitmapFont) (text : List Byte) (i j : Nat) : Bool :=
  match text[i / 8]? with
  | none => false
  | some ch => decide (j < 16) && dot ((charBitmap font ch)[j]?.getD 0) (i % 8)

theorem lit_iff {text : List Byte} {i j : Nat} : lit font text i j = true ↔
    ∃ ch, text[i / 8]? = some ch ∧ j < 16 ∧
      dot ((charBitmap font ch)[j]?.getD 0) (i % 8) = true := by
  unfold lit
  cases text[i / 8]? with
  | none => exact iff_of_false Bool.false_ne_true fun ⟨_, h, _⟩ => nomatch h
  | some ch =>
    dsimp only
    rw [Bool.and_eq_true, decide_eq_true_iff]
    refine ⟨fun h => ⟨ch, rfl, h⟩, ?_⟩
    rintro ⟨ch', heq, h⟩
    obtain rfl := Option.some.inj heq
    exact h

/-- The scale is the number `k`, as far as the loops use it. -/
structure Integral (scale : F) (k : Nat) : Prop where
  pos : 0 < k
  ceil : asUsize (CGScale.ceil scale) = k
  mul : ∀ n ≤ 16, asUsize (CGScale.ofNat n * scale) = n * k

theorem mem_blockCells {n x y px py : Nat} (hx : x + n ≤ 2 ^ 64) (hy : y + n ≤ 2 ^ 64) :
    (px, py) ∈ blockCells n x y ↔ x ≤ px ∧ px < x + n ∧ y ≤ py ∧ py < y + n := by
  unfold blockCells
  simp only [List.mem_flatMap, List.mem_map, List.mem_range, Prod.mk.injEq]
  constructor
  · rintro ⟨sy, hsy, sx, hsx, rfl, rfl⟩
    rw [Nat.mod_eq_of_lt (by omega), Nat.mod_eq_of_lt (by omega)]
    omega
  · rintro ⟨hpx, hpx', hpy, hpy'⟩
    refine ⟨py - y, by omega, px - x, by omega, ?_, ?_⟩
    · rw [Nat.mod_eq_of_lt (by omega)]
      omega
    · rw [Nat.mod_eq_of_lt (by omega)]
      omega

/-- A block of `k` from a multiple of `k` on is what a quotient is. -/
theorem block_iff {k n p : Nat} (hk : 0 < k) : (n * k ≤ p ∧ p < n * k + k) ↔ p / k = n := by
  rw [Nat.div_eq_iff hk]
  omega

theorem mem_glyphCells {bitmap : List Byte} {cx cy : Nat} {scale : F} {k : Nat}
    (hscale : Integral scale k) (hx : cx + 8 * k ≤ 2 ^ 64) (hy : cy + 16 * k ≤ 2 ^ 64)
    {px py : Nat} : (px, py) ∈ glyphCells bitmap cx cy scale ↔
      cx ≤ px ∧ cy ≤ py ∧ (px - cx) / k < 8 ∧ (py - cy) / k < 16 ∧
        dot (bitmap[(py - cy) / k]?.getD 0) ((px - cx) / k) = true := by
  unfold glyphCells
  rw [hscale.ceil]
  simp only [List.mem_flatMap, List.mem_range]
  have hpos := hscale.pos
  constructor
  · rintro ⟨row, hrow, col, hcol, hmem⟩
    split_ifs at hmem with hdot
    · have hrowk : row * k + k ≤ 16 * k := by
        rw [← Nat.succ_mul]
        exact Nat.mul_le_mul_right k hrow
      have hcolk : col * k + k ≤ 8 * k := by
        rw [← Nat.succ_mul]
        exact Nat.mul_le_mul_right k hcol
      rw [hscale.mul row (by omega), hscale.mul col (by omega),
        mem_blockCells (by omega) (by omega)] at hmem
      obtain ⟨hpx, hpx', hpy, hpy'⟩ := hmem
      have hcoleq : (px - cx) / k = col := (block_iff hpos).mp (by omega)
      have hroweq : (py - cy) / k = row := (block_iff hpos).mp (by omega)
      rw [hcoleq, hroweq]
      exact ⟨by omega, by omega, hcol, hrow, hdot⟩
    · exact nomatch hmem
  · rintro ⟨hpx, hpy, hcol, hrow, hdot⟩
    refine ⟨(py - cy) / k, hrow, (px - cx) / k, hcol, ?_⟩
    rw [if_pos hdot, hscale.mul _ (by omega), hscale.mul _ (by omega)]
    obtain ⟨hxle, hxlt⟩ := (block_iff (n := (px - cx) / k) hpos).mpr rfl
    obtain ⟨hyle, hylt⟩ := (block_iff (n := (py - cy) / k) hpos).mpr rfl
    have hrowk : (py - cy) / k * k + k ≤ 16 * k := by
      rw [← Nat.succ_mul]
      exact Nat.mul_le_mul_right k hrow
    have hcolk : (px - cx) / k * k + k ≤ 8 * k := by
      rw [← Nat.succ_mul]
      exact Nat.mul_le_mul_right k hcol
    rw [mem_blockCells (by omega) (by omega)]
    omega

/-- The glyph a column of dots is in. -/
theorem column_iff {k a ci : Nat} (hk : 0 < k) :
    (ci * (8 * k) ≤ a ∧ (a - ci * (8 * k)) / k < 8) ↔ a / k / 8 = ci := by
  have hassoc : ci * (8 * k) = k * (ci * 8) := by
    rw [← Nat.mul_assoc, Nat.mul_comm]
  rw [hassoc]
  constructor
  · rintro ⟨hle, hlt⟩
    rw [Nat.sub_mul_div] at hlt
    have hdiv : ci * 8 ≤ a / k := (Nat.le_div_iff_mul_le hk).mpr (by rw [Nat.mul_comm]; exact hle)
    omega
  · intro heq
    have hdiv : ci * 8 ≤ a / k := by omega
    have hle : k * (ci * 8) ≤ a := by
      rw [Nat.mul_comm]
      exact (Nat.le_div_iff_mul_le hk).mp hdiv
    rw [Nat.sub_mul_div]
    exact ⟨hle, by omega⟩

/-- The cells that are set are those whose dots are lit. -/
theorem mem_textCells {text : List Byte} {x y scale : F} {k : Nat} (hscale : Integral scale k)
    (hx : asUsize x + text.length * (8 * k) ≤ 2 ^ 64) (hy : asUsize y + 16 * k ≤ 2 ^ 64)
    {px py : Nat} : (px, py) ∈ textCells font text x y scale ↔
      asUsize x ≤ px ∧ asUsize y ≤ py ∧
        lit font text ((px - asUsize x) / k) ((py - asUsize y) / k) = true := by
  have hwidth : asUsize (CGScale.ofNat 8 * scale) = 8 * k := hscale.mul 8 (by omega)
  have hglyph {ch : Byte} {ci : Nat} (hci : text[ci]? = some ch) :
      asUsize x + ci * (8 * k) + 8 * k ≤ 2 ^ 64 := by
    have hlt : ci < text.length := (List.getElem?_eq_some_iff.mp hci).1
    have hmul : (ci + 1) * (8 * k) ≤ text.length * (8 * k) := Nat.mul_le_mul_right _ hlt
    rw [Nat.succ_mul] at hmul
    omega
  unfold textCells
  rw [hwidth, lit_iff]
  simp only [List.mem_flatMap, Prod.exists, List.mem_zipIdx_iff_getElem?]
  constructor
  · rintro ⟨ch, ci, hci, hmem⟩
    rw [mem_glyphCells hscale (hglyph hci) hy] at hmem
    obtain ⟨hpx, hpy, hcol, hrow, hdot⟩ := hmem
    rw [← Nat.sub_sub] at hcol hdot
    have hquot : (px - asUsize x) / k / 8 = ci :=
      (column_iff hscale.pos).mp ⟨by omega, hcol⟩
    have hrest : (px - asUsize x - ci * (8 * k)) / k = (px - asUsize x) / k % 8 := by
      have hassoc : ci * (8 * k) = k * (ci * 8) := by
        rw [← Nat.mul_assoc, Nat.mul_comm]
      rw [hassoc, Nat.sub_mul_div]
      omega
    rw [hrest] at hdot
    rw [hquot]
    exact ⟨by omega, hpy, ch, hci, hrow, hdot⟩
  · rintro ⟨hpx, hpy, ch, hci, hrow, hdot⟩
    refine ⟨ch, _, hci, ?_⟩
    rw [mem_glyphCells hscale (hglyph hci) hy, ← Nat.sub_sub]
    obtain ⟨hle, hcol⟩ := (column_iff (a := px - asUsize x) hscale.pos).mpr rfl
    have hrest : (px - asUsize x - (px - asUsize x) / k / 8 * (8 * k)) / k =
        (px - asUsize x) / k % 8 := by
      have hassoc : (px - asUsize x) / k / 8 * (8 * k) = k * ((px - asUsize x) / k / 8 * 8) := by
        rw [← Nat.mul_assoc, Nat.mul_comm]
      rw [hassoc, Nat.sub_mul_div]
      omega
    rw [← hrest] at hdot
    exact ⟨by omega, hpy, hcol, hrow, hdot⟩

theorem pixel_drawTextBitmap {c : CGContextInner F} (hwide : c.Wide) {text : List Byte}
    {x y scale : F} {k : Nat} (hscale : Integral scale k)
    (hx : asUsize x + text.length * (8 * k) ≤ 2 ^ 64) (hy : asUsize y + 16 * k ≤ 2 ^ 64)
    (color : Color F) {px py : Nat} (hpx : px < c.width) (hpy : py < c.height) :
    (drawTextBitmap font c text x y color scale).pixel px py =
      if asUsize x ≤ px ∧ asUsize y ≤ py ∧
        lit font text ((px - asUsize x) / k) ((py - asUsize y) / k) = true
      then color.bytes.bgra else c.pixel px py := by
  unfold drawTextBitmap
  rw [CGContextInner.pixel_setPixels hwide hpx hpy]
  simp only [mem_textCells hscale hx hy]

/-- After text was drawn at an integral scale, a pixel has the color if its dot is lit and is as
before if not, and a byte of the buffer that differs is of a pixel whose dot is lit. -/
theorem drawTextBitmap_draws {c : CGContextInner F} (hwide : c.Wide) {text : List Byte}
    {x y scale : F} {k : Nat} (hscale : Integral scale k)
    (hx : asUsize x + text.length * (8 * k) ≤ 2 ^ 64) (hy : asUsize y + 16 * k ≤ 2 ^ 64)
    (color : Color F) :
    (∀ px py, px < c.width → py < c.height →
      (drawTextBitmap font c text x y color scale).pixel px py =
        if asUsize x ≤ px ∧ asUsize y ≤ py ∧
          lit font text ((px - asUsize x) / k) ((py - asUsize y) / k) = true
        then color.bytes.bgra else c.pixel px py) ∧
    ∀ i, (drawTextBitmap font c text x y color scale).pixels[i]? ≠ c.pixels[i]? →
      ∃ px py, asUsize x ≤ px ∧ asUsize y ≤ py ∧
        lit font text ((px - asUsize x) / k) ((py - asUsize y) / k) = true ∧
        px < c.width ∧ py < c.height ∧ c.pixelOffset px py ≤ i ∧ i < c.pixelOffset px py + 4 := by
  refine ⟨fun px py hpx hpy => pixel_drawTextBitmap hwide hscale hx hy color hpx hpy, fun i h => ?_⟩
  obtain ⟨px, py, hmem, hpixel⟩ := CGContextInner.setPixels_changed h
  obtain ⟨hpx, hpy, hlit⟩ := (mem_textCells hscale hx hy).mp hmem
  exact ⟨px, py, hpx, hpy, hlit, hpixel⟩

end Image

theorem integral_one : Integral (1 : ℚ) 1 := by
  have hcast (n : Nat) (hn : n ≤ 16) : CGFloat.asUsize (n : ℚ) = n := by
    have heq := Cg.StrokeRect.asUsize_intCast (n : ℤ)
    rw [Int.cast_natCast, Int.toNat_natCast] at heq
    rw [heq]
    omega
  refine ⟨Nat.one_pos, ?_, fun n hn => ?_⟩
  · show CGFloat.asUsize ((⌈(1 : ℚ)⌉ : ℤ) : ℚ) = 1
    rw [Int.ceil_one]
    exact hcast 1 (by omega)
  · show CGFloat.asUsize ((n : ℚ) * 1) = n * 1
    rw [mul_one, hcast n hn, Nat.mul_one]

/-- A line is drawn from the first row and column on. -/
theorem pixel_ctLineDraw {font : BitmapFont} {c : CGContextInner ℚ} (hwide : c.Wide)
    {text : List Byte} (hlength : text.length * 8 ≤ 2 ^ 64) {px py : Nat} (hpx : px < c.width)
    (hpy : py < c.height) : (ctLineDraw font c text).pixel px py =
      if lit font text px py = true then (Color.bytes ⟨(0 : ℚ), 0, 0, 1⟩).bgra
      else c.pixel px py := by
  have hzero : CGFloat.asUsize (0 : ℚ) = 0 := by decide
  have hx : CGFloat.asUsize (0 : ℚ) + text.length * (8 * 1) ≤ 2 ^ 64 := by
    rw [hzero]
    omega
  have hy : CGFloat.asUsize (0 : ℚ) + 16 * 1 ≤ 2 ^ 64 := by
    rw [hzero]
    decide
  show (drawTextBitmap font c text 0 0 ⟨0, 0, 0, 1⟩ 1).pixel px py = _
  rw [pixel_drawTextBitmap hwide integral_one hx hy _ hpx hpy, hzero]
  simp only [Nat.zero_le, true_and, Nat.sub_zero, Nat.div_one]

/-- Every dot of every glyph lit. -/
def solid : BitmapFont := Vector.replicate 1520 0xff

/-- A letter over the corner of a small bitmap. -/
theorem drawTextBitmap_draws_solid :
    (∀ px py, px < 2 → py < 2 →
      (drawTextBitmap solid Cg.StrokeRect.square [0x41] 1 0 ⟨1, 0, 0, 1⟩ 1).pixel px py =
        if CGFloat.asUsize (1 : ℚ) ≤ px ∧ CGFloat.asUsize (0 : ℚ) ≤ py ∧
          lit solid [0x41] ((px - CGFloat.asUsize (1 : ℚ)) / 1)
            ((py - CGFloat.asUsize (0 : ℚ)) / 1) = true
        then (Color.bytes ⟨(1 : ℚ), 0, 0, 1⟩).bgra else Cg.StrokeRect.square.pixel px py) ∧
    ∀ i, (drawTextBitmap solid Cg.StrokeRect.square [0x41] 1 0 ⟨1, 0, 0, 1⟩ 1).pixels[i]? ≠
      Cg.StrokeRect.square.pixels[i]? →
      ∃ px py, CGFloat.asUsize (1 : ℚ) ≤ px ∧ CGFloat.asUsize (0 : ℚ) ≤ py ∧
        lit solid [0x41] ((px - CGFloat.asUsize (1 : ℚ)) / 1)
          ((py - CGFloat.asUsize (0 : ℚ)) / 1) = true ∧
        px < 2 ∧ py < 2 ∧ Cg.StrokeRect.square.pixelOffset px py ≤ i ∧
        i < Cg.StrokeRect.square.pixelOffset px py + 4 := by
  have hwide : Cg.StrokeRect.square.Wide := Nat.le_refl 8
  have hone : CGFloat.asUsize (1 : ℚ) = 1 := by decide
  have hzero : CGFloat.asUsize (0 : ℚ) = 0 := by decide
  refine drawTextBitmap_draws hwide integral_one ?_ ?_ _
  · rw [hone]
    decide
  · rw [hzero]
    decide

end Grafted.Ct.Font
