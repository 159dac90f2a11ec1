import Mathlib.Algebra.Ring.Int.Defs
import Grafted.Cg.Context

/-! The display: the image `flush_window` makes of a context.

The copy takes the rows as long as the bitmap is wide. The image shows what was set
exactly when the rows of the context are so, or there is only one (`flush_shows_iff`). -/
namespace Grafted.Ws.Display
open ByteMemory Cg.Context

abbrev WindowID := Nat

/-- What `XCreateImage` is given. With `bytes_per_line` 0 it takes the rows to follow one
another. -/
structure XImage where
  width : Nat
  height : Nat
  data : List Byte

def XImage.pixel (image : XImage) (x y : Nat) : List (Option Byte) :=
  bytesAt image.data (y * (image.width * 4) + x * 4)

/-- What the call finds. -/
structure Host where
  x11 : Bool
  display : Bool
  window : WindowID → Bool
  malloc : Nat → Bool
  /-- Whether `XCreateImage` succeeds. -/
  createImage : XImage → Bool
  /-- The memory from a pointer on, beyond what the buffer there holds. -/
  beyond : Nat → Byte

section Flush
variable {F : Type}

/-- `(width * height * 4) as usize`, in 32 bits. -/
def pixelBytes (c : CGContextInner F) : Nat := c.width % 2 ^ 32 * (c.height % 2 ^ 32) * 4 % 2 ^ 32

/-- `copy_nonoverlapping` from the start of the buffer. -/
def copied (host : Host) (pixels : List Byte) (n : Nat) : List Byte :=
  (List.range n).map fun i => pixels[i]?.getD (host.beyond i)

/-- The image given to `XCreateImage`, if the call gets so far, and what it returns. -/
def flushWindow (host : Host) (id : WindowID) (ctx : Option (CGContextInner F)) :
    Option XImage × Bool :=
  match ctx with
  | none => (none, false)
  | some c =>
    if host.x11 ∧ host.display ∧ host.window id ∧ host.malloc (pixelBytes c) then
      let image : XImage :=
        ⟨c.width % 2 ^ 32, c.height % 2 ^ 32, copied host c.pixels (pixelBytes c)⟩
      (some image, host.createImage image)
    else (none, false)

/-- A call of `set_pixel`. -/
structure SetPixel where
  x : Nat
  y : Nat
  color : Rgba

def setAll (c : CGContextInner F) (calls : List SetPixel) : CGContextInner F :=
  calls.foldl (fun c call => c.setPixel call.x call.y call.color) c

def lastSet (x y : Nat) : List SetPixel → Option Rgba
  | [] => none
  | call :: rest =>
    (lastSet x y rest).or (if call.x = x ∧ call.y = y then some call.color else none)

/-- The color last set at a pixel, or the one it had. -/
def shown (c : CGContextInner F) (calls : List SetPixel) (x y : Nat) : List (Option Byte) :=
  ((lastSet x y calls).map Rgba.bgra).getD (c.pixel x y)

/-- What the image of a context is to be after the calls. -/
structure Shows (c : CGContextInner F) (calls : List SetPixel) (image : XImage) : Prop where
  /-- No overflow. -/
  size : pixelBytes (setAll c calls) = c.width * c.height * 4
  /-- The copy stays in the buffer. -/
  inside : pixelBytes (setAll c calls) ≤ (setAll c calls).pixels.length
  pixels : ∀ x y, x < c.width → y < c.height →
    x < image.width ∧ y < image.height ∧ image.pixel x y = shown c calls x y

/-! ### Setting pixels -/

/-- The dimensions stay. -/
theorem setAll_onlyPixels (c : CGContextInner F) (calls : List SetPixel) :
    c.OnlyPixels (setAll c calls) := by
  induction calls generalizing c with
  | nil => exact ⟨c.pixels, c.sized, rfl⟩
  | cons call rest ih =>
    obtain ⟨pixels, sized, heq⟩ := ih (c.setPixel call.x call.y call.color)
    exact ⟨pixels, sized, heq⟩

theorem pixel_setAll {c : CGContextInner F} (hwide : c.Wide) {x y : Nat} (hx : x < c.width)
    (hy : y < c.height) (calls : List SetPixel) :
    (setAll c calls).pixel x y = shown c calls x y := by
  induction calls generalizing c with
  | nil => rfl
  | cons call rest ih =>
    have hfirst := CGContextInner.pixel_setPixel hwide hx hy call.x call.y call.color
    have hlater := ih (c := c.setPixel call.x call.y call.color) hwide hx hy
    show (setAll (c.setPixel call.x call.y call.color) rest).pixel x y = _
    rw [hlater]
    unfold shown
    rw [hfirst, lastSet]
    cases lastSet x y rest with
    | some color => rfl
    | none =>
      rw [Option.none_or]
      split_ifs
      · rfl
      · rfl

/-! ### The copy -/

theorem getElem?_copied (host : Host) {pixels : List Byte} {n i : Nat} (hn : i < n)
    (hi : i < pixels.length) : (copied host pixels n)[i]? = pixels[i]? := by
  simp [copied, hn, hi]

theorem bytesAt_copied (host : Host) {pixels : List Byte} {n off : Nat} (hn : off + 3 < n)
    (hle : n ≤ pixels.length) : bytesAt (copied host pixels n) off = bytesAt pixels off := by
  unfold bytesAt
  rw [getElem?_copied host (by omega) (by omega), getElem?_copied host (by omega) (by omega),
    getElem?_copied host (by omega) (by omega), getElem?_copied host (by omega) (by omega)]

/-- A bitmap that is not empty and has an exact size is small. -/
theorem pixelBytes_exact {c : CGContextInner F} (hw : 0 < c.width) (hh : 0 < c.height)
    (hsmall : c.width * c.height * 4 < 2 ^ 32) :
    c.width % 2 ^ 32 = c.width ∧ c.height % 2 ^ 32 = c.height ∧
      pixelBytes c = c.width * c.height * 4 := by
  have hwle : c.width ≤ c.width * c.height := Nat.le_mul_of_pos_right _ hh
  have hhle : c.height ≤ c.width * c.height := Nat.le_mul_of_pos_left _ hw
  have hw' : c.width % 2 ^ 32 = c.width := Nat.mod_eq_of_lt (by omega)
  have hh' : c.height % 2 ^ 32 = c.height := Nat.mod_eq_of_lt (by omega)
  refine ⟨hw', hh', ?_⟩
  rw [pixelBytes, hw', hh', Nat.mod_eq_of_lt hsmall]

/-! ### The image -/

/-- The rows of the buffer are where the image has them. -/
def Contiguous (c : CGContextInner F) : Prop :=
  c.stride = c.width * 4 ∨ (c.height = 1 ∧ c.width * 4 ≤ c.stride)

theorem Contiguous.wide {c : CGContextInner F} (h : Contiguous c) : c.Wide := by
  obtain heq | hone := h
  · exact Nat.le_of_eq heq.symm
  · exact hone.2

theorem Contiguous.pixelOffset {c : CGContextInner F} (h : Contiguous c) (x : Nat) {y : Nat}
    (hy : y < c.height) : y * (c.width * 4) + x * 4 = c.pixelOffset x y := by
  unfold CGContextInner.pixelOffset
  obtain heq | hone := h
  · rw [heq]
  · obtain rfl : y = 0 := by omega
    rw [Nat.zero_mul, Nat.zero_mul]

/-- The image of a small bitmap with its rows in place is the bitmap. -/
theorem shows_of_contiguous {c : CGContextInner F} (hw : 0 < c.width) (hh : 0 < c.height)
    (hsmall : c.width * c.height * 4 < 2 ^ 32) (hrows : Contiguous c) (host : Host)
    (calls : List SetPixel) :
    Shows c calls ⟨c.width % 2 ^ 32, c.height % 2 ^ 32,
      copied host (setAll c calls).pixels (pixelBytes (setAll c calls))⟩ := by
  obtain ⟨hwmod, hhmod, hbytes⟩ := pixelBytes_exact hw hh hsmall
  have hset := fun x y hx hy => pixel_setAll hrows.wide (x := x) (y := y) hx hy calls
  obtain ⟨pixels, sized, heq⟩ := setAll_onlyPixels c calls
  rw [heq] at hset ⊢
  have hinside : pixelBytes c ≤ pixels.length := by
    have hrow : c.width * 4 * c.height ≤ c.stride * c.height := Nat.mul_le_mul_right _ hrows.wide
    rw [Nat.mul_right_comm] at hrow
    rw [hbytes, sized]
    exact hrow
  refine ⟨(congrArg pixelBytes heq).trans hbytes, ?_, fun x y hx hy => ?_⟩
  · rw [heq]
    exact hinside
  · rw [hwmod, hhmod]
    refine ⟨hx, hy, ?_⟩
    have hoff := hrows.pixelOffset x hy
    have hlt : y * (c.width * 4) + x * 4 + 3 < pixelBytes c := by
      have hrow : (y + 1) * (c.width * 4) ≤ c.height * (c.width * 4) := Nat.mul_le_mul_right _ hy
      have hcomm : c.height * (c.width * 4) = c.width * c.height * 4 := by
        rw [Nat.mul_comm c.height, Nat.mul_right_comm]
      rw [Nat.succ_mul] at hrow
      omega
    show bytesAt (copied host pixels (pixelBytes c)) (y * (c.width * 4) + x * 4) = _
    rw [bytesAt_copied host hlt hinside, hoff]
    exact hset x y hx hy

theorem ne_add_one (b : Byte) : b ≠ b + 1 := by
  intro heq
  bv_omega

/-- Of an empty bitmap nothing is copied, and nothing has to be shown. -/
theorem shows_empty {c : CGContextInner F} (h : c.width = 0 ∨ c.height = 0) (calls : List SetPixel)
    (image : XImage) : Shows c calls image := by
  obtain ⟨pixels, sized, heq⟩ := setAll_onlyPixels c calls
  have hempty : c.width * c.height = 0 := Nat.mul_eq_zero.mpr h
  have hzero : pixelBytes (setAll c calls) = 0 := by
    rw [heq]
    show c.width % 2 ^ 32 * (c.height % 2 ^ 32) * 4 % 2 ^ 32 = 0
    obtain hw | hh := h
    · rw [hw, Nat.zero_mod, Nat.zero_mul, Nat.zero_mul, Nat.zero_mod]
    · rw [hh, Nat.zero_mod, Nat.mul_zero, Nat.zero_mul, Nat.zero_mod]
  refine ⟨?_, ?_, fun x y hx hy => ?_⟩
  · rw [hzero, hempty, Nat.zero_mul]
  · rw [hzero]
    exact Nat.zero_le _
  · omega

/-- With longer rows, the second row of the image begins before that of the buffer. -/
theorem not_shows_longer {c : CGContextInner F} (hw : 0 < c.width) (hh : 1 < c.height)
    (hsmall : c.width * c.height * 4 < 2 ^ 32) (hlonger : c.width * 4 < c.stride) (host : Host) :
    ∃ calls, ¬Shows c calls ⟨c.width % 2 ^ 32, c.height % 2 ^ 32,
      copied host (setAll c calls).pixels (pixelBytes (setAll c calls))⟩ := by
  obtain ⟨hwmod, hhmod, hbytes⟩ := pixelBytes_exact hw (by omega) hsmall
  have hrow : 2 * c.stride ≤ c.stride * c.height := by
    rw [Nat.mul_comm]
    exact Nat.mul_le_mul_left _ hh
  have hfirst : c.width * 4 * 2 ≤ c.width * c.height * 4 := by
    rw [Nat.mul_right_comm c.width c.height]
    exact Nat.mul_le_mul_left _ hh
  have hin : c.width * 4 < c.pixels.length := by
    rw [c.sized]
    omega
  -- the blue byte is one that is not there yet
  let color : Rgba := ⟨0, 0, c.pixels[c.width * 4] + 1, 0⟩
  refine ⟨[⟨0, 1, color⟩], fun hshows => ?_⟩
  have hpixel := (hshows.pixels 0 1 hw hh).2.2
  have hpainted : (c.painted 0 1 color)[c.width * 4]? = c.pixels[c.width * 4]? := by
    have hoff : c.width * 4 < c.pixelOffset 0 1 := by
      unfold CGContextInner.pixelOffset
      omega
    unfold CGContextInner.painted
    split_ifs
    · rfl
    · exact getElem?_patch_apart color (.inl hoff)
    · rfl
  have hblue := (List.cons.inj hpixel).1
  have hbytes' : pixelBytes (setAll c [⟨0, 1, color⟩]) = c.width * c.height * 4 := hbytes
  have hlength : (c.painted 0 1 color).length = c.pixels.length := c.length_painted 0 1 color
  rw [hwmod, hbytes', Nat.one_mul, Nat.zero_mul, Nat.add_zero] at hblue
  have hcopied : (copied host (c.painted 0 1 color) (c.width * c.height * 4))[c.width * 4]? =
      some (c.pixels[c.width * 4] + 1) := hblue
  rw [getElem?_copied host (by omega) (by omega), hpainted, List.getElem?_eq_getElem hin] at hcopied
  exact ne_add_one _ (Option.some.inj hcopied)

/-- Everything there, and all memory zero beyond a buffer. -/
def ready : Host := ⟨true, true, fun _ => true, fun _ => true, fun _ => true, fun _ => 0⟩

theorem flushWindow_image {host : Host} {id : WindowID} {c : CGContextInner F} {image : XImage}
    (h : (flushWindow host id (some c)).1 = some image) :
    image = ⟨c.width % 2 ^ 32, c.height % 2 ^ 32, copied host c.pixels (pixelBytes c)⟩ := by
  simp only [flushWindow] at h
  split_ifs at h
  exact (Option.some.inj h).symm

/-- The image shows the bitmap after every sequence of calls exactly when the bitmap is empty,
or has a size below 2^32 and its rows where the image has them. -/
theorem flush_shows_iff (c : CGContextInner F) :
    (∀ host id calls image, (flushWindow host id (some (setAll c calls))).1 = some image →
      Shows c calls image) ↔
    c.width = 0 ∨ c.height = 0 ∨ (c.width * c.height * 4 < 2 ^ 32 ∧
      (c.stride = c.width * 4 ∨ (c.height = 1 ∧ c.width * 4 ≤ c.stride))) := by
  constructor
  · intro hall
    by_contra hcond
    obtain ⟨hw, hh, hrows⟩ : 0 < c.width ∧ 0 < c.height ∧ (c.width * c.height * 4 < 2 ^ 32 →
        ¬(c.stride = c.width * 4 ∨ (c.height = 1 ∧ c.width * 4 ≤ c.stride))) := by
      refine ⟨by omega, by omega, fun hsmall hgood => hcond (.inr (.inr ⟨hsmall, hgood⟩))⟩
    have hnone := hall ready 0 [] _ rfl
    have hsmall : c.width * c.height * 4 < 2 ^ 32 := by
      have hsize : pixelBytes c = c.width * c.height * 4 := hnone.size
      rw [← hsize]
      exact Nat.mod_lt _ (by decide)
    have hinside : c.width * c.height * 4 ≤ c.stride * c.height := by
      rw [← hnone.size, ← c.sized]
      exact hnone.inside
    rw [Nat.mul_right_comm] at hinside
    have hle : c.width * 4 ≤ c.stride := Nat.le_of_mul_le_mul_right hinside hh
    have hbad := hrows hsmall
    obtain ⟨calls, hcalls⟩ := not_shows_longer hw (by omega) hsmall (by omega) ready
    obtain ⟨pixels, sized, heq⟩ := setAll_onlyPixels c calls
    have himage := hall ready 0 calls _ rfl
    rw [heq] at hcalls himage
    exact hcalls himage
  · intro hcond host id calls image himage
    rw [flushWindow_image himage]
    by_cases hempty : c.width = 0 ∨ c.height = 0
    · exact shows_empty hempty calls _
    · obtain ⟨hw, hh⟩ := not_or.mp hempty
      obtain ⟨hsmall, hrows⟩ := (hcond.resolve_left hw).resolve_left hh
      have hshows := shows_of_contiguous (Nat.pos_of_ne_zero hw) (Nat.pos_of_ne_zero hh) hsmall hrows
        host calls
      obtain ⟨pixels, sized, heq⟩ := setAll_onlyPixels c calls
      rw [heq] at hshows ⊢
      exact hshows

end Flush

/-- Rows of 8 bytes for a bitmap one pixel wide. -/
def padded : CGContextInner ℤ := (cgBitmapContextCreate none 1 2 8 8).get rfl

/-- The white pixel of the second row is not in the image. -/
theorem padded_not_shown :
    ¬∀ host id calls image, (flushWindow host id (some (setAll padded calls))).1 = some image →
      Shows padded calls image := by
  intro hall
  have hshows := hall ready 0 [⟨0, 1, ⟨255, 255, 255, 255⟩⟩] _ rfl
  exact absurd (hshows.pixels 0 1 (by decide) (by decide)).2.2 (by decide +kernel)

end Grafted.Ws.Display
