import CaraOS.Lib.Paint
import Mathlib.Tactic.Linarith

namespace CaraOS.Dath

/-!
# Drawing primitives

`draw.c` and `text.c`.  The memory of a framebuffer is a colour for each
position; coordinates are `i32`, and a sum that can leave that range is
converted back.
-/

open Paint

/-- The conversion to an `i32`. -/
def i32 (x : Int) : Int :=
  x.bmod 4294967296

inductive Format where
  | none
  | rgba8888
  | bgra8888
  | rgb565
  deriving DecidableEq

/-- `struct DathFramebuffer`; `mapped` says that `base` is not null. -/
structure Framebuffer where
  mapped : Bool
  width : Nat
  height : Nat
  stride : Nat
  format : Format
  bpp : Nat

/-- The pixels of a framebuffer, by column and row. -/
abbrev Pixels :=
  Int × Int → Nat

/-- `Dath_RGB`. -/
def rgb (r g b : Nat) : Nat :=
  0xFF000000 + r * 65536 + g * 256 + b

def rgb565 (r g b : Nat) : Nat :=
  r / 8 * 2048 + g / 4 * 32 + b / 8

def Framebuffer.colour (fb : Framebuffer) (r g b : Nat) : Nat :=
  if fb.format = .rgb565 then rgb565 r g b else rgb r g b

def Framebuffer.Inside (fb : Framebuffer) (x y : Int) : Prop :=
  0 ≤ x ∧ 0 ≤ y ∧ x < fb.width ∧ y < fb.height
  deriving Decidable

/-- What is stored for a colour. -/
def Framebuffer.stored (fb : Framebuffer) (c : Nat) : Nat :=
  if fb.bpp = 4 then c else c % 65536

/-- The pixels can be written. -/
def Framebuffer.Writable (fb : Framebuffer) : Prop :=
  fb.mapped = true ∧ (fb.bpp = 4 ∨ fb.bpp = 2)
  deriving Decidable

def pixel (fb : Framebuffer) (x y : Int) (c : Nat) (px : Pixels) : Pixels :=
  if fb.Writable ∧ fb.Inside x y then
    Function.update px (x, y) (fb.stored c)
  else
    px

/-- `Dath_FillRect`; the loops write every pixel between the clipped edges. -/
def fillRect (fb : Framebuffer) (x y w h : Int) (c : Nat) (px : Pixels) : Pixels :=
  if ¬ fb.Writable ∨ w ≤ 0 ∨ h ≤ 0 then
    px
  else
    let x0 := max x 0
    let y0 := max y 0
    let x1 := min (i32 (x + w)) (i32 fb.width)
    let y1 := min (i32 (y + h)) (i32 fb.height)
    fun p =>
      if x0 ≤ p.1 ∧ p.1 < x1 ∧ y0 ≤ p.2 ∧ p.2 < y1 then fb.stored c else px p

def clear (fb : Framebuffer) (c : Nat) (px : Pixels) : Pixels :=
  fillRect fb 0 0 (i32 fb.width) (i32 fb.height) c px

/-- A clipped copy: where it goes, where it comes from and how large it is. -/
structure Span where
  dst : Int
  src : Int
  size : Int

/-- The clipping of `Dath_BlitRect` along one axis. -/
def clipSpan (dst src size dstSize srcSize : Int) : Span :=
  let s0 := max src 0
  let s1 := min (i32 (src + size)) srcSize
  let d0 := i32 (dst + i32 (s0 - src))
  let (d0, s0) := if d0 < 0 then (0, i32 (s0 - d0)) else (d0, s0)
  let length := i32 (s1 - s0)
  let length :=
    if i32 (dstSize - d0) < length then i32 (dstSize - d0) else length
  ⟨d0, s0, length⟩

/-- The source position for a destination position, if that is in the span. -/
def Span.source (span : Span) (x : Int) : Option Int :=
  if span.dst ≤ x ∧ x < span.dst + span.size then
    some (span.src + (x - span.dst))
  else
    none

/-- `Dath_BlitRect` between two framebuffers with memory of their own. -/
def blitRect (dst : Framebuffer) (dx dy : Int) (src : Framebuffer)
    (sx sy w h : Int) (source : Pixels) (px : Pixels) : Pixels :=
  if dst.mapped = false ∨ src.mapped = false ∨ w ≤ 0 ∨ h ≤ 0 ∨
      dst.format ≠ src.format ∨ ¬ (dst.bpp = 4 ∨ dst.bpp = 2) then
    px
  else
    let columns := clipSpan dx sx w (i32 dst.width) (i32 src.width)
    let rows := clipSpan dy sy h (i32 dst.height) (i32 src.height)
    fun p =>
      match columns.source p.1, rows.source p.2 with
      | some x, some y => source (x, y)
      | _, _ => px p

/-! ## Lines and text -/

/-- A step of `Dath_DrawLine` along one axis or both: point and error. -/
def lineStep (dx dy sx sy x0 y0 err : Int) : Int × Int × Int :=
  (if -dx < err then x0 + sx else x0, if err < dy then y0 + sy else y0,
    (if -dx < err then err - dy else err) + (if err < dy then dx else 0))

/-- The loop of `Dath_DrawLine`, for so many turns. -/
def lineLoop (fb : Framebuffer) (dx dy sx sy x1 y1 : Int) (c : Nat) :
    Nat → Int → Int → Int → Pixels → Pixels
  | 0, _, _, _, px => px
  | n + 1, x0, y0, err, px =>
    let px := pixel fb x0 y0 c px
    if x0 = x1 ∧ y0 = y1 then
      px
    else
      let next := lineStep dx dy sx sy x0 y0 err
      lineLoop fb dx dy sx sy x1 y1 c n next.1 next.2.1 next.2.2 px

/-- The error term that the loop starts with; the division is that of C. -/
def lineError (dx dy : Int) : Int :=
  if dy < dx then dx / 2 else -(dy / 2)

/-- `Dath_DrawLine`: it takes a turn for each step along the longer axis. -/
def drawLine (fb : Framebuffer) (x0 y0 x1 y1 : Int) (c : Nat) (px : Pixels) : Pixels :=
  let dx := |x1 - x0|
  let dy := |y1 - y0|
  let sx := if x0 < x1 then 1 else -1
  let sy := if y0 < y1 then 1 else -1
  lineLoop fb dx dy sx sy x1 y1 c ((max dx dy).toNat + 1) x0 y0 (lineError dx dy) px

def drawRect (fb : Framebuffer) (x y w h : Int) (c : Nat) (px : Pixels) : Pixels :=
  if w ≤ 0 ∨ h ≤ 0 then
    px
  else
    let x1 := x + w - 1
    let y1 := y + h - 1
    let px := drawLine fb x y x1 y c px
    let px := drawLine fb x y1 x1 y1 c px
    let px := drawLine fb x y x y1 c px
    drawLine fb x1 y x1 y1 c px

/-- `struct DathFont`; a glyph row is one byte. -/
structure Font where
  width : Nat
  height : Nat
  firstGlyph : Nat
  lastGlyph : Nat
  bitmap : Nat → BitVec 8

def drawChar (fb : Framebuffer) (font : Font) (x y : Int) (code : BitVec 8)
    (fg bg : Nat) (px : Pixels) : Pixels :=
  if code.toNat < font.firstGlyph ∨ font.lastGlyph < code.toNat then
    fillRect fb x y font.width font.height bg px
  else
    (List.range font.height).foldl (fun px (yy : Nat) =>
      let row := font.bitmap ((code.toNat - font.firstGlyph) * font.height + yy)
      (List.range font.width).foldl (fun px (xx : Nat) =>
        pixel fb (x + xx) (y + yy) (if row.getLsbD (7 - xx) then fg else bg) px)
        px) px

def drawString (fb : Framebuffer) (font : Font) (x y : Int) (fg bg : Nat) :
    List (BitVec 8) → Pixels → Pixels
  | [], px => px
  | code :: rest, px =>
    drawString fb font (x + font.width) y fg bg rest
      (drawChar fb font x y code fg bg px)

/-! ## Clipping -/

theorem i32_of_range {x : Int} (low : -2147483648 ≤ x) (high : x < 2147483648) : i32 x = x := by
  unfold i32 Int.bmod
  dsimp only
  split <;> omega

/-! ## Copies -/

/-- A copy along one axis whose positions are all `i32`s. -/
structure Fits (dst src size dstSize srcSize : Int) : Prop where
  inDst : -2147483648 < dst ∧ dst + size < 2147483648
  inSrc : -2147483648 < src ∧ src + size < 2147483648
  between : -2147483648 < dst - src ∧ dst - src < 2147483648
  positive : 0 < size
  ofDst : 0 ≤ dstSize ∧ dstSize < 2147483648
  ofSrc : 0 ≤ srcSize ∧ srcSize < 2147483648

theorem clipSpan_eq {dst src size dstSize srcSize : Int}
    (fits : Fits dst src size dstSize srcSize) :
    clipSpan dst src size dstSize srcSize =
      ⟨max 0 (max dst (dst - src)), max 0 (max src (src - dst)),
        min (min (src + size) srcSize - max 0 (max src (src - dst)))
          (dstSize - max 0 (max dst (dst - src)))⟩ := by
  obtain ⟨⟨_, _⟩, ⟨_, _⟩, ⟨_, _⟩, _, ⟨_, _⟩, ⟨_, _⟩⟩ := fits
  unfold clipSpan
  dsimp only
  -- Where the source starts inside, the destination start is not trimmed.
  rcases Int.le_total 0 src with inside | outside
  · have start : max src 0 = src := by omega
    have same : dst + (src - src) = dst := by omega
    rw [i32_of_range (x := src + size) (by omega) (by omega), start,
      i32_of_range (x := src - src) (by omega) (by omega), same, i32_of_range (by omega) (by omega)]
    by_cases left : dst < 0
    · simp only [if_pos left]
      rw [i32_of_range (by omega) (by omega),
        i32_of_range (x := min (src + size) srcSize - (src - dst)) (by omega) (by omega),
        i32_of_range (by omega) (by omega)]
      split <;> simp only [Span.mk.injEq] <;> omega
    · simp only [if_neg left]
      rw [i32_of_range (x := min (src + size) srcSize - src) (by omega) (by omega),
        i32_of_range (by omega) (by omega)]
      split <;> simp only [Span.mk.injEq] <;> omega
  · have start : max src 0 = 0 := by omega
    have moved : dst + (0 - src) = dst - src := by omega
    rw [i32_of_range (x := src + size) (by omega) (by omega), start,
      i32_of_range (x := 0 - src) (by omega) (by omega), moved, i32_of_range (by omega) (by omega)]
    by_cases left : dst - src < 0
    · simp only [if_pos left]
      rw [i32_of_range (by omega) (by omega),
        i32_of_range (x := min (src + size) srcSize - (0 - (dst - src))) (by omega) (by omega),
        i32_of_range (by omega) (by omega)]
      split <;> simp only [Span.mk.injEq] <;> omega
    · simp only [if_neg left]
      rw [i32_of_range (x := min (src + size) srcSize - 0) (by omega) (by omega),
        i32_of_range (by omega) (by omega)]
      split <;> simp only [Span.mk.injEq] <;> omega

theorem clipSpan_source {dst src size dstSize srcSize : Int}
    (fits : Fits dst src size dstSize srcSize) (x : Int) :
    (clipSpan dst src size dstSize srcSize).source x =
      if dst ≤ x ∧ x < dst + size ∧ 0 ≤ x ∧ x < dstSize ∧
          0 ≤ src + (x - dst) ∧ src + (x - dst) < srcSize then
        some (src + (x - dst))
      else
        none := by
  rw [clipSpan_eq fits]
  unfold Span.source
  dsimp only
  split
  case isTrue inSpan =>
    rw [if_pos (by omega)]
    congr 1
    omega
  case isFalse outside =>
    rw [if_neg (by omega)]

/-- A position to which a pixel is copied. -/
structure Copied (dst : Framebuffer) (dx dy : Int) (src : Framebuffer)
    (sx sy w h : Int) (p : Int × Int) : Prop where
  column : dx ≤ p.1 ∧ p.1 < dx + w
  row : dy ≤ p.2 ∧ p.2 < dy + h
  inDst : dst.Inside p.1 p.2
  inSrc : src.Inside (sx + (p.1 - dx)) (sy + (p.2 - dy))

section Copies

variable {dst src : Framebuffer} {dx dy sx sy w h : Int} {p : Int × Int}

theorem blitRect_copied (source px : Pixels) (dstWritable : dst.Writable)
    (srcMapped : src.mapped = true) (format : dst.format = src.format)
    (columns : Fits dx sx w dst.width src.width) (rows : Fits dy sy h dst.height src.height)
    (copied : Copied dst dx dy src sx sy w h p) :
    blitRect dst dx dy src sx sy w h source px p =
      source (sx + (p.1 - dx), sy + (p.2 - dy)) := by
  obtain ⟨column, row, ⟨left, above, right, below⟩,
    ⟨srcLeft, srcAbove, srcRight, srcBelow⟩⟩ := copied
  have runs : ¬ (dst.mapped = false ∨ src.mapped = false ∨ w ≤ 0 ∨ h ≤ 0 ∨
      dst.format ≠ src.format ∨ ¬ (dst.bpp = 4 ∨ dst.bpp = 2)) := by
    simp only [dstWritable.1, srcMapped, format, dstWritable.2]
    simp
    omega
  unfold blitRect
  rw [if_neg runs]
  rw [i32_of_range (by omega) columns.ofDst.2, i32_of_range (by omega) columns.ofSrc.2,
    i32_of_range (by omega) rows.ofDst.2, i32_of_range (by omega) rows.ofSrc.2,
    clipSpan_source columns, clipSpan_source rows,
    if_pos ⟨column.1, column.2, left, right, srcLeft, srcRight⟩,
    if_pos ⟨row.1, row.2, above, below, srcAbove, srcBelow⟩]

theorem blitRect_kept (source px : Pixels) (columns : Fits dx sx w dst.width src.width)
    (rows : Fits dy sy h dst.height src.height)
    (kept : ¬ (dst.Writable ∧ Copied dst dx dy src sx sy w h p)) :
    blitRect dst dx dy src sx sy w h source px p = px p := by
  unfold blitRect
  split
  case isTrue => rfl
  case isFalse runs =>
    dsimp only
    rw [i32_of_range (by omega) columns.ofDst.2, i32_of_range (by omega) columns.ofSrc.2,
      i32_of_range (by omega) rows.ofDst.2, i32_of_range (by omega) rows.ofSrc.2,
      clipSpan_source columns, clipSpan_source rows]
    split
    case h_2 => rfl
    case h_1 column row _ _ isColumn isRow =>
      -- Both positions are in range, so the pixel is a copied one.
      exfalso
      split at isColumn
      case isFalse => cases isColumn
      case isTrue inColumns =>
        split at isRow
        case isFalse => cases isRow
        case isTrue inRows =>
          apply kept
          obtain ⟨fromX, toX, left, right, srcLeft, srcRight⟩ := inColumns
          obtain ⟨fromY, toY, above, below, srcAbove, srcBelow⟩ := inRows
          refine ⟨⟨?_, ?_⟩, ⟨fromX, toX⟩, ⟨fromY, toY⟩, ⟨left, above, right, below⟩,
            ⟨srcLeft, srcAbove, srcRight, srcBelow⟩⟩
          · cases isMapped : dst.mapped with
            | true => rfl
            | false => exact absurd (.inl isMapped) runs
          · by_contra otherBpp
            exact runs (.inr (.inr (.inr (.inr (.inr otherBpp)))))

end Copies

/-! ## Drawings are pointwise -/

section Layers

variable (fb : Framebuffer)

end Layers

end CaraOS.Dath
