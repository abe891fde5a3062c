import CaraOS.Lib.Reach
import CaraOS.Dath.Draw
import Mathlib.Tactic.SplitIfs

namespace CaraOS.Leargas

/-!
# The pointer

`pointer.c`.  Before the pointer image is drawn, the pixels under it are copied
to a save buffer, from which they are restored when the pointer moves or is
hidden.
-/

open Dath Paint Reach

/-- `struct LeargasPointerImage`. -/
structure PointerImage where
  width : Nat
  height : Nat
  hotX : Int
  hotY : Int
  pixels : Nat → BitVec 8

/-- `struct LeargasPointer`, with the memory of the two framebuffers. -/
structure Pointer where
  fb : Framebuffer
  save : Framebuffer
  img : PointerImage
  fg : Nat
  bg : Nat
  x : Int
  y : Int
  saveValid : Bool
  screen : Pixels
  saved : Pixels

namespace Pointer

/-- The left edge of the image for a position of the hot spot. -/
def topX (x : Int) (p : Pointer) : Int :=
  i32 (x - p.img.hotX)

/-- The top edge of the image. -/
def topY (y : Int) (p : Pointer) : Int :=
  i32 (y - p.img.hotY)

def saveUnderneath (topX topY : Int) (p : Pointer) : Pointer :=
  { p with
    saved := blitRect p.save 0 0 p.fb topX topY (i32 p.img.width)
      (i32 p.img.height) p.screen p.saved }

def restoreUnderneath (topX topY : Int) (p : Pointer) : Pointer :=
  { p with
    screen := blitRect p.fb topX topY p.save 0 0 (i32 p.img.width)
      (i32 p.img.height) p.saved p.screen }

/-- One pixel of the image; zero is transparent. -/
def compositePixel (topX topY : Int) (p : Pointer) (yy : Nat) (px : Pixels) (xx : Nat) : Pixels :=
  let v := p.img.pixels ((yy * p.img.width + xx) % 4294967296)
  if v = 0 then
    px
  else
    pixel p.fb (i32 (topX + i32 xx)) (i32 (topY + i32 yy)) (if v = 1 then p.fg else p.bg) px

def compositePointer (topX topY : Int) (p : Pointer) : Pointer :=
  { p with
    screen := (List.range p.img.height).foldl (fun px yy =>
      (List.range p.img.width).foldl (p.compositePixel topX topY yy) px)
      p.screen }

/-- The image is put on the screen, over what is saved. -/
def put (topX topY : Int) (p : Pointer) : Pointer :=
  (p.saveUnderneath topX topY).compositePointer topX topY

/-- `Leargas_Pointer_Init`. -/
def init (fb save : Framebuffer) (img : PointerImage) (fg bg : Nat)
    (x0 y0 : Int) (screen saved : Pixels) : Option Pointer :=
  if img.width = 0 ∨ img.height = 0 then
    none
  else if fb.format ≠ save.format ∨ fb.bpp ≠ save.bpp then
    none
  else if save.width < img.width ∨ save.height < img.height then
    none
  else
    let p : Pointer := ⟨fb, save, img, fg, bg, x0, y0, false, screen, saved⟩
    let p := p.put (p.topX x0) (p.topY y0)
    some { p with saveValid := true }

/-- `Leargas_Pointer_Move`. -/
def move (x y : Int) (p : Pointer) : Pointer :=
  if x = p.x ∧ y = p.y then
    p
  else
    let p :=
      if p.saveValid then p.restoreUnderneath (p.topX p.x) (p.topY p.y) else p
    let p := p.put (p.topX x) (p.topY y)
    { p with x := x, y := y, saveValid := true }

/-- `Leargas_Pointer_Hide`. -/
def hide (p : Pointer) : Pointer :=
  if p.saveValid then
    { p.restoreUnderneath (p.topX p.x) (p.topY p.y) with saveValid := false }
  else
    p

/-- `Leargas_Pointer_Show`. -/
def reveal (p : Pointer) : Pointer :=
  if p.saveValid then
    p
  else
    { p.put (p.topX p.x) (p.topY p.y) with saveValid := true }

end Pointer

/-! ## Runs -/

/-- The calls, and drawings of the rest of the system. -/
inductive PointerOp where
  | move (x y : Int)
  | hide
  | reveal
  | draw (drawing : Pixels → Pixels)

/-- The pointer, and the screen as it would be without it. -/
structure PointerRun where
  pointer : Pointer
  bare : Pixels

/-- One call or drawing. -/
def PointerOp.exec (run : PointerRun) : PointerOp → PointerRun
  | .move x y => { run with pointer := run.pointer.move x y }
  | .hide => { run with pointer := run.pointer.hide }
  | .reveal => { run with pointer := run.pointer.reveal }
  | .draw drawing =>
    { pointer := { run.pointer with screen := drawing run.pointer.screen }
      bare := drawing run.bare }

/-- A coordinate that a pointer is moved to. -/
def Coordinate (x : Int) : Prop :=
  -32768 ≤ x ∧ x ≤ 32768

/-- The pointer is moved to coordinates; it is hidden while others draw. -/
def PointerOp.Fair (run : PointerRun) : PointerOp → Prop
  | .move x y => Coordinate x ∧ Coordinate y
  | .draw _ => run.pointer.saveValid = false
  | _ => True

/-! ## Copies between the screen and the save buffer -/

/-- The save buffer has memory, and sides and corners are `i32`s. -/
structure Ordinary (fb save : Framebuffer) (img : PointerImage) : Prop where
  mapped : save.mapped = true
  fbSides : fb.width < 2147483648 ∧ fb.height < 2147483648
  saveSides : save.width < 2147483648 ∧ save.height < 2147483648
  hotX : img.hotX + 32768 < 2147483648 ∧ 32768 - img.hotX + img.width < 2147483648
  hotY : img.hotY + 32768 < 2147483648 ∧ 32768 - img.hotY + img.height < 2147483648

/-- What `Leargas_Pointer_Init` accepts, and the ranges of an `i32`. -/
structure Pointer.Sound (p : Pointer) : Prop
    extends Ordinary p.fb p.save p.img where
  format : p.fb.format = p.save.format
  bpp : p.fb.bpp = p.save.bpp
  width : 0 < p.img.width ∧ p.img.width ≤ p.save.width
  height : 0 < p.img.height ∧ p.img.height ≤ p.save.height

/-- A position of the image from which no corner leaves the `i32`s. -/
structure Pointer.Placed (topX topY : Int) (p : Pointer) : Prop where
  x : -2147483648 < topX ∧ topX + p.img.width < 2147483648
  y : -2147483648 < topY ∧ topY + p.img.height < 2147483648

/-- The image covers a pixel of the screen. -/
def Pointer.Over (topX topY : Int) (p : Pointer) (q : Int × Int) : Prop :=
  p.fb.Writable ∧ p.fb.Inside q.1 q.2 ∧ (topX ≤ q.1 ∧ q.1 < topX + p.img.width) ∧
    (topY ≤ q.2 ∧ q.2 < topY + p.img.height)

section Copies

variable {p : Pointer} {topX topY x y : Int} {q : Int × Int}

section

variable (sound : p.Sound)
include sound

theorem Pointer.Sound.congr {fg bg : Nat} {saveValid : Bool} {screen saved : Pixels} :
    Pointer.Sound
      ⟨p.fb, p.save, p.img, fg, bg, x, y, saveValid, screen, saved⟩ :=
  ⟨sound.toOrdinary, sound.format, sound.bpp, sound.width, sound.height⟩

theorem Pointer.Sound.top (isX : Coordinate x) (isY : Coordinate y) :
    p.Placed (p.topX x) (p.topY y) := by
  obtain ⟨fromX, toX⟩ := isX
  obtain ⟨fromY, toY⟩ := isY
  obtain ⟨leftX, rightX⟩ := sound.hotX
  obtain ⟨leftY, rightY⟩ := sound.hotY
  have sameX : p.topX x = x - p.img.hotX := i32_of_range (by omega) (by omega)
  have sameY : p.topY y = y - p.img.hotY := i32_of_range (by omega) (by omega)
  constructor
  · omega
  · omega

theorem Pointer.Sound.sides :
    (i32 p.img.width = p.img.width ∧ i32 p.img.height = p.img.height) ∧
      (i32 p.fb.width = p.fb.width ∧ i32 p.fb.height = p.fb.height) ∧
      (i32 p.save.width = p.save.width ∧ i32 p.save.height = p.save.height) := by
  have narrow (n : Nat) (small : n < 2147483648) : i32 (n : Int) = n :=
    i32_of_range (by omega) (by omega)
  obtain ⟨-, toWidth⟩ := sound.width
  obtain ⟨-, toHeight⟩ := sound.height
  obtain ⟨fbWidth, fbHeight⟩ := sound.fbSides
  obtain ⟨saveWidth, saveHeight⟩ := sound.saveSides
  exact ⟨⟨narrow _ (by omega), narrow _ (by omega)⟩, ⟨narrow _ fbWidth, narrow _ fbHeight⟩,
    ⟨narrow _ saveWidth, narrow _ saveHeight⟩⟩

section

variable (placed : p.Placed topX topY)
include placed

theorem Pointer.Sound.fits :
    (Fits topX 0 p.img.width p.fb.width p.save.width ∧
        Fits topY 0 p.img.height p.fb.height p.save.height) ∧
      (Fits 0 topX p.img.width p.save.width p.fb.width ∧
        Fits 0 topY p.img.height p.save.height p.fb.height) := by
  obtain ⟨⟨fromX, toX⟩, ⟨fromY, toY⟩⟩ := placed
  obtain ⟨someWidth, toWidth⟩ := sound.width
  obtain ⟨someHeight, toHeight⟩ := sound.height
  obtain ⟨fbWidth, fbHeight⟩ := sound.fbSides
  obtain ⟨saveWidth, saveHeight⟩ := sound.saveSides
  refine ⟨⟨⟨?_, ?_, ?_, ?_, ?_, ?_⟩, ⟨?_, ?_, ?_, ?_, ?_, ?_⟩⟩,
    ⟨⟨?_, ?_, ?_, ?_, ?_, ?_⟩, ⟨?_, ?_, ?_, ?_, ?_, ?_⟩⟩⟩
  all_goals omega

theorem restoreUnderneath_over (isOver : p.Over topX topY q) :
    (p.restoreUnderneath topX topY).screen q =
      p.saved (q.1 - topX, q.2 - topY) := by
  obtain ⟨⟨imgWidth, imgHeight⟩, -, -⟩ := sound.sides
  obtain ⟨⟨columns, rows⟩, -⟩ := sound.fits placed
  obtain ⟨writable, inside, column, row⟩ := isOver
  have width := sound.width
  have height := sound.height
  have copied : Copied p.fb topX topY p.save 0 0 p.img.width p.img.height q := by
    refine ⟨column, row, inside, ?_, ?_, ?_, ?_⟩ <;> omega
  unfold Pointer.restoreUnderneath
  dsimp only
  rw [imgWidth, imgHeight, blitRect_copied p.saved p.screen writable
    sound.mapped sound.format columns rows copied, Int.zero_add, Int.zero_add]

theorem restoreUnderneath_elsewhere
    (elsewhere : ¬ p.Over topX topY q) : (p.restoreUnderneath topX topY).screen q = p.screen q := by
  obtain ⟨⟨imgWidth, imgHeight⟩, -, -⟩ := sound.sides
  obtain ⟨⟨columns, rows⟩, -⟩ := sound.fits placed
  unfold Pointer.restoreUnderneath
  rw [imgWidth, imgHeight]
  apply blitRect_kept p.saved p.screen columns rows
  rintro ⟨writable, copied⟩
  exact elsewhere ⟨writable, copied.inDst, copied.column, copied.row⟩

theorem saveUnderneath_over (isOver : p.Over topX topY q) :
    (p.saveUnderneath topX topY).saved (q.1 - topX, q.2 - topY) =
      p.screen q := by
  obtain ⟨⟨imgWidth, imgHeight⟩, -, -⟩ := sound.sides
  obtain ⟨-, columns, rows⟩ := sound.fits placed
  obtain ⟨writable, ⟨left, above, right, below⟩, column, row⟩ := isOver
  have width := sound.width
  have height := sound.height
  have saveWritable : p.save.Writable := by
    refine ⟨sound.mapped, ?_⟩
    rw [← sound.bpp]
    exact writable.2
  have copied : Copied p.save 0 0 p.fb topX topY p.img.width p.img.height
      (q.1 - topX, q.2 - topY) := by
    refine ⟨?_, ?_, ⟨?_, ?_, ?_, ?_⟩, ?_, ?_, ?_, ?_⟩ <;> dsimp only <;> omega
  unfold Pointer.saveUnderneath
  dsimp only
  rw [imgWidth, imgHeight, blitRect_copied p.screen p.saved saveWritable
    writable.1 sound.format.symm columns rows copied]
  apply congrArg
  apply Prod.ext <;> dsimp only <;> omega

theorem compositePointer_elsewhere
    (elsewhere : ¬ p.Over topX topY q) : (p.compositePointer topX topY).screen q = p.screen q := by
  apply foldl_untouched
  intro yy inRows px
  apply foldl_untouched
  intro xx inColumns px
  have row := List.mem_range.mp inRows
  have column := List.mem_range.mp inColumns
  obtain ⟨⟨fromX, toX⟩, ⟨fromY, toY⟩⟩ := placed
  have width := sound.width
  have height := sound.height
  have saveSides := sound.saveSides
  unfold Pointer.compositePixel
  rw [i32_of_range (x := (xx : Int)) (by omega) (by omega),
    i32_of_range (x := (yy : Int)) (by omega) (by omega),
    i32_of_range (by omega) (by omega),
    i32_of_range (by omega) (by omega)]
  split
  case isTrue => rfl
  case isFalse =>
    unfold pixel
    split
    case isFalse => rfl
    case isTrue written =>
      apply Function.update_of_ne
      rintro rfl
      apply elsewhere
      refine ⟨written.1, written.2, ?_, ?_⟩ <;> dsimp only <;> omega

end

end

end Copies

/-! ## The invariant -/

/-- The pointer is hidden, or what is under it is saved. -/
structure PointerRun.Inv (run : PointerRun) : Prop where
  sound : run.pointer.Sound
  atX : Coordinate run.pointer.x
  atY : Coordinate run.pointer.y
  hidden : run.pointer.saveValid = false → run.pointer.screen = run.bare
  elsewhere : run.pointer.saveValid = true → ∀ q,
    ¬ run.pointer.Over (run.pointer.topX run.pointer.x) (run.pointer.topY run.pointer.y) q →
      run.pointer.screen q = run.bare q
  underneath : run.pointer.saveValid = true → ∀ q, run.pointer.Over (run.pointer.topX run.pointer.x)
        (run.pointer.topY run.pointer.y) q →
      run.pointer.saved (q.1 - run.pointer.topX run.pointer.x,
        q.2 - run.pointer.topY run.pointer.y) = run.bare q

section Invariant

variable {run : PointerRun}

theorem PointerRun.Inv.lifted (inv : run.Inv) (shown : run.pointer.saveValid = true) :
    (run.pointer.restoreUnderneath (run.pointer.topX run.pointer.x)
      (run.pointer.topY run.pointer.y)).screen = run.bare := by
  have placed := inv.sound.top inv.atX inv.atY
  funext q
  by_cases isOver : run.pointer.Over (run.pointer.topX run.pointer.x)
      (run.pointer.topY run.pointer.y) q
  · rw [restoreUnderneath_over inv.sound placed isOver]
    exact inv.underneath shown q isOver
  · rw [restoreUnderneath_elsewhere inv.sound placed isOver]
    exact inv.elsewhere shown q isOver

theorem put_inv {p : Pointer} {x y : Int}
    (sound : p.Sound) (isX : Coordinate x) (isY : Coordinate y) :
    PointerRun.Inv
      ⟨{ p.put (p.topX x) (p.topY y) with x := x, y := y, saveValid := true }, p.screen⟩ := by
  have placed := sound.top isX isY
  constructor
  · exact sound.congr
  · exact isX
  · exact isY
  · nofun
  · intro _ q elsewhere
    exact compositePointer_elsewhere sound.congr ⟨placed.x, placed.y⟩ elsewhere
  · intro _ q isOver
    exact saveUnderneath_over sound placed isOver

theorem PointerOp.exec_inv {op : PointerOp} (inv : run.Inv) (fair : op.Fair run) :
    (op.exec run).Inv := by
  cases op with
  | move x y =>
    obtain ⟨isX, isY⟩ := fair
    show PointerRun.Inv { run with pointer := run.pointer.move x y }
    unfold Pointer.move
    split
    case isTrue => exact inv
    case isFalse =>
      cases shown : run.pointer.saveValid with
      | true =>
        have lifted := inv.lifted shown
        have placed := put_inv (p := run.pointer.restoreUnderneath
          (run.pointer.topX run.pointer.x) (run.pointer.topY run.pointer.y)) inv.sound.congr isX isY
        rwa [lifted] at placed
      | false =>
        have placed := put_inv inv.sound isX isY
        rwa [inv.hidden shown] at placed
  | hide =>
    show PointerRun.Inv { run with pointer := run.pointer.hide }
    unfold Pointer.hide
    split
    case isFalse => exact inv
    case isTrue shown =>
      refine ⟨inv.sound.congr, inv.atX, inv.atY, fun _ => inv.lifted shown, ?_, ?_⟩ <;>
      · nofun
  | reveal =>
    show PointerRun.Inv { run with pointer := run.pointer.reveal }
    unfold Pointer.reveal
    split
    case isTrue => exact inv
    case isFalse isHidden =>
      have placed := put_inv inv.sound inv.atX inv.atY
      rwa [inv.hidden (Bool.eq_false_iff.mpr isHidden)] at placed
  | draw drawing =>
    have isHidden : run.pointer.saveValid = false := fair
    refine ⟨inv.sound.congr, inv.atX, inv.atY, ?_, ?_, ?_⟩
    · intro _
      exact congrArg drawing (inv.hidden isHidden)
    all_goals
      intro isShown
      exact absurd (isHidden.symm.trans isShown) Bool.false_ne_true

theorem init_inv {fb save : Framebuffer} {img : PointerImage} {fg bg : Nat} {x0 y0 : Int}
    {screen saved : Pixels} {p : Pointer} (ordinary : Ordinary fb save img)
    (accepted : Pointer.init fb save img fg bg x0 y0 screen saved = some p)
    (isX : Coordinate x0) (isY : Coordinate y0) : PointerRun.Inv ⟨p, screen⟩ := by
  unfold Pointer.init at accepted
  split_ifs at accepted with empty format small
  cases accepted
  apply put_inv
  · refine ⟨ordinary, ?_, ?_, ?_, ?_⟩ <;> dsimp only
    · exact not_not.mp fun other => format (.inl other)
    · exact not_not.mp fun other => format (.inr other)
    · omega
    · omega
  · exact isX
  · exact isY

end Invariant

/--
With a save buffer that has memory of its own, and sizes in the range of an
`i32`, the screen under a hidden pointer is as it would be without the pointer.
-/
theorem hidden_pointer_leaves_no_trace
    {fb save : Framebuffer} {img : PointerImage} {fg bg : Nat} {x0 y0 : Int}
    {screen saved : Pixels} {p : Pointer} {run : PointerRun}
    (ordinary : Ordinary fb save img)
    (accepted : Pointer.init fb save img fg bg x0 y0 screen saved = some p)
    (isX : Coordinate x0) (isY : Coordinate y0)
    (reaches : Reaches PointerOp.exec (fun run op => op.Fair run) ⟨p, screen⟩ run) :
    (PointerOp.hide.exec run).pointer.screen = run.bare := by
  have inv : run.Inv := reaches.invariant (init_inv ordinary accepted isX isY) PointerOp.exec_inv
  have afterwards : (PointerOp.hide.exec run).Inv := PointerOp.exec_inv inv trivial
  apply afterwards.hidden
  show run.pointer.hide.saveValid = false
  unfold Pointer.hide
  split
  case isTrue => rfl
  case isFalse isHidden => exact Bool.eq_false_iff.mpr isHidden

/-! ### A pointer of one pixel -/

/-- One pixel of 32 bits. -/
def onePixel (mapped : Bool) : Framebuffer :=
  ⟨mapped, 1, 1, 4, .rgba8888, 4⟩

/-- One pixel in the colour of the foreground. -/
def dot : PointerImage :=
  ⟨1, 1, 0, 0, fun _ => 1⟩

/-- The pointer is moved half off the screen and back, and hidden. -/
theorem hidden_pointer_leaves_no_trace_once :
    ∃ p, Pointer.init (onePixel true) (onePixel true) dot 5 6 0 0 (fun _ => 9)
        (fun _ => 0) = some p ∧
      (PointerOp.hide.exec (PointerOp.exec (PointerOp.exec ⟨p, fun _ => 9⟩
        (.move (-1) 0)) (.move 0 0))).pointer.screen = fun _ => 9 := by
  have accepted : Pointer.init (onePixel true) (onePixel true) dot 5 6 0 0
      (fun _ => 9) (fun _ => 0) = some _ := rfl
  refine ⟨_, accepted, ?_⟩
  have ordinary : Ordinary (onePixel true) (onePixel true) dot := by
    constructor <;> decide
  apply hidden_pointer_leaves_no_trace ordinary accepted
  · exact ⟨by decide, by decide⟩
  · exact ⟨by decide, by decide⟩
  · refine .step (.step .start ?_) ?_ <;>
      exact ⟨⟨by decide, by decide⟩, ⟨by decide, by decide⟩⟩

/-- A save buffer without memory is accepted, and nothing can be restored. -/
theorem hidden_pointer_stays_visible :
    ∃ p, Pointer.init (onePixel true) (onePixel false) dot 5 6 0 0 (fun _ => 9)
        (fun _ => 0) = some p ∧
      (PointerOp.hide.exec ⟨p, fun _ => 9⟩).pointer.screen (0, 0) ≠
        (PointerOp.hide.exec ⟨p, fun _ => 9⟩).bare (0, 0) :=
  ⟨_, rfl, by decide⟩

end CaraOS.Leargas
