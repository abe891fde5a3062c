import CaraOS.Lib.Reach
import CaraOS.Leargas.Window
import Mathlib.Tactic.SplitIfs

namespace CaraOS.Leargas

/-!
# The content surface of a window

A client draws into the content surface of its window, a part of the memory of
the screen that `setup_rport` describes by an offset and a size.
-/

open Dath (Framebuffer)
open Reach

/-- `Leargas_MoveWindow` and `Leargas_SizeWindow`. -/
inductive GeometryOp where
  | move (dx dy : Int)
  | size (dx dy : Int)

/-- The window with its new edges or sides. -/
def GeometryOp.apply (win : Window) : GeometryOp → Window
  | .move dx dy => win.move dx dy
  | .size dx dy => win.size dx dy

/-- One call; the surface is set up again. -/
def GeometryOp.exec (fb : Framebuffer) (win : Window) (op : GeometryOp) : Window :=
  (op.apply win).setupRport fb

/-- The offset of a pixel in the memory of a framebuffer. -/
def byteOffset (fb : Framebuffer) (x y : Nat) : Nat :=
  (y * fb.stride + x * fb.bpp) % 18446744073709551616

/-- The offset of a pixel of the content surface in the same memory. -/
def Window.byteOffset (fb : Framebuffer) (win : Window) (x y : Nat) : Nat :=
  (win.surf.offset + y * fb.stride + x * fb.bpp) % 18446744073709551616

/-- Each pixel of the content surface is a pixel of the screen. -/
def Window.SurfaceInside (fb : Framebuffer) (win : Window) : Prop :=
  ∀ x y, x < win.surf.width → y < win.surf.height →
    ∃ column row, column < fb.width ∧ row < fb.height ∧
      win.byteOffset fb x y = Leargas.byteOffset fb column row

/-- The part of the window inside its borders is empty or on the screen. -/
def Window.ContentInside (fb : Framebuffer) (win : Window) : Prop :=
  win.width - win.borderLeft - win.borderRight ≤ 0 ∨
    win.height - win.borderTop - win.borderBottom ≤ 0 ∨
    (0 ≤ win.leftEdge + win.borderLeft ∧ win.leftEdge + win.width - win.borderRight ≤ fb.width ∧
      0 ≤ win.topEdge + win.borderTop ∧
      win.topEdge + win.height - win.borderBottom ≤ fb.height)

/-- The call leaves the content of the window on the screen. -/
def KeepsContent (fb : Framebuffer) (win : Window) (op : GeometryOp) : Prop :=
  (op.apply win).ContentInside fb

/-- The edges are `WORD`s and the borders those of a window. -/
structure Window.EdgesInRange (win : Window) : Prop where
  left : win.leftEdge < 32768
  top : win.topEdge < 32768
  borderLeft : win.borderLeft ≤ 11
  borderTop : win.borderTop ≤ 11

theorem word_lt (x : Int) : word x < 32768 :=
  Int.bmod_lt (by decide)

variable {fb : Framebuffer} {win : Window}

theorem setupRport_inside (edges : win.EdgesInRange) (content : win.ContentInside fb)
    (surface : win.SurfaceInside fb) : (win.setupRport fb).SurfaceInside fb := by
  cases mapped : fb.mapped with
  | false =>
    simpa [Window.setupRport, mapped, Window.SurfaceInside, Window.byteOffset] using surface
  | true =>
    intro x y xInside yInside
    simp only [Window.setupRport, mapped, if_true] at xInside yInside
    rcases content with empty | empty | ⟨left, right, top, bottom⟩
    · split_ifs at xInside <;> omega
    · split_ifs at yInside <;> omega
    -- The origin of the surface is a position on the screen.
    · obtain ⟨ox, oxEq⟩ := Int.eq_ofNat_of_zero_le left
      obtain ⟨oy, oyEq⟩ := Int.eq_ofNat_of_zero_le top
      have oxLt : (win.leftEdge + win.borderLeft) % 4294967296 = ox := by
        have := edges.left
        have := edges.borderLeft
        omega
      have oyLt : (win.topEdge + win.borderTop) % 4294967296 = oy := by
        have := edges.top
        have := edges.borderTop
        omega
      refine ⟨ox + x, oy + y, ?_, ?_, ?_⟩
      · split_ifs at xInside <;> omega
      · split_ifs at yInside <;> omega
      · simp only [Window.byteOffset, Leargas.byteOffset, Window.setupRport,
          mapped, if_true, oxLt, oyLt, Int.toNat_natCast, Nat.add_mul]
        rw [Nat.add_assoc, Nat.mod_add_mod]
        congr 1
        omega

variable {nw : NewWindow}

theorem initInPlace_eq {s : Nat} (accepted : nw.initInPlace s fb = some win) :
    ∃ zeroed : Window, win = zeroed.setupRport fb ∧
      zeroed.EdgesInRange ∧ zeroed.surf = ⟨0, 0, 0⟩ := by
  unfold NewWindow.initInPlace at accepted
  split at accepted
  case isTrue => cases accepted
  case isFalse =>
    cases accepted
    refine ⟨_, rfl, ⟨word_lt _, word_lt _, ?_, ?_⟩, rfl⟩
    · dsimp only
      split_ifs <;> decide
    · dsimp only
      split_ifs <;> decide

theorem apply_edges (op : GeometryOp) (edges : win.EdgesInRange) : (op.apply win).EdgesInRange := by
  cases op with
  | move dx dy =>
    exact ⟨word_lt _, word_lt _, edges.borderLeft, edges.borderTop⟩
  | size dx dy =>
    exact ⟨edges.left, edges.top, edges.borderLeft, edges.borderTop⟩

theorem setupRport_edges (fb : Framebuffer) (edges : win.EdgesInRange) :
    (win.setupRport fb).EdgesInRange :=
  ⟨edges.left, edges.top, edges.borderLeft, edges.borderTop⟩

theorem initInPlace_inside {s : Nat} (accepted : nw.initInPlace s fb = some win)
    (content : win.ContentInside fb) : win.EdgesInRange ∧ win.SurfaceInside fb := by
  rcases initInPlace_eq accepted with ⟨zeroed, rfl, edges, empty⟩
  refine ⟨setupRport_edges fb edges, setupRport_inside edges content ?_⟩
  intro x y xInside
  rw [empty] at xInside
  exact absurd xInside (Nat.not_lt_zero x)

theorem exec_inside {op : GeometryOp} (inv : win.EdgesInRange ∧ win.SurfaceInside fb)
    (keeps : KeepsContent fb win op) :
    (op.exec fb win).EdgesInRange ∧ (op.exec fb win).SurfaceInside fb := by
  have edges := apply_edges op inv.1
  refine ⟨setupRport_edges fb edges, setupRport_inside edges keeps ?_⟩
  cases op with
  | move dx dy => exact inv.2
  | size dx dy => exact inv.2

/--
As long as each call leaves the content of the window on the screen, every
pixel that can be drawn in the window is a pixel of the screen.
-/
theorem surface_stays_on_screen {fb : Framebuffer} {nw : NewWindow} {s : Nat} {first win : Window}
    (accepted : nw.initInPlace s fb = some first)
    (opened : first.ContentInside fb)
    (run : Reaches (GeometryOp.exec fb) (KeepsContent fb) first win) : win.SurfaceInside fb :=
  (run.invariant (initInPlace_inside accepted opened) exec_inside).2

/-! ### A window on a small screen -/

/-- Four pixels by four. -/
def smallScreen : Framebuffer :=
  ⟨true, 4, 4, 16, .rgba8888, 4⟩

/-- A request for a borderless window of two pixels by two. -/
def smallWindow (leftEdge : Int) : NewWindow :=
  ⟨leftEdge, 0, 2, 2, 0, 0, 0, 0, ⟨false, false, true, false, false⟩, [], [], [], none⟩

/-- The window is opened in a corner and moved by one pixel. -/
theorem surface_stays_on_screen_once :
    ∃ first, (smallWindow 0).initInPlace 0 smallScreen = some first ∧
      (GeometryOp.exec smallScreen first (.move 1 1)).SurfaceInside
        smallScreen := by
  have accepted : (smallWindow 0).initInPlace 0 smallScreen = some _ := rfl
  refine ⟨_, accepted, surface_stays_on_screen accepted ?_ ?_⟩
  · right; right
    decide
  · apply Reaches.step .start
    right; right
    decide

/-- Moved over the left side of the screen, it reaches far beyond it. -/
theorem moved_surface_leaves_screen :
    ∃ first, (smallWindow 0).initInPlace 0 smallScreen = some first ∧
      ¬ (GeometryOp.exec smallScreen first (.move (-1) 0)).SurfaceInside
        smallScreen := by
  refine ⟨_, rfl, ?_⟩
  intro inside
  rcases inside 0 0 (by decide) (by decide) with
    ⟨column, row, columnInside, rowInside, same⟩
  have offset : Leargas.byteOffset smallScreen column row = 17179869180 := by
    rw [← same]
    decide
  simp only [Leargas.byteOffset, smallScreen] at offset columnInside rowInside
  omega

end CaraOS.Leargas
