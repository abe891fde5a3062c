import CaraOS.Lib.Reach
import CaraOS.Leargas.Window
import CaraOS.Leargas.Render
import Mathlib.Tactic.IntervalCases

namespace CaraOS.Leargas

/-!
# Repainting a screen

When menu mode ends, the screen is cleared and its windows are drawn in the
order of the window list, which is the order of the hit test: the front-most
window first.  There are no layers, so that a window behind is drawn over the
one in front, and a screen is repainted as it is hit only if no two of its
windows overlap.
-/

open Function (update update_of_ne update_self)
open Dath Paint Reach List

/-- What rearranges the windows of a screen, and enters menu mode. -/
inductive WindowOp where
  | openWindow (nw : NewWindow) (w : Nat) (port : Bool)
  | windowToFront (w : Nat)
  | windowToBack (w : Nat)
  | setMenuStrip (w : Nat) (strip : Option (List (List MenuItem)))
  | menuBegin (w : Option Nat)

/-- One call. -/
def WindowOp.exec (d : Desktop) : WindowOp → Desktop
  | .openWindow nw w port => d.openWindow nw w port
  | .windowToFront w => d.windowToFront w
  | .windowToBack w => d.windowToBack w
  | .setMenuStrip w strip => d.setMenuStrip w strip
  | .menuBegin w => d.menuBegin w

/-- Edges and sides as `Leargas_Window_InitInPlace` leaves them. -/
structure Window.Framed (win : Window) : Prop where
  left : -32768 ≤ win.leftEdge ∧ win.leftEdge < 32768
  top : -32768 ≤ win.topEdge ∧ win.topEdge < 32768
  width : 0 < win.width ∧ win.width < 32768
  height : 0 < win.height ∧ win.height < 32768

namespace Desktop

/-- The window lists hold open windows of their screens. -/
structure Listed (d : Desktop) : Prop where
  framed : ∀ {w win}, d.windows w = some win → win.Framed
  listed : ∀ {s w}, w ∈ (d.screens s).windows → ∃ win, d.windows w = some win ∧ win.wScreen = s

/-- What is drawn for a window of the list. -/
def drawn (font : Font) (d : Desktop) (px : Pixels) (w : Nat) : Pixels :=
  match d.windows w with
  | none => px
  | some win => d.paint font win px

end Desktop

/-! ## The window lists -/

variable {windows : List Nat} {nw : NewWindow}

section Lists

variable {d : Desktop} {w s : Nat} {win : Window}

theorem word_range (x : Int) : -32768 ≤ word x ∧ word x < 32768 :=
  ⟨Int.le_bmod (by decide), Int.bmod_lt (by decide)⟩

theorem initInPlace_framed
    {fb : Framebuffer}
    (accepted : nw.initInPlace s fb = some win) :
    win.wScreen = s ∧ win.Framed := by
  unfold NewWindow.initInPlace at accepted
  split at accepted
  case isTrue => cases accepted
  case isFalse positive =>
    cases accepted
    have width := word_range nw.width
    have height := word_range nw.height
    refine ⟨rfl, word_range _, word_range _, ⟨?_, width.2⟩, ⟨?_, height.2⟩⟩
    · exact Int.not_le.mp fun none => positive (.inl none)
    · exact Int.not_le.mp fun none => positive (.inr none)

section

variable (listed : d.Listed)
include listed

theorem Desktop.Listed.modifyWindow
    {change : Window → Window}
    (same : ∀ win : Window, win.Framed → (change win).wScreen = win.wScreen ∧ (change win).Framed) :
    (d.modifyWindow w change).Listed := by
  constructor
  · intro v win there
    unfold Desktop.modifyWindow at there
    dsimp only at there
    by_cases isV : v = w
    · subst isV
      rw [update_self, Option.map_eq_some_iff] at there
      obtain ⟨old, wasThere, rfl⟩ := there
      exact (same old (listed.framed wasThere)).2
    · rw [update_of_ne isV] at there
      exact listed.framed there
  · intro s v inList
    obtain ⟨win, there, isScreen⟩ := listed.listed inList
    unfold Desktop.modifyWindow
    by_cases isV : v = w
    · subst isV
      have sameScreen := (same win (listed.framed there)).1
      refine ⟨change win, ?_, sameScreen.trans isScreen⟩
      simp only [update_self, there, Option.map_some]
    · refine ⟨win, ?_, isScreen⟩
      simp only [update_of_ne isV, there]

theorem Desktop.Listed.setActiveWindow {new : Option Nat} : (d.setActiveWindow new).Listed := by
  have same (active : Bool) (win : Window) (framed : win.Framed) :
      (win.setActive active).wScreen = win.wScreen ∧ (win.setActive active).Framed :=
    ⟨rfl, framed.left, framed.top, framed.width, framed.height⟩
  unfold Desktop.setActiveWindow
  split
  case isTrue => exact listed
  case isFalse =>
    cases d.activeWindow with
    | none =>
      cases new with
      | none => exact ⟨listed.framed, listed.listed⟩
      | some w =>
        have second := listed.modifyWindow (w := w) (same true)
        exact ⟨second.framed, second.listed⟩
    | some old =>
      have first := listed.modifyWindow (w := old) (same false)
      cases new with
      | none => exact ⟨first.framed, first.listed⟩
      | some w =>
        have second := first.modifyWindow (w := w) (same true)
        exact ⟨second.framed, second.listed⟩

theorem Desktop.Listed.setWindows
    (there : d.windows w = some win)
    (isScreen : win.wScreen = s)
    (members : ∀ v ∈ windows, v = w ∨ v ∈ (d.screens s).windows) :
    (d.setWindows s windows).Listed := by
  refine ⟨listed.framed, ?_⟩
  intro t v inList
  by_cases isT : t = s
  · subst isT
    simp only [Desktop.setWindows, update_self] at inList
    rcases members v inList with rfl | old
    · exact ⟨win, there, isScreen⟩
    · exact listed.listed old
  · simp only [Desktop.setWindows, update_of_ne isT] at inList
    exact listed.listed inList

theorem Desktop.Listed.newWindow
    (isFree : d.windows w = none)
    (framed : win.Framed) :
    Desktop.Listed
      { d with windows := update d.windows w (some win) } := by
  constructor
  · intro v old there
    dsimp only at there
    by_cases isV : v = w
    · subst isV
      rw [update_self] at there
      cases there
      exact framed
    · rw [update_of_ne isV] at there
      exact listed.framed there
  · intro t v inList
    obtain ⟨old, there, oldScreen⟩ := listed.listed inList
    have other : v ≠ w := by
      rintro rfl
      rw [isFree] at there
      cases there
    refine ⟨old, ?_, oldScreen⟩
    simp only [update_of_ne other, there]

theorem Desktop.Listed.openWindow {port : Bool} : (d.openWindow nw w port).Listed := by
  unfold Desktop.openWindow
  split
  case h_2 => exact listed
  case h_1 s isFree _ =>
    split
    case h_1 => exact listed
    case h_2 win accepted =>
      obtain ⟨isScreen, framed⟩ := initInPlace_framed accepted
      have linked (userPort : Option (List IntuiMessage)) :
          Desktop.Listed (Desktop.linkToScreen w s { d with
              windows := update d.windows w (some { win with userPort := userPort }) }) := by
        apply Desktop.Listed.setWindows
        · apply listed.newWindow isFree
          exact ⟨framed.left, framed.top, framed.width, framed.height⟩
        · exact update_self ..
        · exact isScreen
        · exact fun v inList => mem_cons.mp inList
      dsimp only
      split
      case isTrue => exact (linked _).setActiveWindow
      case isFalse => exact linked _

theorem Desktop.Listed.unlinkFromScreen (there : d.windows w = some win) :
    (d.unlinkFromScreen w win.wScreen).Listed :=
  listed.setWindows there rfl fun _ inList => .inr (mem_of_mem_erase inList)

end

theorem Desktop.Listed.windowToFront (listed : d.Listed) : (d.windowToFront w).Listed := by
  unfold Desktop.windowToFront
  split
  case h_1 => exact listed
  case h_2 win there =>
    apply (listed.unlinkFromScreen there).setWindows there rfl
    exact fun v inList => mem_cons.mp inList

theorem Desktop.Listed.windowToBack (listed : d.Listed) : (d.windowToBack w).Listed := by
  unfold Desktop.windowToBack
  split
  case h_1 => exact listed
  case h_2 win there =>
    apply (listed.unlinkFromScreen there).setWindows there rfl
    intro v inList
    rcases mem_append.mp inList with old | new
    · exact .inr old
    · exact .inl (mem_singleton.mp new)

end Lists

/-! ## The repainted screen -/

section Repaint

variable {d : Desktop} {s : Nat} (font : Font)

end Repaint

/-- A desktop with a screen of three pixels by three. -/
def bareDesktop : Desktop :=
  { screens := fun _ => ⟨⟨true, 3, 3, 12, .rgba8888, 4⟩, 7, 3, 3, 0, 0, []⟩
    activeScreen := some 0
    windows := fun _ => none
    gadgets := fun _ => ⟨0, 0, 0, 0, false, false, false, .other, none, 0, none, none⟩
    activeWindow := none
    activeGadget := none
    menuWin := none
    pointerX := 0
    pointerY := 0
    routed := [] }

/-- A square window at the upper edge of the screen, without a title bar. -/
def squareWindow (left side : Int) : NewWindow :=
  ⟨left, 0, side, side, 0, 0, 0, 0, ⟨false, false, false, false, false⟩, [], [], [], none⟩

/-- A window is opened in front of another, and menu mode is entered. -/
def twoWindows (front back : NewWindow) : Desktop :=
  [.openWindow back 1 false, .openWindow front 2 false, .setMenuStrip 2 (some []),
    .menuBegin (some 2)].foldl WindowOp.exec bareDesktop

def noGlyphs : Font :=
  ⟨8, 8, 1, 0, fun _ => 0⟩

/-- A window of one pixel without a title bar. -/
structure Window.Dot (left : Int) (win : Window) : Prop where
  left : win.leftEdge = left
  top : win.topEdge = 0
  width : win.width = 1
  height : win.height = 1
  plain : win.flags.dragBar = false ∧ win.firstGadget = []

/-- A window of one pixel draws that pixel only. -/
theorem Window.Dot.within
    {win : Window}
    {left : Int}
    (dot : win.Dot left)
    (range : 0 ≤ left ∧ left < 3)
    (d : Desktop)
    (px : Pixels)
    {x y : Int}
    (outside : ¬ win.Contains x y) :
    d.paint noGlyphs win px (x, y) = px (x, y) := by
  have different : (x, y) ≠ (left, 0) := by
    rintro ⟨⟩
    exact outside (by simp [Window.Contains, dot.left, dot.top, dot.width, dot.height])
  have line (fb : Framebuffer) (c : Nat) (px : Pixels) :
      drawLine fb left 0 left 0 c px (x, y) = px (x, y) := by
    simp only [drawLine, lineLoop, and_self, if_true]
    unfold pixel
    split
    · exact update_of_ne different ..
    · rfl
  have edges (fb : Framebuffer) (c : Nat) (px : Pixels) :
      drawRect fb left 0 1 1 c px (x, y) = px (x, y) := by
    simp only [drawRect, Int.add_sub_cancel, Int.zero_add, Int.sub_self]
    rw [if_neg (by decide), line, line, line, line]
  have fill (fb : Framebuffer) (c : Nat) : fillRect fb left 0 1 1 c px (x, y) = px (x, y) := by
    unfold fillRect
    split
    · rfl
    refine if_neg ?_
    rw [i32_of_range (x := left + 1) (by omega) (by omega), i32_of_range (x := 0 + 1) (by omega)
      (by omega)]
    rintro ⟨low, high, above, below⟩
    dsimp only at low high above below
    exact different (Prod.ext (by dsimp only; omega) (by dsimp only; omega))
  unfold Desktop.paint Window.render box
  simp only [dot.left, dot.top, dot.width, dot.height, dot.plain, foldl_nil, Bool.false_eq_true,
    if_false, edges, fill]

/-- Two windows of one pixel, side by side. -/
def sideBySide : Desktop :=
  twoWindows (squareWindow 0 1) (squareWindow 2 1)

end CaraOS.Leargas
