import CaraOS.Leargas.Desktop

namespace CaraOS.Leargas

/-!
# Opening, moving and closing windows

`window.c`, `window_alloc.c` and the menu mode of `menu.c`, again without what
is drawn.  Where the heap decides, its decision is an argument: the address of
a new window, and whether a port and a message can be allocated.
-/

open Dath (Framebuffer i32)

/-- `setup_rport`; without memory behind the screen the surface stays. -/
def Window.setupRport (fb : Framebuffer) (win : Window) : Window :=
  let ox := win.leftEdge + win.borderLeft
  let oy := win.topEdge + win.borderTop
  let cw := win.width - win.borderLeft - win.borderRight
  let ch := win.height - win.borderTop - win.borderBottom
  { win with
    surf :=
      if fb.mapped then
        ⟨((oy % 4294967296).toNat * fb.stride +
            (ox % 4294967296).toNat * fb.bpp) % 18446744073709551616,
          (if cw < 0 then 0 else cw).toNat, (if ch < 0 then 0 else ch).toNat⟩
      else
        win.surf }

/-- `Leargas_Window_InitInPlace` on a screen; edges and sides are `WORD`s. -/
def NewWindow.initInPlace (nw : NewWindow) (s : Nat) (fb : Framebuffer) : Option Window :=
  if word nw.width ≤ 0 ∨ word nw.height ≤ 0 then
    none
  else
    let bare := nw.flags.borderless
    some (Window.setupRport fb
      { leftEdge := word nw.leftEdge
        topEdge := word nw.topEdge
        width := word nw.width
        height := word nw.height
        minWidth := word nw.minWidth
        minHeight := word nw.minHeight
        maxWidth := nw.maxWidth % 65536
        maxHeight := nw.maxHeight % 65536
        flags := nw.flags
        borderLeft := if bare then 0 else 1
        borderTop := if bare then 0 else if nw.flags.dragBar then 11 else 1
        borderRight := if bare then 0 else 1
        borderBottom := if bare then 0 else 1
        idcmpFlags := nw.idcmpFlags
        userPort := none
        firstGadget := nw.firstGadget
        menuStrip := none
        title := nw.title.take 63
        wScreen := s
        surf := ⟨0, 0, 0⟩ })

/-- The edges after `Leargas_MoveWindow`. -/
def Window.move (dx dy : Int) (win : Window) : Window :=
  { win with
    leftEdge := word (i32 (win.leftEdge + dx))
    topEdge := word (i32 (win.topEdge + dy)) }

/-- A side after `Leargas_SizeWindow`; a limit of zero is none. -/
def limitSide (side min : Int) (max : Nat) : Int :=
  let side := if min ≠ 0 ∧ side < min then min else side
  let side := if max ≠ 0 ∧ (max : Int) < side then (max : Int) else side
  if side < 1 then 1 else side

/-- The sides after `Leargas_SizeWindow`. -/
def Window.size (dx dy : Int) (win : Window) : Window :=
  { win with
    width := word (limitSide (i32 (win.width + dx)) win.minWidth win.maxWidth)
    height :=
      word (limitSide (i32 (win.height + dy)) win.minHeight win.maxHeight) }

namespace Desktop

/-- A change of the window list of a screen. -/
def setWindows (s : Nat) (windows : List Nat) (d : Desktop) : Desktop :=
  { d with
    screens := Function.update d.screens s { d.screens s with windows := windows } }

def linkToScreen (w s : Nat) (d : Desktop) : Desktop :=
  d.setWindows s (w :: (d.screens s).windows)

def unlinkFromScreen (w s : Nat) (d : Desktop) : Desktop :=
  d.setWindows s ((d.screens s).windows.erase w)

/--
`Leargas_OpenWindow`, with the address that `Croi_AllocShared` returns and
whether a port can be had.  An address in use is not returned.
-/
def openWindow (nw : NewWindow) (w : Nat) (port : Bool) (d : Desktop) : Desktop :=
  match d.windows w, nw.screen.or d.activeScreen with
  | none, some s =>
    match nw.initInPlace s (d.screens s).fb with
    | none => d
    | some win =>
      let userPort :=
        if nw.idcmpFlags ≠ [] ∧ port = true then some [] else none
      let d :=
        { d with
          windows := Function.update d.windows w (some { win with userPort := userPort }) }
      let d := d.linkToScreen w s
      if nw.flags.activate then d.setActiveWindow (some w) else d
  | _, _ => d

def closeWindow (w : Nat) (d : Desktop) : Desktop :=
  match d.windows w with
  | none => d
  | some win =>
    let d :=
      if d.activeWindow = some w then d.setActiveWindow none else d
    let d := d.unlinkFromScreen w win.wScreen
    { d with windows := Function.update d.windows w none }

def windowToFront (w : Nat) (d : Desktop) : Desktop :=
  match d.windows w with
  | none => d
  | some win => (d.unlinkFromScreen w win.wScreen).linkToScreen w win.wScreen

def windowToBack (w : Nat) (d : Desktop) : Desktop :=
  match d.windows w with
  | none => d
  | some win =>
    let d := d.unlinkFromScreen w win.wScreen
    d.setWindows win.wScreen ((d.screens win.wScreen).windows ++ [w])

/-! ### Menus -/

def menuNull : Nat :=
  0xFFFF

/-- `FULLMENUNUM` without a sub-item. -/
def fullMenuNum (menu item : Nat) : Nat :=
  menu % 32 + item % 64 * 32 + 31 * 2048

/-- `Leargas_SetMenuStrip`, with a strip that is laid out. -/
def setMenuStrip (w : Nat) (strip : Option (List (List MenuItem))) (d : Desktop) : Desktop :=
  d.modifyWindow w fun win => { win with menuStrip := strip }

def menuBegin (w : Option Nat) (d : Desktop) : Desktop :=
  match w with
  | none => d
  | some w =>
    match (d.windows w).bind Window.menuStrip with
    | none => d
    | some _ => { d with menuWin := some w }

/-- The last enabled item at a point. -/
def menuPick (strip : List (List MenuItem)) (x y : Int) : Nat :=
  strip.zipIdx.foldl (fun code (items, menu) =>
    items.zipIdx.foldl (fun code (item, i) =>
      if item.enabled ∧ item.leftEdge ≤ x ∧ x < item.leftEdge + item.width ∧
          item.topEdge ≤ y ∧ y < item.topEdge + item.height then
        fullMenuNum menu i
      else
        code) code) menuNull

/-- `Leargas_Menu_End`: the window that was in menu mode, and the pick. -/
def menuEnd (x y : Int) (d : Desktop) : Option (Nat × Nat) × Desktop :=
  match d.menuWin with
  | none => (none, d)
  | some w =>
    let strip := ((d.windows w).bind Window.menuStrip).getD []
    (some (w, menuPick strip x y), { d with menuWin := none })

end Desktop

end CaraOS.Leargas
