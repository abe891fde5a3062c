import CaraOS.Leargas.Desktop

namespace CaraOS.Leargas

/-!
# Drawing windows and gadgets

`Leargas_Window_Render` and what it calls.  Everything is drawn into the
framebuffer of the screen and clipped to that only: not to the window, and not
to what other windows leave free.  The font is a parameter.
-/

open Dath Paint

/-- A filled rectangle with a frame. -/
def box (fb : Framebuffer) (x y w h : Int) (face border : Nat) (px : Pixels) : Pixels :=
  drawRect fb x y w h border (fillRect fb x y w h face px)

/-- `grey` and `pg_grey`. -/
def grey (fb : Framebuffer) (v : Nat) : Nat :=
  fb.colour v v v

/-! ## Gadgets -/

/-- The label of a button, if there is one. -/
def renderLabel (fb : Framebuffer) (font : Font) (x0 y0 : Int)
    (text face : Nat) (label : Option IntuiText) (px : Pixels) : Pixels :=
  match label with
  | some ⟨leftEdge, topEdge, some iText⟩ =>
    drawString fb font (x0 + leftEdge) (y0 + topEdge) text face iText px
  | _ => px

/-- `Leargas_Gadget_Render` for a gadget that is neither string nor prop. -/
def renderButton (fb : Framebuffer) (font : Font) (x0 y0 : Int) (g : Gadget)
    (px : Pixels) : Pixels :=
  if g.width ≤ 0 ∨ g.height ≤ 0 then
    px
  else
    let face :=
      if g.disabled then grey fb 0x88
      else grey fb (if g.selected then 0x70 else 0xB0)
    let text := if g.disabled then grey fb 0x60 else grey fb 0x00
    let px := box fb x0 y0 g.width g.height face (grey fb 0x30) px
    renderLabel fb font x0 y0 text face g.gadgetText px

/-- The bytes of a buffer up to a zero byte, and not more than so many. -/
def fieldText (buffer : Int → BitVec 8) : Nat → Int → List (BitVec 8)
  | 0, _ => []
  | n + 1, i =>
    if buffer i = 0 then [] else buffer i :: fieldText buffer n (i + 1)

/-- The cursor bar of a string gadget; `tx` is where its text starts. -/
def renderCursor (fb : Framebuffer) (font : Font) (x0 y0 tx maxChars : Int)
    (bufferPos : Int) (g : Gadget) (px : Pixels) : Pixels :=
  let cx := tx + min bufferPos maxChars * font.width
  if x0 + 1 ≤ cx ∧ cx ≤ x0 + g.width - 2 then
    drawLine fb cx (y0 + 2) cx (y0 + g.height - 3) (fb.colour 0x30 0x60 0xC0) px
  else
    px

/-- The text of a string gadget and, if it is being edited, the cursor. -/
def renderField (fb : Framebuffer) (font : Font) (x0 y0 : Int) (g : Gadget)
    (active : Bool) (buffer : Int → BitVec 8) (bufferPos : Int) (px : Pixels) : Pixels :=
  let tx := x0 + 2
  let ty := max (y0 + (g.height - font.height).tdiv 2) (y0 + 1)
  let maxChars := max ((g.width - 4).tdiv font.width) 0
  let text := fieldText buffer (min 255 maxChars).toNat 0
  let px := drawString fb font tx ty (grey fb 0x00) (grey fb 0xE8) text px
  if active = true then
    renderCursor fb font x0 y0 tx maxChars bufferPos g px
  else
    px

/-- `Leargas_StringGadget_Render`. -/
def renderString (fb : Framebuffer) (font : Font) (x0 y0 : Int) (g : Gadget)
    (active : Bool) (px : Pixels) : Pixels :=
  if g.width ≤ 0 ∨ g.height ≤ 0 then
    px
  else
    let px := box fb x0 y0 g.width g.height (grey fb 0xE8) (grey fb 0x30) px
    match g.stringInfo with
    | some ⟨some buffer, bufferPos, _, _⟩ =>
      renderField fb font x0 y0 g active buffer bufferPos px
    | _ => px

/-- `pg_knob`: where the knob starts, and its size. -/
def knob (pot body : Nat) (span kmin : Int) : Int × Int :=
  let body := if body = 0 then maxPot else (body : Int)
  let ksize := min (max (body * span / maxPot) kmin) span
  let travel := span - ksize
  (clamp (pot * travel / maxPot) 0 travel, ksize)

/-- `Leargas_Prop_Render`. -/
def renderProp (fb : Framebuffer) (x0 y0 : Int) (g : Gadget) (px : Pixels) : Pixels :=
  match g.propInfo with
  | none => px
  | some pi =>
    if g.width ≤ 0 ∨ g.height ≤ 0 then
      px
    else
      let px := box fb x0 y0 g.width g.height (grey fb 0x60) (grey fb 0x30) px
      if pi.freeVert = true then
        let along := knob pi.vertPot pi.vertBody g.height 4
        box fb (x0 + 1) (y0 + along.1) (g.width - 2) along.2 (grey fb 0xC0) (grey fb 0x30) px
      else
        let along := knob pi.horizPot pi.horizBody g.width 6
        box fb (x0 + along.1) (y0 + 1) along.2 (g.height - 2) (grey fb 0xC0) (grey fb 0x30) px

/-- `Leargas_Gadget_Render`. -/
def renderGadget (fb : Framebuffer) (font : Font) (win : Window) (g : Gadget)
    (active : Bool) (px : Pixels) : Pixels :=
  let x0 := win.leftEdge + g.leftEdge
  let y0 := win.topEdge + g.topEdge
  match g.gadgetType with
  | .strGadget => renderString fb font x0 y0 g active px
  | .propGadget => renderProp fb x0 y0 g px
  | _ => renderButton fb font x0 y0 g px

/-! ## Windows -/

namespace Window

def chromeBg (fb : Framebuffer) (win : Window) : Nat :=
  if win.flags.windowActive then fb.colour 0x38 0x78 0xD0
  else fb.colour 0x20 0x40 0x80

def chromeFg (fb : Framebuffer) : Nat :=
  fb.colour 0xFF 0xFF 0xFF

/-- `pick_body`. -/
def body (fb : Framebuffer) : Nat :=
  fb.colour 0x18 0x30 0x60

/-- The title, as much of it as fits; the close gadget takes some room. -/
def renderTitle (fb : Framebuffer) (font : Font) (win : Window) (px : Pixels) : Pixels :=
  let barH := win.borderTop
  let reserve := if win.flags.closeGadget then barH else 0
  let textY := max (win.topEdge + (barH - font.height).tdiv 2) (win.topEdge + 1)
  let maxChars := (win.width - 4 - reserve).tdiv font.width
  drawString fb font (win.leftEdge + 4) textY (chromeFg fb) (win.chromeBg fb)
    (win.title.take (min 63 maxChars).toNat) px

/-- The close gadget: a box with a cross. -/
def renderClose (fb : Framebuffer) (win : Window) (px : Pixels) : Pixels :=
  let barH := win.borderTop
  let cgX := win.leftEdge + win.width - barH
  let y0 := win.topEdge
  let px := fillRect fb cgX (y0 + 1) (barH - 1) (barH - 1) (body fb) px
  let px := drawRect fb cgX y0 barH barH (win.chromeBg fb) px
  let px := drawLine fb (cgX + 2) (y0 + 2) (cgX + barH - 3) (y0 + barH - 3) (chromeFg fb) px
  drawLine fb (cgX + 2) (y0 + barH - 3) (cgX + barH - 3) (y0 + 2) (chromeFg fb) px

/-- The title bar of a window that can be dragged. -/
def renderBar (fb : Framebuffer) (font : Font) (win : Window) (px : Pixels) : Pixels :=
  let px :=
    fillRect fb (win.leftEdge + 1) (win.topEdge + 1) (win.width - 2)
      (win.borderTop - 1) (win.chromeBg fb) px
  let px := win.renderTitle fb font px
  if win.flags.closeGadget = true then win.renderClose fb px else px

/-- `Leargas_Window_Render` into the framebuffer of its screen. -/
def render (fb : Framebuffer) (font : Font) (gadgets : Nat → Gadget)
    (activeGadget : Option Nat) (win : Window) (px : Pixels) : Pixels :=
  let px := box fb win.leftEdge win.topEdge win.width win.height (body fb) (win.chromeBg fb) px
  let px :=
    if win.flags.dragBar = true then win.renderBar fb font px else px
  win.firstGadget.foldl (fun px g =>
    renderGadget fb font win (gadgets g) (decide (activeGadget = some g)) px) px

end Window

namespace Desktop

/-- What is drawn for a window. -/
def paint (font : Font) (win : Window) (d : Desktop) : Pixels → Pixels :=
  win.render (d.screens win.wScreen).fb font d.gadgets d.activeGadget

end Desktop

/-! ## Drawings are pointwise -/

section Layers

variable (fb : Framebuffer) (font : Font)

end Layers

end CaraOS.Leargas
