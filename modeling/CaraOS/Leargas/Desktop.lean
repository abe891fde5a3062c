import CaraOS.Dath.Draw

namespace CaraOS.Leargas

/-!
# Windows, gadgets and messages

`leargas.h` with `window.c`, `window_alloc.c`, `focus.c`, `gadget.c`,
`string_gadget.c`, `prop_gadget.c` and `idcmp.c`, without what is drawn:
rendering changes pixels only.

Screens, windows and gadgets are known by their addresses.  A gadget chain is a
list; a bitmap of flags is a record of those bits that are read.
-/

open Dath (Framebuffer i32)

/-- The conversion to a `WORD`. -/
def word (x : Int) : Int :=
  x.bmod 65536

/-! ## String gadgets -/

/-- `struct StringInfo`; the buffer is the memory from `Buffer` on. -/
structure StringInfo where
  buffer : Option (Int → BitVec 8)
  bufferPos : Int
  maxChars : Int
  numChars : Int

/-- `Buffer[i] = Buffer[i - 1]` for so many indices, downwards. -/
def moveUp (buffer : Int → BitVec 8) (i : Int) : Nat → Int → BitVec 8
  | 0 => buffer
  | n + 1 => moveUp (Function.update buffer i (buffer (i - 1))) (i - 1) n

/-- `Buffer[i] = Buffer[i + 1]` for so many indices, upwards. -/
def moveDown (buffer : Int → BitVec 8) (i : Int) : Nat → Int → BitVec 8
  | 0 => buffer
  | n + 1 => moveDown (Function.update buffer i (buffer (i + 1))) (i + 1) n

/-- `Leargas_String_InsertChar`; nothing if there is no change. -/
def StringInfo.insertChar (c : Char) (si : StringInfo) : Option StringInfo :=
  si.buffer.bind fun buffer =>
    if si.maxChars ≤ 1 ∨ word (si.maxChars - 1) ≤ si.numChars ∨
        si.bufferPos < 0 ∨ si.numChars < si.bufferPos then
      none
    else
      let moved := moveUp buffer si.numChars (si.numChars - si.bufferPos).toNat
      let placed := Function.update moved si.bufferPos (BitVec.ofNat 8 c.toNat)
      some { si with
        buffer := some (Function.update placed (si.numChars + 1) 0)
        bufferPos := si.bufferPos + 1
        numChars := si.numChars + 1 }

/-- `Leargas_String_Backspace`; nothing if there is no change. -/
def StringInfo.backspace (si : StringInfo) : Option StringInfo :=
  si.buffer.bind fun buffer =>
    if si.bufferPos ≤ 0 then
      none
    else
      let moved := moveDown buffer (si.bufferPos - 1) (si.numChars - si.bufferPos).toNat
      let numChars := word (si.numChars - 1)
      some { si with
        buffer := some (Function.update moved numChars 0)
        bufferPos := si.bufferPos - 1
        numChars := numChars }

/-- `k_base`, in runs of codes. -/
def kBase : List (Nat × String) :=
  [(0x00, "`1234567890-=\\"), (0x10, "qwertyuiop[]"), (0x20, "asdfghjkl;'#"),
    (0x31, "zxcvbnm,./"), (0x40, " ")]

/-- `k_shift`, in runs of codes. -/
def kShift : List (Nat × String) :=
  [(0x00, "~!@#$%^&*()_+|"), (0x1A, "\x7b\x7d"), (0x29, ":\"~"), (0x38, "<>?")]

/-- An entry of a keymap. -/
def face (keymap : List (Nat × String)) (code : Nat) : Option Char :=
  keymap.findSome? fun (first, keys) =>
    if first ≤ code then keys.toList[code - first]? else none

def rawkeyToAscii (code qualifier : Nat) : Option Char :=
  if code.testBit 7 ∨ 0x46 ≤ code then
    none
  else
    (face kBase code).map fun base =>
      let shift := qualifier.testBit 0 || qualifier.testBit 1
      if 'a' ≤ base ∧ base ≤ 'z' then
        if xor shift (qualifier.testBit 2) then base.toUpper else base
      else if shift then
        (face kShift code).getD base
      else
        base

/-! ## Gadgets -/

/-- `struct PropInfo`. -/
structure PropInfo where
  freeVert : Bool
  horizPot : Nat
  vertPot : Nat
  horizBody : Nat
  vertBody : Nat

/-- `struct IntuiText`. -/
structure IntuiText where
  leftEdge : Int
  topEdge : Int
  iText : Option (List (BitVec 8))

/-- The types that `GTYP_GTYPEMASK` tells apart. -/
inductive GadgetType where
  | boolGadget
  | propGadget
  | strGadget
  | other
  deriving DecidableEq

/-- `struct Gadget`, with what `SpecialInfo` points at. -/
structure Gadget where
  leftEdge : Int
  topEdge : Int
  width : Int
  height : Int
  selected : Bool
  disabled : Bool
  relVerify : Bool
  gadgetType : GadgetType
  gadgetText : Option IntuiText
  gadgetID : Nat
  stringInfo : Option StringInfo
  propInfo : Option PropInfo

/-- `MAXPOT` and `MAXBODY`. -/
def maxPot : Int :=
  0xFFFF

/-- `pg_clamp` and `clamp_i32`. -/
def clamp (v lo hi : Int) : Int :=
  if v < lo then lo else if hi < v then hi else v

/-- `Leargas_Prop_HandleDrag`; nothing if there is no change. -/
def Gadget.handleDrag (wx wy : Int) (g : Gadget) : Option Gadget :=
  g.propInfo.bind fun pi =>
    let span := if pi.freeVert then g.height else g.width
    let pos := if pi.freeVert then wy - g.topEdge else wx - g.leftEdge
    if span ≤ 1 then
      none
    else
      let pot := clamp (clamp pos 0 (span - 1) * maxPot / (span - 1)) 0 maxPot
      let slot := if pi.freeVert then pi.vertPot else pi.horizPot
      if slot = pot.toNat then
        none
      else if pi.freeVert then
        some { g with propInfo := some { pi with vertPot := pot.toNat } }
      else
        some { g with propInfo := some { pi with horizPot := pot.toNat } }

/-! ## Input events -/

/-- `ie_class`; the last one stands for all others. -/
inductive InputClass where
  | rawKey
  | rawMouse
  | unused
  deriving DecidableEq

/-- `struct LeargasInputEvent`. -/
structure InputEvent where
  cls : InputClass
  code : Nat
  qualifier : Nat
  dx : Int
  dy : Int
  tsNs : Nat

def lButton : Nat :=
  0x68

def rButton : Nat :=
  0x69

def noButton : Nat :=
  0xFF

/-- `IECODE_UP_PREFIX`. -/
def upBit : Nat :=
  0x80

/-! ## Messages -/

/-- The classes of messages; the last one stands for all others. -/
inductive IdcmpClass where
  | rawKey
  | mouseButtons
  | mouseMove
  | closeWindow
  | gadgetUp
  | menuPick
  | unused
  deriving DecidableEq

/-- `struct IntuiMessage`. -/
structure IntuiMessage where
  cls : IdcmpClass
  code : Nat
  qualifier : Nat
  iAddress : Option Nat
  mouseX : Int
  mouseY : Int
  seconds : Nat
  micros : Nat
  idcmpWindow : Nat

def idcmpRingCap : Nat :=
  16

/-! ## Windows and screens -/

/-- `struct MenuItem`, as far as picking it is concerned. -/
structure MenuItem where
  enabled : Bool
  leftEdge : Int
  topEdge : Int
  width : Int
  height : Int

/-- The bits of `Flags`. -/
structure WindowFlags where
  dragBar : Bool
  closeGadget : Bool
  borderless : Bool
  activate : Bool
  windowActive : Bool

/-- `struct NewWindow`. -/
structure NewWindow where
  leftEdge : Int
  topEdge : Int
  width : Int
  height : Int
  minWidth : Int
  minHeight : Int
  maxWidth : Nat
  maxHeight : Nat
  flags : WindowFlags
  idcmpFlags : List IdcmpClass
  firstGadget : List Nat
  title : List (BitVec 8)
  screen : Option Nat

/-- The content surface of a window: where it starts in the framebuffer. -/
structure Surface where
  offset : Nat
  width : Nat
  height : Nat
  deriving DecidableEq

/--
`struct LeargasWindow`.  A port is the list of its messages; the menu strip is
the list of its menus, each a list of items.
-/
structure Window where
  leftEdge : Int
  topEdge : Int
  width : Int
  height : Int
  minWidth : Int
  minHeight : Int
  maxWidth : Nat
  maxHeight : Nat
  flags : WindowFlags
  borderLeft : Int
  borderTop : Int
  borderRight : Int
  borderBottom : Int
  idcmpFlags : List IdcmpClass
  userPort : Option (List IntuiMessage)
  firstGadget : List Nat
  menuStrip : Option (List (List MenuItem))
  title : List (BitVec 8)
  wScreen : Nat
  surf : Surface

/-- `struct LeargasScreen`; the windows are in front-to-back order. -/
structure Screen where
  fb : Framebuffer
  pen0 : Nat
  width : Int
  height : Int
  mouseX : Int
  mouseY : Int
  windows : List Nat

/-- `Leargas_Window_HitTest`, for one window. -/
def Window.Contains (x y : Int) (win : Window) : Prop :=
  win.leftEdge ≤ x ∧ x < win.leftEdge + win.width ∧ win.topEdge ≤ y ∧ y < win.topEdge + win.height
  deriving Decidable

/-- `Leargas_Gadget_HitTest`, for one gadget. -/
def Gadget.Contains (wx wy : Int) (g : Gadget) : Prop :=
  g.disabled = false ∧ g.leftEdge ≤ wx ∧ wx < g.leftEdge + g.width ∧
    g.topEdge ≤ wy ∧ wy < g.topEdge + g.height
  deriving Decidable

def Window.closeHitTest (wx wy : Int) (win : Window) : Bool :=
  let barH := win.borderTop
  win.flags.dragBar && win.flags.closeGadget &&
    decide (0 < barH ∧ 0 < win.width ∧ win.width - barH ≤ wx ∧ wx < win.width ∧ 0 ≤ wy ∧ wy < barH)

/-- `Leargas_SetActiveWindow` flips this flag. -/
def Window.setActive (active : Bool) (win : Window) : Window :=
  { win with flags := { win.flags with windowActive := active } }

/--
Everything the router reads and writes.  `routed` is history: the calls of the
key router.
-/
structure Desktop where
  screens : Nat → Screen
  activeScreen : Option Nat
  windows : Nat → Option Window
  gadgets : Nat → Gadget
  activeWindow : Option Nat
  activeGadget : Option Nat
  menuWin : Option Nat
  pointerX : Int
  pointerY : Int
  routed : List (Option Nat × InputEvent)

namespace Desktop

/-- `Leargas_Window_HitTest`: the front-most window at a point of a screen. -/
def hitTest (s : Nat) (x y : Int) (d : Desktop) : Option (Nat × Window) :=
  (d.screens s).windows.findSome? fun w =>
    (d.windows w).bind fun win =>
      if win.Contains x y then some (w, win) else none

/-- The hit test of the router, on the active screen. -/
def windowHitTest (x y : Int) (d : Desktop) : Option (Nat × Window) :=
  d.activeScreen.bind fun s => d.hitTest s x y

def gadgetHitTest (win : Window) (wx wy : Int) (d : Desktop) : Option Nat :=
  win.firstGadget.find? fun g => decide ((d.gadgets g).Contains wx wy)

def modifyWindow (w : Nat) (change : Window → Window) (d : Desktop) : Desktop :=
  { d with windows := Function.update d.windows w ((d.windows w).map change) }

/-- A change of a gadget. -/
def setGadget (g : Nat) (gadget : Gadget) (d : Desktop) : Desktop :=
  { d with gadgets := Function.update d.gadgets g gadget }

def focused (d : Desktop) : Option (Nat × Window) :=
  d.activeWindow.bind fun w => (d.windows w).map fun win => (w, win)

def setActiveWindow (w : Option Nat) (d : Desktop) : Desktop :=
  if w = d.activeWindow then
    d
  else
    let d :=
      match d.activeWindow with
      | some old => d.modifyWindow old (Window.setActive false)
      | none => d
    let d :=
      match w with
      | some new => d.modifyWindow new (Window.setActive true)
      | none => d
    { d with activeWindow := w }

/-! ### Posting messages -/

/-- A message is posted if the window asked for the class and has a port. -/
def post (alloc : Bool) (cls : IdcmpClass) (w : Nat)
    (message : Window → IntuiMessage) (d : Desktop) : Desktop :=
  match d.windows w with
  | none => d
  | some win =>
    match win.userPort with
    | none => d
    | some port =>
      if cls ∈ win.idcmpFlags ∧ alloc = true ∧ port.length < idcmpRingCap then
        d.modifyWindow w fun win =>
          { win with userPort := some (port ++ [message win]) }
      else
        d

/-- The pointer position that goes into a message. -/
def mouseIn (win : Window) (d : Desktop) : Int × Int :=
  (word ((d.screens win.wScreen).mouseX - win.leftEdge),
    word ((d.screens win.wScreen).mouseY - win.topEdge))

/-- A message without a time stamp. -/
def bareMessage (cls : IdcmpClass) (code : Nat) (iAddress : Option Nat)
    (w : Nat) (d : Desktop) (win : Window) : IntuiMessage :=
  ⟨cls, code, 0, iAddress, (d.mouseIn win).1, (d.mouseIn win).2, 0, 0, w⟩

def postMenuPick (alloc : Bool) (w code : Nat) (d : Desktop) : Desktop :=
  d.post alloc .menuPick w (d.bareMessage .menuPick code none w)

def postCloseWindow (alloc : Bool) (w : Nat) (d : Desktop) : Desktop :=
  d.post alloc .closeWindow w (d.bareMessage .closeWindow 0 none w)

def postGadgetUp (alloc : Bool) (w g : Nat) (d : Desktop) : Desktop :=
  d.post alloc .gadgetUp w (d.bareMessage .gadgetUp (d.gadgets g).gadgetID (some g) w)

def buildIntuiMessage (w : Nat) (ev : InputEvent) (d : Desktop) (win : Window) : IntuiMessage :=
  let cls :=
    match ev.cls with
    | .rawKey => .rawKey
    | .rawMouse => if ev.code = noButton then .mouseMove else .mouseButtons
    | .unused => .unused
  ⟨cls, ev.code, ev.qualifier, none, (d.mouseIn win).1, (d.mouseIn win).2,
    ev.tsNs / 1000000000, ev.tsNs % 1000000000 / 1000, w⟩

def routeKey (alloc : Bool) (w : Option Nat) (ev : InputEvent) (d : Desktop) : Desktop :=
  match w with
  | none => d
  | some w => d.post alloc .rawKey w (d.buildIntuiMessage w ev)

def postMouseButtons (alloc : Bool) (w : Nat) (ev : InputEvent) (d : Desktop) : Desktop :=
  d.post alloc .mouseButtons w (d.buildIntuiMessage w ev)

end Desktop

end CaraOS.Leargas
