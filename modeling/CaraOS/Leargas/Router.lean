import CaraOS.Leargas.Window
import Mathlib.Tactic.SplitIfs

namespace CaraOS.Leargas

/-!
# The input router

`router.c` with `Leargas_String_RouteKey`.  The kernel installs the functions
that post messages as the hooks of the router.  An event posts one message at
most; whether the heap has room for it comes with the event.
-/

open Option (bind_eq_some_iff bind_some)
open Function (update update_eq_self update_of_ne update_self)

namespace Desktop

/-- An edit of the string gadget `g`. -/
def editString (g : Nat) (edit : StringInfo → Option StringInfo) (d : Desktop) : Desktop :=
  match (d.gadgets g).stringInfo.bind edit with
  | none => d
  | some si => d.setGadget g { d.gadgets g with stringInfo := some si }

/-- Return and keypad Enter. -/
def isReturn (code : Nat) : Bool :=
  decide (code = 0x44 ∨ code = 0x43)

/-- What a key does to the active string gadget. -/
def typeKey (alloc : Bool) (g : Nat) (ev : InputEvent) (d : Desktop) : Desktop :=
  if ev.code.testBit 7 then
    d
  else if isReturn ev.code then
    let d := { d with activeGadget := none }
    match d.activeWindow with
    | none => d
    | some w => d.postGadgetUp alloc w g
  else if ev.code = 0x41 then
    d.editString g StringInfo.backspace
  else
    match rawkeyToAscii ev.code ev.qualifier with
    | none => d
    | some c => d.editString g (StringInfo.insertChar c)

/-- The active gadget, if it is a string gadget. -/
def editing (d : Desktop) : Option Nat :=
  d.activeGadget.filter fun g => decide ((d.gadgets g).gadgetType = .strGadget)

/-- A key: for the active string gadget, or for the key router. -/
def rawKey (alloc : Bool) (ev : InputEvent) (d : Desktop) : Desktop :=
  match d.editing with
  | some g => d.typeKey alloc g ev
  | none =>
    let after := d.routeKey alloc d.activeWindow ev
    { after with routed := d.routed ++ [(d.activeWindow, ev)] }

/-- The pointer position after an event, on the screen if there is one. -/
def position (ev : InputEvent) (d : Desktop) : Int × Int :=
  let nx := d.pointerX + ev.dx
  let ny := d.pointerY + ev.dy
  match d.activeScreen with
  | none => (nx, ny)
  | some s =>
    let maxX := (d.screens s).width % 65536 - 1
    let maxY := (d.screens s).height % 65536 - 1
    (clamp nx 0 (if maxX < 0 then 0 else maxX), clamp ny 0 (if maxY < 0 then 0 else maxY))

/-- The position is mirrored into the screen. -/
def mirror (nx ny : Int) (d : Desktop) : Desktop :=
  match d.activeScreen with
  | none => d
  | some s =>
    { d with
      screens := update d.screens s { d.screens s with mouseX := word nx, mouseY := word ny } }

/-- A gadget is pressed; a knob jumps to the click. -/
def press (g : Nat) (wx wy : Int) (d : Desktop) : Desktop :=
  let gadget := { d.gadgets g with selected := true }
  let gadget :=
    if gadget.gadgetType = .propGadget then
      (gadget.handleDrag wx wy).getD gadget
    else
      gadget
  { d.setGadget g gadget with activeGadget := some g }

/-- The left button goes down. -/
def leftDown (alloc : Bool) (ev : InputEvent) (nx ny : Int) (d : Desktop) : Desktop :=
  match d.windowHitTest nx ny with
  | none => d
  | some (w, hit) =>
    let d := d.setActiveWindow (some w)
    let wx := nx - hit.leftEdge
    let wy := ny - hit.topEdge
    if hit.closeHitTest wx wy then
      d.postCloseWindow alloc w
    else
      match d.gadgetHitTest hit wx wy with
      | some g => d.press g wx wy
      | none => d.postMouseButtons alloc w ev

/-- The gadget that a click at a point presses. -/
def hitGadget (nx ny : Int) (d : Desktop) : Option Nat :=
  (d.windowHitTest nx ny).bind fun (_, hit) =>
    let wx := nx - hit.leftEdge
    let wy := ny - hit.topEdge
    if hit.closeHitTest wx wy then none else d.gadgetHitTest hit wx wy

/-- What a released gadget reports. -/
def reportUp (alloc : Bool) (g : Nat) (nx ny : Int) (d : Desktop) : Desktop :=
  match d.focused with
  | none => d
  | some (aw, win) =>
    match (d.gadgets g).gadgetType with
    | .propGadget => d.postGadgetUp alloc aw g
    | .boolGadget =>
      if (d.gadgets g).relVerify ∧ d.gadgetHitTest win (nx - win.leftEdge) (ny - win.topEdge) =
            some g then
        d.postGadgetUp alloc aw g
      else
        d
    | _ => d

/-- The left button goes up. -/
def leftUp (alloc : Bool) (nx ny : Int) (d : Desktop) : Desktop :=
  match d.activeGadget with
  | none => d
  | some g =>
    if (d.gadgets g).selected then
      (d.setGadget g { d.gadgets g with selected := false }).reportUp alloc g nx ny
    else
      d

/-- The right button goes up. -/
def rightUp (alloc : Bool) (nx ny : Int) (d : Desktop) : Desktop :=
  match d.menuEnd nx ny with
  | (none, d) => d
  | (some (mw, code), d) => d.postMenuPick alloc mw code

def buttons (alloc : Bool) (ev : InputEvent) (nx ny : Int) (d : Desktop) : Desktop :=
  if ev.code = lButton then
    d.leftDown alloc ev nx ny
  else if ev.code = lButton + upBit then
    d.leftUp alloc nx ny
  else if ev.code = rButton then
    d.menuBegin d.activeWindow
  else if ev.code = rButton + upBit then
    d.rightUp alloc nx ny
  else
    d

/-- A pressed knob follows the pointer. -/
def drag (nx ny : Int) (d : Desktop) : Desktop :=
  match d.activeGadget, d.focused with
  | some g, some (_, win) =>
    if (d.gadgets g).selected ∧ (d.gadgets g).gadgetType = .propGadget then
      match (d.gadgets g).handleDrag (nx - win.leftEdge) (ny - win.topEdge) with
      | none => d
      | some gadget => d.setGadget g gadget
    else
      d
  | _, _ => d

def rawMouse (alloc : Bool) (ev : InputEvent) (d : Desktop) : Desktop :=
  let (nx, ny) := d.position ev
  let d := ((d.mirror nx ny).buttons alloc ev nx ny).drag nx ny
  { d with pointerX := nx, pointerY := ny }

/-- One turn of the loop of `Leargas_Input_Drain`. -/
def handle (alloc : Bool) (ev : InputEvent) (d : Desktop) : Desktop :=
  match ev.cls with
  | .rawKey => d.rawKey alloc ev
  | .rawMouse => d.rawMouse alloc ev
  | .unused => d

end Desktop

/-! ## Focus and selection -/

/--
What keyboard focus and the pressed look depend on.  Everything else that an
event changes (messages, knobs, menu mode, the pointer) leaves this alone.
-/
@[ext]
structure Profile where
  types : Nat → GadgetType
  strings : Nat → Option StringInfo
  selected : Nat → Bool
  chain : Nat → Option (List Nat)
  activeWindow : Option Nat
  activeGadget : Option Nat

def Desktop.profile (d : Desktop) : Profile where
  types := fun g => (d.gadgets g).gadgetType
  strings := fun g => (d.gadgets g).stringInfo
  selected := fun g => (d.gadgets g).selected
  chain := fun w => (d.windows w).map Window.firstGadget
  activeWindow := d.activeWindow
  activeGadget := d.activeGadget

namespace Desktop

section Effects

variable {d : Desktop} {alloc : Bool} {ev : InputEvent} {nx ny : Int} {w g : Nat}

theorem profile_modifyWindow {change : Window → Window}
    (same : ∀ win, (change win).firstGadget = win.firstGadget) :
    (d.modifyWindow w change).profile = d.profile := by
  ext1 <;> try rfl
  funext v
  show (update d.windows w ((d.windows w).map change) v).map
    Window.firstGadget = (d.windows v).map Window.firstGadget
  by_cases isW : v = w
  · rw [isW, update_self, Option.map_map]
    congr 1
    exact funext same
  · rw [update_of_ne isW]

@[simp]
theorem profile_post (cls : IdcmpClass) (w : Nat) (message : Window → IntuiMessage) :
    (d.post alloc cls w message).profile = d.profile := by
  unfold post
  split
  · rfl
  split
  · rfl
  · split
    · exact profile_modifyWindow fun _ => rfl
    · rfl

@[simp]
theorem profile_setActiveWindow (w : Option Nat) :
    (d.setActiveWindow w).profile = { d.profile with activeWindow := w } := by
  have flip (e : Desktop) (w : Nat) (active : Bool) :
      (e.modifyWindow w (Window.setActive active)).profile = e.profile :=
    profile_modifyWindow fun _ => rfl
  have setField (e : Desktop) (isSame : e.profile = d.profile) :
      { e with activeWindow := w }.profile = { d.profile with activeWindow := w } := by
    rw [← isSame]
    rfl
  unfold setActiveWindow
  split
  · rename_i same
    rw [same]
    rfl
  · refine setField _ ?_
    cases d.activeWindow <;> cases w <;> simp only [flip]

variable {gadget : Gadget} {wx wy : Int} {hit win : Window}

theorem profile_setGadget (same : gadget.gadgetType = (d.gadgets g).gadgetType) :
    (d.setGadget g gadget).profile =
      { d.profile with
        strings := update d.profile.strings g gadget.stringInfo
        selected := update d.profile.selected g gadget.selected } := by
  ext1 <;> try rfl
  all_goals
    funext v
    by_cases isG : v = g
    · subst isG
      simp [profile, setGadget, same]
    · simp [profile, setGadget, isG]

@[simp]
theorem strings_self (g : Nat) :
    update d.profile.strings g (d.gadgets g).stringInfo =
      d.profile.strings :=
  update_eq_self g d.profile.strings

@[simp]
theorem selected_self (g : Nat) :
    update d.profile.selected g (d.gadgets g).selected =
      d.profile.selected :=
  update_eq_self g d.profile.selected

theorem handleDrag_same {after : Gadget} (dragged : gadget.handleDrag wx wy = some after) :
    after.gadgetType = gadget.gadgetType ∧
      after.stringInfo = gadget.stringInfo ∧
      after.selected = gadget.selected := by
  obtain ⟨pi, -, dragged⟩ := bind_eq_some_iff.mp dragged
  dsimp only at dragged
  split_ifs at dragged <;> cases dragged <;> exact ⟨rfl, rfl, rfl⟩

@[simp]
theorem profile_press (g : Nat) (wx wy : Int) :
    (d.press g wx wy).profile =
      { d.profile with
        selected := update d.profile.selected g true
        activeGadget := some g } := by
  have pressed (gadget : Gadget) (isType : gadget.gadgetType = (d.gadgets g).gadgetType)
      (isString : gadget.stringInfo = (d.gadgets g).stringInfo)
      (isSelected : gadget.selected = true) :
      { d.setGadget g gadget with activeGadget := some g }.profile = { d.profile with
          selected := update d.profile.selected g true
          activeGadget := some g } := by
    show { (d.setGadget g gadget).profile with activeGadget := some g } = _
    rw [profile_setGadget isType, isString, isSelected, strings_self]
  unfold press
  dsimp only
  split
  · cases isDrag : Gadget.handleDrag wx wy { d.gadgets g with selected := true }
      with
    | none => exact pressed _ rfl rfl rfl
    | some after =>
      obtain ⟨isType, isString, isSelected⟩ := handleDrag_same isDrag
      exact pressed after isType isString isSelected
  · exact pressed _ rfl rfl rfl

@[simp]
theorem profile_mirror : (d.mirror nx ny).profile = d.profile := by
  unfold mirror
  split
  · rfl
  · rfl

@[simp]
theorem profile_drag : (d.drag nx ny).profile = d.profile := by
  unfold drag
  split
  · split
    · split
      · rfl
      · rename_i g _ _ _ _ _ _ after isDrag
        obtain ⟨isType, isString, isSelected⟩ := handleDrag_same isDrag
        rw [profile_setGadget isType, isString, isSelected, strings_self, selected_self]
    · rfl
  · rfl

@[simp]
theorem profile_reportUp (g : Nat) : (d.reportUp alloc g nx ny).profile = d.profile := by
  unfold reportUp
  split
  · rfl
  split
  · exact profile_post ..
  · split
    · exact profile_post ..
    · rfl
  · rfl

@[simp]
theorem profile_menuBegin (w : Option Nat) : (d.menuBegin w).profile = d.profile := by
  unfold menuBegin
  split
  · rfl
  · split <;> rfl

@[simp]
theorem profile_rightUp : (d.rightUp alloc nx ny).profile = d.profile := by
  unfold rightUp menuEnd
  cases d.menuWin with
  | none => rfl
  | some w => exact profile_post ..

theorem gadgets_setActiveWindow (w : Option Nat) : (d.setActiveWindow w).gadgets = d.gadgets := by
  unfold setActiveWindow
  split
  · rfl
  · cases d.activeWindow <;> cases w <;> rfl

/-- A left press moves the focus, and selects the gadget it hits. -/
theorem profile_leftDown :
    (d.leftDown alloc ev nx ny).profile =
      match d.windowHitTest nx ny, d.hitGadget nx ny with
      | none, _ => d.profile
      | some (w, _), none => { d.profile with activeWindow := some w }
      | some (w, _), some g =>
        { d.profile with
          selected := update d.profile.selected g true
          activeWindow := some w
          activeGadget := some g } := by
  unfold leftDown hitGadget
  cases isHit : d.windowHitTest nx ny with
  | none => rfl
  | some found =>
    obtain ⟨w, hit⟩ := found
    have sameHit (wx wy : Int) : (d.setActiveWindow (some w)).gadgetHitTest hit
        wx wy = d.gadgetHitTest hit wx wy := by
      unfold gadgetHitTest
      rw [gadgets_setActiveWindow]
    dsimp only [bind_some]
    rw [sameHit]
    split
    · exact (profile_post ..).trans (profile_setActiveWindow _)
    · cases d.gadgetHitTest hit (nx - hit.leftEdge) (ny - hit.topEdge) with
      | some g => rw [profile_press, profile_setActiveWindow]
      | none => exact (profile_post ..).trans (profile_setActiveWindow _)

/-- A release deselects the active gadget. -/
theorem profile_leftUp :
    (d.leftUp alloc nx ny).profile =
      match d.activeGadget with
      | none => d.profile
      | some g =>
        { d.profile with
          selected := update d.profile.selected g false } := by
  unfold leftUp
  cases d.activeGadget with
  | none => rfl
  | some g =>
    dsimp only
    split
    · rw [profile_reportUp]
      refine (profile_setGadget ?_).trans ?_
      · rfl
      · rw [strings_self]
    · rename_i notSelected
      have isFalse : d.profile.selected g = false := Bool.eq_false_iff.mpr notSelected
      rw [← isFalse, update_eq_self]

section

variable (isHit : d.windowHitTest nx ny = some (w, hit))
include isHit

theorem windowHitTest_some : d.windows w = some hit := by
  obtain ⟨s, -, isFound⟩ := bind_eq_some_iff.mp isHit
  obtain ⟨v, -, isWindow⟩ := List.exists_of_findSome?_eq_some isFound
  obtain ⟨win, isWin, isPair⟩ := bind_eq_some_iff.mp isWindow
  split at isPair
  · cases isPair
    exact isWin
  · nomatch isPair

theorem hitGadget_window (isGadget : d.hitGadget nx ny = some g) :
    d.gadgetHitTest hit (nx - hit.leftEdge) (ny - hit.topEdge) = some g := by
  unfold hitGadget at isGadget
  rw [isHit, bind_some] at isGadget
  dsimp only at isGadget
  split at isGadget
  · nomatch isGadget
  · exact isGadget

theorem hitGadget_mem (isGadget : d.hitGadget nx ny = some g) : g ∈ hit.firstGadget :=
  List.mem_of_find?_eq_some (hitGadget_window isHit isGadget)

end

@[simp]
theorem gadgets_mirror : (d.mirror nx ny).gadgets = d.gadgets := by
  unfold mirror
  split <;> rfl

@[simp]
theorem windows_mirror : (d.mirror nx ny).windows = d.windows := by
  unfold mirror
  split <;> rfl

theorem hit_mirror :
    (d.mirror nx ny).windowHitTest nx ny = d.windowHitTest nx ny ∧
      (d.mirror nx ny).hitGadget nx ny = d.hitGadget nx ny := by
  have sameWindow : (d.mirror nx ny).windowHitTest nx ny = d.windowHitTest nx ny := by
    unfold mirror
    cases isScreen : d.activeScreen with
    | none => rfl
    | some s =>
      unfold windowHitTest hitTest
      dsimp only
      rw [isScreen, bind_some, bind_some, update_self]
  refine ⟨sameWindow, ?_⟩
  unfold hitGadget
  rw [sameWindow]
  unfold mirror
  cases d.activeScreen <;> rfl

theorem handle_rawMouse (isMouse : ev.cls = .rawMouse) :
    d.handle alloc ev =
      { ((d.mirror (d.position ev).1 (d.position ev).2).buttons alloc ev
          (d.position ev).1 (d.position ev).2).drag
            (d.position ev).1 (d.position ev).2 with
        pointerX := (d.position ev).1
        pointerY := (d.position ev).2 } := by
  unfold handle
  rw [isMouse]
  rfl

/-- What a mouse event does to the focus. -/
theorem profile_rawMouse :
    (d.rawMouse alloc ev).profile =
      if ev.code = lButton then
        match d.windowHitTest (d.position ev).1 (d.position ev).2,
            d.hitGadget (d.position ev).1 (d.position ev).2 with
        | none, _ => d.profile
        | some (w, _), none => { d.profile with activeWindow := some w }
        | some (w, _), some g =>
          { d.profile with
            selected := update d.profile.selected g true
            activeWindow := some w
            activeGadget := some g }
      else if ev.code = lButton + upBit then
        match d.activeGadget with
        | none => d.profile
        | some g =>
          { d.profile with
            selected := update d.profile.selected g false }
      else
        d.profile := by
  have step : (d.rawMouse alloc ev).profile =
      ((d.mirror (d.position ev).1 (d.position ev).2).buttons alloc ev
        (d.position ev).1 (d.position ev).2).profile := by
    exact profile_drag
  have sameGadget (nx ny : Int) : (d.mirror nx ny).activeGadget = d.activeGadget :=
    congrArg Profile.activeGadget profile_mirror
  rw [step]
  unfold buttons
  split
  · rw [profile_leftDown, hit_mirror.1, hit_mirror.2, profile_mirror]
  · split
    · rw [profile_leftUp, sameGadget, profile_mirror]
    · split
      · exact (profile_menuBegin _).trans profile_mirror
      · split
        · exact profile_rightUp.trans profile_mirror
        · exact profile_mirror

theorem windows_setActiveWindow (v : Option Nat) (isWindow : d.windows w = some win) :
    ∃ active, (d.setActiveWindow v).windows w = some (win.setActive active) := by
  have flip (e : Desktop) (u : Nat) (active : Bool) (win : Window)
      (isWin : e.windows w = some win) :
      ∃ final, (e.modifyWindow u (Window.setActive active)).windows w =
        some (win.setActive final) := by
    unfold modifyWindow
    dsimp only
    by_cases isU : w = u
    · subst isU
      rw [update_self, isWin]
      exact ⟨active, rfl⟩
    · rw [update_of_ne isU, isWin]
      exact ⟨win.flags.windowActive, rfl⟩
  unfold setActiveWindow
  split
  · exact ⟨win.flags.windowActive, isWindow⟩
  cases isOld : d.activeWindow with
  | none =>
    cases v with
    | none => exact ⟨win.flags.windowActive, isWindow⟩
    | some new => exact flip d new true win isWindow
  | some old =>
    obtain ⟨first, isFirst⟩ := flip d old false win isWindow
    cases v with
    | none => exact ⟨first, isFirst⟩
    | some new =>
      obtain ⟨final, isFinal⟩ := flip _ new true _ isFirst
      exact ⟨final, isFinal⟩

theorem leftDown_press (isHit : d.windowHitTest nx ny = some (w, hit))
    (isGadget : d.hitGadget nx ny = some g) :
    d.leftDown alloc ev nx ny =
      (d.setActiveWindow (some w)).press g (nx - hit.leftEdge)
        (ny - hit.topEdge) := by
  unfold hitGadget at isGadget
  rw [isHit, bind_some] at isGadget
  dsimp only at isGadget
  unfold leftDown
  rw [isHit]
  dsimp only
  split at isGadget
  · nomatch isGadget
  rename_i notClose
  rw [if_neg notClose]
  unfold gadgetHitTest at isGadget ⊢
  rw [gadgets_setActiveWindow, isGadget]

theorem gadgetHitTest_setGadget (same : gadget.Contains wx wy ↔ (d.gadgets g).Contains wx wy) :
    (d.setGadget g gadget).gadgetHitTest win wx wy =
      d.gadgetHitTest win wx wy := by
  unfold gadgetHitTest setGadget
  dsimp only
  congr 1
  funext h
  refine decide_eq_decide.mpr ?_
  by_cases isG : h = g
  · rwa [isG, update_self]
  · rw [update_of_ne isG]

theorem post_delivers {cls : IdcmpClass} {port : List IntuiMessage}
    (message : Window → IntuiMessage) (isWindow : d.windows w = some win)
    (asks : cls ∈ win.idcmpFlags) (isPort : win.userPort = some port)
    (room : port.length < idcmpRingCap) :
    d.post true cls w message =
      d.modifyWindow w fun win =>
        { win with userPort := some (port ++ [message win]) } := by
  unfold post
  rw [isWindow]
  dsimp only
  rw [isPort]
  dsimp only
  rw [if_pos ⟨asks, rfl, room⟩]

theorem press_eq (notProp : (d.gadgets g).gadgetType ≠ .propGadget) :
    d.press g wx wy =
      { d.setGadget g { d.gadgets g with selected := true } with
        activeGadget := some g } := by
  unfold press
  dsimp only
  rw [if_neg notProp]

theorem drag_eq (isActive : d.activeGadget = some g)
    (notProp : (d.gadgets g).gadgetType ≠ .propGadget) : d.drag nx ny = d := by
  unfold drag
  split
  · rename_i h _ _ isH _
    cases isH.symm.trans isActive
    rw [if_neg fun both => notProp both.2]
  · rfl

/-- A key edits the string; Return ends the edit. -/
theorem profile_typeKey (g : Nat) :
    ∃ si, (d.typeKey alloc g ev).profile =
      { d.profile with
        strings := update d.profile.strings g si
        activeGadget := if isReturn ev.code then none else d.activeGadget } := by
  have noEdit : d.profile = { d.profile with
        strings := update d.profile.strings g (d.gadgets g).stringInfo
        activeGadget := d.activeGadget } := by
    rw [strings_self]
    rfl
  have edited (edit : StringInfo → Option StringInfo) :
      ∃ si, (d.editString g edit).profile = { d.profile with
          strings := update d.profile.strings g si
          activeGadget := d.activeGadget } := by
    unfold editString
    split
    · exact ⟨_, noEdit⟩
    rename_i si _
    refine ⟨some si, (profile_setGadget ?_).trans ?_⟩
    · rfl
    · rw [selected_self]
      rfl
  unfold typeKey
  by_cases isUp : ev.code.testBit 7 = true
  · have notReturn : isReturn ev.code = false := by
      refine decide_eq_false fun isEither => ?_
      rcases isEither with isCode | isCode <;> (rw [isCode] at isUp; exact absurd isUp (by decide))
    rw [if_pos isUp, notReturn]
    exact ⟨_, noEdit⟩
  · rw [if_neg isUp]
    cases isReturn ev.code with
    | true =>
      refine ⟨(d.gadgets g).stringInfo, ?_⟩
      rw [strings_self, if_pos rfl]
      dsimp only
      split
      · rfl
      · exact profile_post ..
    | false =>
      rw [if_neg Bool.false_ne_true]
      split
      · exact edited _
      · split
        · exact ⟨_, noEdit⟩
        · exact edited _

theorem profile_rawKey (notEditing : d.editing = none) :
    (d.rawKey alloc ev).profile = d.profile := by
  unfold rawKey
  rw [notEditing]
  show (d.routeKey alloc d.activeWindow ev).profile = d.profile
  unfold routeKey
  split
  · rfl
  · exact profile_post ..

end Effects

end Desktop

/-! ## A small desktop -/

/-- A borderless window of 100 by 100 pixels. -/
def plainWindow (leftEdge : Int) (firstGadget : List Nat) : Window where
  leftEdge := leftEdge
  topEdge := 0
  width := 100
  height := 100
  minWidth := 0
  minHeight := 0
  maxWidth := 0
  maxHeight := 0
  flags := ⟨false, false, true, false, false⟩
  borderLeft := 0
  borderTop := 0
  borderRight := 0
  borderBottom := 0
  idcmpFlags := [.rawKey, .gadgetUp]
  userPort := some []
  firstGadget := firstGadget
  menuStrip := none
  title := []
  wScreen := 0
  surf := ⟨0, 100, 100⟩

/-- A button, or a string gadget with an empty buffer, of 40 by 10 pixels. -/
def plainGadget (topEdge : Int) (gadgetType : GadgetType) : Gadget where
  leftEdge := 10
  topEdge := topEdge
  width := 40
  height := 10
  selected := false
  disabled := false
  relVerify := true
  gadgetType := gadgetType
  gadgetText := none
  gadgetID := 0
  stringInfo := some ⟨some fun _ => 0, 0, 16, 0⟩
  propInfo := none

/-- Window 1 with the button 1 and the string gadget 2, and window 2. -/
def panel : Desktop where
  screens := fun _ =>
    ⟨⟨true, 320, 200, 1280, .rgba8888, 4⟩, 0, 320, 200, 0, 0, [1, 2]⟩
  activeScreen := some 0
  windows := fun w =>
    if w = 1 then some (plainWindow 0 [1, 2])
    else if w = 2 then some (plainWindow 200 [])
    else none
  gadgets := fun g =>
    if g = 2 then plainGadget 40 .strGadget else plainGadget 20 .boolGadget
  activeWindow := none
  activeGadget := none
  menuWin := none
  pointerX := 15
  pointerY := 25
  routed := []

def mouse (code : Nat) (dx dy : Int) : InputEvent × Bool :=
  (⟨.rawMouse, code, 0, dx, dy, 0⟩, true)

def key (code : Nat) : InputEvent × Bool :=
  (⟨.rawKey, code, 0, 0, 0, 0⟩, true)

end CaraOS.Leargas
