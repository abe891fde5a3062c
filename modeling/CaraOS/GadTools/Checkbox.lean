import CaraOS.Lib.Reach
import CaraOS.GadTools.Gadgets

namespace CaraOS.GadTools

/-!
# Clicks on a checkbox

The flag that the router sets for the pressed look is the one that GadTools
keeps the checked state in.
-/

open Function (update update_self)
open Leargas
open Reach

/-- The button goes down and then up; each event may post a message. -/
structure Click where
  down : InputEvent × Bool
  up : InputEvent × Bool

/-- A click is routed, and its message is fetched from the port of the window. -/
def GtState.click (w : Nat) (st : GtState) (click : Click) : GtState :=
  let d := st.desktop.handle click.down.2 click.down.1
  let d := d.handle click.up.2 click.up.1
  (getIMsg w { st with desktop := d }).2

/-- The event finds the pointer over a gadget of the front-most window there. -/
def OverGadget (w g : Nat) (d : Desktop) (ev : InputEvent) : Prop :=
  (∃ hit, d.windowHitTest (d.position ev).1 (d.position ev).2 = some (w, hit)) ∧
    d.hitGadget (d.position ev).1 (d.position ev).2 = some g

/--
Down and up are both over the gadget, and the message about it can be
allocated.
-/
structure CompleteClick (w g : Nat) (st : GtState) (click : Click) : Prop where
  downMouse : click.down.1.cls = .rawMouse
  downCode : click.down.1.code = lButton
  downOver : OverGadget w g st.desktop click.down.1
  upMouse : click.up.1.cls = .rawMouse
  upCode : click.up.1.code = lButton + upBit
  upOver : OverGadget w g (st.desktop.handle click.down.2 click.down.1) click.up.1
  upAlloc : click.up.2 = true

/-- The window asks for gadget messages, and there are none in its port. -/
def Listens (w : Nat) (d : Desktop) : Prop :=
  ∃ win, d.windows w = some win ∧ .gadgetUp ∈ win.idcmpFlags ∧ win.userPort = some []

/-- Toggled so many times. -/
def toggled (checked : Bool) : Nat → Bool
  | 0 => checked
  | n + 1 => !toggled checked n

/-! ## The router -/

section Router

variable {d : Desktop} {w g : Nat} {ev : InputEvent} {alloc : Bool}

/-- What the down-stroke on a boolean gadget leaves behind. -/
structure Held (d after : Desktop) (w g : Nat) : Prop where
  gadgets : after.gadgets = update d.gadgets g { d.gadgets g with selected := true }
  window : ∀ win, d.windows w = some win → ∃ active, after.windows w = some (win.setActive active)
  activeGadget : after.activeGadget = some g
  activeWindow : after.activeWindow = some w

theorem held_down (isMouse : ev.cls = .rawMouse) (isDown : ev.code = lButton)
    (isBool : (d.gadgets g).gadgetType = .boolGadget)
    (isOver : OverGadget w g d ev) : Held d (d.handle alloc ev) w g := by
  obtain ⟨⟨hit, isHit⟩, isGadget⟩ := isOver
  set nx := (d.position ev).1
  set ny := (d.position ev).2
  set pressed := (d.mirror nx ny).setActiveWindow (some w)
  have isButton : (d.mirror nx ny).buttons alloc ev nx ny =
      { pressed.setGadget g { d.gadgets g with selected := true } with
        activeGadget := some g } := by
    unfold Desktop.buttons
    rw [if_pos isDown, Desktop.leftDown_press (Desktop.hit_mirror.1.trans isHit)
      (Desktop.hit_mirror.2.trans isGadget)]
    have isSame : pressed.gadgets g = d.gadgets g := by
      rw [Desktop.gadgets_setActiveWindow, Desktop.gadgets_mirror]
    have notProp : (pressed.gadgets g).gadgetType ≠ .propGadget := by
      rw [isSame, isBool]
      decide
    rw [Desktop.press_eq notProp, isSame]
  rw [Desktop.handle_rawMouse isMouse, isButton, @Desktop.drag_eq _ _ _ g rfl (by
    show (update pressed.gadgets g _ g).gadgetType ≠ _
    rw [update_self, isBool]
    decide)]
  refine ⟨?_, fun win isWindow => ?_, rfl, ?_⟩
  · show update pressed.gadgets g _ = _
    rw [Desktop.gadgets_setActiveWindow, Desktop.gadgets_mirror]
  · refine Desktop.windows_setActiveWindow (some w) ?_
    rwa [Desktop.windows_mirror]
  · exact congrArg Profile.activeWindow (@Desktop.profile_setActiveWindow (d.mirror nx ny) (some w))

theorem released_up {win : Window} (isMouse : ev.cls = .rawMouse) (isUp : ev.code = lButton + upBit)
    (isBool : (d.gadgets g).gadgetType = .boolGadget) (isVerify : (d.gadgets g).relVerify = true)
    (isSelected : (d.gadgets g).selected = true)
    (isActive : d.activeGadget = some g) (isFocused : d.activeWindow = some w)
    (isWindow : d.windows w = some win) (asks : .gadgetUp ∈ win.idcmpFlags)
    (isEmpty : win.userPort = some []) (isOver : OverGadget w g d ev) :
    (d.handle true ev).gadgets =
        update d.gadgets g { d.gadgets g with selected := false } ∧
      ∃ message : IntuiMessage, (d.handle true ev).windows w =
          some { win with userPort := some [message] } ∧
        message.cls = .gadgetUp ∧ message.iAddress = some g := by
  obtain ⟨⟨hit, isHit⟩, isGadget⟩ := isOver
  set nx := (d.position ev).1
  set ny := (d.position ev).2
  have sameActive : (d.mirror nx ny).activeGadget = some g :=
    (congrArg Profile.activeGadget Desktop.profile_mirror).trans isActive
  have sameFocused : (d.mirror nx ny).activeWindow = some w :=
    (congrArg Profile.activeWindow Desktop.profile_mirror).trans isFocused
  have isHitWindow : hit = win :=
    Option.some.inj ((Desktop.windowHitTest_some isHit).symm.trans isWindow)
  subst isHitWindow
  set freed := (d.mirror nx ny).setGadget g { d.gadgets g with selected := false }
  have isFreed : freed.gadgets = update d.gadgets g { d.gadgets g with selected := false } := by
    show update (d.mirror nx ny).gadgets g _ = _
    rw [Desktop.gadgets_mirror]
  have isGadgetFreed : freed.gadgets g = { d.gadgets g with selected := false } := by
    rw [isFreed, update_self]
  have isWindowFreed : freed.windows w = some hit :=
    (congrFun Desktop.windows_mirror w).trans isWindow
  have stillOver : freed.gadgetHitTest hit (nx - hit.leftEdge) (ny - hit.topEdge) = some g := by
    refine (Desktop.gadgetHitTest_setGadget ?_).trans
      (Desktop.hitGadget_window (Desktop.hit_mirror.1.trans isHit)
        (Desktop.hit_mirror.2.trans isGadget))
    rw [Desktop.gadgets_mirror]
    exact Iff.rfl
  have isFocus : freed.focused = some (w, hit) := by
    show (d.mirror nx ny).activeWindow.bind _ = _
    rw [sameFocused, Option.bind_some, isWindowFreed]
    rfl
  have isReport : freed.reportUp true g nx ny = freed.postGadgetUp true w g := by
    unfold Desktop.reportUp
    rw [isFocus, isGadgetFreed]
    rw [isBool]
    dsimp only
    rw [if_pos ⟨isVerify, stillOver⟩]
  set message := freed.bareMessage .gadgetUp (freed.gadgets g).gadgetID (some g) w
  set posted := freed.modifyWindow w fun win =>
    { win with userPort := some [message win] }
  have isPost : freed.postGadgetUp true w g = posted :=
    Desktop.post_delivers message isWindowFreed asks isEmpty (by decide)
  have isButton : (d.mirror nx ny).buttons true ev nx ny = posted := by
    rw [← isPost, ← isReport]
    unfold Desktop.buttons
    rw [if_neg (by rw [isUp]; decide), if_pos isUp]
    unfold Desktop.leftUp
    rw [sameActive]
    dsimp only
    rw [Desktop.gadgets_mirror, if_pos isSelected]
  have notProp : (posted.gadgets g).gadgetType ≠ .propGadget := by
    show (freed.gadgets g).gadgetType ≠ _
    rw [isGadgetFreed, isBool]
    decide
  have stays : posted.activeGadget = some g := sameActive
  rw [Desktop.handle_rawMouse isMouse, isButton, Desktop.drag_eq stays notProp]
  refine ⟨isFreed, message hit, ?_, rfl, rfl⟩
  show update freed.windows w _ w = _
  rw [update_self, isWindowFreed]
  rfl

end Router

/-! ## Clicks -/

section Clicks

variable {st : GtState} {w g : Nat} {ext : GtGadgetExt}

/-- A checkbox whose window hears of it. -/
structure Attached (w g : Nat) (st : GtState) : Prop where
  kind : ∃ ext, st.exts g = some ext ∧ ext.kind = .checkbox
  gadgetType : (st.desktop.gadgets g).gadgetType = .boolGadget
  relVerify : (st.desktop.gadgets g).relVerify = true
  listens : Listens w st.desktop

theorem Attached.checked (attached : Attached w g st) :
    getGadgetAttr .gtcbChecked g st =
      some (.inl (if (st.desktop.gadgets g).selected then 1 else 0)) := by
  obtain ⟨ext, isExt, isKind⟩ := attached.kind
  unfold getGadgetAttr
  rw [isExt, Option.bind_some, isKind]

theorem updateGadget_checkbox (st : GtState) (isExt : st.exts g = some ext)
    (isKind : ext.kind = .checkbox) (isBool : (st.desktop.gadgets g).gadgetType = .boolGadget) :
    (updateGadget g st).1 =
      { st with
        desktop := st.desktop.setGadget g { st.desktop.gadgets g with
            selected := !(st.desktop.gadgets g).selected } } := by
  unfold updateGadget
  rw [isExt]
  dsimp only
  rw [if_pos isBool, isKind]

theorem getIMsg_toggles {win : Window} {message : IntuiMessage}
    (st : GtState) (isExt : st.exts g = some ext) (isKind : ext.kind = .checkbox)
    (isBool : (st.desktop.gadgets g).gadgetType = .boolGadget)
    (isWindow : st.desktop.windows w = some win)
    (isPort : win.userPort = some [message]) (isUp : message.cls = .gadgetUp)
    (isGadget : message.iAddress = some g) :
    (getIMsg w st).2 =
      { st with
        desktop :=
          (st.desktop.modifyWindow w fun win =>
            { win with userPort := some [] }).setGadget g { st.desktop.gadgets g with
                selected := !(st.desktop.gadgets g).selected } } := by
  unfold getIMsg
  rw [isWindow, Option.bind_some, isPort]
  dsimp only
  rw [isUp, isGadget]
  exact updateGadget_checkbox _ isExt isKind isBool

theorem Attached.click {click : Click}
    (attached : Attached w g st) (complete : CompleteClick w g st click) :
    Attached w g (st.click w click) ∧
      ((st.click w click).desktop.gadgets g).selected = true := by
  obtain ⟨ext, isExt, isKind⟩ := attached.kind
  obtain ⟨win, isWindow, asks, isEmpty⟩ := attached.listens
  have held := @held_down _ _ _ _ click.down.2 complete.downMouse
    complete.downCode attached.gadgetType complete.downOver
  set down := st.desktop.handle click.down.2 click.down.1
  have isDown : down.gadgets g = { st.desktop.gadgets g with selected := true } := by
    rw [held.gadgets, update_self]
  obtain ⟨active, isWindowDown⟩ := held.window win isWindow
  have isBool : (down.gadgets g).gadgetType = .boolGadget := by
    rw [isDown]
    exact attached.gadgetType
  have isVerify : (down.gadgets g).relVerify = true := by
    rw [isDown]
    exact attached.relVerify
  obtain ⟨isGadgets, message, isWindowUp, isUp, isAbout⟩ := released_up
    complete.upMouse complete.upCode isBool isVerify (by rw [isDown])
    held.activeGadget held.activeWindow isWindowDown asks isEmpty complete.upOver
  set up := down.handle true click.up.1
  have isReleased : up.gadgets g = { st.desktop.gadgets g with selected := false } := by
    rw [isGadgets, update_self, isDown]
  have isClick : st.click w click = { st with
        desktop :=
          (up.modifyWindow w fun win =>
            { win with userPort := some [] }).setGadget g
              { up.gadgets g with selected := !(up.gadgets g).selected } } := by
    unfold GtState.click
    rw [complete.upAlloc]
    exact getIMsg_toggles { st with desktop := up } isExt isKind (by
      rw [isReleased]
      exact attached.gadgetType) isWindowUp rfl isUp isAbout
  have isAfter : (st.click w click).desktop.gadgets g =
      { st.desktop.gadgets g with selected := true } := by
    rw [isClick]
    show update up.gadgets g _ g = _
    rw [update_self, isReleased]
    rfl
  refine ⟨⟨⟨ext, ?_, isKind⟩, ?_, ?_, ?_⟩, ?_⟩
  · rwa [isClick]
  · rw [isAfter]
    exact attached.gadgetType
  · rw [isAfter]
    exact attached.relVerify
  · refine ⟨{ win.setActive active with userPort := some [] }, ?_, asks, rfl⟩
    rw [isClick]
    show update up.windows w _ w = _
    rw [update_self, isWindowUp]
    rfl
  · rw [isAfter]

theorem Attached.clicks {clicks : List Click} (attached : Attached w g st)
    (complete : AllSteps (GtState.click w) (CompleteClick w g) st clicks) :
    getGadgetAttr .gtcbChecked g (clicks.foldl (GtState.click w) st) =
      some (.inl
        (if clicks ≠ [] ∨ (st.desktop.gadgets g).selected = true then 1
        else 0)) := by
  induction clicks generalizing st with
  | nil =>
    rw [List.foldl_nil, attached.checked]
    simp
  | cons click rest ih =>
    obtain ⟨attachedAfter, isSelected⟩ := attached.click complete.1
    rw [List.foldl_cons, ih attachedAfter complete.2,
      if_pos (.inr isSelected), if_pos (.inl (List.cons_ne_nil _ _))]

end Clicks

theorem toggled_eq (checked : Bool) (n : Nat) :
    toggled checked n = (checked ^^ decide (n % 2 = 1)) := by
  induction n with
  | zero => cases checked <;> rfl
  | succ n ih =>
    have parity : decide ((n + 1) % 2 = 1) = !decide (n % 2 = 1) := by
      rw [← decide_not]
      exact decide_eq_decide.mpr (by omega)
    show (!toggled checked n) = _
    rw [ih, parity, Bool.xor_not]

/--
The reported state after a number of clicks is the initial one toggled so many
times exactly if there were none, or an odd number of them on a checkbox that
was unchecked, or an even number on one that was checked.
-/
theorem checkbox_toggles_iff {st : GtState} {w g : Nat} {ng : NewGadget} {tags : GtTags}
    {clicks : List Click}
    (isGadget : st.desktop.gadgets g = (createGadget .checkbox ng tags).1)
    (isExt : st.exts g = some (createGadget .checkbox ng tags).2)
    (listens : Listens w st.desktop)
    (complete : AllSteps (GtState.click w) (CompleteClick w g) st clicks) :
    getGadgetAttr .gtcbChecked g (clicks.foldl (GtState.click w) st) =
        some (.inl
          (if toggled (decide (tags.gtcbChecked.getD 0 ≠ 0)) clicks.length then 1
          else 0)) ↔
      clicks = [] ∨
        (clicks.length % 2 = 1 ↔ tags.gtcbChecked.getD 0 = 0) := by
  have attached : Attached w g st := by
    refine ⟨⟨_, isExt, rfl⟩, ?_, ?_, listens⟩
    · rw [isGadget]
      rfl
    · rw [isGadget]
      rfl
  have isInitial : (st.desktop.gadgets g).selected =
      decide (tags.gtcbChecked.getD 0 ≠ 0) := by
    rw [isGadget]
    rfl
  rw [attached.clicks complete, isInitial, toggled_eq]
  cases clicks with
  | nil => simp
  | cons click rest =>
    by_cases unchecked : tags.gtcbChecked.getD 0 = 0
    · simp [unchecked]
    · simp [unchecked]

/-- No tag is given. -/
def noTags : GtTags :=
  ⟨none, none, none, none, none, none, none, none, none, none, none, none, none,
    none, none, none, none⟩

/-- The panel, whose button is now a checkbox. -/
def checkboxPanel (checked : Nat) : GtState where
  desktop := panel.setGadget 1 (createGadget .checkbox ⟨10, 20, 40, 10, none, 7⟩
      { noTags with gtcbChecked := some checked }).1
  exts := fun g =>
    if g = 1 then some ⟨.checkbox, 0, [], 0, 0, 0, 0, 0⟩ else none

/-- A click without a motion. -/
def stillClick : Click :=
  ⟨mouse lButton 0 0, mouse (lButton + upBit) 0 0⟩

theorem overGadget_of_hit {w g : Nat} {d : Desktop} {ev : InputEvent}
    (found : ((d.windowHitTest (d.position ev).1 (d.position ev).2).map Prod.fst = some w) ∧
        d.hitGadget (d.position ev).1 (d.position ev).2 = some g) : OverGadget w g d ev := by
  obtain ⟨⟨address, hit⟩, isHit, rfl⟩ := Option.map_eq_some_iff.mp found.1
  exact ⟨⟨hit, isHit⟩, found.2⟩

theorem stillClick_complete {checked : Nat} (isFlag : checked = 0 ∨ checked = 1) :
    CompleteClick 1 1 (checkboxPanel checked) stillClick where
  downMouse := rfl
  downCode := rfl
  downOver := by
    apply overGadget_of_hit
    rcases isFlag with rfl | rfl <;> decide +kernel
  upMouse := rfl
  upCode := rfl
  upOver := by
    apply overGadget_of_hit
    rcases isFlag with rfl | rfl <;> decide +kernel
  upAlloc := rfl

/-- One click on an unchecked checkbox. -/
theorem checkbox_toggles_iff_once :
    getGadgetAttr .gtcbChecked 1
        ([stillClick].foldl (GtState.click 1) (checkboxPanel 0)) =
        some (.inl
          (if toggled (decide ((some 0).getD 0 ≠ 0)) [stillClick].length then 1
          else 0)) ↔
      [stillClick] = [] ∨
        ([stillClick].length % 2 = 1 ↔ (some 0).getD 0 = 0) :=
  @checkbox_toggles_iff (checkboxPanel 0) 1 1 ⟨10, 20, 40, 10, none, 7⟩
    { noTags with gtcbChecked := some 0 } [stillClick] rfl rfl
    ⟨_, rfl, by decide, rfl⟩ ⟨stillClick_complete (.inl rfl), trivial⟩

/-- A click on a checked checkbox leaves it checked. -/
theorem checked_checkbox_stays :
    CompleteClick 1 1 (checkboxPanel 1) stillClick ∧
      getGadgetAttr .gtcbChecked 1 (checkboxPanel 1) = some (.inl 1) ∧
      getGadgetAttr .gtcbChecked 1
        ((checkboxPanel 1).click 1 stillClick) = some (.inl 1) :=
  ⟨stillClick_complete (.inr rfl), rfl, by decide +kernel⟩

end CaraOS.GadTools
