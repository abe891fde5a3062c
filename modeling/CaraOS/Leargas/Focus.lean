import CaraOS.Lib.Reach
import CaraOS.Leargas.Router

namespace CaraOS.Leargas

/-!
# Keyboard focus

The active window and the active gadget are two globals.  A key belongs to the
active window: to a string gadget of its chain that is being edited, or to its
key router.
-/

open Reach

namespace Desktop

/-- The gadget is in the chain of the active window. -/
def InFocus (g : Nat) (d : Desktop) : Prop :=
  ∃ w win, d.activeWindow = some w ∧ d.windows w = some win ∧ g ∈ win.firstGadget

/--
A key changes a string only of the active window, and reaches the key router
if no string gadget of the active window is being edited.
-/
structure KeySound (d : Desktop) : Prop where
  edits : ∀ alloc ev, ev.cls = .rawKey → ∀ g, ((d.handle alloc ev).gadgets g).stringInfo ≠
          (d.gadgets g).stringInfo → d.InFocus g
  routes : ∀ alloc ev, ev.cls = .rawKey → (∀ g, d.editing = some g → ¬ d.InFocus g) →
      (d.handle alloc ev).routed = d.routed ++ [(d.activeWindow, ev)]

/-- A string gadget that is being edited is in the active window. -/
def EditsInFocus (d : Desktop) : Prop :=
  ∀ g, d.editing = some g → d.InFocus g

end Desktop

/-- What may happen next. -/
inductive DesktopOp where
  | event (ev : InputEvent) (alloc : Bool)
  | openWindow (nw : NewWindow) (w : Nat) (port : Bool)
  | closeWindow (w : Nat)

/-- One step. -/
def DesktopOp.exec (d : Desktop) : DesktopOp → Desktop
  | .event ev alloc => d.handle alloc ev
  | .openWindow nw w port => d.openWindow nw w port
  | .closeWindow w => d.closeWindow w

/--
The active window changes only if no string gadget is left behind: a click that
presses no gadget, and the opening of an active window, leave alone a gadget of
that window; and the active window is closed while nothing is being edited.
-/
def KeepsFocus (d : Desktop) : DesktopOp → Prop
  | .event ev _ =>
    ev.cls = .rawMouse → ev.code = lButton →
      ∀ w hit,
        d.windowHitTest (d.position ev).1 (d.position ev).2 = some (w, hit) →
        d.hitGadget (d.position ev).1 (d.position ev).2 = none →
        ∀ g, d.editing = some g → g ∈ hit.firstGadget
  | .openWindow nw _ _ =>
    nw.flags.activate = true → ∀ g, d.editing = some g → g ∈ nw.firstGadget
  | .closeWindow w => d.activeWindow = some w → d.editing = none

/-! ## In terms of the profile -/

/-- The active gadget, if it is a string gadget. -/
def Profile.editing (p : Profile) : Option Nat :=
  p.activeGadget.filter fun g => decide (p.types g = .strGadget)

/-- A string gadget that is being edited is in the active window. -/
def Profile.EditsInFocus (p : Profile) : Prop :=
  ∀ g, p.editing = some g → ∃ w chain, p.activeWindow = some w ∧ p.chain w = some chain ∧ g ∈ chain

namespace Desktop

section Steps

variable {d : Desktop} {ev : InputEvent} {alloc : Bool}

theorem editsInFocus_profile : d.profile.EditsInFocus ↔ d.EditsInFocus := by
  constructor
  · intro inv g isEditing
    obtain ⟨w, chain, isActive, isChain, listed⟩ := inv g isEditing
    obtain ⟨win, isWindow, rfl⟩ := Option.map_eq_some_iff.mp isChain
    exact ⟨w, win, isActive, isWindow, listed⟩
  · intro inv g isEditing
    obtain ⟨w, win, isActive, isWindow, listed⟩ := inv g isEditing
    exact ⟨w, win.firstGadget, isActive, Option.map_eq_some_iff.mpr ⟨win, isWindow, rfl⟩, listed⟩

theorem editsInFocus_key (inv : d.profile.EditsInFocus) :
    (d.rawKey alloc ev).profile.EditsInFocus := by
  cases isEditing : d.editing with
  | none =>
    rwa [profile_rawKey isEditing]
  | some g =>
    have step : d.rawKey alloc ev = d.typeKey alloc g ev := by
      unfold rawKey
      rw [isEditing]
    obtain ⟨si, isProfile⟩ := @profile_typeKey d alloc ev g
    rw [step, isProfile]
    cases isReturn ev.code with
    | true =>
      intro h isStill
      have isNone : (none : Option Nat) = some h := isStill
      nomatch isNone
    | false => exact inv

theorem editsInFocus_mouse
    (inv : d.profile.EditsInFocus)
    (isMouse : ev.cls = .rawMouse)
    (keeps : KeepsFocus d (.event ev alloc)) :
    (d.rawMouse alloc ev).profile.EditsInFocus := by
  rw [profile_rawMouse]
  split
  · rename_i isDown
    split
    · exact inv
    · rename_i w hit isHit isGadget
      intro g isEditing
      refine ⟨w, hit.firstGadget, rfl, ?_, keeps isMouse isDown w hit isHit isGadget g isEditing⟩
      exact Option.map_eq_some_iff.mpr ⟨hit, windowHitTest_some isHit, rfl⟩
    · rename_i w hit g isHit isGadget
      intro h isEditing
      have isG : g = h := Option.some.inj (Option.filter_eq_some_iff.mp isEditing).1
      refine ⟨w, hit.firstGadget, rfl, ?_, ?_⟩
      · exact Option.map_eq_some_iff.mpr ⟨hit, windowHitTest_some isHit, rfl⟩
      · rw [← isG]
        exact hitGadget_mem isHit isGadget
  · split
    · split
      · exact inv
      · exact inv
    · exact inv

theorem editsInFocus_open
    {nw : NewWindow}
    {w : Nat}
    {port : Bool}
    (inv : d.profile.EditsInFocus)
    (keeps : KeepsFocus d (.openWindow nw w port)) :
    (d.openWindow nw w port).profile.EditsInFocus := by
  unfold openWindow
  split
  · rename_i s isFree _
    split
    · exact inv
    rename_i win isWin
    have isChain : win.firstGadget = nw.firstGadget := by
      unfold NewWindow.initInPlace at isWin
      split at isWin
      · nomatch isWin
      · cases isWin
        rfl
    -- the windows that were there keep their chains
    have other (v : Nat) (chain : List Nat) (isOld : d.profile.chain v = some chain) : v ≠ w := by
      rintro rfl
      obtain ⟨old, isWindow, -⟩ := Option.map_eq_some_iff.mp isOld
      nomatch isFree.symm.trans isWindow
    dsimp only
    split
    · rename_i isActivated
      rw [profile_setActiveWindow]
      intro g isEditing
      refine ⟨w, nw.firstGadget, rfl, ?_, keeps isActivated g isEditing⟩
      show (Function.update d.windows w _ w).map Window.firstGadget = _
      rw [Function.update_self]
      exact congrArg some isChain
    · intro g isEditing
      obtain ⟨v, chain, isActive, isOld, listed⟩ := inv g isEditing
      refine ⟨v, chain, isActive, ?_, listed⟩
      show (Function.update d.windows w _ v).map Window.firstGadget = _
      rwa [Function.update_of_ne (other v chain isOld)]
  · exact inv

theorem editsInFocus_close
    {w : Nat}
    (inv : d.profile.EditsInFocus)
    (keeps : KeepsFocus d (.closeWindow w)) :
    (d.closeWindow w).profile.EditsInFocus := by
  unfold closeWindow
  split
  · exact inv
  by_cases isActive : d.activeWindow = some w
  · have notEditing : d.editing = none := keeps isActive
    intro g isEditing
    have same : d.profile.editing = some g := by
      rw [if_pos isActive] at isEditing
      have isGadget : (d.setActiveWindow none).profile.editing = some g := isEditing
      rwa [profile_setActiveWindow] at isGadget
    nomatch notEditing.symm.trans same
  · rw [if_neg isActive]
    intro g isEditing
    obtain ⟨v, chain, isOwner, isOld, listed⟩ := inv g isEditing
    have different : v ≠ w := by
      rintro rfl
      exact isActive isOwner
    refine ⟨v, chain, isOwner, ?_, listed⟩
    show (Function.update d.windows w none v).map Window.firstGadget = _
    rwa [Function.update_of_ne different]

theorem editsInFocus_exec
    {op : DesktopOp}
    (inv : d.profile.EditsInFocus)
    (keeps : KeepsFocus d op) :
    (op.exec d).profile.EditsInFocus := by
  cases op with
  | event ev alloc =>
    show (d.handle alloc ev).profile.EditsInFocus
    unfold handle
    cases isClass : ev.cls with
    | rawKey => exact editsInFocus_key inv
    | rawMouse => exact editsInFocus_mouse inv isClass keeps
    | unused => exact inv
  | openWindow nw w port => exact editsInFocus_open inv keeps
  | closeWindow w => exact editsInFocus_close inv keeps

theorem EditsInFocus.keySound (inv : d.EditsInFocus) : d.KeySound := by
  refine ⟨fun alloc ev isKey g changed => ?_, fun alloc ev isKey nothing => ?_⟩
  · unfold handle at changed
    rw [isKey] at changed
    cases isEditing : d.editing with
    | none =>
      have same := congrArg Profile.strings (@profile_rawKey d alloc ev isEditing)
      exact absurd (congrFun same g) changed
    | some edited =>
      have step : d.rawKey alloc ev = d.typeKey alloc edited ev := by
        unfold rawKey
        rw [isEditing]
      obtain ⟨si, isProfile⟩ := @profile_typeKey d alloc ev edited
      by_cases isG : g = edited
      · rw [isG]
        exact inv edited isEditing
      · have same := congrFun (congrArg Profile.strings isProfile) g
        dsimp only at same changed
        rw [Function.update_of_ne isG] at same
        rw [step] at changed
        exact absurd same changed
  · have notEditing : d.editing = none := by
      cases isEditing : d.editing with
      | none => rfl
      | some g => exact absurd (inv g isEditing) (nothing g isEditing)
    unfold handle
    rw [isKey]
    unfold rawKey
    rw [notEditing]

end Steps

end Desktop

/--
As long as no change of the active window leaves a string gadget behind, keys
go to the active window.
-/
theorem keys_go_to_active_window
    {start d : Desktop}
    (focused : start.EditsInFocus)
    (reaches : Reaches (fun d (op : DesktopOp) => op.exec d) KeepsFocus start d) :
    d.KeySound := by
  have inv : d.profile.EditsInFocus :=
    reaches.invariant (Desktop.editsInFocus_profile.mpr focused) Desktop.editsInFocus_exec
  exact (Desktop.editsInFocus_profile.mp inv).keySound

/-- The string gadget of the panel is clicked. -/
def stringClicked : Desktop :=
  [DesktopOp.event (mouse lButton 0 20).1 true].foldl (fun d op => op.exec d) panel

/-- The letter a is typed into the clicked gadget. -/
theorem keys_go_to_active_window_letter :
    panel.EditsInFocus ∧
      Reaches (fun d (op : DesktopOp) => op.exec d) KeepsFocus panel
        stringClicked ∧
      stringClicked.editing = some 2 ∧ stringClicked.KeySound := by
  have nothing : panel.EditsInFocus := nofun
  have keeps : KeepsFocus panel (.event (mouse lButton 0 20).1 true) := by
    intro _ _ w hit _ isGadget
    nomatch isGadget
  have reaches : Reaches (fun d (op : DesktopOp) => op.exec d) KeepsFocus panel
      stringClicked := Reaches.foldl .start ⟨keeps, trivial⟩
  exact ⟨nothing, reaches, rfl, keys_go_to_active_window nothing reaches⟩

def otherClicked : Desktop :=
  [DesktopOp.event (mouse lButton 0 20).1 true, .event (mouse (lButton + upBit) 0 0).1 true,
    .event (mouse lButton 200 0).1 true].foldl (fun d op => op.exec d) panel

/--
Window 2 is active and has no gadgets, but a key still goes to the string
gadget of window 1 and not to the key router.
-/
theorem key_edits_inactive_window :
    panel.EditsInFocus ∧
      Reaches (fun d (op : DesktopOp) => op.exec d) (fun _ _ => True) panel
        otherClicked ∧
      otherClicked.activeWindow = some 2 ∧
      (otherClicked.handle true (key 0x20).1).routed = [] ∧
      (((otherClicked.handle true (key 0x20).1).gadgets 2).stringInfo.map
        StringInfo.numChars) = some 1 ∧
      ¬ otherClicked.KeySound := by
  have nothing : panel.EditsInFocus := nofun
  refine ⟨nothing, reaches_foldl _ _ _, rfl, rfl, rfl, fun sound => ?_⟩
  obtain ⟨w, win, isActive, isWindow, listed⟩ :=
    sound.edits true (key 0x20).1 rfl 2 fun same => by
      have isLength := congrArg (Option.map StringInfo.numChars) same
      exact absurd isLength (by decide)
  cases isActive
  cases isWindow
  nomatch listed

end CaraOS.Leargas
