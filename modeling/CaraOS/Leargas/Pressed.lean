import CaraOS.Lib.Reach
import CaraOS.Leargas.Router

namespace CaraOS.Leargas

/-!
# The pressed look

A gadget is selected where the button goes down, and the selection is cleared
through the active gadget when it goes up.  The two agree as long as nothing
else becomes the active gadget in between.
-/

open Reach

namespace Desktop

/-- At most one gadget is selected. -/
def OneSelected (d : Desktop) : Prop :=
  ∀ g h, (d.gadgets g).selected = true → (d.gadgets h).selected = true → g = h

/-- No gadget is selected. -/
def NoneSelected (d : Desktop) : Prop :=
  ∀ g, (d.gadgets g).selected = false

/-- One event, with whether its message can be allocated. -/
def exec (d : Desktop) (op : InputEvent × Bool) : Desktop :=
  d.handle op.2 op.1

/--
The button goes down on a gadget only while no other gadget is selected, and
Return is typed into a string gadget only while that is not selected.
-/
def OnePress (d : Desktop) (op : InputEvent × Bool) : Prop :=
  match op.1.cls with
  | .rawMouse =>
    op.1.code = lButton → ∀ g, d.hitGadget (d.position op.1).1 (d.position op.1).2 = some g →
        ∀ h, (d.gadgets h).selected = true → h = g
  | .rawKey =>
    isReturn op.1.code = true → ∀ g, d.editing = some g → (d.gadgets g).selected = false
  | .unused => True

/-- Only the active gadget can be selected. -/
def SelectedActive (p : Profile) : Prop :=
  ∀ g, p.selected g = true → p.activeGadget = some g

section Runs

variable {d : Desktop} {ev : InputEvent} {alloc : Bool}

theorem selectedActive_key
    (inv : SelectedActive d.profile)
    (isKey : ev.cls = .rawKey)
    (one : d.OnePress (ev, alloc)) :
    SelectedActive (d.rawKey alloc ev).profile := by
  cases isEditing : d.editing with
  | none =>
    rwa [profile_rawKey isEditing]
  | some g =>
    have isActive : d.activeGadget = some g := (Option.filter_eq_some_iff.mp isEditing).1
    have step : d.rawKey alloc ev = d.typeKey alloc g ev := by
      unfold rawKey
      rw [isEditing]
    obtain ⟨si, isProfile⟩ := @profile_typeKey d alloc ev g
    rw [step, isProfile]
    intro h isSelected
    split
    · -- the edited gadget would be selected without being active
      rename_i returned
      have isG : g = h := Option.some.inj (isActive.symm.trans (inv h isSelected))
      unfold OnePress at one
      rw [isKey] at one
      have notSelected := one returned g isEditing
      rw [isG] at notSelected
      nomatch isSelected.symm.trans notSelected
    · exact inv h isSelected

theorem selectedActive_mouse
    (inv : SelectedActive d.profile)
    (isMouse : ev.cls = .rawMouse)
    (one : d.OnePress (ev, alloc)) :
    SelectedActive (d.rawMouse alloc ev).profile := by
  rw [profile_rawMouse]
  split
  · rename_i isDown
    unfold OnePress at one
    rw [isMouse] at one
    split
    · exact inv
    · exact inv
    · rename_i g _ isGadget
      intro h isSelected
      dsimp only at isSelected ⊢
      by_cases isG : h = g
      · rw [isG]
      · rw [Function.update_of_ne isG] at isSelected
        exact absurd (one isDown g isGadget h isSelected) isG
  · split
    · split
      · exact inv
      rename_i g isActive
      intro h isSelected
      dsimp only at isSelected ⊢
      by_cases isG : h = g
      · rw [isG, Function.update_self] at isSelected
        nomatch isSelected
      · rw [Function.update_of_ne isG] at isSelected
        exact inv h isSelected
    · exact inv

theorem selectedActive_exec
    {op : InputEvent × Bool}
    (inv : SelectedActive d.profile)
    (one : d.OnePress op) :
    SelectedActive (d.exec op).profile := by
  unfold exec handle
  cases isClass : op.1.cls with
  | rawKey => exact selectedActive_key inv isClass one
  | rawMouse => exact selectedActive_mouse inv isClass one
  | unused => exact inv

theorem noneSelected_leftUp
    (inv : SelectedActive d.profile)
    (isMouse : ev.cls = .rawMouse)
    (isUp : ev.code = lButton + upBit) :
    (d.handle alloc ev).NoneSelected := by
  intro g
  have notDown : ¬ ev.code = lButton := by
    rw [isUp]
    decide
  have isProfile : (d.handle alloc ev).profile = (d.rawMouse alloc ev).profile := by
    unfold handle
    rw [isMouse]
  show (d.handle alloc ev).profile.selected g = false
  rw [isProfile, profile_rawMouse, if_neg notDown, if_pos isUp, Bool.eq_false_iff]
  cases isActive : d.activeGadget with
  | none =>
    intro isSelected
    cases isActive.symm.trans (inv g isSelected)
  | some active =>
    intro isSelected
    dsimp only at isSelected
    by_cases isG : g = active
    · rw [isG, Function.update_self] at isSelected
      exact absurd isSelected Bool.false_ne_true
    · rw [Function.update_of_ne isG] at isSelected
      exact isG (Option.some.inj ((inv g isSelected).symm.trans isActive))

end Runs

end Desktop

/--
As long as presses come one at a time, at most one gadget is selected after
every event, and none after the button has gone up.
-/
theorem pressed_look_follows_button
    {start d : Desktop}
    (unpressed : start.NoneSelected)
    (reaches : Reaches Desktop.exec Desktop.OnePress start d) :
    d.OneSelected ∧
      ∀ alloc ev, ev.cls = .rawMouse → ev.code = lButton + upBit →
        (d.handle alloc ev).NoneSelected := by
  have initial : Desktop.SelectedActive start.profile := by
    intro g isSelected
    nomatch (unpressed g).symm.trans isSelected
  have inv : Desktop.SelectedActive d.profile :=
    reaches.invariant initial Desktop.selectedActive_exec
  refine ⟨fun g h first second => ?_, fun alloc ev isMouse isUp => ?_⟩
  · exact Option.some.inj ((inv g first).symm.trans (inv h second))
  · exact Desktop.noneSelected_leftUp inv isMouse isUp

theorem panel_noneSelected : panel.NoneSelected := by
  intro g
  show (if g = 2 then plainGadget 40 .strGadget
    else plainGadget 20 .boolGadget).selected = false
  split <;> rfl

/-- The button of the panel is pressed. -/
def buttonDown : Desktop :=
  [mouse lButton 0 0].foldl Desktop.exec panel

/-- One press and its release. -/
theorem pressed_look_follows_button_once :
    panel.NoneSelected ∧
      Reaches Desktop.exec Desktop.OnePress panel buttonDown ∧
      (buttonDown.gadgets 1).selected = true ∧
      (buttonDown.OneSelected ∧ ∀ alloc ev, ev.cls = .rawMouse → ev.code = lButton + upBit →
          (buttonDown.handle alloc ev).NoneSelected) := by
  have one : panel.OnePress (mouse lButton 0 0) := by
    intro _ g _ h isSelected
    nomatch (panel_noneSelected h).symm.trans isSelected
  have reaches : Reaches Desktop.exec Desktop.OnePress panel buttonDown :=
    Reaches.foldl .start ⟨one, trivial⟩
  exact ⟨panel_noneSelected, reaches, rfl, pressed_look_follows_button panel_noneSelected reaches⟩

/-- The button goes down twice without going up, first here and then there. -/
def bothDown : Desktop :=
  [mouse lButton 0 0, mouse lButton 0 20].foldl Desktop.exec panel

/-- Return is typed while the string gadget is held down. -/
def heldReturn : Desktop :=
  [mouse lButton 0 20, key 0x44].foldl Desktop.exec panel

/--
Two downs select two gadgets; and Return makes the router forget the gadget
that is held down, so the release does not clear it.
-/
theorem pressed_look_sticks :
    panel.NoneSelected ∧
      (Reaches Desktop.exec (fun _ _ => True) panel bothDown ∧ ¬ bothDown.OneSelected) ∧
      (Reaches Desktop.exec (fun _ _ => True) panel heldReturn ∧
        ¬ (heldReturn.exec (mouse (lButton + upBit) 0 0)).NoneSelected) := by
  refine ⟨panel_noneSelected, ⟨reaches_foldl _ _ _, fun one => ?_⟩,
    reaches_foldl _ _ _, fun none => ?_⟩
  · exact absurd (one 1 2 rfl rfl) (by decide)
  · nomatch none 2

end CaraOS.Leargas
