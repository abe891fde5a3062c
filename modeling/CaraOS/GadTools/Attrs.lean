import CaraOS.GadTools.Checkbox

namespace CaraOS.GadTools

/-!
# Attributes set and read back

`Croi_GT_SetGadgetAttrsA_Impl`.  Of the level of a slider and the top of a
scroller only a pot of 16 bits is kept.
-/

open Function (update update_self)
open Leargas
open Dath (i32 i32_of_range)

/-- A new text in the buffer of a gadget. -/
def refill (content : Text) (si : StringInfo) : StringInfo :=
  { si with
    buffer := si.buffer.map fun old i =>
      if 0 ≤ i ∧ i ≤ content.length then content.getD i.toNat 0 else old i
    bufferPos := content.length
    numChars := content.length }

def topToPot (top range : Int) : Nat :=
  if 0 < range then (u32 (u32 top * maxPot) / range % 65536).toNat else 0

def potToTop (pot : Nat) (range : Int) : Int :=
  if 0 < range then i32 (u32 (pot * range) / maxPot) else 0

/-- The cases of `Croi_GT_SetGadgetAttrsA_Impl`. -/
def changeAttrs (tags : GtTags) (g : Gadget) (ext : GtGadgetExt) : Gadget × GtGadgetExt :=
  let setPot (pot : Nat → Nat) :=
    { g with propInfo := g.propInfo.map fun pi =>
      { pi with horizPot := pot pi.horizPot } }
  let choose (active : Option Nat) :=
    let active := activeLabel ext.labels (active.getD ext.active)
    (labelled ext.labels[active]? g, { ext with active := active })
  match ext.kind with
  | .checkbox =>
    let now := if g.selected then 1 else 0
    ({ g with selected := decide (tags.gtcbChecked.getD now ≠ 0) }, ext)
  | .number =>
    let number := i32 (tags.gtnmNumber.getD ext.number)
    (labelled (some (formatNumber number)) g, { ext with number := number })
  | .text =>
    let now := g.gadgetText.bind IntuiText.iText
    (labelled (tags.gttxText.getD now) g, ext)
  | .cycle => choose tags.gtcyActive
  | .mx => choose tags.gtmxActive
  | .string =>
    match tags.gtstString with
    | none => (g, ext)
    | some s =>
      ({ g with stringInfo := g.stringInfo.map (refill (s.take 63)) }, ext)
  | .integer =>
    let number := i32 (tags.gtinNumber.getD ext.number)
    ({ g with stringInfo := g.stringInfo.map (refill (formatNumber number)) },
      { ext with number := number })
  | .slider =>
    (setPot fun pot =>
      levelToPot (i32 (tags.gtslLevel.getD (potToLevel pot ext.slMin ext.slMax)))
        ext.slMin ext.slMax, ext)
  | .scroller =>
    let range := i32 (ext.scTotal - ext.scVisible)
    (setPot fun pot =>
      topToPot (i32 (tags.gtscTop.getD (potToTop pot range))) range, ext)
  | .button | .generic => (g, ext)

/-- `Croi_GT_SetGadgetAttrsA_Impl`, but for the rendering. -/
def setGadgetAttrs (g : Nat) (tags : GtTags) (st : GtState) : GtState :=
  match st.exts g with
  | none => st
  | some ext =>
    let (gadget, ext) := changeAttrs tags (st.desktop.gadgets g) ext
    ⟨st.desktop.setGadget g gadget, update st.exts g (some ext)⟩

/-! ## Levels and pots -/

/-- The pot of a level in a range gives the level back. -/
def Exact (range level : Int) : Prop :=
  level ≤ range ∧ level ≤ 65537 ∧ range ∣ level * maxPot

theorem pot_mul (pot : Int) {range : Int} (positive : 0 < range) :
    0 ≤ pot % 65536 * range ∧ pot % 65536 * range ≤ 65535 * range :=
  ⟨mul_nonneg (Int.emod_nonneg _ (by decide)) positive.le,
    mul_le_mul_of_nonneg_right (Int.le_sub_one_of_lt
      (Int.emod_lt_of_pos _ (by decide))) positive.le⟩

/--
The two divisions are inverse just if neither rounds and nothing is above 32
bits.
-/
theorem pot_reads_back_iff {level range : Int} (natural : 0 ≤ level) (positive : 0 < range) :
    u32 (u32 (level * maxPot) / range % 65536 * range) / maxPot = level ↔
      Exact range level := by
  unfold Exact
  rw [show maxPot = 65535 from rfl]
  obtain ⟨product, productLe⟩ := pot_mul (u32 (level * 65535) / range) positive
  -- Without a wrap the pot is the rounded quotient.
  have rounded (small : level ≤ 65537) (inside : level ≤ range) :
      u32 (level * 65535) / range % 65536 = level * 65535 / range := by
    have same : u32 (level * 65535) = level * 65535 := by
      unfold u32
      omega
    have quotient : level * 65535 / range < 65536 := Int.ediv_lt_of_lt_mul positive (by omega)
    have notNegative : 0 ≤ level * 65535 / range := Int.ediv_nonneg (by omega) positive.le
    rw [same]
    omega
  constructor
  · intro back
    have small : level ≤ range ∧ level ≤ 65537 := by
      unfold u32 at back product productLe
      omega
    have below := Int.ediv_mul_le (level * 65535) positive.ne'
    rw [rounded small.2 small.1] at back product
    refine ⟨small.1, small.2, level * 65535 / range, ?_⟩
    unfold u32 at back
    rw [mul_comm range]
    omega
  · rintro ⟨inside, small, divides⟩
    rw [rounded small inside, Int.ediv_mul_cancel divides]
    unfold u32
    omega

theorem level_of_pot (level : Int) {range : Int} (positive : 0 < range) :
    let back := u32 (u32 (level * maxPot) / range % 65536 * range) / maxPot
    i32 (u32 ((u32 (level * maxPot) / range % 65536).toNat * range) / maxPot) =
        back ∧ 0 ≤ back ∧ back ≤ range := by
  obtain ⟨product, productLe⟩ := pot_mul (u32 (level * maxPot) / range) positive
  rw [Int.toNat_of_nonneg (Int.emod_nonneg _ (by decide))]
  rw [show maxPot = 65535 from rfl] at *
  refine ⟨i32_of_range ?_ ?_, ?_, ?_⟩
  all_goals
    unfold u32 at *
    omega

/-! ## Sliders and scrollers -/

/-- A slider with its bounds, or a scroller with what it was asked to show. -/
inductive Bar where
  | slider (min max : Int)
  | scroller (total visible : Int)

namespace Bar

def kind : Bar → GtKind
  | slider .. => .slider
  | scroller .. => .scroller

/-- The tag of the value. -/
def tag : Bar → GtTag
  | slider .. => .gtslLevel
  | scroller .. => .gtscTop

def tags (value : Int) (tags : GtTags) : Bar → GtTags
  | slider min max =>
    { tags with
      gtslMin := some min, gtslMax := some max, gtslLevel := some value }
  | scroller total visible =>
    { tags with
      gtscTotal := some total, gtscVisible := some visible
      gtscTop := some value }

/-- All numbers are `LONG`s, and a top is one that can be scrolled to. -/
def Allowed (value : Int) : Bar → Prop
  | slider min max =>
    -2147483648 ≤ min ∧ min < max ∧ max < 2147483648 ∧
      -2147483648 ≤ value ∧ value < 2147483648
  | scroller total visible =>
    -2147483648 ≤ visible ∧ visible < total ∧ total < 2147483648 ∧
      0 ≤ value ∧ value ≤ total - visible ∧ value < 2147483648

def ext : Bar → GtGadgetExt
  | slider min max => ⟨.slider, 0, [], 0, min, max, 0, 0⟩
  | scroller total visible =>
    ⟨.scroller, 0, [], 0, 0, 0, max 1 total, max 1 visible⟩

/-- The value that a call asks for. -/
def given (tags : GtTags) : Bar → Option Int
  | slider .. => tags.gtslLevel
  | scroller .. => tags.gtscTop

/-- The value that should be read. -/
def expected (value : Int) : Bar → Int
  | slider min max => clamp value min max
  | scroller .. => value

/-- How far that is from the least value. -/
def offset (value : Int) : Bar → Int
  | slider min max => clamp value min max - min
  | scroller .. => value

/-- How far the greatest value is. -/
def range : Bar → Int
  | slider min max => max - min
  | scroller total visible => max 1 total - max 1 visible

def pot (value : Int) : Bar → Nat
  | slider min max => levelToPot value min max
  | scroller total visible => topToPot value (max 1 total - max 1 visible)

def value (pot : Nat) : Bar → Int
  | slider min max => potToLevel pot min max
  | scroller total visible => potToTop pot (max 1 total - max 1 visible)

end Bar

structure IsBar (bar : Bar) (g pot : Nat) (st : GtState) : Prop where
  ext : st.exts g = some bar.ext
  pot : (st.desktop.gadgets g).propInfo.map PropInfo.horizPot = some pot

section Bars

variable {bar : Bar} {v : Int} {g pot : Nat} {st : GtState}

theorem createGadget_ext (allowed : bar.Allowed v) (ng : NewGadget) (tags : GtTags) :
    (createGadget bar.kind ng (bar.tags v tags)).2 = bar.ext := by
  cases bar with
  | slider min max =>
    obtain ⟨low, less, high, -⟩ := allowed
    simp [Bar.kind, Bar.tags, createGadget, Bar.ext, i32_of_range low (by omega),
      i32_of_range (by omega) high, less]
  | scroller total visible =>
    obtain ⟨low, less, high, -⟩ := allowed
    simp [Bar.kind, Bar.tags, createGadget, Bar.ext,
      i32_of_range low (by omega), i32_of_range (by omega) high]

theorem clamp_inside (v : Int) {min max : Int} (less : min < max) :
    min ≤ clamp v min max ∧ clamp v min max ≤ max := by
  unfold clamp
  split <;> (try split) <;> omega

theorem Bar.value_pot_iff (allowed : bar.Allowed v) :
    bar.value (bar.pot v) = bar.expected v ↔
      Exact bar.range (bar.offset v) := by
  cases bar with
  | slider min max =>
    obtain ⟨low, less, high, -⟩ := allowed
    obtain ⟨above, below⟩ := clamp_inside v less
    have distance : u32 (clamp v min max - min) = clamp v min max - min := by
      unfold u32
      omega
    have whole : u32 (max - min) = max - min := by
      unfold u32
      omega
    simp only [Bar.value, Bar.pot, Bar.expected, Bar.range, Bar.offset,
      levelToPot, potToLevel, if_neg (not_le.mpr less), distance, whole]
    obtain ⟨isLevel, low', high'⟩ := level_of_pot (clamp v min max - min) (sub_pos.mpr less)
    rw [← pot_reads_back_iff (sub_nonneg.mpr above) (sub_pos.mpr less),
      i32_of_range (by omega) (by omega)]
    omega
  | scroller total visible =>
    obtain ⟨low, less, high, natural, -, small⟩ := allowed
    simp only [Bar.value, Bar.pot, Bar.expected, Bar.range, Bar.offset, topToPot, potToTop]
    by_cases positive : 0 < max 1 total - max 1 visible
    · have same : u32 v = v := by
        unfold u32
        omega
      simp only [if_pos positive, same]
      rw [(level_of_pot v positive).1, pot_reads_back_iff natural positive]
    · simp only [if_neg positive]
      have none : max 1 total - max 1 visible = 0 := by omega
      rw [none]
      constructor
      · rintro rfl
        exact ⟨le_refl _, by decide, dvd_refl _⟩
      · exact fun exact => le_antisymm natural exact.1

theorem Bar.pot_expected (allowed : bar.Allowed v) :
    bar.pot (i32 (bar.expected v)) = bar.pot v := by
  cases bar with
  | slider min max =>
    obtain ⟨low, less, high, -⟩ := allowed
    have inside := clamp_inside v less
    have twice : clamp (clamp v min max) min max = clamp v min max := by
      show (if clamp v min max < min then min else
        if max < clamp v min max then max else clamp v min max) = _
      rw [if_neg (not_lt.mpr inside.1), if_neg (not_lt.mpr inside.2)]
    simp only [Bar.pot, Bar.expected, levelToPot]
    rw [i32_of_range (by omega) (by omega), twice]
  | scroller total visible =>
    obtain ⟨-, -, -, natural, -, small⟩ := allowed
    rw [Bar.expected, i32_of_range (by omega) small]

theorem Bar.range_eq {total visible : Int} (allowed : (Bar.scroller total visible).Allowed v) :
    i32 (max 1 total - max 1 visible) = max 1 total - max 1 visible := by
  obtain ⟨low, less, high, -⟩ := allowed
  exact i32_of_range (by omega) (by omega)

theorem IsBar.created {ng : NewGadget} {tags : GtTags} (allowed : bar.Allowed v)
    (gadget : st.desktop.gadgets g = (createGadget bar.kind ng (bar.tags v tags)).1)
    (ext : st.exts g = some (createGadget bar.kind ng (bar.tags v tags)).2) :
    IsBar bar g (bar.pot v) st := by
  refine ⟨by rw [ext, createGadget_ext allowed], ?_⟩
  rw [gadget]
  cases bar with
  | slider min max =>
    obtain ⟨low, less, high, least, most⟩ := allowed
    simp [Bar.kind, Bar.tags, createGadget, labelled, Bar.pot,
      i32_of_range low (by omega), i32_of_range (by omega) high,
      if_neg (not_le.mpr less), i32_of_range least most]
  | scroller total visible =>
    have range := Bar.range_eq allowed
    obtain ⟨low, less, high, natural, -, small⟩ := allowed
    simp [Bar.kind, Bar.tags, createGadget, labelled, Bar.pot, topToPot,
      i32_of_range low (by omega), i32_of_range (by omega) high,
      range, i32_of_range (by omega) small]

theorem IsBar.read (allowed : bar.Allowed v) (isBar : IsBar bar g pot st) :
    getGadgetAttr bar.tag g st = some (.inl (bar.value pot)) := by
  unfold getGadgetAttr
  dsimp only
  rw [isBar.ext, isBar.pot]
  cases bar with
  | slider min max => rfl
  | scroller total visible =>
    simp [Bar.ext, Bar.tag, Bar.value, potToTop, Bar.range_eq allowed]

theorem IsBar.changed (allowed : bar.Allowed v) (isBar : IsBar bar g pot st) (tags : GtTags) :
    IsBar bar g (bar.pot (i32 ((bar.given tags).getD (bar.value pot))))
      (setGadgetAttrs g tags st) := by
  obtain ⟨pi, isInfo, rfl⟩ := Option.map_eq_some_iff.mp isBar.pot
  unfold setGadgetAttrs
  rw [isBar.ext]
  cases bar with
  | slider min max =>
    refine ⟨update_self .., ?_⟩
    simp [changeAttrs, Bar.ext, Desktop.setGadget, isInfo, Bar.pot, Bar.given, Bar.value]
  | scroller total visible =>
    refine ⟨update_self .., ?_⟩
    simp [changeAttrs, Bar.ext, Desktop.setGadget, isInfo, Bar.pot, Bar.given,
      Bar.value, Bar.range_eq allowed]

/--
After creation, and after a call that sets it, the value is read back and stays
in a call without it, just if its pot is exact.
-/
theorem levels_read_back_iff
    (allowed : bar.Allowed v) (ng : NewGadget) (tags bare : GtTags) (old : GtState)
    (gadget : st.desktop.gadgets g = (createGadget bar.kind ng (bar.tags v tags)).1)
    (ext : st.exts g = some (createGadget bar.kind ng (bar.tags v tags)).2)
    (oldExt : old.exts g = st.exts g)
    (oldInfo : (old.desktop.gadgets g).propInfo ≠ none)
    (without : bar.given bare = none) :
    (∀ now ∈ [st, setGadgetAttrs g (bar.tags v tags) old],
      getGadgetAttr bar.tag g now = some (.inl (bar.expected v)) ∧
        getGadgetAttr bar.tag g (setGadgetAttrs g bare now) =
          getGadgetAttr bar.tag g now) ↔
      Exact bar.range (bar.offset v) := by
  have created := IsBar.created allowed gadget ext
  have changed : IsBar bar g (bar.pot v) (setGadgetAttrs g (bar.tags v tags) old) := by
    obtain ⟨pi, isInfo⟩ := Option.ne_none_iff_exists'.mp oldInfo
    have isOld : IsBar bar g pi.horizPot old :=
      ⟨oldExt.trans created.ext, by rw [isInfo]; rfl⟩
    have after := isOld.changed allowed (bar.tags v tags)
    cases bar with
    | slider min max =>
      obtain ⟨-, -, -, least, most⟩ := allowed
      rwa [Bar.given, Bar.tags, Option.getD_some, i32_of_range least most]
        at after
    | scroller total visible =>
      obtain ⟨-, -, -, natural, -, small⟩ := allowed
      rwa [Bar.given, Bar.tags, Option.getD_some, i32_of_range (by omega) small] at after
  have each {now : GtState} (isBar : IsBar bar g (bar.pot v) now) :
      getGadgetAttr bar.tag g now = some (.inl (bar.expected v)) ∧
          getGadgetAttr bar.tag g (setGadgetAttrs g bare now) = getGadgetAttr bar.tag g now ↔
        Exact bar.range (bar.offset v) := by
    rw [isBar.read allowed, (isBar.changed allowed bare).read allowed, without,
      Option.getD_none, ← Bar.value_pot_iff allowed]
    constructor
    · exact fun both => Sum.inl.inj (Option.some.inj both.1)
    · intro back
      rw [back, Bar.pot_expected allowed, back]
      exact ⟨rfl, rfl⟩
  rw [List.forall_mem_cons, List.forall_mem_singleton, each created, each changed, and_self]

end Bars

/-- The panel, whose button is now a bar. -/
def barPanel (bar : Bar) (v : Int) : GtState where
  desktop := panel.setGadget 1
    (createGadget bar.kind ⟨10, 20, 40, 10, none, 7⟩ (bar.tags v noTags)).1
  exts := fun _ => some (createGadget bar.kind ⟨10, 20, 40, 10, none, 7⟩ (bar.tags v noTags)).2

theorem levels_read_back_slider :
    getGadgetAttr .gtslLevel 1 (barPanel (.slider 0 15) 3) = some (.inl 3) :=
  ((@levels_read_back_iff (.slider 0 15) 3 1 (barPanel (.slider 0 15) 3)
    (by unfold Bar.Allowed; decide) ⟨10, 20, 40, 10, none, 7⟩ noTags noTags
    (barPanel (.slider 0 15) 3) rfl rfl rfl (nomatch ·) rfl).mpr
      ⟨by decide, by decide, by decide⟩ _ (List.mem_cons_self ..)).1

/-- Of the levels from 0 to 2 the middle one is not read back. -/
theorem middle_level_reads_zero :
    (Bar.slider 0 2).expected 1 = 1 ∧
      getGadgetAttr .gtslLevel 1 (barPanel (.slider 0 2) 1) = some (.inl 0) :=
  ⟨rfl, rfl⟩

end CaraOS.GadTools
