import CaraOS.Leargas.Router

namespace CaraOS.GadTools

/-!
# GadTools gadgets

`gadtools_lib.c`: the factory for gadgets, the reading of their attributes and
the message filter, over the gadgets of the desktop.
-/

open Leargas
open Dath (i32)

/-- A C string without its end. -/
abbrev Text :=
  List (BitVec 8)

/-- The gadget kinds; the last one stands for those without support. -/
inductive GtKind where
  | button
  | checkbox
  | text
  | number
  | cycle
  | mx
  | string
  | integer
  | slider
  | scroller
  | generic
  deriving DecidableEq

/-- `struct NewGadget`. -/
structure NewGadget where
  leftEdge : Int
  topEdge : Int
  width : Int
  height : Int
  gadgetText : Option Text
  gadgetID : Nat

/-- What `Croi_GetTagData` finds for each tag that creation asks for. -/
structure GtTags where
  gtcbChecked : Option Nat
  gttxText : Option (Option Text)
  gtnmNumber : Option Int
  gtcyLabels : Option (List Text)
  gtcyActive : Option Nat
  gtmxLabels : Option (List Text)
  gtmxActive : Option Nat
  gtstString : Option Text
  gtstMaxChars : Option Int
  gtinNumber : Option Int
  gtinMaxChars : Option Int
  gtslMin : Option Int
  gtslMax : Option Int
  gtslLevel : Option Int
  gtscTop : Option Int
  gtscTotal : Option Int
  gtscVisible : Option Int

/--
`struct GtGadgetExt`.  Its label, `StringInfo` and `PropInfo` are those of the
gadget.
-/
structure GtGadgetExt where
  kind : GtKind
  number : Int
  labels : List Text
  active : Nat
  slMin : Int
  slMax : Int
  scTotal : Int
  scVisible : Int

/-! ## Creation -/

def formatNumber (n : Int) : Text :=
  let sign := if n < 0 then ['-'] else []
  (sign ++ Nat.toDigits 10 n.natAbs).map fun c => BitVec.ofNat 8 c.toNat

/-- The leading digits of `gt_parse_int`. -/
def parseDigits (v : Int) : Text → Int
  | [] => v
  | c :: rest =>
    if 48 ≤ c.toNat ∧ c.toNat ≤ 57 then
      parseDigits (i32 (v * 10 + ((c.toNat : Int) - 48))) rest
    else
      v

def parseInt : Text → Int
  | 45#8 :: rest => i32 (-parseDigits 0 rest)
  | 43#8 :: rest => parseDigits 0 rest
  | text => parseDigits 0 text

/-- A difference as a `u32`. -/
def u32 (n : Int) : Int :=
  n % 4294967296

def levelToPot (level min max : Int) : Nat :=
  if max ≤ min then
    0
  else
    (u32 (u32 (clamp level min max - min) * maxPot) / u32 (max - min) % 65536).toNat

def potToLevel (pot : Nat) (min max : Int) : Int :=
  if max ≤ min then
    min
  else
    i32 (min + i32 (u32 (pot * u32 (max - min)) / maxPot))

def activeLabel (labels : List Text) (active : Nat) : Nat :=
  if labels ≠ [] ∧ labels.length ≤ active % 65536 then 0 else active % 65536

/-- A `StringInfo` over the buffer of the extension. -/
def stringInfo (content : Text) (maxChars : Option Int) : StringInfo :=
  let given := word (maxChars.getD 63)
  let maxc := if given ≤ 0 ∨ 64 ≤ given then 63 else given
  { buffer := some fun i => if i < 0 then 0 else content.getD i.toNat 0
    bufferPos := content.length
    maxChars := maxc + 1
    numChars := content.length }

/-- The gadget before its kind is looked at. -/
def NewGadget.base (ng : NewGadget) : Gadget where
  leftEdge := ng.leftEdge
  topEdge := ng.topEdge
  width := ng.width
  height := ng.height
  selected := false
  disabled := false
  relVerify := false
  gadgetType := .boolGadget
  gadgetText := some ⟨4, 2, ng.gadgetText⟩
  gadgetID := ng.gadgetID
  stringInfo := none
  propInfo := none

def labelled (label : Option Text) (gadget : Gadget) : Gadget :=
  { gadget with gadgetText := some ⟨4, 2, label⟩ }

/-- A cycle or radio gadget. -/
def choice (kind : GtKind) (gadget : Gadget) (labels : Option (List Text))
    (active : Option Nat) (ext : GtGadgetExt) : Gadget × GtGadgetExt :=
  let labels := labels.getD []
  let active := activeLabel labels (active.getD 0)
  (labelled labels[active]? { gadget with relVerify := true },
    { ext with kind := kind, labels := labels, active := active })

/-- `Croi_GT_CreateGadgetA_Impl`, but for the linking. -/
def createGadget (kind : GtKind) (ng : NewGadget) (tags : GtTags) : Gadget × GtGadgetExt :=
  let g := ng.base
  let ext : GtGadgetExt := ⟨kind, 0, [], 0, 0, 0, 0, 0⟩
  match kind with
  | .button => ({ g with relVerify := true }, ext)
  | .checkbox =>
    ({ g with
        relVerify := true
        selected := decide (tags.gtcbChecked.getD 0 ≠ 0) }, ext)
  | .text => (labelled (tags.gttxText.getD ng.gadgetText) g, ext)
  | .number =>
    let number := i32 (tags.gtnmNumber.getD 0)
    (labelled (some (formatNumber number)) g, { ext with number := number })
  | .cycle => choice .cycle g tags.gtcyLabels tags.gtcyActive ext
  | .mx => choice .mx g tags.gtmxLabels tags.gtmxActive ext
  | .string =>
    let content := (tags.gtstString.getD []).take 63
    (labelled none { g with
      gadgetType := .strGadget
      relVerify := true
      stringInfo := some (stringInfo content tags.gtstMaxChars) }, ext)
  | .integer =>
    let number := i32 (tags.gtinNumber.getD 0)
    (labelled none { g with
      gadgetType := .strGadget
      relVerify := true
      stringInfo :=
        some (stringInfo (formatNumber number) tags.gtinMaxChars) },
      { ext with number := number })
  | .slider =>
    let slMin := i32 (tags.gtslMin.getD 0)
    let given := i32 (tags.gtslMax.getD 15)
    let slMax := if given ≤ slMin then i32 (slMin + 1) else given
    let level := i32 (tags.gtslLevel.getD slMin)
    (labelled none { g with
      gadgetType := .propGadget
      relVerify := true
      propInfo := some ⟨false, levelToPot level slMin slMax, 0,
          (maxPot / u32 (slMax - slMin + 1) % 65536).toNat,
          maxPot.toNat⟩ },
      { ext with slMin := slMin, slMax := slMax })
  | .scroller =>
    let scTotal := max 1 (i32 (tags.gtscTotal.getD 1))
    let scVisible := max 1 (i32 (tags.gtscVisible.getD 1))
    let top := i32 (tags.gtscTop.getD 0)
    let range := i32 (scTotal - scVisible)
    (labelled none { g with
      gadgetType := .propGadget
      relVerify := true
      propInfo := some ⟨false,
          if 0 < range then (u32 (u32 top * maxPot) / range % 65536).toNat
          else 0,
          0, (u32 (scVisible * maxPot) / scTotal % 65536).toNat,
          maxPot.toNat⟩ },
      { ext with scTotal := scTotal, scVisible := scVisible })
  | .generic => (g, ext)

/-! ## Attributes and messages -/

/-- The desktop, and the extensions of the gadgets that GadTools has made. -/
structure GtState where
  desktop : Desktop
  exts : Nat → Option GtGadgetExt

/-- The tags that can be read. -/
inductive GtTag where
  | gtcbChecked
  | gtcyActive
  | gtmxActive
  | gtnmNumber
  | gtstString
  | gtinNumber
  | gtslLevel
  | gtscTop
  deriving DecidableEq

/-- The text in a buffer of so many bytes. -/
def bufferText (buffer : Int → BitVec 8) : Text :=
  ((List.range 64).map fun i : Nat => buffer i).takeWhile fun c => decide (c ≠ 0)

/--
What `Croi_GT_GetGadgetAttrsA_Impl` writes for a tag, if it understands it.
For a string that is the address of the buffer, of which this is the text.
-/
def getGadgetAttr (tag : GtTag) (g : Nat) (st : GtState) : Option (Int ⊕ Text) :=
  let gadget := st.desktop.gadgets g
  let text :=
    bufferText ((gadget.stringInfo.bind StringInfo.buffer).getD fun _ => 0)
  let pot := (gadget.propInfo.map PropInfo.horizPot).getD 0
  (st.exts g).bind fun ext =>
    match ext.kind, tag with
    | .checkbox, .gtcbChecked => some (.inl (if gadget.selected then 1 else 0))
    | .cycle, .gtcyActive => some (.inl ext.active)
    | .mx, .gtmxActive => some (.inl ext.active)
    | .number, .gtnmNumber => some (.inl ext.number)
    | .string, .gtstString => some (.inr text)
    | .integer, .gtinNumber => some (.inl (parseInt text))
    | .slider, .gtslLevel => some (.inl (potToLevel pot ext.slMin ext.slMax))
    | .scroller, .gtscTop =>
      let range := i32 (ext.scTotal - ext.scVisible)
      some (.inl (if 0 < range then i32 (u32 (pot * range) / maxPot) else 0))
    | _, _ => none

/-- The update of the gadget that a message is about. -/
def updateGadget (g : Nat) (st : GtState) : GtState × Option Nat :=
  let gadget := st.desktop.gadgets g
  match st.exts g with
  | none => (st, none)
  | some ext =>
    if gadget.gadgetType = .boolGadget then
      match ext.kind with
      | .cycle | .mx =>
        let active :=
          if ext.labels = [] then ext.active
          else (ext.active + 1) % ext.labels.length
        let label :=
          if ext.labels = [] then gadget
          else labelled ext.labels[active]? gadget
        ({ desktop := st.desktop.setGadget g label
           exts := Function.update st.exts g (some { ext with active := active }) }, some active)
      | .checkbox =>
        let selected := !gadget.selected
        ({ st with
            desktop := st.desktop.setGadget g { gadget with selected := selected } },
          some (if selected then 1 else 0))
      | _ => (st, none)
    else
      (st, none)

/-- `Croi_GT_GetIMsg_Impl` on the port of a window. -/
def getIMsg (w : Nat) (st : GtState) : Option IntuiMessage × GtState :=
  match (st.desktop.windows w).bind Window.userPort with
  | none | some [] => (none, st)
  | some (im :: rest) =>
    let st :=
      { st with
        desktop := st.desktop.modifyWindow w fun win =>
          { win with userPort := some rest } }
    match im.cls, im.iAddress with
    | .gadgetUp, some g =>
      let (st, code) := updateGadget g st
      (some { im with code := code.getD im.code }, st)
    | _, _ => (some im, st)

end CaraOS.GadTools
