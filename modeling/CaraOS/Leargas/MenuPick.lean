import CaraOS.Leargas.Refresh

namespace CaraOS.Leargas

/-!
# Menu picks

`Leargas_Menu_Layout` and `Leargas_ItemAddress`.  The hit test numbers menus
and items as it walks the strip, and a program walks the strip again to find the
item of a number.
-/

open List

variable {items : List MenuItem}

namespace Desktop

/-- `struct Menu`: the length of its name; its items, enabled or not, with the
length of their text. -/
structure Menu where
  name : Nat
  items : List (Bool × Nat)

/-- The items of one menu, from the row `iy` on. -/
def itemLayout (left width : Int) : Int → List (Bool × Nat) → List MenuItem
  | _, [] => []
  | iy, (enabled, _) :: rest =>
    ⟨enabled, left, word iy, word width, 10⟩
      :: itemLayout left width (iy + 10) rest

/-- `Leargas_Menu_Layout` from the column `x` on; the font is 8 by 8. -/
def menuLayout : Int → List Menu → List (List MenuItem)
  | _, [] => []
  | x, menu :: rest =>
    let width := (menu.items.map fun item => (item.2 : Int) * 8 + 8).foldl max 0
    itemLayout (word x) width 10 menu.items :: menuLayout (x + word (menu.name * 8 + 8) + 4) rest

def menuNum (code : Nat) : Nat :=
  code % 32

def itemNum (code : Nat) : Nat :=
  code / 32 % 64

def subNum (code : Nat) : Nat :=
  code / 2048 % 32

/-- `Leargas_ItemAddress`; `subItems` are those of an item of a menu. -/
def itemAddress (strip : List (List MenuItem))
    (subItems : Nat → Nat → List MenuItem) (code : Nat) : Option MenuItem :=
  if code = menuNull then
    none
  else
    match strip[menuNum code]? with
    | none => none
    | some items =>
      if itemNum code = 63 then
        none
      else
        match items[itemNum code]? with
        | none => none
        | some item =>
          let subs := subItems (menuNum code) (itemNum code)
          if subNum code ≠ 31 ∧ subs ≠ [] then subs[subNum code]? else some item

/-- An enabled item with the point in its box. -/
abbrev MenuItem.At (x y : Int) (item : MenuItem) : Prop :=
  item.enabled ∧ item.leftEdge ≤ x ∧ x < item.leftEdge + item.width ∧
    item.topEdge ≤ y ∧ y < item.topEdge + item.height

theorem foldl_keeps_or_hits
    {α β : Type}
    (step : β → α → β)
    (Hit : α → β → Prop)
    (cases : ∀ a b, step b a = b ∧ (∀ c, ¬ Hit a c) ∨ Hit a (step b a))
    (l : List α)
    (start : β) :
    l.foldl step start = start ∧ (∀ a ∈ l, ∀ c, ¬ Hit a c) ∨
      ∃ a ∈ l, Hit a (l.foldl step start) := by
  induction l generalizing start with
  | nil => exact .inl ⟨rfl, nofun⟩
  | cons a l ih =>
    rcases ih (step start a) with ⟨same, none⟩ | ⟨b, listed, hit⟩
    · rcases cases a start with ⟨kept, notHit⟩ | hit
      · refine .inl ⟨same.trans kept, fun b listed => ?_⟩
        rcases mem_cons.mp listed with rfl | later
        · exact notHit
        · exact none b later
      · exact .inr ⟨a, mem_cons_self, same ▸ hit⟩
    · exact .inr ⟨b, mem_cons_of_mem a listed, hit⟩

theorem menuPick_cases
    (strip : List (List MenuItem))
    (x y : Int) :
    menuPick strip x y = menuNull ∧
        (∀ items ∈ strip, ∀ item ∈ items, ¬ MenuItem.At x y item) ∨
      ∃ menu i items item, strip[menu]? = some items ∧
        items[i]? = some item ∧ MenuItem.At x y item ∧
        menuPick strip x y = fullMenuNum menu i := by
  have ofItems (menu : List MenuItem × Nat) (code : Nat) :=
    foldl_keeps_or_hits (fun code (q : MenuItem × Nat) =>
        if MenuItem.At x y q.1 then fullMenuNum menu.2 q.2 else code)
      (fun q c => MenuItem.At x y q.1 ∧ c = fullMenuNum menu.2 q.2)
      (fun q code => by
        by_cases hit : MenuItem.At x y q.1
        · exact .inr ⟨hit, if_pos hit⟩
        · exact .inl ⟨if_neg hit, fun _ both => hit both.1⟩)
      menu.1.zipIdx code
  rcases foldl_keeps_or_hits _ (fun (menu : List MenuItem × Nat) c => ∃ q ∈ menu.1.zipIdx,
        MenuItem.At x y q.1 ∧ c = fullMenuNum menu.2 q.2)
      (fun menu code => (ofItems menu code).imp_left fun ⟨same, nothing⟩ =>
        ⟨same, fun c ⟨q, listed, hit⟩ => nothing q listed c hit⟩)
      strip.zipIdx menuNull with
    ⟨same, none⟩ | ⟨⟨items, menu⟩, listed, ⟨item, i⟩, isItem, hit, picked⟩
  · refine .inl ⟨same, fun items isMenu item isItem hit => ?_⟩
    obtain ⟨menu, found⟩ := mem_iff_getElem?.mp isMenu
    obtain ⟨i, foundItem⟩ := mem_iff_getElem?.mp isItem
    exact none (items, menu) (mk_mem_zipIdx_iff_getElem?.mpr found) _
      ⟨(item, i), mk_mem_zipIdx_iff_getElem?.mpr foundItem, hit, rfl⟩
  · exact .inr ⟨menu, i, items, item, mk_mem_zipIdx_iff_getElem?.mp listed,
      mk_mem_zipIdx_iff_getElem?.mp isItem, hit, picked⟩

theorem itemAddress_fullMenuNum
    {strip : List (List MenuItem)}
    {item : MenuItem}
    {menu i : Nat}
    (subItems : Nat → Nat → List MenuItem)
    (isMenu : strip[menu]? = some items)
    (isItem : items[i]? = some item)
    (few : menu < 31)
    (fewItems : i < 63) :
    itemAddress strip subItems (fullMenuNum menu i) = some item := by
  have isNumber : fullMenuNum menu i = menu + i * 32 + 63488 := by
    unfold fullMenuNum
    omega
  have isMenuNum : menuNum (fullMenuNum menu i) = menu := by
    unfold menuNum
    omega
  have isItemNum : itemNum (fullMenuNum menu i) = i := by
    unfold itemNum
    omega
  have isSubNum : subNum (fullMenuNum menu i) = 31 := by
    unfold subNum
    omega
  have notNull : fullMenuNum menu i ≠ menuNull := by
    unfold menuNull
    omega
  simp [itemAddress, isMenuNum, isItemNum, isSubNum, notNull, isMenu, isItem, fewItems.ne]

theorem length_itemLayout
    (left width iy : Int)
    (items : List (Bool × Nat)) :
    (itemLayout left width iy items).length = items.length := by
  induction items generalizing iy with
  | nil => rfl
  | cons item rest ih =>
    simp [itemLayout, ih]

theorem menuLayout_getElem?
    {x : Int}
    {menus : List Menu}
    {menu : Nat}
    (isMenu : (menuLayout x menus)[menu]? = some items) :
    ∃ m, menus[menu]? = some m ∧ items.length = m.items.length := by
  induction menus generalizing x menu with
  | nil => cases isMenu
  | cons m rest ih =>
    cases menu with
    | zero =>
      cases isMenu
      exact ⟨m, rfl, length_itemLayout ..⟩
    | succ menu => exact ih isMenu

/-- The code of a pick at a point. -/
def Resolves (strip : List (List MenuItem))
    (subItems : Nat → Nat → List MenuItem) (x y : Int) (code : Nat) : Prop :=
  code = menuNull ∧ (∀ items ∈ strip, ∀ item ∈ items, ¬ MenuItem.At x y item) ∨
    ∃ items ∈ strip, ∃ item ∈ items,
      itemAddress strip subItems code = some item ∧ MenuItem.At x y item

/-- What is picked is an item under the pointer. -/
theorem menu_pick_resolves
    (d : Desktop)
    (w : Nat)
    (menus : List Menu)
    (subItems : Nat → Nat → List MenuItem)
    (x y : Int)
    (inMenu : d.menuWin = some w)
    (isStrip : (d.windows w).bind Window.menuStrip = some (menuLayout 4 menus))
    (few : menus.length ≤ 31)
    (fewItems : ∀ m ∈ menus, m.items.length ≤ 63) :
    ∃ code, (d.menuEnd x y).1 = some (w, code) ∧
      Resolves (menuLayout 4 menus) subItems x y code := by
  refine ⟨menuPick (menuLayout 4 menus) x y, ?_, ?_⟩
  · simp [menuEnd, inMenu, isStrip]
  · refine (menuPick_cases (menuLayout 4 menus) x y).imp_right ?_
    rintro ⟨menu, i, items, item, isMenu, isItem, hit, picked⟩
    obtain ⟨m, found, size⟩ := menuLayout_getElem? isMenu
    have menuLt := (List.getElem?_eq_some_iff.mp found).1
    have itemLt := (List.getElem?_eq_some_iff.mp isItem).1
    have bound := fewItems m (mem_of_getElem? found)
    refine ⟨items, mem_of_getElem? isMenu, item, mem_of_getElem? isItem, ?_, hit⟩
    rw [picked]
    exact itemAddress_fullMenuNum subItems isMenu isItem (by omega) (by omega)

/-- Two menus; the second has a ghosted item above another. -/
def twoMenus : List Menu :=
  [⟨4, [(true, 3)]⟩, ⟨5, [(false, 2), (true, 6)]⟩]

/-- The pointer on the last item of the second menu. -/
theorem menu_pick_resolves_second :
    ((sideBySide.setMenuStrip 2 (some (menuLayout 4 twoMenus))).menuEnd 50 22).1 =
        some (2, fullMenuNum 1 1) ∧
      ∃ code, ((sideBySide.setMenuStrip 2 (some (menuLayout 4 twoMenus))).menuEnd 50 22).1 =
          some (2, code) ∧
        Resolves (menuLayout 4 twoMenus) (fun _ _ => []) 50 22 code :=
  ⟨by decide, menu_pick_resolves _ 2 twoMenus (fun _ _ => []) 50 22 rfl rfl (by decide) (by decide)⟩

end Desktop

end CaraOS.Leargas
