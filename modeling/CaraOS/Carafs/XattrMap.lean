import CaraOS.Carafs.XattrAtomic

namespace CaraOS.Carafs

/-!
# Attributes as a finite map

A successful `Carafs_XattrSet` or `Carafs_XattrRemove` rewrites the XATTR item
of one cnode: the records of the other names, and the new record behind them.
Over a whole run of such calls the item holds the map that the calls describe,
and nothing else on the volume changes.
-/

open List
open Shadow (wp_bind wp_mono wp_put)

/-! ## The item area -/

section Items

variable {items : List Item} {kind : ItemKind} {payload old : Payload}

def otherItems (kind : ItemKind) (items : List Item) : List Item :=
  items.filter fun item => item.kind != kind

def itemCount (kind : ItemKind) (items : List Item) : Nat :=
  items.countP fun item => item.kind == kind

theorem otherItems_putItem :
    otherItems kind (putItem kind payload items) = otherItems kind items := by
  induction items with
  | nil => simp [putItem, otherItems]
  | cons item rest ih =>
    unfold putItem
    unfold otherItems at ih ⊢
    split
    · rename_i same
      simp [same]
    · simp [filter_cons, ih]

theorem otherItems_dropItem : otherItems kind (dropItem kind items) = otherItems kind items := by
  induction items with
  | nil => rfl
  | cons item rest ih =>
    unfold dropItem otherItems at ih ⊢
    by_cases same : item.kind = kind
    · simp [same]
    · rw [eraseP_cons_of_neg (by simpa using same)]
      simp [filter_cons, ih]

theorem itemCount_putItem (single : itemCount kind items ≤ 1) :
    itemCount kind (putItem kind payload items) ≤ 1 := by
  induction items with
  | nil => simp [putItem, itemCount]
  | cons item rest ih =>
    unfold putItem
    unfold itemCount at ih single ⊢
    split
    · rename_i same
      simpa [same] using single
    · rename_i other
      rw [countP_cons_of_neg (by simpa using other)] at single ⊢
      exact ih single

theorem itemCount_dropItem (single : itemCount kind items ≤ 1) :
    itemCount kind (dropItem kind items) = 0 := by
  induction items with
  | nil => rfl
  | cons item rest ih =>
    unfold dropItem itemCount at ih ⊢
    unfold itemCount at single
    by_cases same : item.kind = kind
    · rw [eraseP_cons_of_pos (by simpa using same)]
      rw [countP_cons_of_pos (by simpa using same)] at single
      omega
    · rw [eraseP_cons_of_neg (by simpa using same), countP_cons_of_neg (by simpa using same)]
      rw [countP_cons_of_neg (by simpa using same)] at single
      exact ih single

@[simp] theorem putItem_putItem :
    putItem kind payload (putItem kind old items) = putItem kind payload items := by
  induction items with
  | nil => simp [putItem]
  | cons item rest ih =>
    by_cases same : item.kind = kind <;>
      simp [putItem, same, ih]

@[simp] theorem dropItem_putItem :
    dropItem kind (putItem kind payload items) = dropItem kind items := by
  induction items with
  | nil => simp [putItem, dropItem]
  | cons item rest ih =>
    unfold dropItem at ih ⊢
    by_cases same : item.kind = kind <;>
      simp [putItem, same, ih]

theorem itemBytes_dropItem_le : itemBytes (dropItem kind items) ≤ itemBytes items :=
  List.Sublist.sum_le_sum ((eraseP_sublist).map _) (by simp)

theorem itemBytes_putItem_of_absent (absent : ∀ item ∈ items, item.kind ≠ kind) :
    itemBytes (putItem kind payload items) =
      itemBytes items + itemStride payload.len := by
  induction items with
  | nil => simp [putItem, itemBytes]
  | cons item rest ih =>
    have later := ih fun later listed =>
      absent later (mem_cons_of_mem _ listed)
    rw [putItem, if_neg (absent item mem_cons_self)]
    simp only [itemBytes, map_cons, sum_cons] at later ⊢
    omega

theorem itemResize_ok {bs : Nat} {cn resized : Cnode}
    (done : itemResize bs cn kind payload = .ok resized) :
    resized = { cn with items := putItem kind payload cn.items } ∧
      itemBytes resized.items ≤ bs - cnodeItemsOff := by
  unfold itemResize at done
  cases found : itemFind cn kind with
  | none =>
    have total := @itemBytes_putItem_of_absent cn.items kind payload
      (by simpa [itemFind] using found)
    simp only [found] at done
    split at done
    · cases done
    cases done
    refine ⟨rfl, ?_⟩
    dsimp only
    omega
  | some old =>
    have total := @itemBytes_putItem cn.items kind old payload found
    simp only [found] at done
    split at done
    · cases done
    cases done
    refine ⟨rfl, ?_⟩
    dsimp only
    omega

end Items

/-! ## The packed list as a map -/

def attrMap (attrs : List Attr) (name : List UInt8) : Option (List UInt8) :=
  (attrs.find? fun attr => attr.name = name).map Attr.value

def otherAttrs (name : List UInt8) (attrs : List Attr) : List Attr :=
  attrs.filter fun attr => attr.name ≠ name

section Lists

variable {attrs : List Attr} {cn : Cnode} {name value : List UInt8}

theorem attrValue_eq_attrMap (ok : ∀ attr ∈ attrs, attr.Ok) :
    attrValue (attrBytes attrs) name = attrMap attrs name := by
  induction attrs with
  | nil => rfl
  | cons attr rest ih =>
    rw [attrBytes_cons]
    by_cases same : attr.name = name
    · subst same
      rw [attrValue_image_self (ok attr mem_cons_self)]
      simp [attrMap]
    · rw [attrValue_image_other (ok attr mem_cons_self) same, ih fun later listed =>
          ok later (mem_cons_of_mem _ listed)]
      simp [attrMap, same]

theorem otherAttrs_of_absent (absent : ∀ attr ∈ attrs, attr.name ≠ name) :
    otherAttrs name attrs = attrs :=
  filter_eq_self.mpr (by simpa using absent)

theorem otherAttrs_of_present {before later : List Attr} {attr : Attr}
    (list : AttrList (before ++ attr :: later)) :
    otherAttrs attr.name (before ++ attr :: later) = before ++ later := by
  have others := list.others.2
  have kept : otherAttrs attr.name (before ++ later) = before ++ later :=
    otherAttrs_of_absent others
  rw [← kept]
  simp [otherAttrs]

theorem AttrList.otherAttrs (list : AttrList attrs) (name : List UInt8) :
    AttrList (otherAttrs name attrs) where
  ok := fun attr listed => list.ok attr (mem_of_mem_filter listed)
  nodup := list.nodup.sublist (filter_sublist.map _)

theorem AttrList.put (list : AttrList attrs) (ok : Attr.Ok ⟨name, 0, value⟩) :
    AttrList (CaraOS.Carafs.otherAttrs name attrs ++ [⟨name, 0, value⟩]) where
  ok := by
    intro attr listed
    rcases mem_append.mp listed with isOld | isNew
    · exact (list.otherAttrs name).ok attr isOld
    · exact mem_singleton.mp isNew ▸ ok
  nodup := by
    rw [map_append, nodup_append]
    refine ⟨(list.otherAttrs name).nodup, nodup_singleton _, ?_⟩
    intro old isOld new isNew
    obtain ⟨attr, listed, rfl⟩ := mem_map.mp isOld
    rw [mem_singleton.mp isNew]
    simpa using (mem_filter.mp listed).2

theorem attrMap_otherAttrs :
    attrMap (otherAttrs name attrs) =
      Function.update (attrMap attrs) name none := by
  funext query
  induction attrs with
  | nil =>
    by_cases same : query = name <;> simp [attrMap, otherAttrs, same]
  | cons attr rest ih =>
    unfold attrMap otherAttrs at *
    grind [Function.update_apply]

theorem attrMap_put :
    attrMap (otherAttrs name attrs ++ [⟨name, 0, value⟩]) =
      Function.update (attrMap attrs) name (some value) := by
  funext query
  have others := congrFun (@attrMap_otherAttrs attrs name) query
  unfold attrMap at *
  rw [List.find?_append, Option.map_or, others]
  by_cases same : query = name
  · simp [same]
  · simp [same, Ne.symm same]

theorem keptBytes_eq (list : AttrList attrs) (held : (xattrBytes cn).getD [] = attrBytes attrs) :
    keptBytes cn name = attrBytes (otherAttrs name attrs) := by
  unfold keptBytes
  cases isBytes : xattrBytes cn with
  | none =>
    rw [isBytes] at held
    cases attrs with
    | nil => rfl
    | cons attr later => exact absurd held.symm (cons_ne_nil _ _)
  | some bytes =>
    rw [isBytes] at held
    subst held
    dsimp only
    by_cases absent : ∀ attr ∈ attrs, attr.name ≠ name
    · have missing : xattrFind (attrBytes attrs) name = none := by
        rw [← append_nil (attrBytes attrs), xattrFind_attrBytes list.ok absent]
        rfl
      rw [missing, otherAttrs_of_absent absent]
    · push Not at absent
      obtain ⟨attr, listed, rfl⟩ := absent
      obtain ⟨before, later, rfl⟩ := append_of_mem listed
      obtain ⟨found, size⟩ := list.find
      rw [found]
      dsimp only
      rw [size, closeGap_attrBytes, otherAttrs_of_present list]
      refine take_left' ?_
      simp only [attrBytes_append, attrBytes_cons, length_append, Attr.image_length]
      omega

theorem xattrRecord_eq_attrBytes : xattrRecord name value = attrBytes [⟨name, 0, value⟩] := by
  rw [attrBytes_cons, attrBytes_nil, append_nil]
  rfl

theorem xattrAnswer_eq (list : AttrList attrs) (held : (xattrBytes cn).getD [] = attrBytes attrs)
    (buflen : Nat) :
    xattrAnswer cn name buflen =
      match attrMap attrs name with
      | none => .error .enoent
      | some value => .ok (value.take buflen, value.length) := by
  have isValue : (xattrBytes cn).bind (attrValue · name) = attrMap attrs name := by
    rw [← attrValue_eq_attrMap list.ok, ← held]
    cases xattrBytes cn with
    | none => rfl
    | some bytes => rfl
  unfold xattrAnswer
  generalize attrMap attrs name = mapped at isValue
  subst isValue
  cases (xattrBytes cn).bind (attrValue · name) with
  | none => rfl
  | some value => rfl

end Lists

/-! ## Rewriting the item -/

/-- Apart from the XATTR item and the checksum the cnodes agree. -/
structure Cnode.XattrOnly (cn cn' : Cnode) : Prop where
  items : otherItems .xattr cn'.items = otherItems .xattr cn.items
  fields : { cn' with items := [], crc32c := 0 } = { cn with items := [], crc32c := 0 }

/-- The cnode after its records have been replaced. -/
structure Cnode.Rewrites (bs : Nat) (cn cn' : Cnode) (bytes : List UInt8) :
    Prop where
  held : (xattrBytes cn').getD [] = bytes
  only : cn.XattrOnly cn'
  single : itemCount .xattr cn'.items ≤ 1
  fits : itemBytes cn'.items ≤ bs - cnodeItemsOff
  checked : Block.crcOk bs (.cnode cn') = true

section Rewrite

variable {bs : Nat} {cn resized : Cnode} {name bytes : List UInt8}

theorem putItem_gapClosed (payload : Payload) :
    { gapClosed cn name with
      items := putItem .xattr payload (gapClosed cn name).items } =
      { cn with items := putItem .xattr payload cn.items } := by
  unfold gapClosed
  split
  · rfl
  · split
    · rfl
    · simp [setXattrBytes]

theorem itemRemove_gapClosed : itemRemove (gapClosed cn name) .xattr = itemRemove cn .xattr := by
  unfold gapClosed
  split
  · rfl
  · split
    · rfl
    · simp [setXattrBytes, itemRemove]

variable (single : itemCount .xattr cn.items ≤ 1)
include single

theorem Cnode.Rewrites.of_resize
    (done : itemResize bs (gapClosed cn name) .xattr (.bytes bytes) = .ok resized) :
    cn.Rewrites bs (resized.sealed bs) bytes := by
  obtain ⟨isResized, fits⟩ := itemResize_ok done
  rw [putItem_gapClosed] at isResized
  subst isResized
  refine ⟨?_, ⟨otherItems_putItem, rfl⟩, itemCount_putItem single, fits, Cnode.crcOk_sealed ..⟩
  have isItem := xattrBytes_setXattrBytes cn bytes
  unfold xattrBytes itemFind setXattrBytes at isItem
  unfold xattrBytes itemFind Cnode.sealed
  rw [isItem]
  rfl

theorem Cnode.Rewrites.of_remove (fits : itemBytes cn.items ≤ bs - cnodeItemsOff) :
    cn.Rewrites bs ((itemRemove cn .xattr).sealed bs) [] := by
  refine ⟨?_, ⟨otherItems_dropItem, rfl⟩, ?_,
    itemBytes_dropItem_le.trans fits, Cnode.crcOk_sealed ..⟩
  · have none : (dropItem .xattr cn.items).find? (fun item => item.kind == .xattr) = none := by
      have gone := itemCount_dropItem single
      unfold itemCount at gone
      rw [countP_eq_zero] at gone
      exact List.find?_eq_none.mpr gone
    simp [xattrBytes, itemFind, itemRemove, Cnode.sealed, none]
  · exact (itemCount_dropItem single).trans_le (Nat.zero_le 1)

theorem Cnode.Rewrites.of_removed (fits : itemBytes cn.items ≤ bs - cnodeItemsOff)
    (removed : XattrRemoved bs cn name resized) :
    cn.Rewrites bs (resized.sealed bs) (keptBytes cn name) := by
  rcases removed with ⟨isEmpty, rfl⟩ | ⟨-, done⟩
  · rw [isEmpty, itemRemove_gapClosed]
    exact .of_remove single fits
  · exact .of_resize single done

end Rewrite

/-! ## Successful calls -/

/-- The mount after a call that rewrote one cnode. -/
structure Recorded (m after : Mount) (cnode : Nat) (cn : Cnode) : Prop where
  idle : Idle after
  fixed : after.fixed = m.fixed
  start : after.sb.journalStart = m.sb.journalStart
  image : after.view cnode = .cnode cn
  others : ∀ {block}, ¬ InJournal m block → block ≠ 0 → block ≠ cnode →
      after.view block = m.view block

variable {body : Fs Unit}

section Success

variable {m after : Mount} {cnode : Nat} {cn cn' : Cnode}
  {attrs : List Attr} {name value : List UInt8}
  {failed : Err → Shadow → Prop}

theorem recorded_of_bracket {good : Cnode → Prop} (idle : Idle m) (intact : Intact m cnode cn)
    (holds : ∀ {s : Shadow}, s.Holding m cnode cn → s.wp body (fun _ after =>
            s.Done after ∧ ∃ cn', good cn' ∧
              s.Shows cnode (cn'.sealed m.blockSize) after)
          failed) (done : bracket (onCnode m.blockSize cnode body) m = (.ok (), after)) :
    ∃ cn', good cn' ∧ Recorded m after cnode (cn'.sealed m.blockSize) := by
  have notJournal : ¬ InJournal m 0 := by
    have := idle.start
    unfold InJournal
    omega
  have spec := @wp_bracket ∅ m Unit (onCnode m.blockSize cnode body) (fun _ s => ∃ cn', good cn' ∧
      s.view cnode = .cnode (cn'.sealed m.blockSize) ∧ s.sb.journalStart = m.sb.journalStart ∧
      (∀ {block}, block ∈ s.loose → InJournal m block) ∧
      ∀ {block}, ¬ InJournal m block → block ≠ 0 → block ≠ cnode → s.view block = m.view block)
    (fun _ _ => True) idle ?_
  · obtain ⟨s, ⟨cn', isGood, image, start, loose, others⟩, closes⟩ := Action.wp_ok spec done
    refine ⟨cn', isGood, ?_⟩
    have sameJournal (block : Nat) : InJournal after block ↔ InJournal m block := by
      have sameLog : after.jLogBlocks = m.jLogBlocks := (congrArg Mount.jLogBlocks closes.fixed :)
      unfold InJournal
      rw [closes.sb, start, sameLog]
    have firm {block : Nat} (outside : ¬ InJournal m block) :
        block ∉ s.loose := fun listed => outside (loose listed)
    exact {
      idle :=
        { closes.idle with
          toRests := closes.idle.toRests.mono fun outside listed =>
            absurd ((sameJournal _).mpr (loose listed)) outside }
      fixed := closes.fixed
      start := by rw [closes.sb, start]
      image := by
        rw [closes.view intact.outside (firm intact.outside) intact.place, image]
      others := fun outside notSuper other => by
        rw [closes.view outside (firm outside) notSuper, others outside notSuper other] }
  · intro opened opens
    have holding := opens.holding idle intact
    unfold onCnode
    rw [wp_bind]
    refine wp_mono (opens.wp_cnodeGet idle intact) ?_ nofun
    rintro _ _ rfl
    rw [wp_bind, Shadow.wp_attempt]
    refine wp_mono (holds holding) ?_ ?_
    · rintro _ s ⟨isDone, cn', isGood, shows⟩
      rw [wp_bind, wp_put]
      have start : s.sb.journalStart = m.sb.journalStart := by
        rw [isDone.sb]
        exact holding.start
      have loose {block : Nat} (listed : block ∈ s.loose) :
          InJournal m block := holding.loose (isDone.loose listed)
      refine ⟨⟨cn', isGood, shows.image, start, loose, ?_⟩,
        ⟨?_, fun listed => notJournal (loose listed)⟩, start⟩
      · intro block outside notSuper other
        exact (shows.others other).trans (opens.view outside (Set.notMem_empty block) notSuper)
      · rw [Shadow.unpin_pins, isDone.pins, holding.pins]
        simp
    · intro code s _
      rw [wp_bind, wp_put]
      trivial

/--
A cnode of a mounted volume at rest with the attributes it holds, packed in
its only XATTR item.
-/
structure Carries (m : Mount) (cnode : Nat) (cn : Cnode) (attrs : List Attr) :
    Prop where
  steady : Steady m
  mounted : m.mounted = true
  outside : m.inTxn = false
  intact : Intact m cnode cn
  list : AttrList attrs
  held : (xattrBytes cn).getD [] = attrBytes attrs
  single : itemCount .xattr cn.items ≤ 1

/--
The cnode keeps its fields and its other items, and every other block of the
volume outside the journal and the superblock keeps its image.
-/
structure Untouched (m after : Mount) (cnode : Nat) (cn cn' : Cnode) :
    Prop where
  only : cn.XattrOnly cn'
  journal : ∀ block, InJournal after block ↔ InJournal m block
  blocks : ∀ {block}, ¬ InJournal m block → block ≠ 0 → block ≠ cnode →
      after.view block = m.view block

theorem Untouched.refl (m : Mount) (cnode : Nat) (cn : Cnode) : Untouched m m cnode cn cn :=
  ⟨⟨rfl, rfl⟩, fun _ => Iff.rfl, fun _ _ _ => rfl⟩

theorem Untouched.trans {mid : Mount} {cnMid : Cnode} (first : Untouched m mid cnode cn cnMid)
    (second : Untouched mid after cnode cnMid cn') : Untouched m after cnode cn cn' where
  only := ⟨second.only.items.trans first.only.items, second.only.fields.trans first.only.fields⟩
  journal := fun block => (second.journal block).trans (first.journal block)
  blocks := fun outside notSuper other =>
    (second.blocks (fun listed => outside ((first.journal _).mp listed))
      notSuper other).trans (first.blocks outside notSuper other)

variable (carries : Carries m cnode cn attrs)
include carries

theorem Carries.of_recorded {attrs' : List Attr} (list : AttrList attrs')
    (rewrites : cn.Rewrites m.blockSize cn' (attrBytes attrs'))
    (recorded : Recorded m after cnode cn') :
    Carries after cnode cn' attrs' ∧ Untouched m after cnode cn cn' := by
  have intact := carries.intact
  have sameBs : after.blockSize = m.blockSize := (congrArg Mount.blockSize recorded.fixed :)
  have sameSize : after.bdev.nBlocks = m.bdev.nBlocks :=
    (congrArg (fun mount => mount.bdev.nBlocks) recorded.fixed :)
  have journal (block : Nat) : InJournal after block ↔ InJournal m block := by
    have sameLog : after.jLogBlocks = m.jLogBlocks := (congrArg Mount.jLogBlocks recorded.fixed :)
    unfold InJournal
    rw [recorded.start, sameLog]
  refine ⟨⟨recorded.idle.toRests, recorded.idle.mounted,
    recorded.idle.outside, ?_, list, rewrites.held, rewrites.single⟩,
    ⟨rewrites.only, journal, recorded.others⟩⟩
  exact {
    place := intact.place
    inRange := sameSize ▸ intact.inRange
    outside := fun listed => intact.outside ((journal cnode).mp listed)
    shown := recorded.image
    live :=
      ⟨(congrArg Cnode.blockNo rewrites.only.fields).trans intact.live.blockNo,
        fun zero => intact.live.linked
          ((congrArg Cnode.linkCount rewrites.only.fields).symm.trans zero)⟩
    checked := sameBs ▸ rewrites.checked
    fits := sameBs ▸ rewrites.fits }

theorem Carries.idle_of_bracket (done : bracket body m = (.ok (), after)) : Idle m := by
  refine ⟨carries.steady, carries.mounted, ?_, carries.outside⟩
  by_contra readonly
  rw [bracket_refused (.inr (by simpa using readonly))] at done
  cases done

theorem Carries.set (done : carafsXattrSet cnode name value m = (.ok (), after)) :
    ∃ cn', Carries after cnode cn'
        (otherAttrs name attrs ++ [⟨name, 0, value⟩]) ∧
      Untouched m after cnode cn cn' := by
  unfold carafsXattrSet at done
  by_cases badArgs : xattrNameOk name = false ∨ xattrValueMax < value.length
  · rw [if_pos badArgs] at done
    cases done
  · rw [if_neg badArgs] at done
    obtain ⟨nameOk, short⟩ := not_or.mp badArgs
    have ok : Attr.Ok ⟨name, 0, value⟩ := by
      simp only [xattrNameOk, Bool.not_eq_false, Bool.and_eq_true, decide_eq_true_eq] at nameOk
      exact ⟨nameOk.1, nameOk.2, not_lt.mp short⟩
    have idle := carries.idle_of_bracket done
    obtain ⟨grown, resized, recorded⟩ :=
      recorded_of_bracket idle carries.intact
        (fun holding => holding.wp_xattrSetLocked m.blockSize value) done
    refine ⟨_, carries.of_recorded (carries.list.put ok) ?_ recorded⟩
    have rewrites := Cnode.Rewrites.of_resize carries.single resized
    rwa [keptBytes_eq carries.list carries.held, xattrRecord_eq_attrBytes,
      ← attrBytes_append] at rewrites

theorem Carries.remove (done : carafsXattrRemove cnode name m = (.ok (), after)) :
    ∃ cn', Carries after cnode cn' (otherAttrs name attrs) ∧
      Untouched m after cnode cn cn' := by
  unfold carafsXattrRemove at done
  by_cases badName : (!xattrNameOk name) = true
  · rw [if_pos badName] at done
    cases done
  · rw [if_neg badName] at done
    have idle := carries.idle_of_bracket done
    obtain ⟨removed, isRemoved, recorded⟩ :=
      recorded_of_bracket idle carries.intact
        (fun holding => holding.wp_xattrRemoveLocked carries.intact.fits) done
    refine ⟨_, carries.of_recorded (carries.list.otherAttrs name) ?_ recorded⟩
    have rewrites := Cnode.Rewrites.of_removed carries.single carries.intact.fits isRemoved
    rwa [keptBytes_eq carries.list carries.held] at rewrites

theorem Carries.get (name : List UInt8) (buflen : Nat) :
    (carafsXattrGet cnode name buflen m).1 =
      if xattrNameOk name = false then
        .error .einval
      else
        match attrMap attrs name with
        | none => .error .enoent
        | some value => .ok (value.take buflen, value.length) := by
  cases nameOk : xattrNameOk name with
  | false =>
    unfold carafsXattrGet
    rw [nameOk]
    rfl
  | true =>
    have few : m.txnBlocks.length < cacheMinBlocks := by
      rw [carries.steady.wf.closed carries.outside]
      decide
    rw [(carries.intact.finds carries.steady few).xattrGet
      carries.intact.live carries.mounted nameOk, if_neg (by simp),
      xattrAnswer_eq carries.list carries.held]

end Success

/-! ## Runs -/

/-- An update of the attributes of a cnode. -/
inductive XattrCall where
  | set (name value : List UInt8)
  | remove (name : List UInt8)

/-- The driver's function for an update. -/
def XattrCall.run (cnode : Nat) : XattrCall → M Unit
  | .set name value => carafsXattrSet cnode name value
  | .remove name => carafsXattrRemove cnode name

/-- What the update means for the map from names to values. -/
def XattrCall.apply (held : List UInt8 → Option (List UInt8)) :
    XattrCall → List UInt8 → Option (List UInt8)
  | .set name value => Function.update held name (some value)
  | .remove name => Function.update held name none

/-- Updates one after the other; an error ends the run. -/
def xattrCalls (cnode : Nat) : List XattrCall → M Unit
  | [] => pure ()
  | call :: rest => do
      call.run cnode
      xattrCalls cnode rest

section Runs

variable {m after : Mount} {cnode : Nat} {cn : Cnode} {attrs : List Attr}

theorem Carries.call {call : XattrCall} (carries : Carries m cnode cn attrs)
    (done : call.run cnode m = (.ok (), after)) :
    ∃ cn' attrs', Carries after cnode cn' attrs' ∧
      Untouched m after cnode cn cn' ∧
      attrMap attrs' = call.apply (attrMap attrs) := by
  cases call with
  | set name value =>
    obtain ⟨cn', carries', untouched⟩ := carries.set done
    exact ⟨cn', _, carries', untouched, attrMap_put⟩
  | remove name =>
    obtain ⟨cn', carries', untouched⟩ := carries.remove done
    exact ⟨cn', _, carries', untouched, attrMap_otherAttrs⟩

theorem Carries.calls {calls : List XattrCall} (carries : Carries m cnode cn attrs)
    (done : xattrCalls cnode calls m = (.ok (), after)) :
    ∃ cn' attrs', Carries after cnode cn' attrs' ∧
      Untouched m after cnode cn cn' ∧
      attrMap attrs' = calls.foldl XattrCall.apply (attrMap attrs) := by
  induction calls generalizing m cn attrs with
  | nil =>
    cases done
    exact ⟨cn, attrs, carries, .refl .., rfl⟩
  | cons call rest ih =>
    obtain ⟨_, mid, first, later⟩ := Action.of_bind_ok done
    obtain ⟨cnMid, attrsMid, carriesMid, untouched, isMap⟩ := carries.call first
    obtain ⟨cn', attrs', carries', untouched', isMap'⟩ := ih carriesMid later
    refine ⟨cn', attrs', carries', untouched.trans untouched', ?_⟩
    rw [isMap', isMap, foldl_cons]

/--
After any run of successful updates a cnode's attributes read as the map that
the updates describe, and nothing but its XATTR item has changed.
-/
theorem xattrs_form_finite_map {calls : List XattrCall} (carries : Carries m cnode cn attrs)
    (done : xattrCalls cnode calls m = (.ok (), after)) :
    (∀ name buflen, (carafsXattrGet cnode name buflen after).1 =
      if xattrNameOk name = false then
        .error .einval
      else
        match calls.foldl XattrCall.apply (attrMap attrs) name with
        | none => .error .enoent
        | some value => .ok (value.take buflen, value.length)) ∧
    ∃ cn', after.view cnode = .cnode cn' ∧
      Untouched m after cnode cn cn' := by
  obtain ⟨cn', attrs', carries', untouched, isMap⟩ := carries.calls done
  refine ⟨fun name buflen => ?_, cn', carries'.intact.shown, untouched⟩
  rw [carries'.get, isMap]

/-- One attribute set and another removed on the small volume. -/
theorem xattrs_form_finite_map_twice :
    ∃ after,
      xattrCalls 2051 [.set [99] [7, 8], .remove [97]] attrVolume =
        (.ok (), after) ∧
      (carafsXattrGet 2051 [99] 1 after).1 = .ok ([7], 2) ∧
      (carafsXattrGet 2051 [97] 1 after).1 = .error .enoent ∧
      (carafsXattrGet 2051 [98] 8 after).1 = .ok ([2], 1) := by
  obtain ⟨idle, intact⟩ := attrVolume_intact
  have carries : Carries attrVolume 2051 attrRootSealed [⟨[97], 0, [1]⟩, ⟨[98], 0, [2]⟩] :=
    ⟨idle.toRests, idle.mounted, idle.outside, intact, attrVolume_list, rfl, by decide⟩
  have done : (xattrCalls 2051 [.set [99] [7, 8], .remove [97]] attrVolume).1 = .ok () := by
    decide +kernel
  have reads := (xattrs_form_finite_map carries (Action.outcome_eq done)).1
  exact ⟨_, Action.outcome_eq done, reads [99] 1, reads [97] 1, reads [98] 8⟩

end Runs

end CaraOS.Carafs
