import Mathlib.Algebra.Order.BigOperators.Group.List
import CaraOS.Carafs.AttrRecords
import CaraOS.Carafs.Mkfs

namespace CaraOS.Carafs

/-!
# Failed attribute updates

`Carafs_XattrSet` closes the gap of the record it replaces inside the cached
cnode before it knows that the new record fits.  The cnode has not joined the
transaction by then, so the abort does not drop the edited image: the next
reader finds it in the cache.
-/

open List
open Action (bind_of_ok read_apply wp_attempt wp_bind wp_modify wp_mono)

/-! ## Reading a cnode -/

/-- What `Carafs_XattrGet` reports for a cnode. -/
def xattrAnswer (cn : Cnode) (name : List UInt8) (buflen : Nat) : Except Err (List UInt8 × Nat) :=
  match (xattrBytes cn).bind (attrValue · name) with
  | none => .error .enoent
  | some value => .ok (value.take buflen, value.length)

/-- A get of the block succeeds and finds the cnode. -/
def Finds (m : Mount) (cnode : Nat) (cn : Cnode) : Prop :=
  ∃ fresh after, cacheGet cnode .read m = (.ok fresh, after) ∧ after.cached cnode = .cnode cn ∧
    (fresh = true → Block.crcOk m.blockSize (.cnode cn) = true)

/-- The cnode is a live one, written as its block. -/
structure Live (cnode : Nat) (cn : Cnode) : Prop where
  blockNo : cn.blockNo = cnode
  linked : cn.linkCount ≠ 0

section Read

variable {m : Mount} {cnode : Nat} {cn : Cnode}

theorem Finds.cnodeGet (finds : Finds m cnode cn) (live : Live cnode cn) :
    ∃ after, Fs.run (cnodeGet m.blockSize cnode) m = (.ok cn, after) := by
  obtain ⟨fresh, after, got, loaded, checked⟩ := finds
  refine ⟨after, ?_⟩
  unfold CaraOS.Carafs.cnodeGet
  rw [Fs.run_bind, Fs.run_get, bind_of_ok got, Fs.run_bind,
    bind_of_ok (Fs.run_load cnode after), loaded]
  have sound : (fresh && !Block.crcOk m.blockSize (.cnode cn)) = false := by
    cases fresh with
    | false => rfl
    | true => simp [checked rfl]
  simp only [live.blockNo, live.linked, sound, ne_eq, not_true, Bool.false_eq_true, if_false]
  rfl

theorem xattrAnswer_of_bytes {bytes name : List UInt8}
    (item : xattrBytes cn = some bytes) (buflen : Nat) :
    xattrAnswer cn name buflen =
      match xattrFind bytes name with
      | none => .error .enoent
      | some off =>
        .ok ((bytes.drop (off + 4 + byteAt bytes off)).take
          (min (xattrValLen bytes off) buflen),
            xattrValLen bytes off) := by
  unfold xattrAnswer attrValue
  rw [item, Option.bind_some]
  cases found : xattrFind bytes name with
  | none => rfl
  | some off =>
    obtain ⟨fits, -, -⟩ := xattrFindFrom_found found
    unfold xattrRecSize at fits
    simp only [Option.map_some, take_take, length_take, length_drop]
    rw [Nat.min_comm buflen]
    congr 2
    omega

theorem Finds.xattrGet (finds : Finds m cnode cn) (live : Live cnode cn)
    (mounted : m.mounted = true) {name : List UInt8}
    (nameOk : xattrNameOk name = true) (buflen : Nat) :
    (carafsXattrGet cnode name buflen m).1 = xattrAnswer cn name buflen := by
  obtain ⟨after, got⟩ := finds.cnodeGet live
  unfold carafsXattrGet reading
  rw [nameOk, Bool.not_true, if_neg Bool.false_ne_true,
    bind_of_ok (read_apply m), mounted, Bool.not_true,
    if_neg Bool.false_ne_true, Fs.run_bind, bind_of_ok got, Fs.run_bind]
  cases item : xattrBytes cn with
  | none =>
    unfold xattrAnswer
    rw [item]
    rfl
  | some bytes =>
    rw [xattrAnswer_of_bytes item]
    dsimp only
    cases found : xattrFind bytes name <;> rfl

theorem Finds.of_cached (wf : CacheWf m) {e : Ent}
    (cached : m.lookup cnode = some e) (holds : e.data = .cnode cn) : Finds m cnode cn := by
  obtain ⟨after, got, -, sameState⟩ := cacheGet_hit wf cached .read
  have found : after.lookup cnode = some { e with pins := e.pins + 1 } := by
    rw [← state_table, sameState]
    simp [CacheState.put]
  exact ⟨false, after, got, (cached_of_lookup found).trans holds, by simp⟩

theorem Tracks.cached_of_pinned {base : Set Nat} {m₀ : Mount} {s : Shadow}
    (tracks : Tracks base m₀ m s) {block : Nat}
    (pinned : block ∈ s.pins) : ∃ e, m.lookup block = some e ∧ e.data = s.view block := by
  cases found : m.lookup block with
  | none =>
    exact absurd pinned (tracks.shadows.not_mem_pins found)
  | some e =>
    exact ⟨e, rfl, (tracks.shadows block).cached found (.inr pinned)⟩

end Read

/-- An intact cnode of a volume at rest. -/
structure Intact (m : Mount) (cnode : Nat) (cn : Cnode) : Prop where
  place : cnode ≠ 0
  inRange : cnode < m.bdev.nBlocks
  outside : ¬ InJournal m cnode
  shown : m.view cnode = .cnode cn
  live : Live cnode cn
  checked : Block.crcOk m.blockSize (.cnode cn) = true
  fits : itemBytes cn.items ≤ m.blockSize - cnodeItemsOff

section Intact

variable {m : Mount} {cnode : Nat} {cn : Cnode}

theorem Intact.finds (intact : Intact m cnode cn) (steady : Steady m)
    (few : m.txnBlocks.length < cacheMinBlocks) : Finds m cnode cn := by
  obtain ⟨fresh, after, got, image, isView, tracks⟩ :=
    Action.wp_total (wp_get_steady steady few intact.inRange)
  have pinned : cnode ∈ ((m.shadow.see cnode image).pin cnode).pins := by
    simp
  obtain ⟨e, found, holds⟩ := tracks.cached_of_pinned pinned
  refine ⟨fresh, after, got, (cached_of_lookup found).trans ?_, fun _ => intact.checked⟩
  rw [holds]
  simp [isView intact.outside (Set.notMem_empty cnode), intact.shown]

end Intact

/-! ## Code on one pinned cnode -/

/-- Pin a cnode, run code on it, and release it whatever happens. -/
def onCnode (bs cnode : Nat) (body : Fs Unit) : Fs Unit := do
  let _ ← cnodeGet bs cnode
  let outcome ← Fs.attempt body
  Fs.put cnode
  Fs.settle outcome

/-- The shadow of a fresh transaction that has pinned one cnode. -/
structure Shadow.Holding (m : Mount) (cnode : Nat) (cn : Cnode)
    (s : Shadow) : Prop where
  bs : s.bs = m.blockSize
  pins : s.pins = {cnode}
  inside : s.inTxn = true
  txn : s.txn = []
  room : cacheMinBlocks ≤ s.nEnts
  shown : s.view cnode = .cnode cn
  loose : ∀ {block}, block ∈ s.loose → InJournal m block
  start : s.sb.journalStart = m.sb.journalStart

variable {post : Cnode → Shadow → Prop}

section OnCnode

variable {m opened : Mount} {cnode : Nat} {cn : Cnode} {s : Shadow} {failed : Err → Shadow → Prop}

theorem Shadow.wp_cnodeGet (firm : s.Firm cnode) (inRange : cnode < s.nBlocks)
    (notCrowded : ¬ s.Crowded) (shown : s.view cnode = .cnode cn)
    (live : Live cnode cn) (checked : Block.crcOk s.bs (.cnode cn) = true)
    (onSuccess : post cn (s.pin cnode)) : s.wp (cnodeGet s.bs cnode) post failed := by
  unfold cnodeGet
  rw [Shadow.wp_bind]
  refine Shadow.wp_get firm ?_ ?_
  · intro fresh _
    rw [Shadow.wp_bind, Shadow.wp_load (Multiset.mem_cons_self cnode _), Shadow.pin_view, shown]
    simp only [live.blockNo, live.linked, checked, ne_eq, not_true,
      Bool.not_true, Bool.and_false, Bool.false_eq_true, if_false]
    exact onSuccess
  · intro code cause _
    rcases cause with outside | crowded
    · omega
    · exact absurd crowded notCrowded

theorem Opens.holding (idle : Idle m) (intact : Intact m cnode cn) (opens : Opens ∅ m opened) :
    (opened.shadow.pin cnode).Holding m cnode cn where
  bs := (congrArg Mount.blockSize opens.fixed :)
  pins := rfl
  inside := opens.inside
  txn := opens.empty
  room := by
    have lengths := congrArg (fun mount => mount.ents.length) opens.fixed
    have same : opened.ents.length = m.ents.length := by
      simpa [Mount.fixed, Mount.strip, Mount.frame] using lengths
    show cacheMinBlocks ≤ opened.ents.length
    rw [same]
    exact idle.room
  shown :=
    (opens.view intact.outside (Set.notMem_empty cnode) intact.place).trans intact.shown
  loose := fun loose => (opens.sameJournal _).mp (loose.resolve_right (Set.notMem_empty _))
  start := by
    show opened.sb.journalStart = _
    rw [opens.sb]

theorem Opens.wp_cnodeGet (idle : Idle m) (intact : Intact m cnode cn) (opens : Opens ∅ m opened) :
    opened.shadow.wp (cnodeGet m.blockSize cnode)
      (fun _ s => s = opened.shadow.pin cnode) (fun _ _ => False) := by
  have holding := opens.holding idle intact
  have sameBs : opened.blockSize = m.blockSize := (congrArg Mount.blockSize opens.fixed :)
  rw [← sameBs]
  refine Shadow.wp_cnodeGet (s := opened.shadow) ?_ ?_ ?_ holding.shown intact.live ?_ rfl
  · exact .inl fun loose => intact.outside (holding.loose loose)
  · have sameSize : opened.bdev.nBlocks = m.bdev.nBlocks :=
      (congrArg (fun mount => mount.bdev.nBlocks) opens.fixed :)
    show cnode < opened.bdev.nBlocks
    rw [sameSize]
    exact intact.inRange
  · apply opens.steady.notCrowded
    rw [opens.empty]
    decide
  · show Block.crcOk opened.blockSize _ = true
    rw [sameBs]
    exact intact.checked

/-- A body that ended well: at most the cnode has joined the transaction. -/
structure Shadow.Done (s after : Shadow) : Prop where
  pins : after.pins = s.pins
  loose : after.loose ⊆ s.loose
  txn : after.txn.length ≤ 1
  sb : after.sb = s.sb
  nEnts : after.nEnts = s.nEnts

theorem Shadow.not_full (unpinned : s.pins = 0) (small : s.txn.length ≤ 1)
    (room : cacheMinBlocks ≤ s.nEnts) : ¬ s.Full := by
  rintro (crowded | full)
  · unfold Shadow.Crowded at crowded
    rw [unpinned, Multiset.card_zero] at crowded
    unfold cacheMinBlocks at room
    omega
  · unfold txnMaxBlocks at full
    omega

/--
A mutating call on one cnode fails only where its body does, and leaves the
cnode in the cache as the body left it.
-/
theorem wp_bracket_onCnode {body : Fs Unit} (idle : Idle m) (intact : Intact m cnode cn)
    (holds : ∀ {s : Shadow}, s.Holding m cnode cn → s.wp body (fun _ after => s.Done after)
          (fun code after =>
            failed code after ∧ cnode ∈ after.pins ∧ after.txn = [])) :
    Action.wp (bracket (onCnode m.blockSize cnode body))
      (fun _ _ => True)
      (fun code after =>
        ∃ s e, failed code s ∧ CacheWf after ∧
          after.lookup cnode = some e ∧ e.data = s.view cnode ∧
          after.mounted = m.mounted)
      m := by
  unfold bracket
  rw [wp_bind]
  refine wp_mono (wp_opBegin idle) ?_ nofun
  intro _ opened opens
  have holding := opens.holding idle intact
  have got := opens.wp_cnodeGet idle intact
  rw [wp_bind, wp_attempt]
  unfold onCnode
  rw [Fs.run_bind, wp_bind]
  refine wp_mono (opens.steady.tracks.run got) ?_ ?_
  · rintro _ pinned ⟨_, rfl, pinnedTracks⟩
    rw [Fs.run_bind, Fs.run_attempt, wp_bind, wp_attempt]
    refine wp_mono (pinnedTracks.run (holds holding)) ?_ ?_
    · rintro _ done ⟨s, isDone, doneTracks⟩
      rw [Fs.run_bind, Fs.run_put, wp_bind, wp_modify, Fs.run_settle, Action.wp_settle_ok]
      have putTracks : Tracks opened.unhomed opened (cachePut cnode done) (s.unpin cnode) :=
        doneTracks.edit (.put cnode) (cachePut_follows doneTracks.wf.toCacheWf cnode) rfl rfl
          (doneTracks.shadows.unpin cnode)
      have unpinned : (s.unpin cnode).pins = 0 := by
        rw [Shadow.unpin_pins, isDone.pins, holding.pins]
        simp
      have notJournal : ¬ InJournal m 0 := by
        have := idle.start
        unfold InJournal
        omega
      have quiet : (s.unpin cnode).Quiet :=
        ⟨unpinned, fun loose =>
          notJournal (holding.loose (isDone.loose loose))⟩
      have start : (s.unpin cnode).sb.journalStart = m.sb.journalStart := by
        show s.sb.journalStart = _
        rw [isDone.sb]
        exact holding.start
      have notFull : ¬ (s.unpin cnode).Full :=
        Shadow.not_full unpinned isDone.txn (isDone.nEnts ▸ holding.room)
      rw [wp_bind]
      refine wp_mono (wp_opCommit idle opens putTracks start quiet) ?_ ?_
      · intro _ _ _
        trivial
      · rintro _ _ ⟨full, -⟩
        exact absurd full notFull
    · rintro code stopped ⟨s, ⟨reached, isPinned, noTxn⟩, stoppedTracks⟩
      rw [Fs.run_bind, Fs.run_put, wp_bind, wp_modify, Fs.run_settle, Action.wp_settle_error]
      dsimp only
      rw [wp_bind, wp_modify, Action.wp_fail]
      obtain ⟨e, cached, isView⟩ := stoppedTracks.cached_of_pinned isPinned
      obtain ⟨putFollows, putState⟩ := cachePut_follows stoppedTracks.wf.toCacheWf cnode
      obtain ⟨abortFollows, abortState⟩ := txnAbort_follows putFollows.wf
      have noBlocks : (cachePut cnode stopped).txnBlocks = [] := by
        rw [putFollows.txnBlocks, ← stoppedTracks.txn, noTxn]
      have found : (opAbort (cachePut cnode stopped)).lookup cnode =
          some { e with pins := e.pins - 1 } := by
        show (txnAbort (cachePut cnode stopped)).state.table cnode = _
        rw [abortState, noBlocks, putState]
        simp [CacheState.drop, CacheState.put, cached]
      refine ⟨s, _, reached, abortFollows.wf.of_same_table rfl rfl rfl, found, isView, ?_⟩
      have abortSame : (txnAbort (cachePut cnode stopped)).mounted =
          (cachePut cnode stopped).mounted :=
        (congrArg Mount.mounted abortFollows.frame :)
      have putSame : (cachePut cnode stopped).mounted = stopped.mounted :=
        (congrArg Mount.mounted putFollows.frame :)
      have bodySame : stopped.mounted = opened.mounted :=
        (congrArg Mount.mounted stoppedTracks.core :)
      have openSame : opened.mounted = m.mounted := (congrArg Mount.mounted opens.fixed :)
      show (txnAbort (cachePut cnode stopped)).mounted = _
      rw [abortSame, putSame, bodySame, openSame]
  · rintro _ _ ⟨_, impossible, _⟩
    exact impossible.elim

end OnCnode

/-! ## The two updates -/

def gapClosed (cn : Cnode) (name : List UInt8) : Cnode :=
  match xattrBytes cn with
  | none => cn
  | some bytes =>
    match xattrFind bytes name with
    | none => cn
    | some off =>
      setXattrBytes cn (closeGap bytes off (xattrRecSize bytes off))

/-- The records that still count after the one for a name is dropped. -/
def keptBytes (cn : Cnode) (name : List UInt8) : List UInt8 :=
  match xattrBytes cn with
  | none => []
  | some bytes =>
    match xattrFind bytes name with
    | none => bytes
    | some off =>
      (closeGap bytes off (xattrRecSize bytes off)).take (bytes.length - xattrRecSize bytes off)

/-- The cnode shows a new image, and every other block its old one. -/
structure Shadow.Shows (s : Shadow) (cnode : Nat) (cn : Cnode)
    (after : Shadow) : Prop where
  image : after.view cnode = .cnode cn
  others : ∀ {block}, block ≠ cnode → after.view block = s.view block

/-- Only the image of one pinned cnode differs. -/
structure Shadow.Edited (s : Shadow) (cnode : Nat) (cn : Cnode) (after : Shadow) : Prop
    extends s.Shows cnode cn after where
  pins : after.pins = s.pins
  txn : after.txn = s.txn
  inTxn : after.inTxn = s.inTxn
  sb : after.sb = s.sb
  nEnts : after.nEnts = s.nEnts
  loose : after.loose ⊆ insert cnode s.loose

section Items

variable {cn : Cnode} {name : List UInt8}

theorem itemFind_putItem (cn : Cnode) (kind : ItemKind) (payload : Payload) :
    itemFind { cn with items := putItem kind payload cn.items } kind = some payload := by
  unfold itemFind
  induction cn.items with
  | nil =>
    simp [putItem]
  | cons item rest ih =>
    unfold putItem
    split
    · rename_i same
      simp [same]
    · rename_i other
      rwa [List.find?_cons_of_neg (by simpa using other)]

theorem itemBytes_putItem {items : List Item} {kind : ItemKind} {old payload : Payload}
    (found : (items.find? fun item => item.kind == kind).map Item.payload = some old) :
    itemBytes (putItem kind payload items) + itemStride old.len =
      itemBytes items + itemStride payload.len := by
  induction items with
  | nil =>
    simp at found
  | cons item rest ih =>
    unfold putItem
    split
    · rename_i here
      rw [List.find?_cons_of_pos (by simpa using here)] at found
      simp only [Option.map_some, Option.some.injEq] at found
      simp only [itemBytes, map_cons, sum_cons, found]
      omega
    · rename_i other
      rw [List.find?_cons_of_neg (by simpa using other)] at found
      have later := ih found
      simp only [itemBytes, map_cons, sum_cons] at later ⊢
      omega

theorem itemStride_mono {first second : Nat} (shorter : first ≤ second) :
    itemStride first ≤ itemStride second := by
  unfold itemStride align8
  omega

theorem itemStride_le_itemBytes {kind : ItemKind} {old : Payload}
    (found : itemFind cn kind = some old) : itemStride old.len ≤ itemBytes cn.items := by
  unfold itemFind at found
  rw [Option.map_eq_some_iff] at found
  obtain ⟨item, isFirst, rfl⟩ := found
  exact single_le_sum (by simp) _ (mem_map_of_mem (mem_of_find?_eq_some isFirst))

theorem Dirent.image_length (entry : Dirent) : entry.image.length = entry.stride := by
  simp only [Dirent.image, padTo, length_append, leBytes_length,
    length_replicate, length_cons, length_nil]
  unfold Dirent.stride direntStride align8 direntBase
  omega

theorem Payload.content_length (payload : Payload) : payload.content.length = payload.len := by
  cases payload with
  | bytes content => rfl
  | dirents entries =>
    simp only [Payload.content, Payload.len, direntsBytes, length_flatten, map_map]
    congr 2
    funext entry
    exact entry.image_length

theorem xattrBytes_setXattrBytes (cn : Cnode) (bytes : List UInt8) :
    xattrBytes (setXattrBytes cn bytes) = some bytes := by
  unfold xattrBytes setXattrBytes
  rw [itemFind_putItem]
  rfl

theorem itemResize_setXattrBytes {bs : Nat} (fits : itemBytes cn.items ≤ bs - cnodeItemsOff)
    {old : Payload} (item : itemFind cn .xattr = some old) {bytes base : List UInt8}
    (same : bytes.length = old.len) (shorter : base.length ≤ old.len) :
    ∃ shrunk, itemResize bs (setXattrBytes cn bytes) .xattr (.bytes base) = .ok shrunk := by
  unfold itemResize setXattrBytes
  rw [itemFind_putItem, if_neg]
  · exact ⟨_, rfl⟩
  · dsimp only
    have total := @itemBytes_putItem cn.items .xattr old (.bytes bytes) item
    have sameStride : itemStride (Payload.bytes bytes).len = itemStride old.len :=
      congrArg itemStride same
    have newStride : itemStride (Payload.bytes base).len ≤ itemStride old.len :=
      itemStride_mono shorter
    have counted := itemStride_le_itemBytes item
    omega

theorem itemResize_gapClosed {bs : Nat} (fits : itemBytes cn.items ≤ bs - cnodeItemsOff)
    (present : ¬ ((xattrBytes cn).bind (xattrFind · name)).isNone = true) {base : List UInt8}
    (shorter : ∀ {bytes}, xattrBytes cn = some bytes → base.length ≤ bytes.length) :
    ∃ shrunk, itemResize bs (gapClosed cn name) .xattr (.bytes base) = .ok shrunk := by
  cases item : itemFind cn .xattr with
  | none =>
    simp [xattrBytes, item] at present
  | some old =>
    have bytes : xattrBytes cn = some old.content := by
      simp [xattrBytes, item]
    have short := shorter bytes
    rw [bytes] at present
    unfold gapClosed
    cases found : xattrFind old.content name with
    | none =>
      simp [found] at present
    | some off =>
      simp only [bytes, found]
      rw [Payload.content_length] at short
      refine itemResize_setXattrBytes fits item ?_ short
      rw [← Payload.content_length]
      simp only [closeGap, length_append, length_take, length_drop]
      omega

end Items

section Updates

variable {m : Mount} {cnode : Nat} {cn cn' : Cnode} {s after : Shadow}
  {failed : Err → Shadow → Prop} {name : List UInt8}

theorem keptBytes_length_le {bytes : List UInt8} (item : xattrBytes cn = some bytes) :
    (keptBytes cn name).length ≤ bytes.length := by
  unfold keptBytes
  simp only [item]
  cases xattrFind bytes name with
  | none => exact le_rfl
  | some off =>
    rw [length_take]
    omega

theorem Shadow.Edited.refl (shown : s.view cnode = .cnode cn) : s.Edited cnode cn s :=
  ⟨⟨shown, fun _ => rfl⟩, rfl, rfl, rfl, rfl, rfl, Set.subset_insert cnode s.loose⟩

theorem Shadow.Edited.store (edited : s.Edited cnode cn after) (cn' : Cnode) :
    s.Edited cnode cn' (after.stored cnode (.cnode cn')) where
  image := by simp
  others := fun other => by simp [other, edited.others other]
  pins := edited.pins
  txn := edited.txn
  inTxn := edited.inTxn
  sb := edited.sb
  nEnts := edited.nEnts
  loose := Set.insert_subset (Set.mem_insert cnode s.loose) edited.loose

theorem Shadow.wp_loadCnode (pinned : cnode ∈ s.pins) (shown : s.view cnode = .cnode cn)
    (onSuccess : post cn s) : s.wp (loadCnode cnode) post failed := by
  unfold loadCnode
  rwa [Shadow.wp_bind, Shadow.wp_load pinned, shown]

theorem Shadow.Edited.wp_cnodeDirty (edited : s.Edited cnode cn after)
    (pinned : cnode ∈ s.pins) (inside : s.inTxn = true) (noTxn : s.txn = []) (bs : Nat) :
    after.wp (cnodeDirty bs cnode)
      (fun _ last => s.Done last ∧ s.Shows cnode (cn.sealed bs) last)
      failed := by
  have pinned' : cnode ∈ after.pins := edited.pins ▸ pinned
  have empty : after.txn = [] := edited.txn.trans noTxn
  unfold cnodeDirty
  rw [Shadow.wp_bind]
  refine Shadow.wp_loadCnode pinned' edited.image ?_
  rw [Shadow.wp_bind, Shadow.wp_store pinned']
  refine Shadow.wp_txnDirty pinned' (edited.inTxn.trans inside) (fun _ => ?_) ?_
  · refine ⟨⟨edited.pins, ?_, ?_, edited.sb, edited.nEnts⟩, ?_⟩
    · rintro block ⟨rfl | loose, other⟩
      · exact absurd rfl other
      · exact (edited.loose loose).resolve_left other
    · show (if cnode ∈ after.txn then after.txn
        else after.txn ++ [cnode]).length ≤ 1
      rw [empty]
      simp
    · have stored := edited.store (cn.sealed bs)
      exact ⟨stored.image, stored.others⟩
  · intro _ full
    have impossible : txnMaxBlocks ≤ after.txn.length := full
    rw [empty] at impossible
    exact absurd impossible (by decide)

theorem Shadow.wp_dropRecord {post : List UInt8 → Shadow → Prop}
    (pinned : cnode ∈ s.pins) (shown : s.view cnode = .cnode cn)
    (onSuccess : ∀ {after}, s.Edited cnode (gapClosed cn name) after →
        post (keptBytes cn name) after) : s.wp (dropRecord cnode cn name) post failed := by
  unfold dropRecord
  unfold gapClosed keptBytes at onSuccess
  cases item : xattrBytes cn with
  | none =>
    simp only [item] at onSuccess
    exact onSuccess (.refl shown)
  | some bytes =>
    simp only [item] at onSuccess
    dsimp only
    cases found : xattrFind bytes name with
    | none =>
      simp only [found] at onSuccess
      exact onSuccess (.refl shown)
    | some off =>
      simp only [found] at onSuccess
      rw [Shadow.wp_bind, Shadow.wp_store pinned]
      exact onSuccess ((Shadow.Edited.refl shown).store _)

/--
`Carafs_XattrSet` leaves the kept records and the new one.  Where it fails, the
gap is closed and nothing has joined the transaction.
-/
theorem Shadow.Holding.wp_xattrSetLocked
    (holding : s.Holding m cnode cn) (bs : Nat) (value : List UInt8) :
    s.wp (xattrSetLocked bs cnode name value)
      (fun _ after =>
        s.Done after ∧ ∃ grown,
          itemResize bs (gapClosed cn name) .xattr
              (.bytes (keptBytes cn name ++ xattrRecord name value)) =
            .ok grown ∧
          s.Shows cnode (grown.sealed bs) after)
      (fun _ after =>
        after.view cnode = .cnode (gapClosed cn name) ∧
          cnode ∈ after.pins ∧ after.txn = []) := by
  have pinned : cnode ∈ s.pins := by
    rw [holding.pins]
    simp
  unfold xattrSetLocked
  rw [Shadow.wp_bind]
  refine Shadow.wp_loadCnode pinned holding.shown ?_
  rw [Shadow.wp_bind]
  refine Shadow.wp_dropRecord pinned holding.shown ?_
  intro after edited
  have stopped : after.view cnode = .cnode (gapClosed cn name) ∧
        cnode ∈ after.pins ∧ after.txn = [] :=
    ⟨edited.image, edited.pins ▸ pinned, edited.txn.trans holding.txn⟩
  dsimp only
  split
  · exact stopped
  rw [Shadow.wp_bind]
  refine Shadow.wp_loadCnode stopped.2.1 edited.image ?_
  rw [Shadow.wp_bind]
  cases resized : itemResize bs (gapClosed cn name) .xattr
      (.bytes (keptBytes cn name ++ xattrRecord name value)) with
  | error code =>
    exact stopped
  | ok grown =>
    rw [Shadow.wp_settle_ok, Shadow.wp_bind, Shadow.wp_store stopped.2.1]
    refine Shadow.wp_imp ((edited.store grown).wp_cnodeDirty
      pinned holding.inside holding.txn bs) ?_
    exact fun _ _ ⟨done, rewritten⟩ => ⟨done, grown, rfl, rewritten⟩

/-- The cnode `Carafs_XattrRemove` leaves. -/
def XattrRemoved (bs : Nat) (cn : Cnode) (name : List UInt8) (removed : Cnode) : Prop :=
  (keptBytes cn name = [] ∧ removed = itemRemove (gapClosed cn name) .xattr) ∨
  (keptBytes cn name ≠ [] ∧ itemResize bs (gapClosed cn name) .xattr (.bytes (keptBytes cn name)) =
      .ok removed)

/--
`Carafs_XattrRemove` leaves the kept records.  Where it fails, the cnode is as
it was.
-/
theorem Shadow.Holding.wp_xattrRemoveLocked (holding : s.Holding m cnode cn) {bs : Nat}
    (fits : itemBytes cn.items ≤ bs - cnodeItemsOff) :
    s.wp (xattrRemoveLocked bs cnode name)
      (fun _ after =>
        s.Done after ∧ ∃ removed, XattrRemoved bs cn name removed ∧
          s.Shows cnode (removed.sealed bs) after)
      (fun _ after =>
        after.view cnode = .cnode cn ∧
          cnode ∈ after.pins ∧ after.txn = []) := by
  have pinned : cnode ∈ s.pins := by
    rw [holding.pins]
    simp
  unfold xattrRemoveLocked
  rw [Shadow.wp_bind]
  refine Shadow.wp_loadCnode pinned holding.shown ?_
  by_cases absent : ((xattrBytes cn).bind (xattrFind · name)).isNone = true
  · rw [if_pos absent]
    exact ⟨holding.shown, pinned, holding.txn⟩
  · rw [if_neg absent, Shadow.wp_bind]
    refine Shadow.wp_dropRecord pinned holding.shown ?_
    intro after edited
    have pinned' : cnode ∈ after.pins := edited.pins ▸ pinned
    rw [Shadow.wp_bind]
    refine Shadow.wp_loadCnode pinned' edited.image ?_
    have finish {removed : Cnode} (isRemoved : XattrRemoved bs cn name removed) :
        (after.stored cnode (.cnode removed)).wp (cnodeDirty bs cnode) (fun _ last =>
            s.Done last ∧ ∃ removed, XattrRemoved bs cn name removed ∧
              s.Shows cnode (removed.sealed bs) last)
          (fun _ last => last.view cnode = .cnode cn ∧ cnode ∈ last.pins ∧ last.txn = []) := by
      refine Shadow.wp_imp ((edited.store removed).wp_cnodeDirty
        pinned holding.inside holding.txn bs) ?_
      exact fun _ _ ⟨done, rewritten⟩ =>
        ⟨done, removed, isRemoved, rewritten⟩
    split
    · rename_i isEmpty
      rw [Shadow.wp_bind, Shadow.wp_store pinned']
      exact finish (.inl ⟨isEmpty, rfl⟩)
    · rename_i notEmpty
      obtain ⟨shrunk, resized⟩ := itemResize_gapClosed fits absent keptBytes_length_le
      rw [Shadow.wp_bind, resized, Shadow.wp_settle_ok, Shadow.wp_bind, Shadow.wp_store pinned']
      exact finish (.inr ⟨notEmpty, resized⟩)

end Updates

/-! ## Failed calls -/

structure HoldsAttrs (m : Mount) (cnode : Nat) (attrs : List Attr) :
    Prop where
  steady : Steady m
  outside : m.inTxn = false
  list : AttrList attrs
  held : ∃ cn, Intact m cnode cn ∧ (xattrBytes cn).getD [] = attrBytes attrs

/-- Every attribute of the cnode reads the same on both mounts. -/
def SameAttrs (cnode : Nat) (m after : Mount) : Prop :=
  ∀ query buflen, (carafsXattrGet cnode query buflen after).1 =
      (carafsXattrGet cnode query buflen m).1

/--
The call is refused before it looks at the cnode, or there is no record to
drop, or the dropped record stands at the end of the payload as well.
-/
def Spared (m : Mount) (attrs : List Attr) (name value : List UInt8) : Prop :=
  m.mounted = false ∨ m.readonly = true ∨ xattrValueMax < value.length ∨
    ∀ attr ∈ attrs, attr.name = name → Reappears attrs attr

variable {code : Err}

section Failed

variable {m after : Mount} {cnode : Nat} {cn cn' : Cnode}
  {attrs : List Attr} {name value : List UInt8}

/-- Two cnodes hold the same attributes. -/
def SameValues (cn cn' : Cnode) : Prop :=
  ∀ query, xattrNameOk query = true → (xattrBytes cn').bind (attrValue · query) =
      (xattrBytes cn).bind (attrValue · query)

theorem xattrAnswer_inj {query : List UInt8}
    (same : ∀ buflen, xattrAnswer cn' query buflen = xattrAnswer cn query buflen) :
    (xattrBytes cn').bind (attrValue · query) =
      (xattrBytes cn).bind (attrValue · query) := by
  unfold xattrAnswer at same
  cases first : (xattrBytes cn').bind (attrValue · query) with
  | none =>
    cases second : (xattrBytes cn).bind (attrValue · query) with
    | none => rfl
    | some _ => simp [first, second] at same
  | some firstValue =>
    cases second : (xattrBytes cn).bind (attrValue · query) with
    | none => simp [first, second] at same
    | some secondValue =>
      have whole := same (firstValue.length + secondValue.length)
      simp only [first, second, Except.ok.injEq, Prod.mk.injEq] at whole
      rw [take_of_length_le (by omega), take_of_length_le (by omega)] at whole
      rw [whole.1]

theorem sameAttrs_iff (finds : Finds m cnode cn) (live : Live cnode cn)
    (mounted : m.mounted = true) (finds' : Finds after cnode cn')
    (live' : Live cnode cn') (mounted' : after.mounted = true) :
    SameAttrs cnode m after ↔ SameValues cn cn' := by
  constructor
  · intro same query nameOk
    apply xattrAnswer_inj
    intro buflen
    have answers := same query buflen
    rwa [finds.xattrGet live mounted nameOk, finds'.xattrGet live' mounted' nameOk] at answers
  · intro same query buflen
    cases nameOk : xattrNameOk query with
    | false =>
      unfold carafsXattrGet
      simp [nameOk]
    | true =>
      rw [finds.xattrGet live mounted nameOk, finds'.xattrGet live' mounted' nameOk]
      unfold xattrAnswer
      rw [same query nameOk]

theorem gapClosed_of_absent
    (list : AttrList attrs) (held : (xattrBytes cn).getD [] = attrBytes attrs)
    (absent : ∀ attr ∈ attrs, attr.name ≠ name) : gapClosed cn name = cn := by
  unfold gapClosed
  cases item : xattrBytes cn with
  | none => rfl
  | some bytes =>
    rw [item, Option.getD_some] at held
    have missing : xattrFind bytes name = none := by
      rw [held, ← append_nil (attrBytes attrs), xattrFind_attrBytes list.ok absent]
      rfl
    simp only [missing]

theorem sameValues_gapClosed_iff
    (list : AttrList attrs) (held : (xattrBytes cn).getD [] = attrBytes attrs) :
    SameValues cn (gapClosed cn name) ↔
      ∀ attr ∈ attrs, attr.name = name → Reappears attrs attr := by
  by_cases absent : ∀ attr ∈ attrs, attr.name ≠ name
  · rw [gapClosed_of_absent list held absent]
    constructor
    · intro _ attr listed isName
      exact absurd isName (absent attr listed)
    · intro _ query _
      rfl
  · push Not at absent
    obtain ⟨attr, listed, rfl⟩ := absent
    obtain ⟨before, later, rfl⟩ := append_of_mem listed
    obtain ⟨found, size⟩ := list.find
    have attrOk := list.ok attr listed
    have item : xattrBytes cn = some (attrBytes (before ++ attr :: later)) := by
      cases item : xattrBytes cn with
      | none =>
        have length := congrArg List.length held
        rw [item] at length
        simp [Attr.size] at length
        omega
      | some bytes =>
        rw [item, Option.getD_some] at held
        rw [held]
    have closed : xattrBytes (gapClosed cn attr.name) =
        some (closeGap (attrBytes (before ++ attr :: later))
          (attrBytes before).length attr.size) := by
      unfold gapClosed
      simp only [item, found, size]
      exact xattrBytes_setXattrBytes ..
    unfold SameValues
    rw [item, closed]
    constructor
    · intro same other otherListed isName
      have only : other = attr := inj_on_of_nodup_map list.nodup otherListed listed isName
      rw [only]
      refine list.reappears (same attr.name ?_)
      have nonempty := attrOk.nonempty
      have short := attrOk.name
      simp [xattrNameOk, nonempty, short]
    · intro reappears query _
      exact list.kept (reappears attr listed rfl) query

theorem Live.gapClosed (live : Live cnode cn) : Live cnode (gapClosed cn name) := by
  unfold CaraOS.Carafs.gapClosed
  split
  · exact live
  · split
    · exact live
    · exact ⟨live.blockNo, live.linked⟩

theorem bracket_refused {α : Type} {body : Fs α} (refused : m.mounted = false ∨ m.readonly = true) :
    bracket body m = (.error .einval, m) := by
  unfold bracket
  rw [Action.bind_of_error (opBegin_refused refused)]

theorem failed_onCnode_finds {body : Fs Unit} {done : Shadow → Shadow → Prop}
    (idle : Idle m) (intact : Intact m cnode cn) (holds : ∀ {s : Shadow}, s.Holding m cnode cn →
        s.wp body (fun _ after => s.Done after ∧ done s after)
          (fun _ after =>
            after.view cnode = .cnode cn' ∧ cnode ∈ after.pins ∧
              after.txn = []))
    (failed : bracket (onCnode m.blockSize cnode body) m = (.error code, after)) :
    Finds after cnode cn' ∧ after.mounted = true := by
  have spec := @wp_bracket_onCnode m cnode cn
    (fun _ s => s.view cnode = .cnode cn') body idle intact
    (fun holding => Shadow.wp_imp (holds holding) fun _ _ ended => ended.1)
  have gaveUp : (bracket (onCnode m.blockSize cnode body) m).1 = .error code := by
    rw [failed]
  have ended := Action.wp_failed spec gaveUp
  rw [failed] at ended
  obtain ⟨s, e, shown, wf, cached, isView, sameMounted⟩ := ended
  exact ⟨.of_cached wf cached (isView.trans shown), sameMounted.trans idle.mounted⟩

section

variable (holds : HoldsAttrs m cnode attrs)
include holds

theorem HoldsAttrs.idle (usable : ¬ (m.mounted = false ∨ m.readonly = true)) : Idle m where
  toRests := holds.steady
  mounted := by
    simpa using fun unmounted => usable (.inl unmounted)
  writable := by
    simpa using fun readonly => usable (.inr readonly)
  outside := holds.outside

theorem HoldsAttrs.few : m.txnBlocks.length < cacheMinBlocks := by
  rw [holds.steady.wf.closed holds.outside]
  decide

theorem failed_set_iff (failed : carafsXattrSet cnode name value m = (.error code, after)) :
    SameAttrs cnode m after ↔ Spared m attrs name value := by
  obtain ⟨cn, intact, held⟩ := holds.held
  unfold carafsXattrSet at failed
  by_cases badArgs : xattrNameOk name = false ∨ xattrValueMax < value.length
  · rw [if_pos badArgs] at failed
    cases failed
    refine iff_of_true (fun _ _ => rfl) ?_
    rcases badArgs with badName | longValue
    · refine .inr (.inr (.inr ?_))
      rintro attr listed rfl
      have ok := holds.list.ok attr listed
      have nonempty := ok.nonempty
      have short := ok.name
      simp [xattrNameOk, nonempty, short] at badName
    · exact .inr (.inr (.inl longValue))
  · rw [if_neg badArgs, bind_of_ok (read_apply m)] at failed
    by_cases refused : m.mounted = false ∨ m.readonly = true
    · rw [bracket_refused refused] at failed
      cases failed
      refine iff_of_true (fun _ _ => rfl) ?_
      exact refused.elim .inl fun readonly => .inr (.inl readonly)
    · have idle := holds.idle refused
      obtain ⟨finds, mounted⟩ := failed_onCnode_finds idle intact
        (fun holding => holding.wp_xattrSetLocked m.blockSize value) failed
      rw [sameAttrs_iff (intact.finds holds.steady holds.few) intact.live
        idle.mounted finds intact.live.gapClosed mounted, sameValues_gapClosed_iff holds.list held]
      unfold Spared
      have fitsField : ¬ xattrValueMax < value.length := fun longValue =>
        badArgs (.inr longValue)
      simp [idle.mounted, idle.writable, fitsField]

theorem failed_remove_keeps
    (failed : carafsXattrRemove cnode name m = (.error code, after)) : SameAttrs cnode m after := by
  obtain ⟨cn, intact, -⟩ := holds.held
  unfold carafsXattrRemove at failed
  by_cases badName : (!xattrNameOk name) = true
  · rw [if_pos badName] at failed
    cases failed
    exact fun _ _ => rfl
  · rw [if_neg badName, bind_of_ok (read_apply m)] at failed
    by_cases refused : m.mounted = false ∨ m.readonly = true
    · rw [bracket_refused refused] at failed
      cases failed
      exact fun _ _ => rfl
    · have idle := holds.idle refused
      obtain ⟨finds, mounted⟩ := failed_onCnode_finds idle intact
        (fun holding => holding.wp_xattrRemoveLocked intact.fits) failed
      rw [sameAttrs_iff (intact.finds holds.steady holds.few) intact.live
        idle.mounted finds intact.live mounted]
      exact fun _ _ => rfl

end

/--
A failed attribute update leaves every attribute as it was exactly when it is
spared; a removal always is.
-/
theorem failed_update_keeps_attributes_iff
    (holds : HoldsAttrs m cnode attrs) (name value : List UInt8) :
    (∀ {code after}, carafsXattrSet cnode name value m = (.error code, after) →
        (SameAttrs cnode m after ↔ Spared m attrs name value)) ∧
    ∀ {code after},
      carafsXattrRemove cnode name m = (.error code, after) →
        SameAttrs cnode m after :=
  ⟨failed_set_iff holds, failed_remove_keeps holds⟩

end Failed

/-! ## Two attributes on a small volume -/

/-- The root directory with two attributes. -/
def attrRoot : Cnode where
  blockNo := 2051
  generation := 1
  type := .dir
  linkCount := 1
  items := [{
    kind := .xattr
    payload := .bytes (attrBytes [⟨[97], 0, [1]⟩, ⟨[98], 0, [2]⟩]) }]

/-- Its image on disk. -/
def attrRootSealed : Cnode :=
  { attrRoot with
    crc32c := blockCrc (Block.bytes 512 (.cnode attrRoot)) 4 }

/-- The image of the volume. -/
def attrDisk (block : Nat) : Block :=
  if block = 0 then
    Block.putCrc 512 (.super (mkfsSuper smallGeometry smallOpts))
  else if block = 1 then
    Block.putCrc 512 (.jsb { seq := 1, head := 1 })
  else if block = 2051 then
    Block.putCrc 512 (.cnode attrRoot)
  else
    zeroBlock 512

def attrVolume : Mount :=
  (carafsMount (mountInit { nEnts := 16 } (imageDev 512 2059 attrDisk))).2

theorem attrVolume_intact : Idle attrVolume ∧ Intact attrVolume 2051 attrRootSealed := by
  have ok := small_ok attrDisk
  have valid : ValidImage 512 2059 attrDisk (sealedSuper smallGeometry smallOpts)
      { seq := 1, head := 1, crc32c := blockCrc
          (Block.bytes 512 (.jsb { seq := 1, head := 1 })) 4 } := by
    refine ⟨ok.accepted, rfl, ?_, by decide⟩
    exact crcOk_putCrc 512 (.jsb { seq := 1, head := 1 }) (cons_ne_nil _ _)
  obtain ⟨m, ran, clean⟩ := @mount_clean { nEnts := 16 } _ _ _ _ _ (by decide) rfl valid rfl rfl
  have isVolume : attrVolume = m := congrArg Prod.snd ran
  rw [isVolume]
  refine ⟨clean.idle, by decide, ?_, ?_, ?_, ?_, ?_, ?_⟩
  · rw [clean.nBlocks]
    decide
  · unfold InJournal
    rw [clean.super, clean.logBlocks]
    decide
  · rw [clean.view]
    rfl
  · exact ⟨rfl, by decide⟩
  · rw [clean.blockSize]
    exact crcOk_putCrc 512 (.cnode attrRoot) (cons_ne_nil _ _)
  · rw [clean.blockSize]
    decide

theorem attrVolume_list : AttrList [⟨[97], 0, [1]⟩, ⟨[98], 0, [2]⟩] := by
  refine ⟨?_, by decide⟩
  intro attr listed
  simp only [mem_cons, not_mem_nil, or_false] at listed
  rcases listed with rfl | rfl <;>
    exact ⟨by decide, by decide, by decide⟩

theorem attrVolume_holds : HoldsAttrs attrVolume 2051 [⟨[97], 0, [1]⟩, ⟨[98], 0, [2]⟩] := by
  obtain ⟨idle, intact⟩ := attrVolume_intact
  exact ⟨idle.toRests, idle.outside, attrVolume_list, attrRootSealed, intact,
    rfl⟩

/-- Replacing the first attribute by a value that does not fit loses it. -/
theorem failed_replacement_loses_attribute :
    ∃ m cnode attrs name value after,
      HoldsAttrs m cnode attrs ∧
        carafsXattrSet cnode name value m = (.error .eoverflow, after) ∧
        (carafsXattrGet cnode name 16 m).1 = .ok ([1], 1) ∧
        (carafsXattrGet cnode name 16 after).1 = .error .enoent := by
  have failed : (carafsXattrSet 2051 [97] (List.replicate 200 0) attrVolume).1 =
        .error .eoverflow := by
    decide +kernel
  have before : (carafsXattrGet 2051 [97] 16 attrVolume).1 = .ok ([1], 1) := by
    decide +kernel
  have lost : (carafsXattrGet 2051 [97] 16 (carafsXattrSet 2051 [97] (List.replicate 200 0)
          attrVolume).2).1 = .error .enoent := by
    decide +kernel
  exact ⟨attrVolume, 2051, _, [97], List.replicate 200 0, _,
    attrVolume_holds, Action.outcome_eq failed, before, lost⟩

/-- Replacing the last attribute by a value that does not fit keeps it. -/
theorem failed_replacement_keeps_last :
    (carafsXattrSet 2051 [98] (List.replicate 200 0) attrVolume).1 =
        .error .eoverflow ∧
      SameAttrs 2051 attrVolume
        (carafsXattrSet 2051 [98] (List.replicate 200 0) attrVolume).2 := by
  have failed : (carafsXattrSet 2051 [98] (List.replicate 200 0) attrVolume).1 =
        .error .eoverflow := by
    decide +kernel
  refine ⟨failed, ((failed_update_keeps_attributes_iff attrVolume_holds [98]
    (List.replicate 200 0)).1 (Action.outcome_eq failed)).mpr ?_⟩
  refine .inr (.inr (.inr ?_))
  intro attr listed isName
  simp only [mem_cons, not_mem_nil, or_false] at listed
  rcases listed with rfl | rfl
  · exact absurd isName (by decide)
  · exact ⟨0, by decide⟩

end CaraOS.Carafs
