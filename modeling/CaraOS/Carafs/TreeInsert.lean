import Mathlib.Data.List.InsertIdx
import CaraOS.Carafs.TreeRoles
import CaraOS.Carafs.XattrMap

namespace CaraOS.Carafs

/-!
# Insertion into a directory tree

What each function of `btree.c` on the way of `carafs_dtree_insert` does to the
roles of the blocks: leaves stay inside their blocks, interior nodes point to
known nodes, and no function runs out of transaction.
-/

open Shadow (pin pin_pins unpin_pins wp_attempt wp_bind wp_imp wp_load wp_mono wp_orPut
  wp_pure wp_put wp_settle_ok wp_store)
open Function (update update_idem update_of_ne update_self)

variable {carried carry : Option InteriorRec} {path : List BtPathLvl} {parent : BtNode}
  {entry : Dirent}

section Code

variable {g : Geometry} {dir block n : Nat} {roles : Nat → Role} {taken : Set Nat} {s : Shadow}

theorem Tidy.wp_btGet {post : BtNode → Shadow → Prop}
    (tidy : Tidy g dir roles taken n s) (isNode : (roles block).IsNode)
    (onSuccess : ∀ node, BodyFits g.blockSize roles (roles block) node.body →
        post node (s.pin block)) : s.wp (btGet g.blockSize block .dir) post harmless := by
  obtain ⟨node, isImage, fits⟩ := tidy.nodes isNode
  unfold btGet
  rw [wp_bind]
  refine Shadow.wp_get ?_ ?_ ?_
  · by_cases isLoose : block ∈ s.loose
    · exact .inr (tidy.tight isLoose isNode.known)
    · exact .inl isLoose
  · intro fresh _
    rw [wp_bind, wp_load (Multiset.mem_cons_self _ _), Shadow.pin_view, isImage]
    dsimp only
    split
    · rw [Shadow.wp_release]
      exact ⟨by decide, by decide⟩
    · split
      · rw [Shadow.wp_release]
        exact ⟨by decide, by decide⟩
      · exact onSuccess node fits
  · rintro code - (rfl | rfl) <;> exact ⟨by decide, by decide⟩

theorem Tidy.notDir (tidy : Tidy g dir roles taken n s) (isNode : (roles block).IsNode) :
    block ≠ dir := by
  rintro rfl
  rw [tidy.isDir] at isNode
  rcases isNode with impossible | impossible <;> cases impossible

variable {post : Unit → Shadow → Prop} {failed : Err → Shadow → Prop}
    {start mid after : Shadow} {image : Block} {cn : Cnode}

theorem Tidy.wp_btDirty (tidy : Tidy g dir roles taken n s) (isNode : (roles block).IsNode)
    (pinned : block ∈ s.pins) (room : n < txnMaxBlocks)
    (onSuccess : ∀ after, Tidy g dir roles taken (n + 1) after → Stays dir s after →
        block ∉ after.loose → after.loose ⊆ insert block s.loose →
          post () after) : s.wp (btDirty g.blockSize block) post failed := by
  obtain ⟨node, isImage, fits⟩ := tidy.nodes isNode
  have few := tidy.few
  unfold btDirty
  rw [wp_bind, wp_load pinned, isImage]
  rw [wp_bind, wp_store pinned]
  refine Shadow.wp_txnDirty pinned tidy.ledger.inside ?_ ?_
  · intro _
    have sealed : NodeFits g.blockSize roles (roles block)
        (Block.putCrc g.blockSize (.btnode node)) := ⟨_, rfl, fits⟩
    refine onSuccess _ ((tidy.stored isNode.known pinned fun _ =>
      sealed).joined isNode.known) ⟨rfl, ?_⟩ ?_ ?_
    · exact update_of_ne (tidy.notDir isNode).symm ..
    · exact fun isLoose => isLoose.2 rfl
    · exact fun _ isLoose => isLoose.1
  · intro _ full
    have : txnMaxBlocks ≤ s.txn.length := full
    omega

theorem Tidy.knownDir (tidy : Tidy g dir roles taken n s) : roles dir ≠ .free := by
  rw [tidy.isDir]
  decide

theorem Shadow.getZero_stored (s : Shadow) (block : Nat) (image : Block) :
    (s.getZero block).stored block image =
      { s with
        view := update s.view block image
        loose := insert block (s.loose \ {block})
        absent := s.absent \ {block}
        touched := insert block s.touched
        homed := s.homed \ {block}
        pins := block ::ₘ s.pins } := by
  unfold Shadow.stored Shadow.getZero Shadow.see pin Shadow.touch Shadow.fix
  dsimp only
  rw [update_idem]

section

variable (tidy : Tidy g dir roles taken n s)
include tidy

theorem Tidy.fresh (granting : Granting g (block, 1) s mid)
    (ledger : Ledger g mid (grantedTo taken (block, 1)) { other | roles other ≠ .free })
    (isData : g.Data block)
    (elsewhere : ∀ {other}, roles other ≠ .free → other ≠ block ∧ mid.view other = s.view other) :
    Tidy g dir (update roles block .held)
      (grantedTo taken (block, 1)) (n + 1)
      ((mid.getZero block).stored block image) := by
  have grows {other : Nat} (known : roles other ≠ .free) :
      update roles block .held other = roles other :=
    update_of_ne (elsewhere known).1 ..
  have isHeld : update roles block .held block ≠ .free := by
    rw [update_self]
    decide
  have known {other : Nat} (known : update roles block .held other ≠ .free) :
      other = block ∨ roles other ≠ .free := by
    by_cases here : other = block
    · exact .inl here
    · rw [update_of_ne here] at known
      exact .inr known
  have keeps {other : Nat} (known : roles other ≠ .free) :
      update roles block .held other ≠ .free := by
    rwa [grows known]
  rw [Shadow.getZero_stored]
  exact {
    ledger := { ledger with
      books := ledger.books.of_same fun ag bound =>
        update_of_ne (fun same =>
          isData.notAg ⟨ag, bound, same.symm⟩) ..
      region := by
        intro other isKnown
        rcases known isKnown with rfl | earlier
        · exact ⟨isData, .inr ⟨Nat.le_refl _, Nat.lt_succ_self _⟩⟩
        · exact ledger.region earlier
      used := by
        rintro other (pinned | joined)
        · rcases Multiset.mem_cons.mp pinned with rfl | earlier
          · exact .inl isHeld
          · exact (ledger.used (.inl earlier)).imp_left keeps
        · exact (ledger.used (.inr joined)).imp_left keeps
      loose := by
        rintro other (rfl | earlier)
        · exact .inr isHeld
        · exact (ledger.loose earlier.1).imp_right keeps }
    bs := granting.bs.trans tidy.bs
    isDir := (grows tidy.knownDir).trans tidy.isDir
    pinned := Multiset.mem_cons_of_mem (granting.pins ▸ tidy.pinned)
    tight := by
      rintro other (rfl | isLoose) isKnown
      · exact Multiset.mem_cons_self ..
      · have earlier := (known isKnown).resolve_left isLoose.2
        have pinned := tidy.tight (granting.loose isLoose.1) earlier
        exact Multiset.mem_cons_of_mem (granting.pins ▸ pinned)
    nodes := by
      intro other isNode
      have earlier : roles other ≠ .free := by
        refine (known isNode.known).resolve_left ?_
        rintro rfl
        rw [update_self] at isNode
        rcases isNode with impossible | impossible <;> cases impossible
      obtain ⟨apart, same⟩ := elsewhere earlier
      rw [grows earlier] at isNode ⊢
      obtain ⟨node, isImage, fits⟩ := tidy.nodes isNode
      refine ⟨node, ?_, fits.mono fun childNode => ?_⟩
      · rw [← isImage, ← same]
        exact update_of_ne apart ..
      · rwa [grows childNode.known]
    few := by
      have few := tidy.few
      have joined := granting.txn
      show mid.txn.length ≤ n + 1
      omega }

/-- A new node takes a free block of the ledger. -/
theorem Tidy.wp_btNew {post : Nat → Shadow → Prop} (numbered : Numbered g)
    (room : n < txnMaxBlocks) (hint level : Nat)
    (onSuccess : ∀ block taken' after, roles block = .free →
        Tidy g dir (update roles block .held) taken' (n + 1) after →
        Stays dir (s.pin block) after → post block after) :
    s.wp (btNew g.blockSize hint level .dir) post harmless := by
  have few := tidy.few
  unfold btNew allocBlock
  rw [wp_bind, wp_bind]
  refine wp_mono (tidy.ledger.wp_allocExtent numbered hint 1) ?_ ?_
  · rintro ⟨block, got⟩ mid ⟨grants, ledger, granting⟩
    have isOne : got = 1 := by
      obtain ⟨ag, rel, grant, -, atMost⟩ := id grants
      have atLeast := grant.some
      omega
    subst isOne
    have here : block ∈ Set.Ico block (block + 1) := ⟨Nat.le_refl _, Nat.lt_succ_self _⟩
    obtain ⟨isData, notTaken⟩ := grants.free here
    obtain ⟨absent, -⟩ := granting.gone here
    have isFree : roles block = .free := by
      by_contra known
      exact notTaken (tidy.ledger.region known).2
    have elsewhere {other : Nat} (known : roles other ≠ .free) :
        other ≠ block ∧ mid.view other = s.view other := by
      have apart : other ≠ block := fun same => known (same ▸ isFree)
      refine ⟨apart, granting.view (tidy.data known).notAg ?_⟩
      rintro ⟨lower, upper⟩
      omega
    rw [wp_pure, wp_bind]
    refine Shadow.wp_getZero absent ?_ ?_
    · intro fresh _
      rw [wp_bind, wp_load (Multiset.mem_cons_self _ _)]
      have zeroes : (mid.getZero block).view block = zeroBlock g.blockSize := by
        rw [← tidy.bs, ← granting.bs]
        exact update_self ..
      rw [if_pos zeroes, wp_bind, wp_store (Multiset.mem_cons_self _ _)]
      refine onSuccess block (grantedTo taken (block, 1)) _ isFree
        (tidy.fresh granting ledger isData elsewhere) ⟨?_, ?_⟩
      all_goals rw [Shadow.getZero_stored]
      · exact congrArg (block ::ₘ ·) granting.pins
      · obtain ⟨apart, same⟩ := elsewhere tidy.knownDir
        exact (update_of_ne apart ..).trans same
    · rintro code - (rfl | rfl) <;> exact ⟨by decide, by decide⟩
  · rintro code after ((⟨-, full⟩ | ⟨-, rfl | rfl⟩) | ⟨-, ⟨rfl, -⟩ | ⟨rfl, -⟩⟩)
    · omega
    all_goals exact ⟨by decide, by decide⟩

theorem Tidy.wp_storeNode (since : Stays dir start s) (isNode : (roles block).IsNode)
    (pinned : block ∈ s.pins) (fits : NodeFits g.blockSize roles (roles block) image)
    (onSuccess : ∀ after, Tidy g dir roles taken n after → Stays dir start after → post () after) :
    s.wp (Fs.store block image) post failed := by
  rw [wp_store pinned]
  exact onSuccess _ (tidy.stored isNode.known pinned fun _ => fits)
    (since.trans ⟨rfl, update_of_ne (tidy.notDir isNode).symm ..⟩)

end

theorem Tidy.wp_storeNew (role : Role) (tidy : Tidy g dir roles taken n s)
    (since : Stays dir start s) (isHeld : roles block = .held) (notDir : block ≠ dir) (pinned : block ∈ s.pins)
    (fits : NodeFits g.blockSize (update roles block role) role image)
    (onSuccess : ∀ after, Tidy g dir (update roles block role) taken n after →
        Stays dir start after → post () after) : s.wp (Fs.store block image) post failed := by
  have known : roles block ≠ .free := by
    rw [isHeld]
    decide
  have stored : Tidy g dir roles taken n (s.stored block image) := by
    refine tidy.stored known pinned fun isNode => ?_
    rw [isHeld] at isNode
    rcases isNode with impossible | impossible <;> cases impossible
  rw [wp_store pinned]
  refine onSuccess _ (stored.place isHeld notDir ?_)
    (since.trans ⟨rfl, update_of_ne notDir.symm ..⟩)
  rwa [Shadow.stored_view, update_self]

theorem Stays.unpin (stays : Stays dir s after) : Stays dir (s.unpin block) (after.unpin block) :=
  ⟨congrArg (Multiset.erase · block) stays.pins, stays.cnode⟩

theorem Tidy.wp_btDirtyPut (tidy : Tidy g dir roles taken n s) (isNode : (roles block).IsNode)
    (pinned : block ∈ s.pins) (room : n < txnMaxBlocks)
    (onSuccess : ∀ after, Tidy g dir roles taken (n + 1) after →
        Stays dir (s.unpin block) after → post () after) :
    s.wp (btDirtyPut g.blockSize block) post failed := by
  unfold btDirtyPut
  rw [wp_bind, wp_attempt]
  refine tidy.wp_btDirty isNode pinned room fun after later stays firm _ => ?_
  rw [wp_bind, wp_put]
  exact onSuccess _ (later.unpin firm (tidy.notDir isNode)) stays.unpin

theorem Tidy.wp_childMinKey (tidy : Tidy g dir roles taken n s) (isNode : (roles block).IsNode) :
    s.wp (childMinKey g.blockSize block .dir)
      (fun _ after => s.Agrees after) harmless := by
  unfold childMinKey
  rw [wp_bind]
  refine tidy.wp_btGet isNode ?_
  intro node _
  rw [wp_bind, wp_put]
  exact s.unpin_pin block

theorem BodyFits.interior {bs : Nat} {body : BtBody} (fits : BodyFits bs roles .inner body) :
    ∃ level recs, body = .interior level recs ∧ recs ≠ [] ∧
      ∀ record ∈ recs, (roles record.child).IsNode := by
  cases body with
  | interior level recs => exact ⟨level, recs, rfl, fits⟩
  | dirents recs => exact fits.elim
  | extents recs => exact fits.elim

/-- What `bt_propagate` carries to the next level. -/
def LevelDone (g : Geometry) (dir : Nat) (roles : Nat → Role) (n : Nat)
    (s : Shadow) (carried : Option InteriorRec) (after : Shadow) : Prop :=
  ∃ roles' taken', Tidy g dir roles' taken' n after ∧ Grows roles roles' ∧ Stays dir s after ∧
    ∀ record, carried = some record → (roles' record.child).IsNode

theorem insertIdx_ne_nil {α : Type} {xs : List α} {i : Nat} {x : α} (some : xs ≠ []) :
    xs.insertIdx i x ≠ [] := fun empty =>
  some (List.sublist_nil.mp (empty ▸ List.sublist_insertIdx xs i x))

/-- A full parent is split in two, and carries its middle up. -/
theorem Tidy.wp_splitCarry {carry : InteriorRec}
    (tidy : Tidy g dir roles taken n s) (numbered : Numbered g)
    (many : 2 ≤ btCap g.blockSize) (isInner : roles block = .inner) (pinned : block ∈ s.pins)
    (fits : BodyFits g.blockSize roles .inner parent.body)
    (full : btCap g.blockSize ≤ parent.body.nRecords)
    (carryNode : (roles carry.child).IsNode) (room : n + 2 ≤ txnMaxBlocks) (idx : Nat) :
    s.wp (splitCarry g.blockSize block parent .dir idx carry)
      (fun carried after =>
        LevelDone g dir roles (n + 2) s (some carried) after)
      harmless := by
  obtain ⟨level, recs, isBody, some, children⟩ := fits.interior
  rw [isBody] at full
  have full : 2 ≤ recs.length := many.trans full
  unfold splitCarry nodeSplitFixed
  rw [isBody]
  rw [wp_bind, wp_bind]
  refine tidy.wp_btNew numbered (by omega) _ _ ?_
  intro right taken' mid isFree held stays
  have grows : Grows roles (update roles right .inner) := Grows.update isFree .inner
  have isBlock := grows.isInner isInner
  have isRight : update roles right .inner right = .inner := update_self ..
  have node {xs : List InteriorRec} (some : xs ≠ [])
      (inside : ∀ record ∈ xs, record ∈ recs ∨ record = carry) :
      BodyFits g.blockSize (update roles right .inner) .inner (.interior level xs) := by
    refine ⟨some, fun record listed => grows.isNode ?_⟩
    rcases inside record listed with earlier | rfl
    · exact children record earlier
    · exact carryNode
  have inserted {xs : List InteriorRec} (some : xs ≠ [])
      (inside : ∀ record ∈ xs, record ∈ recs) (i : Nat) :
      BodyFits g.blockSize (update roles right .inner) .inner
        (.interior level (xs.insertIdx i carry)) :=
    node (insertIdx_ne_nil some) fun record listed =>
      (List.eq_or_mem_of_mem_insertIdx listed).symm.imp_left (inside record)
  have inUpper (record : InteriorRec) : record ∈ recs.drop (recs.length / 2) → record ∈ recs :=
    List.mem_of_mem_drop
  have inLower (record : InteriorRec) : record ∈ recs.take (recs.length / 2) → record ∈ recs :=
    List.mem_of_mem_take
  have upper : recs.drop (recs.length / 2) ≠ [] := by
    rw [← List.length_pos_iff, List.length_drop]
    omega
  have lower : recs.take (recs.length / 2) ≠ [] := by
    rw [← List.length_pos_iff, List.length_take]
    omega
  have onBlock {after : Shadow} (stays : Stays dir (s.pin right) after) :
      block ∈ after.pins := stays.pins ▸ Multiset.mem_cons_of_mem pinned
  rw [wp_bind]
  refine held.wp_storeNew .inner stays (update_self ..)
    (fun same => tidy.knownDir (same ▸ isFree)) stays.isPinned ?_ ?_
  · rw [update_idem]
    exact ⟨_, rfl, node upper fun _ listed => .inl (inUpper _ listed)⟩
  intro s₁ tidy₁ stays₁
  rw [update_idem] at tidy₁
  rw [wp_bind]
  refine tidy₁.wp_storeNode stays₁ (.inr isBlock) (onBlock stays₁) ?_ ?_
  · rw [isBlock]
    exact ⟨_, rfl, node lower fun _ listed => .inl (inLower _ listed)⟩
  intro s₂ tidy₂ stays₂
  rw [wp_pure, wp_bind]
  refine tidy₂.wp_storeNode stays₂ (.inr isRight) stays₂.isPinned ?_ ?_
  · rw [isRight]
    refine ⟨_, rfl, ?_⟩
    split
    · exact inserted upper inUpper _
    · exact node upper fun _ listed => .inl (inUpper _ listed)
  intro s₃ tidy₃ stays₃
  rw [wp_bind]
  refine tidy₃.wp_storeNode stays₃ (.inr isBlock) (onBlock stays₃) ?_ ?_
  · rw [isBlock]
    refine ⟨_, rfl, ?_⟩
    split
    · exact node lower fun _ listed => .inl (inLower _ listed)
    · exact inserted lower inLower _
  intro s₄ tidy₄ stays₄
  rw [wp_bind]
  refine tidy₄.wp_btDirtyPut (.inr isRight) stays₄.isPinned (by omega) ?_
  intro s₅ tidy₅ stays₅
  rw [wp_pure]
  refine ⟨_, taken', tidy₅, grows, (s.unpin_pin right).stays.trans (stays₄.unpin.trans stays₅), ?_⟩
  rintro record ⟨⟩
  exact .inr isRight

theorem Shadow.Agrees.unpin (same : (s.pin block).Agrees mid) : s.Agrees (mid.unpin block) := by
  unfold Shadow.Agrees at same ⊢
  rw [same]
  unfold Shadow.unpin pin
  rw [Multiset.erase_cons_head]

theorem Shadow.wp_map {α β : Type} {post : β → Shadow → Prop} {body : Fs α} {f : α → β} :
    s.wp (f <$> body) post failed ↔
      s.wp body (fun value after => post (f value) after) failed :=
  wp_bind body fun value => pure (f value)

theorem Tidy.wp_finish {roles' : Nat → Role}
    (tidy : Tidy g dir roles' taken n mid) (grows : Grows roles roles')
    (stays : Stays dir (s.pin block) mid) (isInner : roles block = .inner) (room : n < txnMaxBlocks)
    (carriedNode : ∀ record, carried = some record → (roles' record.child).IsNode) :
    mid.wp
      (do
        Fs.orPut block (btDirty g.blockSize block)
        Fs.put block
        return carried)
      (LevelDone g dir roles (n + 1) s) harmless := by
  have isInner' := grows.isInner isInner
  rw [wp_bind, wp_orPut]
  refine tidy.wp_btDirty (.inr isInner') stays.isPinned room ?_
  intro after later stays' firm _
  rw [wp_bind, wp_put]
  exact ⟨roles', taken, later.unpin firm (tidy.notDir (.inr isInner')), grows,
    (s.unpin_pin block).stays.trans (stays.trans stays').unpin, carriedNode⟩

theorem LevelDone.weaken {more : Nat}
    (done : LevelDone g dir roles n s carried after) (atMost : n ≤ more) :
    LevelDone g dir roles more s carried after := by
  obtain ⟨roles', taken', tidy, rest⟩ := done
  exact ⟨roles', taken', tidy.weaken atMost, rest⟩

/-- A carried record finds room, or splits the parent. -/
theorem Tidy.wp_insertCarry {record : InteriorRec} {idx : Nat}
    (tidy : Tidy g dir roles taken n mid) (numbered : Numbered g)
    (many : 2 ≤ btCap g.blockSize) (stays : Stays dir (s.pin block) mid)
    (isInner : roles block = .inner) (fits : BodyFits g.blockSize roles .inner parent.body)
    (recordNode : (roles record.child).IsNode) (room : n + 3 ≤ txnMaxBlocks) :
    mid.wp
      (do
        let carried ←
          if parent.body.nRecords < btCap g.blockSize then do
            Fs.store block (.btnode (parent.withBody
              (.interior parent.body.level (parent.body.irecs.insertIdx (idx + 1) record))))
            pure none
          else
            some <$> Fs.orPut block
              (splitCarry g.blockSize block parent .dir idx record)
        Fs.orPut block (btDirty g.blockSize block)
        Fs.put block
        return carried)
      (LevelDone g dir roles (n + 3) s) harmless := by
  have pinned : block ∈ mid.pins := stays.isPinned
  by_cases roomHere : parent.body.nRecords < btCap g.blockSize
  · obtain ⟨level, recs, isBody, some, children⟩ := fits.interior
    rw [if_pos roomHere, wp_bind]
    refine tidy.wp_storeNode stays (.inr isInner) pinned ?_ ?_
    · rw [isInner]
      refine ⟨_, rfl, ?_⟩
      rw [isBody]
      refine ⟨insertIdx_ne_nil some, fun other listed => ?_⟩
      rcases List.eq_or_mem_of_mem_insertIdx listed with rfl | earlier
      · exact recordNode
      · exact children other earlier
    · intro after later stays'
      rw [wp_bind, wp_pure]
      exact wp_imp (later.wp_finish (fun _ _ => rfl)
        stays' isInner (by omega) nofun)
        fun _ _ done => done.weaken (by omega)
  · rw [if_neg roomHere, wp_bind, Shadow.wp_map, wp_orPut]
    refine wp_imp (tidy.wp_splitCarry numbered many isInner pinned fits
      (by omega) recordNode (by omega) idx) ?_
    rintro carried after ⟨roles', taken', tidy', grows, stays', node⟩
    exact tidy'.wp_finish grows (stays.trans stays') isInner (by omega) node

theorem setKeyAt_children (recs : List InteriorRec) (i : Nat) (key : Key) :
    (setKeyAt recs i key).map InteriorRec.child =
      recs.map InteriorRec.child := by
  unfold setKeyAt
  induction recs generalizing i with
  | nil => rw [List.modify_nil]
  | cons record rest ih =>
    cases i with
    | zero => rfl
    | succ i =>
      rw [List.modify_succ_cons, List.map_cons, List.map_cons, ih]

/-- One level up costs at most three blocks. -/
theorem Tidy.wp_propagateLevel {lvl : BtPathLvl} {child : Nat}
    (tidy : Tidy g dir roles taken n s) (numbered : Numbered g)
    (many : 2 ≤ btCap g.blockSize) (isInner : roles lvl.block = .inner)
    (childNode : (roles child).IsNode)
    (carryNode : ∀ record, carry = some record → (roles record.child).IsNode)
    (room : n + 3 ≤ txnMaxBlocks) :
    s.wp (propagateLevel g.blockSize .dir lvl child carry)
      (LevelDone g dir roles (n + 3) s) harmless := by
  unfold propagateLevel
  rw [wp_bind]
  refine tidy.wp_btGet (.inr isInner) ?_
  intro parent fits
  rw [isInner] at fits
  have pinned : Tidy g dir roles taken n (s.pin lvl.block) := tidy.pin (by rw [isInner]; decide)
  rw [wp_bind, wp_orPut]
  refine wp_imp (pinned.wp_childMinKey childNode) ?_
  intro key mid same
  have tidy' := pinned.of_agrees same
  have stays : Stays dir (s.pin lvl.block) mid := same.stays
  dsimp only
  obtain ⟨level, recs, isBody, some, children⟩ := fits.interior
  have fixedFits : BodyFits g.blockSize roles .inner
      (.interior level (setKeyAt recs lvl.idx key)) := by
    refine ⟨?_, fun record listed => ?_⟩
    · rw [← List.length_pos_iff, setKeyAt, List.length_modify]
      exact List.length_pos_iff.mpr some
    · have isChild := List.mem_map_of_mem (f := InteriorRec.child) listed
      rw [setKeyAt_children] at isChild
      obtain ⟨old, isOld, same⟩ := List.mem_map.mp isChild
      exact same ▸ children old isOld
  split
  · rw [wp_bind]
    refine tidy'.wp_storeNode stays (.inr isInner) stays.isPinned ?_ ?_
    · rw [isInner]
      refine ⟨_, rfl, ?_⟩
      rwa [isBody]
    · intro after later stays'
      cases carry with
      | none =>
        exact wp_imp (later.wp_finish (fun _ _ => rfl) stays' isInner
          (by omega) nofun)
          fun _ _ done => done.weaken (by omega)
      | some record =>
        refine later.wp_insertCarry numbered many stays' isInner ?_ (carryNode record rfl) room
        rwa [isBody]
  · cases carry with
    | none =>
      have released := same.unpin
      rw [wp_bind, wp_put]
      exact ⟨roles, taken, (tidy.of_agrees released).weaken (by omega),
        fun _ _ => rfl, released.stays, nofun⟩
    | some record =>
      exact tidy'.wp_insertCarry numbered many stays isInner fits (carryNode record rfl) room

/-- The directory once its tree has grown. -/
def Grown (g : Geometry) (dir : Nat) (roles : Nat → Role) (n : Nat)
    (cn : Cnode) (s after : Shadow) : Prop :=
  ∃ roles' taken' root, Tidy g dir roles' taken' n after ∧
    Grows roles roles' ∧ after.pins = s.pins ∧
    after.view dir = .cnode { cn with treeRoot := root } ∧
    (roles' root).IsNode

theorem Grown.mono {more : Nat} {s₀ : Shadow} {roles₀ : Nat → Role}
    (grown : Grown g dir roles n cn s after) (atMost : n ≤ more)
    (grows : Grows roles₀ roles) (pins : s.pins = s₀.pins) :
    Grown g dir roles₀ more cn s₀ after := by
  obtain ⟨roles', taken', root, tidy, grows', pins', rest⟩ := grown
  exact ⟨roles', taken', root, tidy.weaken atMost, grows.trans grows', pins'.trans pins, rest⟩

/-- A carry past the root becomes a new root. -/
theorem Tidy.wp_growRoot {carry : InteriorRec}
    (tidy : Tidy g dir roles taken n s) (numbered : Numbered g)
    (shown : s.view dir = .cnode cn) (rootNode : (roles cn.treeRoot).IsNode)
    (carryNode : (roles carry.child).IsNode) (room : n + 2 ≤ txnMaxBlocks) :
    s.wp (growRoot g.blockSize dir .dir carry)
      (fun _ after => Grown g dir roles (n + 2) cn s after) harmless := by
  unfold growRoot loadCnode
  rw [wp_bind, wp_bind, wp_load tidy.pinned, shown]
  rw [wp_pure, wp_bind]
  refine tidy.wp_btGet rootNode ?_
  intro oldRoot _
  rw [wp_bind, wp_put, wp_bind]
  have same := s.unpin_pin cn.treeRoot
  generalize (s.pin cn.treeRoot).unpin cn.treeRoot = again at same
  refine (tidy.of_agrees same).wp_btNew numbered (by omega) _ _ ?_
  intro root taken' mid isFree held stays
  have grows : Grows roles (update roles root .inner) := Grows.update isFree .inner
  have isRoot : update roles root .inner root = .inner := update_self ..
  have notDir : root ≠ dir := fun same => tidy.knownDir (same ▸ isFree)
  rw [wp_bind]
  refine held.wp_storeNew .inner stays (update_self ..) notDir stays.isPinned ?_ ?_
  · rw [update_idem]
    refine ⟨_, rfl, List.cons_ne_nil _ _, fun record listed =>
      grows.isNode ?_⟩
    rcases List.mem_cons.mp listed with rfl | later
    · exact rootNode
    · rwa [List.mem_singleton.mp later]
  intro s₁ tidy₁ stays₁
  rw [update_idem] at tidy₁
  rw [wp_bind, wp_attempt]
  refine tidy₁.wp_btDirty (.inr isRoot) stays₁.isPinned (by omega) ?_
  intro s₂ tidy₂ stays₂ firm _
  rw [wp_bind, wp_store tidy₂.pinned, wp_bind, wp_put]
  refine ⟨_, taken', root, (tidy₂.storedCnode _).unpin ?_ notDir, grows, ?_,
    update_self .., .inr isRoot⟩
  · rintro (same | isLoose)
    · exact notDir same
    · exact firm isLoose
  · rw [unpin_pins, Shadow.stored_pins, stays₂.pins, stays₁.pins, pin_pins, same.pins]
    exact Multiset.erase_cons_head ..

/-- The whole way up stays within the transaction. -/
theorem Tidy.wp_btPropagate {child : Nat}
    (tidy : Tidy g dir roles taken n s) (numbered : Numbered g)
    (many : 2 ≤ btCap g.blockSize) (shown : s.view dir = .cnode cn)
    (rootNode : (roles cn.treeRoot).IsNode) (isPath : ∀ lvl ∈ path, roles lvl.block = .inner)
    (childNode : (roles child).IsNode)
    (carryNode : ∀ record, carry = some record → (roles record.child).IsNode)
    (room : n + 3 * path.length + 2 ≤ txnMaxBlocks) :
    s.wp (btPropagate g.blockSize dir .dir path child carry)
      (fun _ after =>
        Grown g dir roles (n + 3 * path.length + 2) cn s after)
      harmless := by
  induction path generalizing s roles taken n child carry with
  | nil =>
    cases carry with
    | none =>
      unfold btPropagate
      rw [wp_pure]
      exact ⟨roles, taken, cn.treeRoot, tidy.weaken (by omega),
        fun _ _ => rfl, rfl, shown, rootNode⟩
    | some carry =>
      exact tidy.wp_growRoot numbered shown rootNode (carryNode carry rfl) room
  | cons lvl above ih =>
    rw [List.length_cons] at room ⊢
    unfold btPropagate
    rw [wp_bind]
    have isInner := isPath lvl List.mem_cons_self
    refine wp_imp (tidy.wp_propagateLevel numbered many isInner
      childNode carryNode (by omega)) ?_
    rintro carried mid ⟨roles', taken', tidy', grows, stays, node⟩
    refine wp_imp (ih tidy' (stays.cnode.trans shown) (grows.isNode rootNode)
      (fun lvl' listed => grows.isInner (isPath lvl' (List.mem_cons_of_mem _ listed)))
      (.inr (grows.isInner isInner)) node (by omega)) ?_
    exact fun _ _ grown => grown.mono (by omega) grows stays.pins

theorem childAt_isNode {recs : List InteriorRec}
    (some : recs ≠ []) (children : ∀ record ∈ recs, (roles record.child).IsNode)
    (key : Key) : (roles (childAt recs (btIdescend recs key))).IsNode := by
  have inside : btIdescend recs key < recs.length :=
    (Search.bisect_found _ (List.length_pos_iff.mpr some) (by omega)).lt_upper
  unfold childAt
  rw [List.getElem?_eq_getElem inside]
  exact children _ (List.getElem_mem inside)

section

variable (tidy : Tidy g dir roles taken n s)
include tidy

/-- The descent ends in a leaf, by inner nodes. -/
theorem Tidy.wp_btDescend {key : Key} {depth : Nat} (isNode : (roles block).IsNode)
    (isPath : ∀ lvl ∈ path, roles lvl.block = .inner) :
    s.wp (btDescend g.blockSize .dir key depth block path)
      (fun found after => ∃ mid recs, s.Agrees mid ∧
        after = mid.pin found.2.1 ∧ roles found.2.1 = .leaf ∧
        found.2.2.body = .dirents recs ∧ LeafFits g.blockSize recs ∧
        (∀ lvl ∈ found.1, roles lvl.block = .inner) ∧
        found.1.length + 1 ≤ path.length + depth)
      harmless := by
  induction depth generalizing s block path with
  | zero =>
    unfold btDescend
    rw [Shadow.wp_throw]
    exact ⟨by decide, by decide⟩
  | succ depth ih =>
    unfold btDescend
    rw [wp_bind]
    refine tidy.wp_btGet isNode ?_
    intro node fits
    rcases isNode with isLeaf | isInner
    · rw [isLeaf] at fits
      cases isBody : node.body with
      | dirents recs =>
        rw [isBody] at fits
        dsimp only
        rw [wp_pure]
        refine ⟨s, recs, rfl, rfl, isLeaf, isBody, fits, isPath, ?_⟩
        dsimp only
        omega
      | interior level recs =>
        rw [isBody] at fits
        exact fits.elim
      | extents recs =>
        rw [isBody] at fits
        exact fits.elim
    · rw [isInner] at fits
      obtain ⟨level, recs, isBody, some, children⟩ := fits.interior
      rw [isBody]
      rw [wp_bind, wp_put]
      have same := s.unpin_pin block
      refine wp_imp (ih (tidy.of_agrees same)
        (childAt_isNode some children key) ?_) ?_
      · intro lvl listed
        rcases List.mem_cons.mp listed with rfl | earlier
        · exact isInner
        · exact isPath lvl earlier
      · rintro found after ⟨mid, recs', same', rest⟩
        rw [List.length_cons] at rest
        obtain ⟨isAfter, isLeaf, body, fits, isPath', short⟩ := rest
        exact ⟨mid, recs', same.trans same', isAfter, isLeaf, body, fits, isPath', by omega⟩

/-- An insertion into the tree touches 26 blocks at most. -/
theorem Tidy.wp_dtreeInsert (numbered : Numbered g)
    (shown : s.view dir = .cnode cn) (rootNode : (roles cn.treeRoot).IsNode)
    (quarter : entry.Quarter g.blockSize) (room : n + 26 ≤ txnMaxBlocks) :
    s.wp (dtreeInsert g.blockSize dir entry)
      (fun _ after => Grown g dir roles (n + 26) cn s after) harmless := by
  unfold dtreeInsert loadCnode
  rw [wp_bind, wp_bind, wp_load tidy.pinned, shown]
  rw [wp_pure, wp_bind]
  refine wp_imp (tidy.wp_btDescend rootNode
    fun _ listed => absurd listed List.not_mem_nil) ?_
  rintro ⟨path, leaf, node⟩ after ⟨mid, recs, same, isAfter, isLeaf, isBody, fits, isPath, short⟩
  dsimp only at isAfter isLeaf isBody isPath short ⊢
  subst isAfter
  have leafNode : (roles leaf).IsNode := .inl isLeaf
  have pinned := (tidy.of_agrees same).pin leafNode.known
  have depth : path.length ≤ 7 := by
    unfold btMaxDepth at short
    rw [List.length_nil] at short
    omega
  have isRecs : node.body.drecs = recs := by
    rw [isBody]
    rfl
  rw [isRecs]
  by_cases roomHere : direntsBytes recs + entry.stride ≤ g.blockSize - btBodyOff
  · rw [if_pos roomHere, wp_bind]
    refine pinned.wp_storeNode ⟨rfl, rfl⟩ leafNode (Multiset.mem_cons_self ..) ?_ ?_
    · rw [isLeaf]
      exact ⟨_, rfl, fits.insert quarter roomHere⟩
    intro s₁ tidy₁ stays₁
    rw [wp_bind]
    refine tidy₁.wp_btDirtyPut leafNode stays₁.isPinned (by omega) ?_
    intro s₂ tidy₂ stays₂
    have stays : Stays dir s s₂ := same.stays.trans
      ((mid.unpin_pin leaf).stays.trans (stays₁.unpin.trans stays₂))
    refine wp_imp (tidy₂.wp_btPropagate numbered quarter.cap
      (stays.cnode.trans shown) rootNode isPath leafNode
      nofun (by omega)) ?_
    exact fun _ _ grown => grown.mono (by omega) (fun _ _ => rfl) stays.pins
  · rw [if_neg roomHere]
    have two := fits.two quarter roomHere
    rw [if_neg two, wp_bind, wp_orPut]
    refine pinned.wp_btNew numbered (by omega) _ _ ?_
    intro right taken' fresh isFree held stays
    obtain ⟨lowerFits, upperFits⟩ := fits.split quarter (not_lt.mp two)
    generalize splitDirents recs entry = halves at lowerFits upperFits
    rw [if_neg (not_or.mpr ⟨not_lt.mpr lowerFits.room, not_lt.mpr upperFits.room⟩), wp_bind]
    have grows (role : Role) : Grows roles (update roles right role) := Grows.update isFree role
    have leafNode' := (grows .leaf).isNode leafNode
    have rightNode : (update roles right .leaf right).IsNode := .inl (update_self ..)
    have apart : leaf ≠ right := fun same => leafNode.known (same ▸ isFree)
    have onLeaf {after : Shadow} (stays : Stays dir ((mid.pin leaf).pin right) after) :
        leaf ∈ after.pins :=
      stays.pins ▸ Multiset.mem_cons_of_mem (Multiset.mem_cons_self ..)
    refine held.wp_storeNode stays ((grows .held).isNode leafNode) (onLeaf stays) ?_ ?_
    · rw [grows .held leafNode.known, isLeaf]
      exact ⟨_, rfl, lowerFits⟩
    intro s₁ tidy₁ stays₁
    rw [wp_bind]
    refine tidy₁.wp_storeNew .leaf stays₁ (update_self ..)
      (fun same => tidy.knownDir (same ▸ isFree)) stays₁.isPinned ⟨_, rfl, upperFits⟩ ?_
    intro s₂ tidy₂ stays₂
    rw [update_idem] at tidy₂
    rw [wp_bind, wp_attempt]
    refine tidy₂.wp_btDirty leafNode' (onLeaf stays₂) (by omega) ?_
    intro s₃ tidy₃ stays₃ leafFirm _
    replace stays₃ := stays₂.trans stays₃
    rw [wp_bind, wp_attempt]
    refine tidy₃.wp_btDirty rightNode stays₃.isPinned (by omega) ?_
    intro s₄ tidy₄ stays₄ rightFirm less
    replace stays₄ := stays₃.trans stays₄
    have tidy₅ := (tidy₄.unpin (fun isLoose =>
      (less isLoose).elim apart leafFirm) (tidy.notDir leafNode)).unpin
      rightFirm (tidy₂.notDir rightNode)
    rw [wp_bind, wp_put, wp_bind, wp_put, wp_bind, wp_settle_ok, wp_bind, wp_settle_ok]
    refine wp_imp (tidy₅.wp_btPropagate numbered quarter.cap
      (stays₄.cnode.trans (same.stays.cnode.trans shown)) ((grows .leaf).isNode rootNode)
      (fun lvl listed => (grows .leaf).isInner (isPath lvl listed)) leafNode'
      ?_ (by omega)) ?_
    · rintro record ⟨⟩
      exact rightNode
    · refine fun _ _ grown => grown.mono (by omega) (grows .leaf) ?_
      rw [unpin_pins, unpin_pins, stays₄.pins, pin_pins,
        Multiset.erase_cons_tail _ apart.symm, pin_pins,
        Multiset.erase_cons_head, Multiset.erase_cons_head, same.pins]

/-- Inline entries move out to a leaf of their own. -/
theorem Tidy.wp_dtreeSpill {blob : List Dirent} (numbered : Numbered g)
    (shown : s.view dir = .cnode cn) (fits : LeafFits g.blockSize blob)
    (room : n + 2 ≤ txnMaxBlocks) :
    s.wp (dtreeSpill g.blockSize dir blob)
      (fun _ after => Grown g dir roles (n + 2) cn s after) harmless := by
  unfold dtreeSpill loadCnode
  rw [wp_bind, wp_bind, wp_load tidy.pinned, shown]
  rw [wp_pure, wp_bind]
  refine tidy.wp_btNew numbered (by omega) _ _ ?_
  intro leaf taken' mid isFree held stays
  have leafNode : (update roles leaf .leaf leaf).IsNode := .inl (update_self ..)
  rw [wp_bind]
  refine held.wp_storeNew .leaf stays (update_self ..)
    (fun same => tidy.knownDir (same ▸ isFree)) stays.isPinned ⟨_, rfl, fits⟩ ?_
  intro s₁ tidy₁ stays₁
  rw [update_idem] at tidy₁
  rw [wp_bind]
  refine tidy₁.wp_btDirtyPut leafNode stays₁.isPinned (by omega) ?_
  intro s₂ tidy₂ stays₂
  have now : Stays dir s s₂ := (s.unpin_pin leaf).stays.trans
    (stays₁.unpin.trans stays₂)
  rw [wp_bind, wp_bind, wp_load tidy₂.pinned, now.cnode.trans shown]
  rw [wp_pure, wp_store tidy₂.pinned]
  exact ⟨_, taken', leaf, tidy₂.storedCnode _, Grows.update isFree .leaf,
    now.pins, update_self .., leafNode⟩

end

/-- The cnode of a directory that is inline, or whose tree is known. -/
structure DirFits (bs : Nat) (roles : Nat → Role) (cn : Cnode) : Prop where
  items : itemBytes cn.items ≤ bs - cnodeItemsOff
  tree : cn.treeRoot ≠ 0 → (roles cn.treeRoot).IsNode
  entries : cn.treeRoot = 0 → ∀ entry ∈ inlineDirents cn, entry.Quarter bs

theorem DirFits.spill {bs : Nat} (fits : DirFits bs roles cn) (inlined : cn.treeRoot = 0) :
    LeafFits bs (inlineDirents cn) := by
  refine ⟨?_, fits.entries inlined⟩
  have items := fits.items
  unfold inlineDirents
  cases found : itemFind cn .inlineDirents with
  | none => exact Nat.zero_le _
  | some payload =>
    cases payload with
    | bytes content => exact Nat.zero_le _
    | dirents entries =>
      have counted := itemStride_le_itemBytes found
      have atLeast : direntsBytes entries ≤ itemStride (Payload.dirents entries).len := by
        show direntsBytes entries ≤ itemStride (direntsBytes entries)
        unfold itemStride align8
        omega
      unfold cnodeItemsOff at items
      unfold btBodyOff
      dsimp only
      omega

/-- What `dir_insert_entry` leaves. -/
def Inserted (g : Geometry) (dir : Nat) (n : Nat) (cn : Cnode) (s after : Shadow) : Prop :=
  ∃ roles taken cn', Tidy g dir roles taken n after ∧
    after.pins = s.pins ∧ after.view dir = .cnode cn' ∧
    DirFits g.blockSize roles cn' ∧ cn'.blockNo = cn.blockNo ∧
    cn'.linkCount = cn.linkCount

theorem Grown.inserted (grown : Grown g dir roles n cn s after) (layout : Layout g)
    (items : itemBytes cn.items ≤ g.blockSize - cnodeItemsOff) : Inserted g dir n cn s after := by
  obtain ⟨roles', taken', root, tidy, -, pins, cnode, isRoot⟩ := grown
  refine ⟨roles', taken', _, tidy, pins, cnode, ⟨items, fun _ => isRoot, ?_⟩,
    rfl, rfl⟩
  intro zero
  have lower := (tidy.data isRoot.known).lower
  have first := layout.agFirst
  have isZero : root = 0 := zero
  omega

/-- An insertion, inline or in the tree, touches 28 blocks at most. -/
theorem Tidy.wp_dirInsertEntry (tidy : Tidy g dir roles taken n s) (numbered : Numbered g)
    (shown : s.view dir = .cnode cn) (fits : DirFits g.blockSize roles cn)
    (quarter : entry.Quarter g.blockSize) (room : n + 28 ≤ txnMaxBlocks) :
    s.wp (dirInsertEntry g.blockSize dir entry)
      (fun _ after => Inserted g dir (n + 28) cn s after) harmless := by
  have layout := numbered.toLayout
  unfold dirInsertEntry loadCnode
  rw [wp_bind, wp_bind, wp_load tidy.pinned, shown]
  rw [wp_pure]
  by_cases inlined : cn.treeRoot = 0
  · rw [if_neg (not_not.mpr inlined)]
    cases resized : itemResize g.blockSize cn .inlineDirents
        (.dirents (insertDirent entry (inlineDirents cn))) with
    | ok grown =>
      obtain ⟨isGrown, items⟩ := itemResize_ok resized
      rw [wp_store tidy.pinned]
      refine ⟨roles, taken, grown, (tidy.storedCnode _).weaken (by omega),
        rfl, update_self .., ⟨items, ?_, ?_⟩, ?_, ?_⟩
      · rw [isGrown]
        exact absurd inlined
      · intro _ other listed
        rw [isGrown, inlineDirents, itemFind_putItem] at listed
        rcases List.mem_cons.mp ((insertDirent_perm entry _).mem_iff.mp listed) with rfl | earlier
        · exact quarter
        · exact fits.entries inlined other earlier
      · rw [isGrown]
      · rw [isGrown]
    | error code =>
      rw [wp_bind]
      refine wp_imp (tidy.wp_dtreeSpill numbered shown
        (fits.spill inlined) (by omega)) ?_
      rintro _ mid ⟨roles', taken', root, tidy', -, pins, cnode, isRoot⟩
      rw [wp_bind, wp_bind, wp_load tidy'.pinned, cnode]
      rw [wp_pure, wp_bind, wp_store tidy'.pinned]
      refine wp_imp ((tidy'.storedCnode _).wp_dtreeInsert numbered
        (update_self ..) isRoot quarter (by omega)) ?_
      intro _ after grown
      obtain ⟨roles'', taken'', cn', last, pins', rest⟩ :=
        grown.inserted layout (itemBytes_dropItem_le.trans fits.items)
      exact ⟨roles'', taken'', cn', last, pins'.trans pins, rest⟩
  · rw [if_pos inlined]
    refine wp_imp (tidy.wp_dtreeInsert numbered shown
      (fits.tree inlined) quarter (by omega)) ?_
    intro _ after grown
    obtain ⟨roles', taken', cn', last, rest⟩ := grown.inserted layout fits.items
    exact ⟨roles', taken', cn', last.weaken (by omega), rest⟩

end Code

end CaraOS.Carafs
