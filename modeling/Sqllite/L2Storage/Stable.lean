import Sqllite.L2Storage.Btree
import Sqllite.L2Storage.FileCalls
import Sqllite.L2Storage.PagerView

/-!
# What the B-tree's calls of its pager keep

The functions of the B-tree reach the pager through four calls: they read a page,
write one, allocate one, and write one to the file. `Stable T W I` says that these
calls keep `I` as long as they write to pages of `W`. An insertion writes to pages of
its own types and to new ones only: it keeps `I`, however it ends, where these are in `W`.

* `Btree.insert_keeps`, `Btree.insertIndex_keeps`.
* `Btree.insertIndex_hoare`: a leaf that is changed in another way.
* `BtreeCursor.first_keeps`, `BtreeCursor.next_keeps`: cursors only read.
-/
namespace Sqllite
open Lib Lib.Run Lib.Span Lib.Slotted

/-! ## Pages keep their length -/

section
variable {d d' cell : Bytes}

theorem copyInto_length {off : Nat} {bs : Bytes} (h : copyInto d off bs = .ok d') :
    d'.length = d.length := by
  unfold copyInto at h
  split at h
  · cases h
    exact patch_length ‹_›
  · cases h

theorem writeU16Be_length {off v : Nat} (h : writeU16Be d off v = .ok d') :
    d'.length = d.length := copyInto_length h

theorem writeU32Be_length {off v : Nat} (h : writeU32Be d off v = .ok d') :
    d'.length = d.length := copyInto_length h

theorem shiftUp_length {L : Layout} {idx : Nat} : ∀ {k : Nat} {d d' : Bytes},
    shiftUp L idx k d = .ok d' → d'.length = d.length
  | 0, _, _, h => by cases h; rfl
  | k + 1, _, _, h => by
    obtain ⟨_, _, h⟩ := Res.bind_eq_ok.mp h
    obtain ⟨_, h1, h⟩ := Res.bind_eq_ok.mp h
    exact (shiftUp_length h).trans (writeU16Be_length h1)

theorem tryInsertCell_length {L : Layout} {before : Nat → Result Bool}
    (h : tryInsertCell L before d cell = .ok (some d')) : d'.length = d.length := by
  obtain ⟨_, _, h⟩ := Res.bind_eq_ok.mp h
  obtain ⟨_, _, h⟩ := Res.bind_eq_ok.mp h
  obtain ⟨_, _, h⟩ := Res.bind_eq_ok.mp h
  simp only at h
  split at h
  · cases h
  · obtain ⟨_, h1, h⟩ := Res.bind_eq_ok.mp h
    obtain ⟨_, h2, h⟩ := Res.bind_eq_ok.mp h
    obtain ⟨_, h3, h⟩ := Res.bind_eq_ok.mp h
    obtain ⟨_, h4, h⟩ := Res.bind_eq_ok.mp h
    obtain ⟨_, h5, h⟩ := Res.bind_eq_ok.mp h
    cases h
    rw [writeU16Be_length h5, writeU16Be_length h4, writeU16Be_length h3, shiftUp_length h2,
      copyInto_length h1]

theorem placeCells_length : ∀ {cells : List Bytes} {d d' : Bytes} {start : Nat} {ptrs : List Nat},
    placeCells d cells = .ok (d', start, ptrs) → d'.length = d.length
  | [], _, _, _, _, h => by cases h; rfl
  | _ :: _, _, _, _, _, h => by
    obtain ⟨⟨_, _, _⟩, h1, h⟩ := Res.bind_eq_ok.mp h
    simp only at h
    split at h
    · cases h
    · obtain ⟨_, h2, h⟩ := Res.bind_eq_ok.mp h
      cases h
      rw [copyInto_length h2, placeCells_length h1]

theorem writePtrs_length {L : Layout} : ∀ {ptrs : List Nat} {i : Nat} {d d' : Bytes},
    writePtrs L ptrs i d = .ok d' → d'.length = d.length
  | [], _, _, _, h => by cases h; rfl
  | _ :: _, _, _, _, h => by
    obtain ⟨_, h1, h⟩ := Res.bind_eq_ok.mp h
    rw [writePtrs_length h, writeU16Be_length h1]

theorem writeRightmost_length {h : Nat} {rightmost : Option Nat}
    (hw : writeRightmost h rightmost d = .ok d') : d'.length = d.length := by
  cases rightmost with
  | none =>
    cases hw
    rfl
  | some r => exact writeU32Be_length hw

theorem rebuildPage_length {L : Layout} {h : Nat} {rightmost : Option Nat} {cells : List Bytes}
    (hr : rebuildPage L h rightmost d cells = .ok d') : d'.length = d.length := by
  obtain ⟨_, h1, hr⟩ := Res.bind_eq_ok.mp hr
  obtain ⟨_, h2, hr⟩ := Res.bind_eq_ok.mp hr
  obtain ⟨_, h3, hr⟩ := Res.bind_eq_ok.mp hr
  obtain ⟨_, h4, hr⟩ := Res.bind_eq_ok.mp hr
  obtain ⟨_, h5, hr⟩ := Res.bind_eq_ok.mp hr
  obtain ⟨⟨_, _, _⟩, h6, hr⟩ := Res.bind_eq_ok.mp hr
  obtain ⟨_, h7, hr⟩ := Res.bind_eq_ok.mp hr
  rw [writePtrs_length hr, writeU16Be_length h7, placeCells_length h6, writeRightmost_length h5, copyInto_length h4,
    writeU16Be_length h3, copyInto_length h2, copyInto_length h1]

theorem updateCell_length {h : Nat} {key : Int} {record : Bytes}
    (hu : updateCell d h key record = .ok (some d')) : d'.length = d.length := by
  obtain ⟨_, _, hu⟩ := Res.bind_eq_ok.mp hu
  obtain ⟨found, _, hu⟩ := Res.bind_eq_ok.mp hu
  cases found with
  | none => cases hu
  | some payloadOffset =>
    obtain ⟨⟨_, _⟩, _, hu⟩ := Res.bind_eq_ok.mp hu
    simp only at hu
    split at hu
    · cases hu
    · obtain ⟨_, h1, hu⟩ := Res.bind_eq_ok.mp hu
      cases hu
      exact copyInto_length h1

theorem shiftDown_length {L : Layout} : ∀ {k i : Nat} {d d' : Bytes},
    shiftDown L k i d = .ok d' → d'.length = d.length
  | 0, _, _, _, h => by cases h; rfl
  | k + 1, _, _, _, h => by
    obtain ⟨_, _, h⟩ := Res.bind_eq_ok.mp h
    obtain ⟨_, h1, h⟩ := Res.bind_eq_ok.mp h
    exact (shiftDown_length h).trans (writeU16Be_length h1)

theorem deleteCell_length {h : Nat} {key : Int} (hd : deleteCell d h key = .ok (some d')) :
    d'.length = d.length := by
  obtain ⟨_, _, hd⟩ := Res.bind_eq_ok.mp hd
  obtain ⟨found, _, hd⟩ := Res.bind_eq_ok.mp hd
  cases found with
  | none => cases hd
  | some i =>
    obtain ⟨_, h1, hd⟩ := Res.bind_eq_ok.mp hd
    obtain ⟨_, h2, hd⟩ := Res.bind_eq_ok.mp hd
    cases hd
    rw [writeU16Be_length h2, shiftDown_length h1]

theorem relinkRightmost_length {h : Nat} {split : LeafSplit}
    (hr : Btree.relinkRightmost d h split = .ok d') : d'.length = d.length := by
  obtain ⟨_, _, hr⟩ := Res.bind_eq_ok.mp hr
  split at hr
  · exact writeU32Be_length hr
  · cases hr
    rfl

end

/-! ## Stable invariants -/

/-- The calls that the B-tree makes of its pager keep `I` where it writes to pages of `W` only.
New pages are among these, and the pages of the types `T`. -/
structure Pager.Stable (T : UInt8 → Prop) (W : Nat → Prop) (I : Pager → Prop) : Prop where
  getPage : ∀ p, Hoare I (getPage p) (fun page s => I s ∧ page.pgno = p ∧
    ∀ ty, T ty → byteAt page.data (pageHeaderOffset p) = .ok ty → W p) I
  writePage : ∀ page, W page.pgno → Keeps I (writePage page)
  allocatePage : Hoare I allocatePage (fun p s => I s ∧ W p ∧ 1 ≤ p) I
  initPage : ∀ p ty, W p → 1 ≤ p → Keeps I (Btree.initPage p ty)

theorem Pager.Stable.reads {T : UInt8 → Prop} {W : Nat → Prop} {I : Pager → Prop}
    (h : Pager.Stable T W I) (p : Nat) : Keeps I (Pager.getPage p) :=
  (h.getPage p).weaken (fun _ hs => hs) (fun _ _ hs => hs.1) fun _ hs => hs

/-- Pages are only added. -/
theorem Pager.stable_pageCount (n : Nat) :
    Pager.Stable (fun _ => True) (fun _ => True) fun s => n ≤ s.pageCount where
  getPage := fun p => by
    refine (Pager.getPage_keeps (fun _ _ _ _ _ hs => hs) (fun _ _ hs => hs) p).with_value
      fun s page t hrun => ?_
    exact ⟨Pager.getPage_pgno hrun, fun _ _ _ => trivial⟩
  writePage := fun page _ => Pager.writePage_keeps (fun _ _ hs => hs) page
  allocatePage := by
    intro s hs
    unfold Pager.allocatePage
    rw [bind_ok (get_apply s)]
    by_cases hlt : s.pageCount + 1 < 2 ^ 32
    · rw [if_pos hlt]
      exact ⟨Nat.le_succ_of_le hs, trivial, Nat.le_add_left 1 _⟩
    · rw [if_neg hlt]
      exact hs
  initPage := fun p ty _ _ => Keeps.bind Keeps.get fun _ => Keeps.bind Keeps.lift fun _ =>
    Keeps.bind Keeps.lift fun _ => Keeps.bind (Pager.writePage_keeps (fun _ _ hs => hs) _) fun _ =>
      Pager.writePageDirect_keeps (fun _ _ _ _ _ hs => hs) _ _

/-- A new page is one more. -/
theorem Pager.allocatePage_adds (n : Nat) :
    Hoare (fun s => s.pageCount = n ∧ n + 1 < 2 ^ 32) allocatePage
      (fun p s => n + 1 ≤ s.pageCount ∧ 1 ≤ p) fun s => n + 1 ≤ s.pageCount := by
  intro s hs
  obtain ⟨rfl, hs⟩ := hs
  unfold Pager.allocatePage
  rw [bind_ok (get_apply s), if_pos hs]
  exact ⟨Nat.le_refl _, Nat.le_add_left 1 _⟩

/-- No page is left to allocate. -/
theorem Pager.allocatePage_full {s : Pager} (h : 2 ^ 32 ≤ s.pageCount + 1) :
    allocatePage s = .error .panic s := by
  rw [allocatePage, bind_ok (get_apply s), if_neg (by omega)]
  rfl

namespace Btree

/-- What holds of the pager of a B-tree, and of its root. -/
def On (I : Pager → Prop) (W : Nat → Prop) (b : Btree) : Prop := I b.pager ∧ W b.rootPage

theorem createBtree_adds (n : Nat) (pageType : UInt8) :
    Hoare (fun s => s.pageCount = n ∧ n + 1 < 2 ^ 32) (createBtree pageType)
      (fun _ s => n + 1 ≤ s.pageCount) fun s => n + 1 ≤ s.pageCount :=
  Hoare.bind_fact (Pager.allocatePage_adds n) fun _ hp =>
    Keeps.bind ((Pager.stable_pageCount (n + 1)).initPage _ _ trivial hp) fun _ => Keeps.pure

theorem createBtree_full {s : Pager} (h : 2 ^ 32 ≤ s.pageCount + 1) (pageType : UInt8) :
    createBtree pageType s = .error .panic s := bind_error (Pager.allocatePage_full h) _

section
variable {α : Type} {T : UInt8 → Prop} {W V : Nat → Prop} {I I' E : Pager → Prop}

/-- What a call of the pager keeps, and what it says of its value. -/
theorem onPager_on {m : PagerM α} {φ : α → Prop} (h : Hoare I m (fun a s => I s ∧ φ a) I) :
    Hoare (On I V) (onPager m) (fun a b => On I V b ∧ φ a) (On I V) :=
  Hoare.zoom fun _ hb => h.weaken (fun _ ht => ht ▸ hb.1) (fun _ _ ht => ⟨⟨ht.1, hb.2⟩, ht.2⟩)
    fun _ ht => ⟨ht, hb.2⟩

theorem onPager_keeps {m : PagerM α} (h : Keeps I m) : Keeps (On I V) (onPager m) :=
  Keeps.zoom h (fun _ hb => hb.1) fun _ _ hb ht => ⟨ht, hb.2⟩

theorem splitLeafTable_keeps (h : Pager.Stable T W I) (data : Bytes) (off left : Nat) {right : Nat}
    (hright : W right) (newCell : Bytes) (newKey : Int) :
    Keeps (On I V) (splitLeafTable data off left right newCell newKey) := by
  refine Keeps.bind Keeps.lift fun cells => ?_
  dsimp only
  split
  · exact Keeps.lift
  · split
    · exact Keeps.lift
    · refine Keeps.bind Keeps.lift fun _ => Hoare.bind_fact (onPager_on (h.getPage _)) fun page hpage => ?_
      exact Keeps.bind Keeps.lift fun _ =>
        Keeps.bind (onPager_keeps (h.writePage _ (by rwa [hpage.1]))) fun _ => Keeps.pure

theorem splitLeafIndex_keeps (h : Pager.Stable T W I) (data : Bytes) (off left : Nat) {right : Nat}
    (hright : W right) (newCell newDivider : Bytes) :
    Keeps (On I V) (splitLeafIndex data off left right newCell newDivider) := by
  refine Keeps.bind Keeps.lift fun cells => ?_
  dsimp only
  split
  · exact Keeps.lift
  · split
    · exact Keeps.lift
    · refine Keeps.bind Keeps.lift fun _ => Hoare.bind_fact (onPager_on (h.getPage _)) fun page hpage => ?_
      exact Keeps.bind Keeps.lift fun _ =>
        Keeps.bind (onPager_keeps (h.writePage _ (by rwa [hpage.1]))) fun _ => Keeps.pure

theorem rebuildInteriorHalves_keeps (h : Pager.Stable T W I) (data : Bytes) (off : Nat) {right : Nat}
    (hright : W right) (cells : List Bytes) :
    Keeps (On I W) (rebuildInteriorHalves data off right cells) := by
  refine Keeps.bind Keeps.lift fun _ => Keeps.bind Keeps.lift fun _ =>
    Hoare.bind_fact (onPager_on (h.getPage _)) fun page hpage => ?_
  exact Keeps.bind Keeps.lift fun _ => Keeps.bind Keeps.lift fun _ =>
    Keeps.bind (onPager_keeps (h.writePage _ (by rwa [hpage.1]))) fun _ => Keeps.pure

theorem splitInteriorTable_keeps (h : Pager.Stable T W I) (data : Bytes) (off left : Nat) {right : Nat}
    (hright : W right) (newCell : Bytes) :
    Keeps (On I W) (splitInteriorTable data off left right newCell) := by
  refine Keeps.bind Keeps.lift fun cells => ?_
  dsimp only
  split
  · exact Keeps.lift
  · split
    · exact Keeps.lift
    · exact Keeps.bind Keeps.lift fun (_, _) =>
        Keeps.bind (rebuildInteriorHalves_keeps h _ _ hright _) fun _ => Keeps.pure

theorem splitInteriorIndex_keeps (h : Pager.Stable T W I) (data : Bytes) (off left : Nat) {right : Nat}
    (hright : W right) (newCell : Bytes) :
    Keeps (On I W) (splitInteriorIndex data off left right newCell) := by
  refine Keeps.bind Keeps.lift fun cells => ?_
  dsimp only
  split
  · exact Keeps.lift
  · split
    · exact Keeps.lift
    · exact Keeps.bind Keeps.lift fun (_, _) =>
        Keeps.bind (rebuildInteriorHalves_keeps h _ _ hright _) fun _ => Keeps.pure

/-- The new root is a new page, wherever the old one was. -/
theorem promoteRootSplit_moves (h : Pager.Stable T W I) (split : LeafSplit) :
    Hoare (On I V) (promoteRootSplit split) (fun _ => On I W) (On I V) := by
  refine Hoare.bind (Keeps.get (I := On I V)) fun _ =>
    Hoare.bind_fact (onPager_on h.allocatePage) fun newRoot hnew => ?_
  refine Hoare.bind Keeps.lift fun _ => Hoare.bind Keeps.lift fun _ => Hoare.bind Keeps.lift fun _ =>
    Hoare.bind Keeps.lift fun _ => ?_
  split
  · exact Hoare.lift (fun _ heq => by cases heq) fun _ hb => hb
  · exact Hoare.bind Keeps.lift fun _ => Hoare.bind Keeps.lift fun _ => Hoare.bind Keeps.lift fun _ =>
      Hoare.bind (onPager_keeps (h.writePage _ hnew.1)) fun _ =>
        Hoare.modify fun _ hb => ⟨hb.1, hnew.1⟩

theorem passUp_keeps (h : Pager.Stable T W I) (pgno : Nat) (split : LeafSplit) :
    Keeps (On I W) (passUp pgno split) := by
  refine Keeps.bind Keeps.get fun _ => ?_
  split
  · exact Keeps.bind (promoteRootSplit_moves h _) fun _ => Keeps.pure
  · exact Keeps.pure

theorem insertIntoInteriorTable_keeps (h : Pager.Stable T W I) {pgno : Nat} (hp : W pgno)
    (split : LeafSplit) : Keeps (On I W) (insertIntoInteriorTable pgno split) := by
  refine Hoare.bind_fact (onPager_on (h.getPage _)) fun page hpage => Keeps.bind Keeps.lift fun _ =>
    Keeps.bind Keeps.lift fun _ => Keeps.bind Keeps.lift fun inserted => ?_
  have hwrite : ∀ data, Keeps (On I W) (onPager (Pager.writePage { page with data := data })) :=
    fun data => onPager_keeps (h.writePage _ (by rwa [hpage.1]))
  cases inserted with
  | some data => exact Keeps.bind (hwrite _) fun _ => Keeps.pure
  | none =>
    exact Hoare.bind_fact (onPager_on h.allocatePage) fun right hright => Keeps.bind Keeps.lift fun _ =>
      Keeps.bind (onPager_keeps (h.initPage _ _ hright.1 hright.2)) fun _ =>
      Keeps.bind (splitInteriorTable_keeps h _ _ _ hright.1 _) fun (_, _) =>
      Keeps.bind (hwrite _) fun _ => passUp_keeps h _ _

theorem insertIntoInteriorIndex_keeps (h : Pager.Stable T W I) {pgno : Nat} (hp : W pgno)
    (split : LeafSplit) : Keeps (On I W) (insertIntoInteriorIndex pgno split) := by
  unfold insertIntoInteriorIndex
  cases split.dividerBlob with
  | none => exact Keeps.lift
  | some divider =>
    refine Hoare.bind_fact (onPager_on (h.getPage _)) fun page hpage => Keeps.bind Keeps.lift fun _ =>
      Keeps.bind Keeps.lift fun _ => Keeps.bind Keeps.lift fun inserted => ?_
    have hwrite : ∀ data, Keeps (On I W) (onPager (Pager.writePage { page with data := data })) :=
      fun data => onPager_keeps (h.writePage _ (by rwa [hpage.1]))
    cases inserted with
    | some data => exact Keeps.bind (hwrite _) fun _ => Keeps.pure
    | none =>
      exact Hoare.bind_fact (onPager_on h.allocatePage) fun right hright =>
        Keeps.bind (onPager_keeps (h.initPage _ _ hright.1 hright.2)) fun _ =>
        Keeps.bind (splitInteriorIndex_keeps h _ _ _ hright.1 _) fun (_, _) =>
        Keeps.bind (hwrite _) fun _ => passUp_keeps h _ _

theorem insertIntoLeafTable_keeps (h : Pager.Stable T W I) (hl : T PAGE_TYPE_LEAF_TABLE) (pgno : Nat)
    (cell : Bytes) (key : Int) : Keeps (On I W) (insertIntoLeafTable pgno cell key) := by
  refine Hoare.bind_fact (onPager_on (h.getPage _)) fun page hpage =>
    Hoare.lift_bind (fun pageType htype => ?_) fun _ hb => hb
  split
  · exact Keeps.lift
  · next heq =>
    have hp : W pgno := hpage.2 _ hl (by rw [htype, Decidable.of_not_not heq])
    have hwrite : ∀ data, Keeps (On I W) (onPager (Pager.writePage { page with data := data })) :=
      fun data => onPager_keeps (h.writePage _ (by rwa [hpage.1]))
    refine Keeps.bind Keeps.lift fun found => ?_
    cases found with
    | some k => exact Keeps.lift
    | none =>
      refine Keeps.bind Keeps.lift fun inserted => ?_
      cases inserted with
      | some data => exact Keeps.bind (hwrite _) fun _ => Keeps.pure
      | none =>
        exact Hoare.bind_fact (onPager_on h.allocatePage) fun right hright =>
          Keeps.bind (onPager_keeps (h.initPage _ _ hright.1 hright.2)) fun _ =>
          Keeps.bind (splitLeafTable_keeps h _ _ _ hright.1 _ _) fun (_, _) =>
          Keeps.bind (hwrite _) fun _ => Keeps.pure

theorem insertIntoLeafIndex_keeps (h : Pager.Stable T W I) {pgno : Nat}
    (hl : W pgno ∨ T PAGE_TYPE_LEAF_INDEX) (cell divider : Bytes) :
    Hoare (On I fun r => W r ∨ r = pgno) (insertIntoLeafIndex pgno cell divider) (fun _ => On I W)
      fun b => I b.pager := by
  refine Hoare.bind_fact ((onPager_on (h.getPage _)).weaken (fun _ hb => hb) (fun _ _ hb => hb)
    fun _ hb => hb.1) fun page hpage => Hoare.lift_bind (fun pageType htype => ?_) fun _ hb => hb.1
  split
  · exact Hoare.lift (fun _ heq => by cases heq) fun _ hb => hb.1
  · next heq =>
    have hp : W pgno := hl.elim id fun hl => hpage.2 _ hl (by rw [htype, Decidable.of_not_not heq])
    have hwrite : ∀ data, Keeps (On I W) (onPager (Pager.writePage { page with data := data })) :=
      fun data => onPager_keeps (h.writePage _ (by rwa [hpage.1]))
    refine Hoare.weaken (P := On I W) (Q := fun _ => On I W) (E := On I W) ?_
      (fun b hb => ⟨hb.1, hb.2.elim id fun heq => heq ▸ hp⟩) (fun _ _ hb => hb) fun _ hb => hb.1
    refine Keeps.bind Keeps.lift fun found => ?_
    split
    · exact Keeps.lift
    · refine Keeps.bind Keeps.lift fun inserted => ?_
      cases inserted with
      | some data => exact Keeps.bind (hwrite _) fun _ => Keeps.pure
      | none =>
        exact Hoare.bind_fact (onPager_on h.allocatePage) fun right hright =>
          Keeps.bind (onPager_keeps (h.initPage _ _ hright.1 hright.2)) fun _ =>
          Keeps.bind (splitLeafIndex_keeps h _ _ _ hright.1 _ _) fun (_, _) =>
          Keeps.bind (hwrite _) fun _ => Keeps.pure

/-- From a root of any kind: its page is read before anything is written. -/
theorem insertIntoTree_keeps (h : Pager.Stable T W I) (hl : T PAGE_TYPE_LEAF_TABLE)
    (hi : T PAGE_TYPE_INTERIOR_TABLE) (cell : Bytes) (key : Int) : ∀ n pgno,
    Hoare (On I fun r => W r ∨ r = pgno) (insertIntoTree cell key n pgno) (fun _ => On I W)
      fun b => I b.pager
  | 0, _ => Hoare.lift (fun _ heq => by cases heq) fun _ hb => hb.1
  | n + 1, pgno => by
    refine Hoare.bind_fact ((onPager_on (h.getPage _)).weaken (fun _ hb => hb) (fun _ _ hb => hb)
      fun _ hb => hb.1) fun page hpage => Hoare.lift_bind (fun pageType htype => ?_) fun _ hb => hb.1
    have hon : W pgno → ∀ b, On I (fun r => W r ∨ r = pgno) b → On I W b := fun hp b hb =>
      ⟨hb.1, hb.2.elim id fun heq => heq ▸ hp⟩
    split
    · next heq =>
      have hp : W pgno := hpage.2 _ hl (by rw [htype, heq])
      exact (insertIntoLeafTable_keeps h hl pgno cell key).weaken (hon hp) (fun _ _ hb => hb)
        fun _ hb => hb.1
    · split
      · next heq =>
        have hp : W pgno := hpage.2 _ hi (by rw [htype, heq])
        refine Hoare.lift_bind (fun found _ => ?_) fun _ hb => hb.1
        refine Hoare.bind ((insertIntoTree_keeps h hl hi cell key n found.1).weaken
          (fun b hb => ⟨hb.1, .inl (hon hp b hb).2⟩) (fun _ _ hb => hb) fun _ hb => hb) fun split => ?_
        cases split with
        | some split =>
          exact (insertIntoInteriorTable_keeps h hp split).weaken (fun _ hb => hb) (fun _ _ hb => hb)
            fun _ hb => hb.1
        | none => exact fun _ hb => hb
      · exact Hoare.lift (fun _ heq => by cases heq) fun _ hb => hb.1

/-- The same for an index, with a leaf that may change otherwise. -/
theorem insertIndexIntoTree_hoare (h : Pager.Stable T W I) (h' : Pager.Stable T W I')
    (hE : ∀ s, I s → E s) (hE' : ∀ s, I' s → E s) (hi : T PAGE_TYPE_INTERIOR_INDEX)
    {cell divider : Bytes}
    (hleaf : ∀ pgno, Hoare (On I fun r => W r ∨ r = pgno ∧ T PAGE_TYPE_LEAF_INDEX)
      (insertIntoLeafIndex pgno cell divider) (fun _ => On I' W) fun b => E b.pager) : ∀ n pgno,
    Hoare (On I fun r => W r ∨ r = pgno ∧ T PAGE_TYPE_LEAF_INDEX)
      (insertIndexIntoTree cell divider n pgno) (fun _ => On I' W) fun b => E b.pager
  | 0, _ => Hoare.lift (fun _ heq => by cases heq) fun _ hb => hE _ hb.1
  | n + 1, pgno => by
    refine Hoare.bind_fact ((onPager_on (h.getPage _)).weaken (fun _ hb => hb) (fun _ _ hb => hb)
      fun _ hb => hE _ hb.1) fun page hpage => Hoare.lift_bind (fun pageType htype => ?_)
      fun _ hb => hE _ hb.1
    split
    · exact hleaf pgno
    · split
      · next heq =>
        have hp : W pgno := hpage.2 _ hi (by rw [htype, heq])
        refine Hoare.lift_bind (fun found _ => ?_) fun _ hb => hE _ hb.1
        refine Hoare.bind ((insertIndexIntoTree_hoare h h' hE hE' hi hleaf n found.1).weaken
          (fun b hb => ⟨hb.1, .inl (hb.2.elim id fun heq => heq.1 ▸ hp)⟩) (fun _ _ hb => hb)
          fun _ hb => hb) fun split => ?_
        cases split with
        | some split =>
          exact (insertIntoInteriorIndex_keeps h' hp split).weaken (fun _ hb => hb) (fun _ _ hb => hb)
            fun _ hb => hE' _ hb.1
        | none => exact fun _ hb => hb
      · exact Hoare.lift (fun _ heq => by cases heq) fun _ hb => hE _ hb.1

theorem insertTableRow_keeps (h : Pager.Stable T W I) (hl : T PAGE_TYPE_LEAF_TABLE)
    (hi : T PAGE_TYPE_INTERIOR_TABLE) (key : Int) (record : Bytes) :
    Keeps (fun b : Btree => I b.pager) (insertTableRow key record) := by
  refine Hoare.lift_bind (fun cell _ => Hoare.get_bind fun b hb => ?_) fun _ hb => hb
  refine Hoare.bind ((insertIntoTree_keeps h hl hi cell key (fuel b.pager) b.rootPage).weaken
    (fun _ hb' => by rw [hb']; exact ⟨hb, .inr rfl⟩) (fun _ _ hb => hb) fun _ hb => hb) fun split => ?_
  cases split with
  | none => exact Hoare.pure.weaken (fun _ hb => hb.1) (fun _ _ hb => hb) fun _ hb => hb
  | some split =>
    refine Hoare.get_bind fun b hb => ?_
    split
    · exact (promoteRootSplit_moves (V := W) h split).weaken (fun _ hb' => hb' ▸ hb)
        (fun _ _ hb => hb.1) fun _ hb => hb.1
    · exact (Keeps.bind (insertIntoInteriorTable_keeps h hb.2 split) fun _ => Keeps.pure).weaken
        (fun _ hb' => hb' ▸ hb) (fun _ _ hb => hb.1) fun _ hb => hb.1

theorem insert_keeps (h : Pager.Stable T W I) (hl : T PAGE_TYPE_LEAF_TABLE)
    (hi : T PAGE_TYPE_INTERIOR_TABLE) (key : Int) (record : Bytes) :
    Keeps (fun b : Btree => I b.pager) (insert key record) := by
  refine Keeps.bind Keeps.get fun b => ?_
  split
  · exact Keeps.lift
  · exact insertTableRow_keeps h hl hi _ _

/-- An insertion into an index, with a leaf that may change otherwise. -/
theorem insertIndex_hoare (h : Pager.Stable T W I) (h' : Pager.Stable T W I')
    (hE : ∀ s, I s → E s) (hE' : ∀ s, I' s → E s) (hi : T PAGE_TYPE_INTERIOR_INDEX) {key : Bytes}
    {rowid : Int} (hleaf : ∀ n cell, writeVarint (asU64 rowid) = .ok n →
      buildIndexCell (key ++ n) = .ok cell → ∀ pgno,
      Hoare (On I fun r => W r ∨ r = pgno ∧ T PAGE_TYPE_LEAF_INDEX)
        (insertIntoLeafIndex pgno cell (key ++ n)) (fun _ => On I' W) fun b => E b.pager) :
    Hoare (On I fun r => W r ∨ T PAGE_TYPE_LEAF_INDEX) (insertIndex key rowid)
      (fun _ => On I' W) fun b => E b.pager := by
  refine Hoare.bind Hoare.get fun b => ?_
  split
  · exact Hoare.lift (fun _ heq => by cases heq) fun _ hb => hE _ hb.2.1
  · refine Hoare.lift_bind (fun n hn => Hoare.lift_bind (fun cell hcell => Hoare.get_bind fun b hb => ?_)
      fun _ hb => hE _ hb.2.1) fun _ hb => hE _ hb.2.1
    refine Hoare.bind ((insertIndexIntoTree_hoare h h' hE hE' hi (hleaf n cell hn hcell)
      (fuel b.pager) b.rootPage).weaken (fun _ hb' => by
        rw [hb']
        exact ⟨hb.2.1, hb.2.2.imp_right fun hl => ⟨rfl, hl⟩⟩)
      (fun _ _ hb => hb) fun _ hb => hb) fun split => ?_
    cases split with
    | none => exact fun _ hb => hb
    | some split =>
      refine Hoare.get_bind fun b hb => ?_
      split
      · exact (promoteRootSplit_moves (V := W) h' split).weaken (fun _ hb' => hb' ▸ hb)
          (fun _ _ hb => hb) fun _ hb => hE' _ hb.1
      · exact (Keeps.bind (insertIntoInteriorIndex_keeps h' hb.2 split) fun _ => Keeps.pure).weaken
          (fun _ hb' => hb' ▸ hb) (fun _ _ hb => hb) fun _ hb => hE' _ hb.1

theorem insertIndex_keeps (h : Pager.Stable T W I) (hl : T PAGE_TYPE_LEAF_INDEX)
    (hi : T PAGE_TYPE_INTERIOR_INDEX) (key : Bytes) (rowid : Int) :
    Keeps (fun b : Btree => I b.pager) (insertIndex key rowid) :=
  (insertIndex_hoare h h (fun _ hs => hs) (fun _ hs => hs) hi fun _ cell _ _ _ =>
    (insertIntoLeafIndex_keeps h (.inr hl) cell _).weaken
      (fun _ hb => ⟨hb.1, hb.2.imp_right And.left⟩) (fun _ _ hb => hb) fun _ hb => hb).weaken
    (fun _ hb => ⟨hb, .inr hl⟩) (fun _ _ hb => hb.1) fun _ hb => hb

end
end Btree

/-! ## Cursors -/

namespace BtreeCursor

variable {J : Btree → Prop}

/-- What holds of the B-tree of a cursor and outlives a read of a page. -/
def OnReads (J : Btree → Prop) : Prop :=
  ∀ p, Keeps (fun c : BtreeCursor => J c.btree) (onPager (Pager.getPage p))

theorem descendLeftmostFrom_keeps (h : OnReads J) : ∀ n p,
    Keeps (fun c : BtreeCursor => J c.btree) (descendLeftmostFrom n p)
  | 0, _ => Keeps.lift
  | n + 1, p => by
    refine Keeps.bind (h p) fun page => Keeps.bind Keeps.lift fun pageType => ?_
    split
    · exact Keeps.pure
    · split
      · exact Keeps.bind Keeps.lift fun child => Keeps.bind (Keeps.modify fun _ hc => hc) fun _ =>
          descendLeftmostFrom_keeps h n child
      · exact Keeps.lift

theorem descendForKey_keeps (h : OnReads J) (key : Int) : ∀ n p,
    Keeps (fun c : BtreeCursor => J c.btree) (descendForKey key n p)
  | 0, _ => Keeps.lift
  | n + 1, p => by
    refine Keeps.bind (h p) fun page => Keeps.bind Keeps.lift fun pageType => ?_
    split
    · exact Keeps.pure
    · split
      · exact Keeps.bind Keeps.lift fun (child, _) => Keeps.bind (Keeps.modify fun _ hc => hc)
          fun _ => descendForKey_keeps h key n child
      · exact Keeps.lift

theorem popToNextLeaf_keeps (h : OnReads J) : ∀ stack,
    Keeps (fun c : BtreeCursor => J c.btree) (popToNextLeaf stack)
  | [] => Keeps.bind (Keeps.modify fun _ hc => hc) fun _ => Keeps.pure
  | frame :: stack => by
    refine Keeps.bind (Keeps.modify fun _ hc => hc) fun _ => Keeps.bind (h _) fun page =>
      Keeps.bind Keeps.lift fun cellCount => ?_
    dsimp only
    split
    · exact Keeps.bind (Keeps.modify fun _ hc => hc) fun _ => Keeps.bind Keeps.lift fun child =>
        Keeps.bind Keeps.get fun c => Keeps.bind (descendLeftmostFrom_keeps h _ _) fun _ => Keeps.pure
    · exact popToNextLeaf_keeps h stack

theorem readCurrent_keeps (h : OnReads J) :
    Keeps (fun c : BtreeCursor => J c.btree) readCurrent := by
  refine Keeps.bind Keeps.get fun c => Keeps.bind (h _) fun page => Keeps.bind Keeps.lift
    fun cellCount => ?_
  split
  · exact Keeps.pure
  · exact Keeps.bind Keeps.lift fun ptr => Keeps.bind Keeps.lift fun (key, record) =>
      Keeps.bind (Keeps.modify fun _ hc => hc) fun _ => Keeps.pure

theorem first_keeps (h : OnReads J) : Keeps (fun c : BtreeCursor => J c.btree) first :=
  Keeps.bind (Keeps.modify fun _ hc => hc) fun _ => Keeps.bind Keeps.get fun _ =>
    Keeps.bind (descendLeftmostFrom_keeps h _ _) fun _ =>
      Keeps.bind (Keeps.modify fun _ hc => hc) fun _ => readCurrent_keeps h

theorem nextLeaf_keeps (h : OnReads J) : Keeps (fun c : BtreeCursor => J c.btree) nextLeaf := by
  refine Keeps.bind (Keeps.bind Keeps.get fun c => popToNextLeaf_keeps h _) fun leaf => ?_
  cases leaf with
  | some leaf => exact Keeps.bind (Keeps.modify fun _ hc => hc) fun _ => readCurrent_keeps h
  | none => exact Keeps.bind (Keeps.modify fun _ hc => hc) fun _ => Keeps.pure

theorem next_keeps (h : OnReads J) : Keeps (fun c : BtreeCursor => J c.btree) next := by
  refine Keeps.bind Keeps.get fun c => ?_
  split
  · exact Keeps.pure
  · refine Keeps.bind (Keeps.modify fun _ hc => hc) fun _ => Keeps.bind (readCurrent_keeps h)
      fun more => ?_
    split
    · exact Keeps.pure
    · exact nextLeaf_keeps h

theorem seek_keeps (h : OnReads J) (key : Int) :
    Keeps (fun c : BtreeCursor => J c.btree) (seek key) := by
  refine Keeps.bind (Keeps.modify fun _ hc => hc) fun _ => Keeps.bind Keeps.get fun c =>
    Keeps.bind (descendForKey_keeps h key _ _) fun leaf =>
    Keeps.bind (Keeps.modify fun _ hc => hc) fun _ => Keeps.bind (h _) fun page =>
    Keeps.bind Keeps.lift fun cellCount => Keeps.bind (Keeps.modify fun _ hc => hc) fun _ =>
    Keeps.bind Keeps.lift fun found => ?_
  cases found with
  | some i => exact Keeps.bind (Keeps.modify fun _ hc => hc) fun _ => readCurrent_keeps h
  | none => exact Keeps.bind (Keeps.modify fun _ hc => hc) fun _ => Keeps.pure

/-- A cursor stays on its B-tree. -/
theorem onReads_root (root : Nat) (flags : BtreeFlags) :
    OnReads fun b => b.rootPage = root ∧ b.flags = flags := fun p =>
  Keeps.zoom (J := fun _ => True) (fun _ _ => by dsimp only; split <;> trivial)
    (fun _ _ => trivial) fun _ _ h _ => h

/-- What reads of the pager keep, a cursor keeps. -/
theorem onReads_pager {I : Pager → Prop} (h : ∀ p, Keeps I (Pager.getPage p)) :
    OnReads fun b => I b.pager := fun p => Keeps.zoom (h p) (fun _ hc => hc) fun _ _ _ ht => ht

end BtreeCursor

end Sqllite
