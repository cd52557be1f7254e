import Sqllite.L2Storage.FileCalls
import Sqllite.L2Storage.Stable

/-!
# Roots that move

A pager only ever gets more pages (`Grows`), and a tree keeps its root or gets one on a page
that is newer than all it had (`Moved`): a root page that splits goes below a new one.

* `Btree.insert_moved`, `Btree.replace_moved`, `Btree.delete_moved`: the operations on rows.
-/
namespace Sqllite
open Lib Lib.Run Lib.Span

namespace Pager

theorem blind_pageCount (k : Nat) : Blind fun s => k ≤ s.pageCount := fun _ _ _ _ _ hs => hs

end Pager

namespace Btree

/-- The pager has `n` pages or more, and the root is on page `root` or on a newer one. -/
structure Moved (n root : Nat) (b : Btree) : Prop where
  grown : n ≤ b.pager.pageCount
  root : b.rootPage = root ∨ n < b.rootPage ∧ b.rootPage ≤ b.pager.pageCount

/-- Pages are only added. -/
def Grows {α : Type} (m : PagerM α) : Prop := ∀ k, Keeps (fun s : Pager => k ≤ s.pageCount) m

theorem grows_getPage (p : Nat) : Grows (Pager.getPage p) := fun k => (Pager.stable_pageCount k).reads p

theorem grows_writePage (page : Page) : Grows (Pager.writePage page) :=
  fun k => (Pager.stable_pageCount k).writePage page trivial

theorem grows_allocatePage : Grows Pager.allocatePage := fun k =>
  (Pager.stable_pageCount k).allocatePage.weaken (fun _ hs => hs) (fun _ _ hs => hs.1) fun _ hs => hs

theorem grows_initPage (p : Nat) (ty : UInt8) : Grows (initPage p ty) := fun _ =>
  Keeps.bind Keeps.get fun _ => Keeps.bind Keeps.lift fun _ => Keeps.bind Keeps.lift fun _ =>
    Keeps.bind (Pager.writePage_keeps (fun _ _ hs => hs) _) fun _ =>
      Pager.writePageDirect_keeps (fun _ _ _ _ _ hs => hs) _ _

section
variable {n root : Nat}

theorem Moved.grow {b : Btree} (h : Moved n root b) {p : Pager} (hp : b.pager.pageCount ≤ p.pageCount) :
    Moved n root { b with pager := p } :=
  ⟨h.grown.trans hp, h.root.imp_right fun hr => ⟨hr.1, hr.2.trans hp⟩⟩

theorem onPager_moved {α : Type} {m : PagerM α} (hm : Grows m) : Keeps (Moved n root) (onPager m) :=
  Hoare.zoom fun b hb => (hm b.pager.pageCount).weaken (fun _ ht => ht ▸ Nat.le_refl _)
    (fun _ _ ht => hb.grow ht) fun _ ht => hb.grow ht

/-- A new page is above all others. -/
theorem allocatePage_moved : Hoare (Moved n root) (onPager Pager.allocatePage)
    (fun p b => Moved n root b ∧ n < p ∧ p ≤ b.pager.pageCount) (Moved n root) := by
  refine Hoare.zoom fun b hb => fun s hs => ?_
  subst hs
  unfold Pager.allocatePage
  rw [bind_ok (get_apply _)]
  by_cases hroom : b.pager.pageCount + 1 < 2 ^ 32
  · rw [if_pos hroom]
    exact ⟨hb.grow (Nat.le_succ _), Nat.lt_succ_of_le hb.grown, Nat.le_refl _⟩
  · rw [if_neg hroom]
    exact hb

theorem promoteRootSplit_moved (split : LeafSplit) : Keeps (Moved n root) (promoteRootSplit split) := by
  refine Hoare.bind Keeps.get fun b => Hoare.bind allocatePage_moved fun newRoot => ?_
  -- behind the allocation, the page stays the new one
  have hpage : ∀ {α : Type} {m : PagerM α}, Grows m →
      Keeps (fun b => Moved n root b ∧ n < newRoot ∧ newRoot ≤ b.pager.pageCount) (onPager m) := fun hm =>
    Hoare.zoom fun b hb => (hm b.pager.pageCount).weaken (fun _ ht => ht ▸ Nat.le_refl _)
      (fun _ _ ht => ⟨hb.1.grow ht, hb.2.1, hb.2.2.trans ht⟩) fun _ ht => ⟨hb.1.grow ht, hb.2.1, hb.2.2.trans ht⟩
  have hset : Hoare (fun b => Moved n root b ∧ n < newRoot ∧ newRoot ≤ b.pager.pageCount)
      (modify fun b => { b with rootPage := newRoot } : BtreeM PUnit) (fun _ => Moved n root) (Moved n root) :=
    Hoare.modify fun b hb => ⟨hb.1.grown, .inr hb.2⟩
  have hlift : ∀ {α β : Type} {x : Result α} {f : α → BtreeM β}, (∀ a, Hoare
      (fun b => Moved n root b ∧ n < newRoot ∧ newRoot ≤ b.pager.pageCount) (f a) (fun _ => Moved n root) (Moved n root)) →
      Hoare (fun b => Moved n root b ∧ n < newRoot ∧ newRoot ≤ b.pager.pageCount) (lift x >>= f)
        (fun _ => Moved n root) (Moved n root) := fun hf => Hoare.lift_bind (fun a _ => hf a) fun _ hb => hb.1
  refine hlift fun _ => hlift fun _ => hlift fun _ => hlift fun _ => ?_
  split
  · exact Hoare.lift (fun _ heq => by cases heq) fun _ hb => hb.1
  · refine hlift fun _ => hlift fun _ => hlift fun _ => ?_
    exact Hoare.bind ((hpage (grows_writePage _)).weaken (fun _ hb => hb) (fun _ _ hb => hb) fun _ hb => hb.1)
      fun _ => hset

theorem passUp_moved (pgno : Nat) (split : LeafSplit) : Keeps (Moved n root) (passUp pgno split) := by
  refine Keeps.bind Keeps.get fun _ => ?_
  split
  · exact (promoteRootSplit_moved split).bind fun _ => Keeps.pure
  · exact Keeps.pure

theorem splitLeafTable_moved (data : Bytes) (h left right : Nat) (cell : Bytes) (key : Int) :
    Keeps (Moved n root) (splitLeafTable data h left right cell key) := by
  refine Keeps.bind Keeps.lift fun cells => ?_
  dsimp only
  split
  · exact Keeps.lift
  · split
    · exact Keeps.lift
    · exact Keeps.bind Keeps.lift fun _ => Keeps.bind (onPager_moved (grows_getPage _)) fun _ =>
        Keeps.bind Keeps.lift fun _ => Keeps.bind (onPager_moved (grows_writePage _)) fun _ => Keeps.pure

theorem splitInteriorTable_moved (data : Bytes) (h left right : Nat) (cell : Bytes) :
    Keeps (Moved n root) (splitInteriorTable data h left right cell) := by
  have hhalves : ∀ cells, Keeps (Moved n root) (rebuildInteriorHalves data h right cells) := fun _ =>
    Keeps.bind Keeps.lift fun _ => Keeps.bind Keeps.lift fun _ => Keeps.bind (onPager_moved (grows_getPage _)) fun _ =>
      Keeps.bind Keeps.lift fun _ => Keeps.bind Keeps.lift fun _ =>
        Keeps.bind (onPager_moved (grows_writePage _)) fun _ => Keeps.pure
  refine Keeps.bind Keeps.lift fun cells => ?_
  dsimp only
  split
  · exact Keeps.lift
  · split
    · exact Keeps.lift
    · exact Keeps.bind Keeps.lift fun (_, _) => Keeps.bind (hhalves _) fun _ => Keeps.pure

theorem insertIntoInteriorTable_moved (pgno : Nat) (split : LeafSplit) :
    Keeps (Moved n root) (insertIntoInteriorTable pgno split) := by
  refine Keeps.bind (onPager_moved (grows_getPage _)) fun page => Keeps.bind Keeps.lift fun _ =>
    Keeps.bind Keeps.lift fun _ => Keeps.bind Keeps.lift fun inserted => ?_
  cases inserted with
  | some data => exact Keeps.bind (onPager_moved (grows_writePage _)) fun _ => Keeps.pure
  | none =>
    exact Keeps.bind (onPager_moved grows_allocatePage) fun _ => Keeps.bind Keeps.lift fun _ =>
      Keeps.bind (onPager_moved (grows_initPage _ _)) fun _ => Keeps.bind (splitInteriorTable_moved _ _ _ _ _) fun (_, _) =>
        Keeps.bind (onPager_moved (grows_writePage _)) fun _ => passUp_moved _ _

theorem insertIntoLeafTable_moved (pgno : Nat) (cell : Bytes) (key : Int) :
    Keeps (Moved n root) (insertIntoLeafTable pgno cell key) := by
  refine Keeps.bind (onPager_moved (grows_getPage _)) fun page => Keeps.bind Keeps.lift fun pageType => ?_
  split
  · exact Keeps.lift
  · refine Keeps.bind Keeps.lift fun found => ?_
    cases found with
    | some _ => exact Keeps.lift
    | none =>
      refine Keeps.bind Keeps.lift fun inserted => ?_
      cases inserted with
      | some data => exact Keeps.bind (onPager_moved (grows_writePage _)) fun _ => Keeps.pure
      | none =>
        exact Keeps.bind (onPager_moved grows_allocatePage) fun _ =>
          Keeps.bind (onPager_moved (grows_initPage _ _)) fun _ => Keeps.bind (splitLeafTable_moved _ _ _ _ _ _) fun (_, _) =>
            Keeps.bind (onPager_moved (grows_writePage _)) fun _ => Keeps.pure

theorem insertIntoTree_moved (cell : Bytes) (key : Int) : ∀ fuel pgno,
    Keeps (Moved n root) (insertIntoTree cell key fuel pgno)
  | 0, _ => Keeps.lift
  | fuel + 1, pgno => by
    refine Keeps.bind (onPager_moved (grows_getPage _)) fun page => Keeps.bind Keeps.lift fun pageType => ?_
    split
    · exact insertIntoLeafTable_moved pgno cell key
    · split
      · refine Keeps.bind Keeps.lift fun found => Keeps.bind (insertIntoTree_moved cell key fuel found.1) fun split => ?_
        cases split with
        | some split => exact insertIntoInteriorTable_moved pgno split
        | none => exact Keeps.pure
      · exact Keeps.lift

theorem insertTableRow_moved (key : Int) (record : Bytes) : Keeps (Moved n root) (insertTableRow key record) := by
  refine Keeps.bind Keeps.lift fun cell => Keeps.bind Keeps.get fun b =>
    Keeps.bind (insertIntoTree_moved cell key _ _) fun split => ?_
  cases split with
  | none => exact Keeps.pure
  | some split =>
    refine Keeps.bind Keeps.get fun b => ?_
    split
    · exact promoteRootSplit_moved split
    · exact Keeps.bind (insertIntoInteriorTable_moved _ _) fun _ => Keeps.pure

/-- An insertion moves the root to a new page or leaves it. -/
theorem insert_moved (key : Int) (record : Bytes) : Keeps (Moved n root) (insert key record) := by
  refine Keeps.bind Keeps.get fun b => ?_
  split
  · exact Keeps.lift
  · exact insertTableRow_moved key record

theorem findLeafForKey_moved (key : Int) : ∀ fuel pgno, Keeps (Moved n root) (findLeafForKey key fuel pgno)
  | 0, _ => Keeps.lift
  | fuel + 1, pgno => by
    refine Keeps.bind (onPager_moved (grows_getPage _)) fun page => Keeps.bind Keeps.lift fun pageType => ?_
    split
    · exact Keeps.pure
    · split
      · exact Keeps.bind Keeps.lift fun found => findLeafForKey_moved key fuel found.1
      · exact Keeps.lift

theorem updateTableRow_moved (key : Int) (record : Bytes) : Keeps (Moved n root) (updateTableRow key record) := by
  refine Keeps.bind Keeps.get fun b => Keeps.bind (findLeafForKey_moved _ _ _) fun leaf =>
    Keeps.bind (onPager_moved (grows_getPage _)) fun page => Keeps.bind Keeps.lift fun updated => ?_
  cases updated with
  | none => exact Keeps.pure
  | some data => exact Keeps.bind (onPager_moved (grows_writePage _)) fun _ => Keeps.pure

theorem delete_moved (key : Int) : Keeps (Moved n root) (delete key) := by
  refine Keeps.bind Keeps.get fun b => ?_
  split
  · exact Keeps.lift
  · refine Keeps.bind (findLeafForKey_moved _ _ _) fun leaf =>
      Keeps.bind (onPager_moved (grows_getPage _)) fun page => Keeps.bind Keeps.lift fun deleted => ?_
    cases deleted with
    | none => exact Keeps.pure
    | some data => exact Keeps.bind (onPager_moved (grows_writePage _)) fun _ => Keeps.pure

theorem replace_moved (key : Int) (record : Bytes) : Keeps (Moved n root) (replace key record) := by
  refine Keeps.bind Keeps.get fun b => ?_
  split
  · exact Keeps.lift
  · refine Keeps.bind (updateTableRow_moved _ _) fun updated => ?_
    split
    · exact Keeps.pure
    · exact Keeps.bind (delete_moved _) fun _ => insertTableRow_moved _ _

end

/-! ## Transactions and modes -/

theorem grows_commit : Grows Pager.commit := fun k =>
  Pager.commit_keeps (Pager.blind_pageCount k) (fun _ _ hs => hs) fun _ _ hs => hs

theorem grows_begin : Grows Pager.begin := fun _ => Keeps.modify fun _ hs => hs

theorem grows_rollback : Grows Pager.rollback := fun _ => Keeps.modify fun _ hs => hs

theorem grows_setJournalMode (mode : JournalMode) : Grows (Pager.setJournalMode mode) := by
  intro k
  refine Keeps.bind Keeps.get fun s => ?_
  split
  · exact Keeps.lift
  · have hswitch : Keeps (fun s : Pager => k ≤ s.pageCount) (Pager.switchWal mode) := by
      refine Keeps.bind Keeps.get fun s => ?_
      split
      · exact Keeps.bind (Pager.walOpen_keeps (Pager.blind_pageCount k)) fun _ => Keeps.modify fun _ hs => hs
      · split
        · exact Keeps.modify fun _ hs => hs
        · exact Keeps.pure
    exact Keeps.bind hswitch fun _ => Keeps.bind (Keeps.modify fun _ hs => hs) fun _ => Keeps.pure

theorem grows_setPageSize (size : Nat) : Grows (Pager.setPageSize size) := by
  intro k
  refine Hoare.get_bind fun s hs => ?_
  split
  · exact Hoare.lift (fun _ heq => by cases heq) fun _ ht => ht ▸ hs
  · exact Hoare.bind (Q := fun _ (s : Pager) => k ≤ s.pageCount) (fun _ _ => hs) fun _ => Keeps.pure

end Btree

end Sqllite
