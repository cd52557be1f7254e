import Sqllite.Lib.Alike
import Sqllite.L3Sql.CatalogKeeps

/-!
# Pagers that differ in their caches

A read may bring a page into the cache, as it is stored and not dirty. Behind it every page
reads the same, the same pages are dirty, and nothing else has changed (`Pager.Recached`).

* `Pager.getPage_recaches`: behind a read.
* `Pager.getPage_matches`, `BtreeCursor.first_matches`, `next_matches`, `seek_matches`,
  `scan_matches`: reads of two such pagers answer the same.
-/
namespace Sqllite
open Lib Lib.Run Lib.Span

namespace Pager

/-- A page is in the cache and dirty. -/
def dirtyAt (s : Pager) (p : Nat) : Bool := ((s.cache.lookup p).map (·.dirty)).getD false

/-- The same pager with other clean pages in its cache. -/
structure Recached (s t : Pager) : Prop where
  ready : s.WalReady
  rest : ∃ cache, t = { s with cache := cache }
  view : ∀ p, t.view p = s.view p
  flag : ∀ p, t.dirtyAt p = s.dirtyAt p
  dirty : t.dirtyPages = s.dirtyPages

variable {s t u : Pager}

theorem Recached.refl (h : s.WalReady) : s.Recached s := ⟨h, ⟨s.cache, rfl⟩, fun _ => rfl, fun _ => rfl, rfl⟩

theorem Recached.trans (h : s.Recached t) (g : t.Recached u) : s.Recached u where
  ready := h.ready
  rest := by
    obtain ⟨⟨cache, rfl⟩, ⟨cache', rfl⟩⟩ := And.intro h.rest g.rest
    exact ⟨cache', rfl⟩
  view := fun p => (g.view p).trans (h.view p)
  flag := fun p => (g.flag p).trans (h.flag p)
  dirty := g.dirty.trans h.dirty

theorem Recached.walReady (h : s.Recached t) : t.WalReady := by
  obtain ⟨cache, rfl⟩ := h.rest
  exact h.ready

theorem Recached.pageCount (h : s.Recached t) : t.pageCount = s.pageCount := by
  obtain ⟨cache, rfl⟩ := h.rest
  rfl

theorem Recached.inTransaction (h : s.Recached t) : t.inTransaction = s.inTransaction := by
  obtain ⟨cache, rfl⟩ := h.rest
  rfl

/-- A page comes into the cache as it is stored. -/
theorem touch_recached (h : s.WalReady) {p : Nat} {d : Bytes} (hv : s.view p = .ok d) : s.Recached (s.touch p d) := by
  obtain ⟨hrest, hview⟩ := view_touch hv
  refine ⟨h, hrest, hview, fun q => ?_, ?_⟩
  · unfold touch dirtyAt
    cases hp : s.cache.lookup p with
    | some f => rfl
    | none =>
      dsimp only
      by_cases hq : q = p
      · rw [hq, AList.lookup_insert, hp]
        rfl
      · rw [AList.lookup_insert_ne hq]
  · unfold touch dirtyPages
    cases hp : s.cache.lookup p with
    | some f => rfl
    | none =>
      have hentries := AList.entries_insert_of_notMem (s := s.cache) (b := ({ data := d, dirty := false } : Frame))
        (AList.lookup_eq_none.mp hp)
      dsimp only
      rw [hentries, List.filter_cons_of_neg (by simp)]

theorem getPage_recached (h : s.Recached t) (p : Nat) :
    getPage p t = match s.view p with
      | .ok d => .ok (s.pageOf p d) (t.touch p d)
      | .error e => .error e t := by
  have hpage : ∀ d, t.pageOf p d = s.pageOf p d := fun d => congrArg (Page.mk p d) (h.flag p)
  rw [getPage_eq h.walReady, h.view]
  cases s.view p with
  | ok d => exact congrArg (EStateM.Result.ok · _) (hpage d)
  | error e => rfl

/-- Reads leave the pager as it is, but for its cache. -/
theorem getPage_recaches (p : Nat) : Keeps (fun t => s.Recached t) (getPage p) := by
  intro t ht
  rw [getPage_recached ht]
  cases hv : s.view p with
  | ok d => exact ht.trans (touch_recached ht.walReady ((ht.view p).trans hv))
  | error e => exact ht

/-- Both give the same page. -/
theorem getPage_matches (h : s.Recached t) (p : Nat) : Matches Recached (getPage p s) (getPage p t) := by
  rw [getPage_recached h, getPage_recached (.refl h.ready)]
  cases hv : s.view p with
  | error e => exact ⟨rfl, h⟩
  | ok d =>
    have hs := touch_recached h.ready hv
    have ht := touch_recached h.walReady ((h.view p).trans hv)
    refine ⟨rfl, hs.walReady, ?_, fun q => ?_, fun q => ?_, ?_⟩
    · obtain ⟨⟨c, hc⟩, ⟨c', hc'⟩, ⟨c'', hc''⟩⟩ := And.intro hs.rest (And.intro h.rest ht.rest)
      rw [hc'', hc', hc]
      exact ⟨c'', rfl⟩
    · rw [ht.view, hs.view, h.view]
    · rw [ht.flag, hs.flag, h.flag]
    · rw [ht.dirty, hs.dirty, h.dirty]

end Pager

/-! ## Cursors -/

namespace BtreeCursor

/-- The same cursor on a pager with another cache. -/
def Recached (c c' : BtreeCursor) : Prop :=
  ∃ t, c.btree.pager.Recached t ∧ c' = { c with btree := { c.btree with pager := t } }

variable {c c' : BtreeCursor}

theorem getPage_matches (h : Recached c c') (p : Nat) :
    Matches Recached (onPager (Pager.getPage p) c) (onPager (Pager.getPage p) c') := by
  obtain ⟨t, ht, rfl⟩ := h
  exact Matches.parts (Pager.getPage_matches ht p) fun u w hu => ⟨w, hu, rfl⟩

/-- A change of the position. -/
theorem modify_matches (h : Recached c c') {f : BtreeCursor → BtreeCursor}
    (hf : ∀ t, f { c with btree := { c.btree with pager := t } } =
      { f c with btree := { (f c).btree with pager := t } }) (hpager : (f c).btree.pager = c.btree.pager) :
    Matches Recached ((modify f : CursorM PUnit) c) ((modify f : CursorM PUnit) c') := by
  obtain ⟨t, ht, rfl⟩ := h
  exact ⟨rfl, t, hpager ▸ ht, hf t⟩

theorem Recached.fuel (h : Recached c c') : Btree.fuel c'.btree.pager = Btree.fuel c.btree.pager := by
  obtain ⟨t, ht, rfl⟩ := h
  unfold Btree.fuel
  rw [ht.pageCount]

theorem descendLeftmostFrom_matches : ∀ (n p : Nat) {c c' : BtreeCursor}, Recached c c' →
    Matches Recached (descendLeftmostFrom n p c) (descendLeftmostFrom n p c')
  | 0, _, _, _, h => .lift h
  | n + 1, p, c, c', h => by
    refine Matches.bind (getPage_matches h p) fun page c c' h => Matches.bind (.lift h) fun pageType c c' h => ?_
    split
    · exact .pure h
    · split
      · refine Matches.bind (.lift h) fun child c c' h => ?_
        exact Matches.bind (modify_matches h (fun _ => rfl) rfl) fun _ c c' h => descendLeftmostFrom_matches n child h
      · exact .lift h

theorem descendForKey_matches (key : Int) : ∀ (n p : Nat) {c c' : BtreeCursor}, Recached c c' →
    Matches Recached (descendForKey key n p c) (descendForKey key n p c')
  | 0, _, _, _, h => .lift h
  | n + 1, p, c, c', h => by
    refine Matches.bind (getPage_matches h p) fun page c c' h => Matches.bind (.lift h) fun pageType c c' h => ?_
    split
    · exact .pure h
    · split
      · refine Matches.bind (.lift h) fun (child, slot) c c' h => ?_
        exact Matches.bind (modify_matches h (fun _ => rfl) rfl) fun _ c c' h => descendForKey_matches key n child h
      · exact .lift h

theorem popToNextLeaf_matches : ∀ (stack : List CursorFrame) {c c' : BtreeCursor}, Recached c c' →
    Matches Recached (popToNextLeaf stack c) (popToNextLeaf stack c')
  | [], c, c', h => Matches.bind (modify_matches h (fun _ => rfl) rfl) fun _ _ _ h => .pure h
  | frame :: stack, c, c', h => by
    refine Matches.bind (modify_matches h (fun _ => rfl) rfl) fun _ c c' h => Matches.bind (getPage_matches h _)
      fun page c c' h => Matches.bind (.lift h) fun cellCount c c' h => ?_
    by_cases hslot : frame.childSlot + 1 ≤ cellCount
    · rw [if_pos hslot]
      refine Matches.bind (modify_matches h (fun _ => rfl) rfl) fun _ c c' h => Matches.bind (.lift h)
        fun child c c' h => Matches.get ?_
      rw [h.fuel]
      exact Matches.bind (descendLeftmostFrom_matches _ _ h) fun _ _ _ h => .pure h
    · rw [if_neg hslot]
      exact popToNextLeaf_matches stack h

theorem readCurrent_matches (h : Recached c c') : Matches Recached (readCurrent c) (readCurrent c') := by
  obtain ⟨t, ht, rfl⟩ := h
  refine Matches.get (Matches.bind (getPage_matches ⟨t, ht, rfl⟩ _) fun page c₁ c₁' h => Matches.bind (.lift h)
    fun cellCount c₂ c₂' h => ?_)
  dsimp only
  split
  · exact .pure h
  · exact Matches.bind (.lift h) fun ptr _ _ h => Matches.bind (.lift h) fun (key, record) _ _ h =>
      Matches.bind (modify_matches h (fun _ => rfl) rfl) fun _ _ _ h => .pure h

theorem first_matches (h : Recached c c') : Matches Recached (first c) (first c') := by
  refine Matches.bind (modify_matches h (fun _ => rfl) rfl) fun _ c c' h => Matches.get ?_
  obtain ⟨t, ht, rfl⟩ := h
  rw [Recached.fuel ⟨t, ht, rfl⟩]
  exact Matches.bind (descendLeftmostFrom_matches _ _ ⟨t, ht, rfl⟩) fun leaf _ _ h =>
    Matches.bind (modify_matches h (fun _ => rfl) rfl) fun _ _ _ h => readCurrent_matches h

theorem nextLeaf_matches (h : Recached c c') : Matches Recached (nextLeaf c) (nextLeaf c') := by
  have hstack : c'.stack = c.stack := by
    obtain ⟨t, ht, rfl⟩ := h
    rfl
  refine Matches.bind (Matches.get (hstack ▸ popToNextLeaf_matches _ h)) fun leaf _ _ h => ?_
  cases leaf with
  | some leaf => exact Matches.bind (modify_matches h (fun _ => rfl) rfl) fun _ _ _ h => readCurrent_matches h
  | none => exact Matches.bind (modify_matches h (fun _ => rfl) rfl) fun _ _ _ h => .pure h

theorem next_matches (h : Recached c c') : Matches Recached (next c) (next c') := by
  have hend : c'.endOfTable = c.endOfTable := by
    obtain ⟨t, ht, rfl⟩ := h
    rfl
  refine Matches.get ?_
  rw [hend]
  split
  · exact .pure h
  · refine Matches.bind (modify_matches h (fun _ => rfl) rfl) fun _ _ _ h => Matches.bind (readCurrent_matches h)
      fun more _ _ h => ?_
    split
    · exact .pure h
    · exact nextLeaf_matches h

theorem seek_matches (key : Int) (h : Recached c c') : Matches Recached (seek key c) (seek key c') := by
  refine Matches.bind (modify_matches h (fun _ => rfl) rfl) fun _ c c' h => Matches.get ?_
  obtain ⟨t, ht, rfl⟩ := h
  rw [Recached.fuel ⟨t, ht, rfl⟩]
  refine Matches.bind (descendForKey_matches key _ _ ⟨t, ht, rfl⟩) fun leaf _ _ h =>
    Matches.bind (modify_matches h (fun _ => rfl) rfl) fun _ _ _ h => Matches.bind (getPage_matches h _)
    fun page _ _ h => Matches.bind (.lift h) fun cellCount _ _ h =>
    Matches.bind (modify_matches h (fun _ => rfl) rfl) fun _ _ _ h => Matches.bind (.lift h) fun found _ _ h => ?_
  cases found with
  | some i => exact Matches.bind (modify_matches h (fun _ => rfl) rfl) fun _ _ _ h => readCurrent_matches h
  | none => exact Matches.bind (modify_matches h (fun _ => rfl) rfl) fun _ _ _ h => .pure h

/-- A scan that looks at the rows only. -/
theorem scan_matches {α : Type} {f : α → BtreeCursor → Result α} (hf : ∀ a c c', Recached c c' → f a c' = f a c)
    (fuel : Nat) (a : α) (h : Recached c c') : Matches Recached (scan f fuel a c) (scan f fuel a c') := by
  have hfrom : ∀ (n : Nat) (a : α) {c c' : BtreeCursor}, Recached c c' →
      Matches Recached (scanFrom f n a c) (scanFrom f n a c') := by
    intro n
    induction n with
    | zero => exact fun _ _ _ h => .lift h
    | succ n ih =>
      intro a c c' h
      refine Matches.get ?_
      rw [hf a c c' h]
      refine Matches.bind (.lift h) fun a _ _ h => Matches.bind (next_matches h) fun more _ _ h => ?_
      split
      · exact ih a h
      · exact .pure h
  refine Matches.bind (first_matches h) fun found _ _ h => ?_
  split
  · exact hfrom fuel a h
  · exact .pure h

end BtreeCursor

end Sqllite
