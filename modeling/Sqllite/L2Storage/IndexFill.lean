import Sqllite.L2Storage.IndexPages
import Sqllite.L2Storage.Offsets
import Sqllite.L2Storage.Stable

/-!
# The first root of an index (`storage/btree.rs`)

An index begins as one leaf. As long as that leaf has room it is the root and holds
every entry; the insertion that finds no room puts a new root above it, and from then
on the leaf is one of several.

* `Pager.stable_page`: a page that is not written to.
* `Btree.insertIndex_first`: an insertion while the first leaf is the root.
* `Btree.insertIndex_later`: afterwards the first leaf never holds every entry.
-/
namespace Sqllite
open Lib Lib.Run Lib.Span Lib.Slotted

/-! ## One page -/

/-- On a pager without faults page `p` reads as the bytes of `Φ`. -/
structure Pager.PageIs (size p : Nat) (Φ : Bytes → Prop) (s : Pager) : Prop where
  ready : s.Ready
  pageSize : s.pageSize = size
  pageCount : p ≤ s.pageCount
  view : ∃ d, s.view p = .ok d ∧ Φ d

namespace Pager

section
variable {size p : Nat} {Φ Ψ : Bytes → Prop} {s s' : Pager}

theorem PageIs.imp (h : s.PageIs size p Φ) (hΦ : ∀ d, Φ d → Ψ d) : s.PageIs size p Ψ := by
  obtain ⟨d, hv, hd⟩ := h.view
  exact ⟨h.ready, h.pageSize, h.pageCount, d, hv, hΦ d hd⟩

theorem PageIs.writes {touched : List Nat} (h : s.PageIs size p Φ) (hw : Writes touched s s')
    (hp : p ∉ touched) : s'.PageIs size p Φ := by
  obtain ⟨d, hv, hd⟩ := h.view
  exact ⟨hw.ready, hw.pageSize.trans h.pageSize, Nat.le_trans h.pageCount hw.pageCount, d,
    hw.keep p d hp hv, hd⟩

theorem PageIs.reads (h : s.PageIs size p Φ) (hr : s.Reads s') : s'.PageIs size p Φ :=
  h.writes (hr.writes h.ready) List.not_mem_nil

theorem PageIs.written (h : s.PageIs size p Φ) (page : Page) (hp : page.pgno = p)
    (hpage : Ψ page.data) : ∃ s', Pager.writePage page s = .ok () s' ∧ s'.PageIs size p Ψ := by
  obtain ⟨s', hrun, hw, hv, -, -⟩ := writePage_ready h.ready page
  exact ⟨s', hrun, hw.ready, hw.pageSize.trans h.pageSize,
    Nat.le_trans h.pageCount hw.pageCount, page.data, hp ▸ hv, hpage⟩

/-- A page stays as it is if writes go to other pages, and the types of the pages that are
written to are not its own. -/
theorem stable_page {T : UInt8 → Prop}
    (hT : ∀ d ty, Φ d → T ty → byteAt d (pageHeaderOffset p) ≠ .ok ty) :
    Stable T (· ≠ p) (PageIs size p Φ) where
  getPage := fun q => by
    intro s hs
    rw [getPage_eq hs.ready.wal]
    cases hv : s.view q with
    | error e => exact hs
    | ok d =>
      refine ⟨hs.reads (view_touch hv), rfl, fun ty hty htype heq => ?_⟩
      obtain ⟨d', hv', hd⟩ := hs.view
      subst heq
      cases hv.symm.trans hv'
      exact hT d ty hd hty htype
  writePage := fun page hne => by
    intro s hs
    obtain ⟨s', hrun, hw, -⟩ := writePage_ready hs.ready page
    rw [hrun]
    exact hs.writes hw (by simpa using Ne.symm hne)
  allocatePage := by
    intro s hs
    by_cases hroom : s.pageCount + 1 < 2 ^ 32
    · obtain ⟨s', hrun, hw, -⟩ := allocatePage_ready hs.ready hroom
      have hne : s.pageCount + 1 ≠ p := by
        have := hs.pageCount
        omega
      rw [hrun]
      exact ⟨hs.writes hw (by simpa using Ne.symm hne), hne, Nat.le_add_left 1 _⟩
    · rw [allocatePage_full (by omega)]
      exact hs
  initPage := fun q ty hne hq => by
    refine Hoare.get_bind fun s hs => Hoare.lift_bind (fun d1 e1 => Hoare.lift_bind (fun d2 e2 => ?_)
      fun _ ht => ht ▸ hs) fun _ ht => ht ▸ hs
    intro t ht
    subst ht
    obtain ⟨t1, hw1, hwr1, -, -, hc1⟩ := writePage_ready hs.ready
      { pgno := q, data := d2, dirty := true }
    have hlen : d2.length = t1.pageSize := by
      rw [copyInto_length e2, copyInto_length e1, List.length_replicate, hwr1.pageSize]
    obtain ⟨t2, hw2, hwr2, -⟩ := writePageDirect_ready hwr1.ready hq hlen (by rw [hc1]; rfl)
    rw [bind_ok hw1, hw2]
    exact (hs.writes hwr1 (by simpa using Ne.symm hne)).writes hwr2 List.not_mem_nil

end

end Pager

namespace Btree

section
variable {b b' : Btree} {size p : Nat} {d bytes payload : Bytes} {cells : List PayloadCell}

/-- The leaf `d` is what is left of `cells` and one more in a leaf that was split. -/
def LeftHalf (size : Nat) (cells : List PayloadCell) (bytes payload d : Bytes) : Prop :=
  ∃ old, Packed size old cells ∧ rebuildLeafIndexPage old 0
    ((lowerHalf (cells ++ [⟨0, bytes, payload⟩])).map (·.bytes)) = .ok d

theorem splitLeafIndex_left {right : Nat} {data : Bytes} {split : LeafSplit}
    (hp : Packed size d cells)
    (hrun : splitLeafIndex d 0 p right bytes payload b = .ok (data, split) b') :
    split.leftPgno = p ∧ 1 ≤ cells.length ∧ LeftHalf size cells bytes payload data := by
  obtain ⟨cs, hcs, hrun⟩ := lift_bind_eq_ok.mp hrun
  by_cases hmid : cs.length / 2 = 0
  · rw [if_pos hmid] at hrun
    cases hrun
  · rw [if_neg hmid] at hrun
    cases hdiv : cs[cs.length / 2 - 1]? with
    | none =>
      rw [hdiv] at hrun
      cases hrun
    | some divider =>
      rw [hdiv] at hrun
      obtain ⟨left, hleft, hrun⟩ := lift_bind_eq_ok.mp hrun
      obtain ⟨_, _, -, hrun⟩ := bind_eq_ok.mp hrun
      obtain ⟨_, -, hrun⟩ := lift_bind_eq_ok.mp hrun
      obtain ⟨_, _, -, hrun⟩ := bind_eq_ok.mp hrun
      cases hrun
      have hcells := (hp.cellsWith ⟨0, bytes, payload⟩).symm.trans hcs
      have hlen : cs.length = cells.length + 1 := by
        rw [← Except.ok.inj hcells, List.length_map, (sortPayloads_perm _).length_eq,
          List.length_append, List.length_singleton]
      refine ⟨rfl, by omega, d, hp, ?_⟩
      rw [← hleft, lowerHalf, List.length_append, List.length_singleton, ← hlen,
        ← Except.ok.inj hcells, ← List.map_take, List.map_map]
      rfl

/-- The leaf takes the entry in, or is split. -/
theorem insertIntoLeafIndex_packed {r : Option LeafSplit} (hp : pageHeaderOffset p = 0)
    (hb : b.pager.PageIs size p (Packed size · cells)) (hcell : buildIndexCell payload = .ok bytes)
    (hrun : insertIntoLeafIndex p bytes payload b = .ok r b') : b'.rootPage = b.rootPage ∧
      (r = none ∧ RoomFor size cells bytes.length ∧
          (∃ cells', cells'.Perm (newCell size cells bytes payload :: cells) ∧
            b'.pager.PageIs size p (Packed size · cells')) ∨
        ∃ split, r = some split ∧ split.leftPgno = p ∧ ¬ RoomFor size cells bytes.length ∧
          1 ≤ cells.length ∧ b'.pager.PageIs size p (LeftHalf size cells bytes payload)) := by
  obtain ⟨d, hv, hd⟩ := hb.view
  obtain ⟨page, t, hget, hpgno, rfl, ht⟩ := onPager_getPage hb.ready (Pager.Reads.refl _) hv
  have htp : t.PageIs size p (Packed size · cells) := hb.reads ht
  rw [insertIntoLeafIndex, bind_ok hget, hp] at hrun
  obtain ⟨ty, hty, hrun⟩ := lift_bind_eq_ok.mp hrun
  cases hd.page.byteAt.symm.trans hty
  rw [if_neg (not_not.mpr rfl)] at hrun
  obtain ⟨found, -, hrun⟩ := lift_bind_eq_ok.mp hrun
  split at hrun
  · cases hrun
  · obtain ⟨inserted, hins', hrun⟩ := lift_bind_eq_ok.mp hrun
    by_cases hroom : RoomFor size cells bytes.length
    · obtain ⟨d', cells', hins, hd', hperm⟩ := hd.insert hcell hroom
      cases hins.symm.trans hins'
      obtain ⟨t', hw, ht'⟩ := htp.written (Ψ := (Packed size · cells')) { page with data := d' }
        hpgno hd'
      have hwrite : onPager (Pager.writePage { page with data := d' }) { b with pager := t } =
          .ok () { b with pager := t' } := zoom_ok hw
      cases (bind_ok hwrite _).symm.trans hrun
      exact ⟨rfl, .inl ⟨rfl, hroom, cells', hperm, ht'⟩⟩
    · cases (hd.full hroom).symm.trans hins'
      -- the pages that are written to before the leaf itself are other ones
      have hstable : Pager.Stable (fun _ => False) (· ≠ p)
          (Pager.PageIs size p (Packed size · cells)) := Pager.stable_page fun _ _ _ hF => hF.elim
      have hon : On (Pager.PageIs size p (Packed size · cells)) (· = b.rootPage)
          { b with pager := t } := ⟨htp, rfl⟩
      obtain ⟨right, b1, h1, hrun⟩ := bind_eq_ok.mp hrun
      obtain ⟨hb1, hright, hpos⟩ := (onPager_on hstable.allocatePage).of_ok hon h1
      obtain ⟨⟨⟩, b2, h2, hrun⟩ := bind_eq_ok.mp hrun
      have hb2 := (onPager_keeps (hstable.initPage right PAGE_TYPE_LEAF_INDEX hright hpos)).of_ok
        hb1 h2
      obtain ⟨⟨data, split⟩, b3, h3, hrun⟩ := bind_eq_ok.mp hrun
      have hb3 := (splitLeafIndex_keeps hstable page.data 0 p hright bytes payload).of_ok hb2 h3
      obtain ⟨hleft, hone, hhalf⟩ := splitLeafIndex_left hd h3
      obtain ⟨t', hw, ht'⟩ := hb3.1.written (Ψ := LeftHalf size cells bytes payload)
        { page with data := data } hpgno hhalf
      have hwrite : onPager (Pager.writePage { page with data := data }) b3 =
          .ok () { b3 with pager := t' } := zoom_ok hw
      cases (bind_ok hwrite _).symm.trans hrun
      exact ⟨hb3.2, .inr ⟨split, rfl, hleft, hroom, hone, ht'⟩⟩

/-- An insertion from a root that is a leaf. -/
theorem insertIndex_leaf {key : Bytes} {rowid : Int} {Φ : Bytes → Prop}
    (hp : pageHeaderOffset p = 0) (hb : b.pager.PageIs size p Φ)
    (htype : ∀ d, Φ d → byteAt d 0 = .ok PAGE_TYPE_LEAF_INDEX) (hroot : b.rootPage = p)
    (hrun : insertIndex key rowid b = .ok () b') : ∃ n bytes t r b1,
      writeVarint (asU64 rowid) = .ok n ∧ buildIndexCell (key ++ n) = .ok bytes ∧
      b.pager.Reads t ∧ insertIntoLeafIndex p bytes (key ++ n) { b with pager := t } = .ok r b1 ∧
      (r = none → b1 = b') ∧ ∀ split, r = some split → split.leftPgno = b1.rootPage →
        promoteRootSplit split b1 = .ok () b' := by
  rw [insertIndex, bind_ok (get_apply b)] at hrun
  split at hrun
  · cases hrun
  · obtain ⟨n, hn, hrun⟩ := lift_bind_eq_ok.mp hrun
    obtain ⟨bytes, hcell, hrun⟩ := lift_bind_eq_ok.mp hrun
    rw [bind_ok (get_apply b), hroot, fuel, insertIndexIntoTree] at hrun
    obtain ⟨d, hv, hd⟩ := hb.view
    obtain ⟨page, t, hget, -, rfl, ht⟩ := onPager_getPage hb.ready (Pager.Reads.refl _) hv
    obtain ⟨r, b1, htree, hrun⟩ := bind_eq_ok.mp hrun
    rw [bind_ok hget, hp] at htree
    obtain ⟨ty, hty, htree⟩ := lift_bind_eq_ok.mp htree
    cases (htype _ hd).symm.trans hty
    rw [if_pos rfl] at htree
    refine ⟨n, bytes, t, r, b1, hn, hcell, ht, htree, fun hr => ?_, fun split hr hleft => ?_⟩
    · subst hr
      cases hrun
      rfl
    · subst hr
      dsimp only at hrun
      rwa [bind_ok (get_apply b1), if_pos hleft] at hrun

/-- An insertion while the first leaf is the root: it takes the entry in and stays the
root, or is split below a new one. -/
theorem insertIndex_first {key : Bytes} {rowid : Int} (hp : pageHeaderOffset p = 0)
    (hb : b.pager.PageIs size p (Packed size · cells)) (hroot : b.rootPage = p)
    (hrun : insertIndex key rowid b = .ok () b') : ∃ n bytes,
      writeVarint (asU64 rowid) = .ok n ∧ buildIndexCell (key ++ n) = .ok bytes ∧
      (RoomFor size cells bytes.length ∧ b'.rootPage = p ∧
          (∃ cells', cells'.Perm (newCell size cells bytes (key ++ n) :: cells) ∧
            b'.pager.PageIs size p (Packed size · cells')) ∨
        ¬ RoomFor size cells bytes.length ∧ b'.rootPage ≠ p ∧ 1 ≤ cells.length ∧
          b'.pager.PageIs size p (LeftHalf size cells bytes (key ++ n))) := by
  obtain ⟨n, bytes, t, r, b1, hn, hcell, ht, hleaf, hnone, hsome⟩ :=
    insertIndex_leaf hp hb (fun d hd => hd.page.byteAt) hroot hrun
  obtain ⟨hkeep, hleaf⟩ := insertIntoLeafIndex_packed (b := { b with pager := t }) hp (hb.reads ht)
    hcell hleaf
  refine ⟨n, bytes, hn, hcell, ?_⟩
  obtain ⟨hr, hroom, cells', hperm, hb1⟩ | ⟨split, hr, hleft, hroom, hone, hb1⟩ := hleaf
  · cases hnone hr
    exact .inl ⟨hroom, hkeep.trans hroot, cells', hperm, hb1⟩
  · have hpromote := hsome split hr (hleft.trans (hkeep.trans hroot).symm)
    have hstable : Pager.Stable (fun _ => False) (· ≠ p)
        (Pager.PageIs size p (LeftHalf size cells bytes (key ++ n))) :=
      Pager.stable_page fun _ _ _ hF => hF.elim
    obtain ⟨hb', hmoved⟩ := (promoteRootSplit_moves (V := fun _ => True) hstable split).of_ok
      ⟨hb1, trivial⟩ hpromote
    exact .inr ⟨hroom, hmoved, hone, hb'⟩

/-- On pages of 65536 bytes the first leaf has its content at offset 0 and takes nothing in. -/
theorem insertIndex_max {key : Bytes} {rowid : Int} (hp : pageHeaderOffset p = 0)
    (hb : b.pager.PageIs 65536 p (Blank · 0 65536 PAGE_TYPE_LEAF_INDEX)) (hroot : b.rootPage = p) :
    insertIndex key rowid b ≠ .ok () b' := by
  intro hrun
  obtain ⟨n, bytes, t, r, b1, -, -, ht, hrun, -⟩ :=
    insertIndex_leaf hp hb (fun d hd => byteAt_at hd.type) hroot hrun
  obtain ⟨d, hv, hd⟩ := (hb.reads ht).view
  have hcount : readU16Be d (0 + 3) = .ok 0 := readU16Be_mod hd.count
  obtain ⟨page, t', hget, -, rfl, -⟩ := onPager_getPage (b := { b with pager := t })
    (hb.reads ht).ready (Pager.Reads.refl _) hv
  rw [insertIntoLeafIndex, bind_ok hget, hp] at hrun
  obtain ⟨ty, hty, hrun⟩ := lift_bind_eq_ok.mp hrun
  cases (byteAt_at hd.type).symm.trans hty
  rw [if_neg (not_not.mpr rfl)] at hrun
  obtain ⟨found, -, hrun⟩ := lift_bind_eq_ok.mp hrun
  split at hrun
  · cases hrun
  · obtain ⟨inserted, hins, hrun⟩ := lift_bind_eq_ok.mp hrun
    cases hd.refuses.symm.trans hins
    obtain ⟨_, _, -, hrun⟩ := bind_eq_ok.mp hrun
    obtain ⟨_, _, -, hrun⟩ := bind_eq_ok.mp hrun
    obtain ⟨_, _, hsplit, -⟩ := bind_eq_ok.mp hrun
    obtain ⟨cs, hcs, hsplit⟩ := lift_bind_eq_ok.mp hsplit
    rw [leafIndexCellsWith, hcount, Res.ok_bind, collectCells, Res.ok_bind] at hcs
    cases hcs
    rw [if_pos (by simp)] at hsplit
    cases hsplit

end

/-! ## Behind the first split -/

/-- A leaf with fewer than `k` cells, all of 4 to `n` bytes. -/
def Part (size n k : Nat) (d : Bytes) : Prop :=
  ∃ cells, Packed size d cells ∧ cells.length < k ∧
    ∀ c ∈ cells, 4 ≤ c.bytes.length ∧ c.bytes.length ≤ n

section
variable {b b' : Btree} {size p n k : Nat} {d bytes payload : Bytes} {cells : List PayloadCell}

theorem Part.mono {m : Nat} (h : Part size n k d) (hle : k ≤ m) : Part size n m d := by
  obtain ⟨cells, hd, hlt, hlen⟩ := h
  exact ⟨cells, hd, Nat.lt_of_lt_of_le hlt hle, hlen⟩

theorem LeftHalf.part (h12 : 12 ≤ size) (hmax : size < 65536)
    (hn : (n + 1) * (n + 2) ≤ 6 * (size - 8)) (h : LeftHalf size cells bytes payload d)
    (hcell : buildIndexCell payload = .ok bytes)
    (hlen : ∀ c ∈ cells, 4 ≤ c.bytes.length ∧ c.bytes.length ≤ n)
    (hnew : 4 ≤ bytes.length ∧ bytes.length ≤ n) (hone : 1 ≤ cells.length) :
    Part size n (cells.length + 1) d := by
  obtain ⟨old, hold, hrun⟩ := h
  have hbuilt : ∀ c ∈ cells ++ [⟨0, bytes, payload⟩], buildIndexCell c.val = .ok c.bytes ∧
      4 ≤ c.bytes.length ∧ c.bytes.length ≤ n := by
    intro c hc
    obtain hc | hc := List.mem_append.mp hc
    · exact ⟨hold.page.cell c hc, hlen c hc⟩
    · cases List.mem_singleton.mp hc
      exact ⟨hcell, hnew⟩
  have hroom := hold.room
  have hfit := lower_fits (by omega) hn (fun c hc => (hbuilt c hc).2) (by
    rw [List.map_append, total_append, List.length_append]
    simp only [List.map_cons, List.map_nil, total_cons, total_nil, List.length_singleton]
    omega)
  obtain ⟨d', hrun', hd'⟩ := hold.rebuild (fun c hc => (hbuilt c (mem_lowerHalf hc)).1) hmax hfit h12
  cases hrun'.symm.trans hrun
  refine ⟨_, hd', ?_, fun c hc => ?_⟩
  · rw [placed_length, lowerHalf_length, List.length_append, List.length_singleton]
    omega
  · obtain ⟨c', hc', heq⟩ := mem_placed hc
    rw [heq]
    exact (hbuilt c' (mem_lowerHalf hc')).2

theorem insertIntoLeafIndex_later (hp : pageHeaderOffset p = 0) (h12 : 12 ≤ size)
    (hmax : size < 65536) (hn : (n + 1) * (n + 2) ≤ 6 * (size - 8))
    (hcell : buildIndexCell payload = .ok bytes) (hnew : 4 ≤ bytes.length ∧ bytes.length ≤ n)
    (q : Nat) :
    Hoare (On (Pager.PageIs size p (Part size n k)) (· ≠ p)) (insertIntoLeafIndex q bytes payload)
      (fun _ => On (Pager.PageIs size p (Part size n (k + 1))) (· ≠ p)) fun _ => True := by
  by_cases hq : q = p
  · subst hq
    intro b hb
    cases hrun : insertIntoLeafIndex q bytes payload b with
    | error e b' => trivial
    | ok r b' =>
      obtain ⟨d, hv, cells, hd, hlt, hlen⟩ := hb.1.view
      have hbp : b.pager.PageIs size q (Packed size · cells) :=
        ⟨hb.1.ready, hb.1.pageSize, hb.1.pageCount, d, hv, hd⟩
      obtain ⟨hroot, hleaf⟩ := insertIntoLeafIndex_packed hp hbp hcell hrun
      refine ⟨?_, hroot ▸ hb.2⟩
      obtain ⟨-, -, cells', hperm, hb'⟩ | ⟨-, -, -, -, hone, hb'⟩ := hleaf
      · refine hb'.imp fun d' hd' => ⟨cells', hd', ?_, fun c hc => ?_⟩
        · rw [hperm.length_eq, List.length_cons]
          omega
        · obtain rfl | hc := List.mem_cons.mp (hperm.mem_iff.mp hc)
          · exact hnew
          · exact hlen c hc
      · exact hb'.imp fun d' hd' => (hd'.part h12 hmax hn hcell hlen hnew hone).mono (by omega)
  · have hstable : Pager.Stable (fun _ => False) (· ≠ p) (Pager.PageIs size p (Part size n k)) :=
      Pager.stable_page fun _ _ _ hF => hF.elim
    refine (insertIntoLeafIndex_keeps hstable (.inl hq) bytes payload).weaken
      (fun b hb => ⟨hb.1, .inl hb.2⟩) (fun _ b hb => ?_) fun _ _ => trivial
    exact ⟨hb.1.imp fun d hd => hd.mono (Nat.le_succ k), hb.2⟩

/-- An insertion below another root: the first leaf gets one cell more at most. -/
theorem insertIndex_later {key : Bytes} {rowid : Int} (hp : pageHeaderOffset p = 0) (h12 : 12 ≤ size)
    (hmax : size < 65536) (hn : (n + 1) * (n + 2) ≤ 6 * (size - 8))
    (hnew : ∀ r bytes, writeVarint (asU64 rowid) = .ok r → buildIndexCell (key ++ r) = .ok bytes →
      4 ≤ bytes.length ∧ bytes.length ≤ n) :
    Hoare (On (Pager.PageIs size p (Part size n k)) (· ≠ p)) (insertIndex key rowid)
      (fun _ => On (Pager.PageIs size p (Part size n (k + 1))) (· ≠ p)) fun _ => True := by
  have hstable : ∀ m, Pager.Stable (· = PAGE_TYPE_INTERIOR_INDEX) (· ≠ p)
      (Pager.PageIs size p (Part size n m)) := fun m => by
    refine Pager.stable_page fun d ty hd hty => ?_
    obtain ⟨cells, hd, -, -⟩ := hd
    rw [hp, hd.page.byteAt, hty]
    decide
  refine (insertIndex_hoare (E := fun _ => True) (hstable k) (hstable (k + 1)) (fun _ _ => trivial)
    (fun _ _ => trivial) rfl fun r bytes hr hcell q => ?_).weaken (fun b hb => ⟨hb.1, .inl hb.2⟩)
    (fun _ _ hb => hb) fun _ _ => trivial
  refine (insertIntoLeafIndex_later hp h12 hmax hn hcell (hnew r bytes hr hcell) q).weaken
    (fun b hb => ⟨hb.1, hb.2.resolve_right fun hl => absurd hl.2 (by decide)⟩) (fun _ _ hb => hb)
    fun _ _ => trivial

end

end Btree

end Sqllite
