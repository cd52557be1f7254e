import Sqllite.L2Storage.PagerView
import Sqllite.L2Storage.Checkpoint

/-!
# Runs of a pager

`PageMap` is what a pager is for: numbered pages with the image last written to
each. `Represents s m` says that a pager outside WAL mode is in the state `m`:
a page that is not dirty reads the same from the cache and from the file. Page 1
is known up to the bytes of the database header, which every commit writes.

* `PagerOp.run_spec`: each call keeps the pager and its page map together.
* `Pager.persist_run`: what a reopened file reads after any run.
-/
namespace Sqllite
open Lib Lib.Run Lib.Span

/-- The cache is a hash map: between any two calls its iteration order may change. -/
def Pager.rehash (cache : Table Nat Frame) : PagerM Unit :=
  modify fun s => if cache.entries.Perm s.cache.entries then { s with cache := cache } else s

/-- The calls of a pager's users, and what its hash map does on its own. -/
inductive PagerOp where
  | rehash (cache : Table Nat Frame)
  | begin
  | allocate
  | get (pgno : Nat)
  | write (page : Page)
  | commit

def PagerOp.run : PagerOp → PagerM Unit
  | .rehash cache => Pager.rehash cache
  | .begin => Pager.begin
  | .allocate => do
    let _ ← Pager.allocatePage
    pure ()
  | .get pgno => do
    let _ ← Pager.getPage pgno
    pure ()
  | .write page => Pager.writePage page
  | .commit => Pager.commit

/-! ## Pages and their images -/

/-- A store of numbered pages. -/
structure PageMap where
  count : Nat
  image : Nat → Bytes
  inTransaction : Bool

namespace PageMap

def put (m : PageMap) (p : Nat) (data : Bytes) : PageMap :=
  { m with image := fun q => if q = p then data else m.image q }

@[simp] theorem put_image (m : PageMap) (p : Nat) (data : Bytes) (q : Nat) :
    (m.put p data).image q = if q = p then data else m.image q := rfl

/-- What a call does to the pages of a store with pages of `ps` bytes. -/
def next (ps : Nat) (m : PageMap) : PagerOp → PageMap
  | .rehash _ => m
  | .begin => { m with inTransaction := true }
  | .allocate => { m.put (m.count + 1) (List.replicate ps 0) with count := m.count + 1 }
  | .get _ => m
  | .write page => m.put page.pgno page.data
  | .commit => { m with inTransaction := false }

def nextAll (ps : Nat) (m : PageMap) (ops : List PagerOp) : PageMap := ops.foldl (next ps) m

/-- Images of `ps` bytes are written to pages of the store only. -/
def Takes (ps : Nat) (m : PageMap) : PagerOp → Prop
  | .write page => 1 ≤ page.pgno ∧ page.pgno ≤ m.count ∧ page.data.length = ps
  | _ => True

/-- The same for each call of a run. -/
def TakesAll (ps : Nat) : PageMap → List PagerOp → Prop
  | _, [] => True
  | m, op :: ops => m.Takes ps op ∧ TakesAll ps (m.next ps op) ops

instance (ps : Nat) (m : PageMap) (op : PagerOp) : Decidable (m.Takes ps op) :=
  match op with
  | .write _ => inferInstanceAs (Decidable (_ ∧ _ ∧ _))
  | .rehash _ | .begin | .allocate | .get _ | .commit => inferInstanceAs (Decidable True)

instance decidableTakesAll (ps : Nat) : (ops : List PagerOp) → (m : PageMap) →
    Decidable (m.TakesAll ps ops)
  | [], _ => inferInstanceAs (Decidable True)
  | _ :: ops, _ =>
    have := decidableTakesAll ps ops
    inferInstanceAs (Decidable (_ ∧ _))

end PageMap

namespace Pager

/-- The image read for a page is the one written, on page 1 up to the bytes of
the header. -/
def Agrees (p : Nat) (d image : Bytes) : Prop :=
  if p = ROOT_PAGE then ∀ h : DatabaseHeader, h.overlay d = h.overlay image else d = image

theorem Agrees.refl (p : Nat) (d : Bytes) : Agrees p d d := by
  unfold Agrees
  split
  · exact fun _ => rfl
  · rfl

/-- The cached pages that are not dirty. -/
def CleanAt (s : Pager) (p : Nat) : Prop := ∀ f, s.cache.lookup p = some f → f.dirty = false

/-- A pager outside WAL mode with the pages of `m`. -/
structure Represents (s : Pager) (m : PageMap) : Prop extends Sound s where
  mode : s.journalMode ≠ .wal
  writable : s.readOnly = false
  memory : s.memory = false
  faults : s.faults = []
  valid : s.header.Valid
  hdrSize : s.header.pageSize = s.pageSize
  pageCount : s.pageCount = m.count
  transaction : s.inTransaction = m.inTransaction
  pages : ∀ p, 1 ≤ p → p ≤ m.count → ∃ d, s.view p = .ok d ∧ Agrees p d (m.image p) ∧
    (s.CleanAt p → s.readBack p = .ok d)

section
variable {s : Pager} {m : PageMap}

theorem Represents.logs (h : s.Represents m) : s.logs = false := by
  rw [Pager.logs, beq_eq_false_iff_ne.mpr h.mode, Bool.false_and]

theorem Represents.ready (h : s.Represents m) : s.Ready :=
  ⟨fun hm => absurd hm h.mode, h.writable, h.faults⟩

/-! ## Reads and writes of the cache -/

theorem Represents.begin (h : s.Represents m) :
    Represents { s with inTransaction := true } { m with inTransaction := true } :=
  { h with transaction := rfl }

theorem Represents.rehash (h : s.Represents m) {cache : Table Nat Frame}
    (hp : cache.entries.Perm s.cache.entries) : Represents { s with cache := cache } m := by
  have hl : ∀ p, cache.lookup p = s.cache.lookup p := fun p => AList.perm_lookup hp
  exact
    { h with
      cached := fun p f hf => h.cached p f ((hl p).symm.trans hf)
      pages := fun p h1 h2 => by
        obtain ⟨d, hv, ha, hclean⟩ := h.pages p h1 h2
        refine ⟨d, ?_, ha, fun hc => hclean fun f hf => hc f ((hl p).trans hf)⟩
        rw [view_eq] at hv ⊢
        simp only [hl]
        exact hv }

/-- A page put into the cache as dirty. -/
theorem Represents.putDirty (h : s.Represents m) (p : Nat) (data : Bytes) {n : Nat}
    (hn : s.pageCount ≤ n) (hlt : n < 2 ^ 32) (hfit : 1 ≤ p ∧ p ≤ n ∧ data.length = s.pageSize)
    (hnew : ∀ q, s.pageCount < q → q ≤ n → q = p) :
    (s.putCached p { data := data, dirty := true } n).Represents { m.put p data with count := n } := by
  have hl : ∀ q, q ≠ p → (s.putCached p { data := data, dirty := true } n).cache.lookup q =
      s.cache.lookup q := fun q hq => AList.lookup_insert_ne hq
  have hlp : (s.putCached p { data := data, dirty := true } n).cache.lookup p =
      some { data := data, dirty := true } := AList.lookup_insert _
  have hcount := h.count
  refine
    { h with
      count := ⟨by simp only [putCached]; omega, hlt⟩
      cached := fun q f hf => ?_
      pageCount := rfl
      pages := fun q h1 h2 => ?_ }
  · by_cases hq : q = p
    · subst hq
      cases hlp.symm.trans hf
      exact hfit
    · obtain ⟨c1, c2, c3⟩ := h.cached q f ((hl q hq).symm.trans hf)
      exact ⟨c1, Nat.le_trans c2 hn, c3⟩
  · by_cases hq : q = p
    · subst hq
      refine ⟨data, view_cached hlp, ?_, fun hclean => ?_⟩
      · change Agrees q data ((m.put q data).image q)
        rw [PageMap.put_image, if_pos rfl]
        exact Agrees.refl _ _
      · cases hclean _ hlp
    · have hle : q ≤ m.count := by
        rw [← h.pageCount]
        by_contra hgt
        exact hq (hnew q (by omega) h2)
      obtain ⟨d, hv, ha, hc⟩ := h.pages q h1 hle
      refine ⟨d, ?_, ?_, fun hclean => ?_⟩
      · exact (putCached_writes h.ready p { data := data, dirty := true } hn).keep q d
          (by simpa using hq) hv
      · change Agrees q d ((m.put p data).image q)
        rw [PageMap.put_image, if_neg hq]
        exact ha
      · exact hc fun f hf => hclean f ((hl q hq).trans hf)

/-- A read page enters the cache as it is in the file. -/
theorem Represents.touch (h : s.Represents m) {p : Nat} {d : Bytes} (hv : s.view p = .ok d) :
    (s.touch p d).Represents m := by
  have hr := view_touch hv
  unfold Pager.touch at hr ⊢
  cases hc : s.cache.lookup p with
  | some f => exact h
  | none =>
    rw [hc] at hr
    have hl : ∀ q, q ≠ p → (s.cache.insert p { data := d, dirty := false }).lookup q =
        s.cache.lookup q := fun q hq => AList.lookup_insert_ne hq
    rw [view_eq, hc] at hv
    obtain ⟨h1, h2, hback⟩ := stored_eq_ok.mp (congrArg Except.toOption hv)
    refine
      { h with
        cached := fun q f hf => ?_
        pages := fun q hq1 hq2 => ?_ }
    · by_cases hq : q = p
      · subst hq
        cases (AList.lookup_insert _).symm.trans hf
        refine ⟨h1, h2, ?_⟩
        rw [readBack_file h.toDiskOk h.logs] at hback
        exact (readExactAt_eq_ok.mp hback).1
      · exact h.cached q f ((hl q hq).symm.trans hf)
    · obtain ⟨d', hv', ha, hclean⟩ := h.pages q hq1 hq2
      refine ⟨d', (hr.view q).trans hv', ha, fun hc' => ?_⟩
      refine hclean fun f hf => ?_
      by_cases hq : q = p
      · subst hq
        rw [hc] at hf
        cases hf
      · exact hc' f ((hl q hq).trans hf)

end

/-! ## Commits -/

/-- The writes of the dirty pages when no write fails. -/
theorem flush_run : ∀ (pages : List Page) {s : Pager}, s.faults = [] →
    (∀ page ∈ pages, page.pgno ≠ 0 ∧ page.data ≠ []) →
    ∃ f, forEach (fun page => writePageDirect page.pgno page.data) pages s =
      .ok () { s with file := f }
  | [], s, _, _ => ⟨s.file, rfl⟩
  | page :: pages, s, hf, h => by
    obtain ⟨hp, hne⟩ := h page List.mem_cons_self
    have hstep : writePageDirect page.pgno page.data s = .ok ()
        { s with file := fileWrite s.file ((page.pgno - 1) * s.pageSize) page.data } := by
      rw [writePageDirect, bind_ok (get_apply s), if_neg hp]
      exact writeFileAt_ok _ hf hne
    obtain ⟨f, hrest⟩ := flush_run pages
      (s := { s with file := fileWrite s.file ((page.pgno - 1) * s.pageSize) page.data }) hf
      fun x hx => h x (List.mem_cons_of_mem _ hx)
    refine ⟨f, ?_⟩
    rw [forEach, bind_ok hstep]
    exact hrest

/-- The header that `commit` writes. -/
def nextDbHeader (s : Pager) : DatabaseHeader :=
  { s.header with databaseSize := s.pageCount, changeCounter := s.header.changeCounter + 1 }

/-- Pages on disk and in the cache. -/
structure Stocked (s : Pager) : Prop extends DiskOk s where
  cached : ∀ p f, s.cache.lookup p = some f → s.PageFits ⟨p, f.data, f.dirty⟩

theorem Sound.stocked {s : Pager} (h : s.Sound) : s.Stocked := ⟨h.toDiskOk, h.cached⟩

theorem Stocked.dirty {s : Pager} (h : s.Stocked) : ∀ page ∈ s.dirtyPages, s.PageFits page :=
  fun _ hp => h.cached _ _ (mem_dirtyPages hp)

/-- The image of page 1 that `commit` writes the header over. -/
def rootImage (s : Pager) (file : Bytes) : Bytes :=
  match s.cache.lookup ROOT_PAGE with
  | some f => f.data
  | none => file.take s.pageSize

/-- Page 1 as `commit` writes it behind the dirty pages. -/
def rootPage (s : Pager) (file : Bytes) : Bytes := s.nextDbHeader.overlay (s.rootImage file)

/-- What `commit` leaves behind when `file` is what it wrote the dirty pages to. -/
def committed (s : Pager) (file : Bytes) : Pager :=
  { s with
    file := fileWrite file ((ROOT_PAGE - 1) * s.pageSize) (s.rootPage file)
    header := s.nextDbHeader
    inTransaction := false
    cache := Table.mapVals (fun f => { f with dirty := false })
      (s.cache.insert ROOT_PAGE { data := s.rootPage file, dirty := false }) }

theorem rootImage_length {s : Pager} (h : s.Stocked) {f : Bytes} (hlen : s.pageSize ≤ f.length) :
    (s.rootImage f).length = s.pageSize := by
  unfold rootImage
  cases hr : s.cache.lookup ROOT_PAGE with
  | some g => exact (h.cached _ _ hr).2.2
  | none =>
    simp only [List.length_take]
    omega

theorem headerPage_run {s : Pager} {f : Bytes} (g : DatabaseHeader) (hlen : s.pageSize ≤ f.length) :
    headerPage { s with file := f, header := g } =
      .ok (s.rootImage f) { s with file := f, header := g } := by
  unfold headerPage rootImage
  rw [bind_ok (get_apply _)]
  cases hr : s.cache.lookup ROOT_PAGE with
  | some g => rfl
  | none =>
    have hread : readExactAt f 0 s.pageSize = .ok (f.take s.pageSize) := by
      have hl : (f.take s.pageSize).length = s.pageSize := by simp; omega
      exact readExactAt_eq_ok.mpr ⟨hl, At.of_take (by rw [hl, List.drop_zero])⟩
    simp only [hread]
    rfl

/-- A commit outside WAL mode: the dirty pages are written to the file and then
page 1 with the new header. -/
theorem commit_run {s : Pager} (h : s.Stocked) (hl : s.logs = false) (hf : s.faults = [])
    (htx : s.inTransaction = true) : ∃ f, s.Wrote { s with file := f } s.dirtyPages ∧
      (s.header.changeCounter + 1 < 2 ^ 32 → commit s = .ok () (s.committed f)) ∧
      (2 ^ 32 ≤ s.header.changeCounter + 1 → ∃ s', commit s = .error .panic s') := by
  obtain ⟨f, hflush⟩ := flush_run s.dirtyPages hf fun page hp => by
    have hfit := h.dirty page hp
    exact ⟨by have := hfit.1; omega, hfit.data_ne h.toDiskOk⟩
  have hflush' : flushPages s.dirtyPages s.pageCount s = .ok () { s with file := f } := by
    rw [flushPages, bind_ok (get_apply s), if_neg (by simp [hl])]
    exact hflush
  have hw := ((put_file.flush Nat.zero_lt_one _ h.toDiskOk hl h.dirty (dirtyPages_nodup s)).1
    hflush).toWrote
  refine ⟨f, hw, fun hc => ?_, fun hc => ?_⟩
  · have hlen : s.pageSize ≤ f.length := hw.disk.root
    have hroot := rootImage_length h hlen
    have hsz : 100 ≤ (s.rootImage f).length := by
      rw [hroot]
      exact h.size
    have hne : s.rootPage f ≠ [] := fun h0 => by
      have := congrArg List.length h0
      rw [rootPage, DatabaseHeader.overlay_length hsz, List.length_nil] at this
      omega
    have hwrite : writeHeaderPage (s.rootPage f) s.pageCount
        { s with file := f, header := s.nextDbHeader } = .ok () { s with
          file := fileWrite f ((ROOT_PAGE - 1) * s.pageSize) (s.rootPage f)
          header := s.nextDbHeader } := by
      rw [writeHeaderPage, bind_ok (get_apply _), if_neg (by
        change ¬ s.logs = true
        rw [hl]
        decide), writePageDirect, bind_ok (get_apply _), if_neg (by decide)]
      exact writeFileAt_ok (s := { s with file := f, header := s.nextDbHeader }) _ hf hne
    rw [commit, bind_ok (get_apply s), if_neg (by simp [htx])]
    simp only
    rw [bind_ok hflush', bind_ok (get_apply _)]
    simp only
    rw [if_pos hc, bind_ok (set_apply _ _)]
    change (headerPage >>= _) { s with file := f, header := s.nextDbHeader } = _
    rw [bind_ok (headerPage_run _ hlen), DatabaseHeader.write_ok hsz, bind_ok (lift_ok _ _)]
    exact bind_ok hwrite _
  · rw [commit, bind_ok (get_apply s), if_neg (by simp [htx])]
    simp only
    rw [bind_ok hflush', bind_ok (get_apply _)]
    simp only
    rw [if_neg (by omega)]
    exact ⟨_, rfl⟩

theorem mem_dirtyPages_of {s : Pager} {p : Nat} {f : Frame} (h : s.cache.lookup p = some f)
    (hd : f.dirty = true) : ⟨p, f.data, f.dirty⟩ ∈ s.dirtyPages :=
  List.mem_map.mpr ⟨⟨p, f⟩, List.mem_filter.mpr ⟨Table.mem_entries_iff.mpr h, hd⟩, rfl⟩

/-- No dirty page has the number of a page that is not dirty. -/
theorem CleanAt.not_dirty {s : Pager} {p : Nat} (h : s.CleanAt p) :
    ∀ page ∈ s.dirtyPages, page.pgno ≠ p := by
  rintro page hp rfl
  obtain ⟨e, he, rfl⟩ := List.mem_map.mp hp
  have hl := Table.mem_entries_iff.mp (List.mem_of_mem_filter he)
  have hd : e.2.dirty = true := (List.mem_filter.mp he).2
  exact absurd ((h _ hl).symm.trans hd) (by decide)

/-- A file whose page 1 has a header starts with it. -/
theorem parse_of_root {s : Pager} {g : DatabaseHeader} {image : Bytes} (hd : s.DiskOk) (hl : s.logs = false)
    (hroot : s.readBack ROOT_PAGE = .ok (g.overlay image)) (hlen : image.length = s.pageSize) (hv : g.Valid) :
    DatabaseHeader.parse (s.file.take DATABASE_HEADER_SIZE) = .ok g := by
  rw [readBack_file hd hl, readExactAt_eq_ok, show (ROOT_PAGE - 1) * s.pageSize = 0 by simp [ROOT_PAGE]] at hroot
  obtain ⟨hl', hat⟩ := hroot
  have hps : 100 ≤ s.pageSize := hd.size
  have hsz : 100 ≤ image.length := by
    rw [hlen]
    exact hps
  obtain ⟨hfront, hback⟩ := g.overlay_at hsz
  have hpart : ∀ off bs, off + bs.length ≤ 100 → At (g.overlay image) off bs →
      At (s.file.take DATABASE_HEADER_SIZE) off bs := fun off bs hle hbs => by
    refine At.take_left (fun i hi => ?_) hle
    have := hat (off + i) (by omega)
    rw [Nat.zero_add] at this
    rw [this]
    exact hbs i hi
  exact DatabaseHeader.parse_of_at hv (hpart 0 _ (by simp) hfront) (hpart 92 _ (by simp) hback)

section
variable {s : Pager} {f : Bytes}

/-- The header goes over the image of page 1 that a read returns. -/
theorem rootImage_view (hl : s.logs = false)
    (hw : s.Wrote { s with file := f } s.dirtyPages) {d : Bytes} (hv : s.view ROOT_PAGE = .ok d) :
    s.rootImage f = d := by
  unfold rootImage
  rw [view_eq] at hv
  cases hr : s.cache.lookup ROOT_PAGE with
  | some g =>
    rw [hr] at hv
    cases hv
    rfl
  | none =>
    rw [hr] at hv
    have hback := (stored_eq_ok.mp (congrArg Except.toOption hv)).2.2
    have hclean : s.CleanAt ROOT_PAGE := fun g hg => by
      rw [hr] at hg
      cases hg
    have hread := hw.there ROOT_PAGE d (Nat.le_refl 1) hclean.not_dirty hback
    rw [readBack_file hw.disk hl, readExactAt_eq_ok] at hread
    obtain ⟨hlen, hat⟩ := hread
    have := hat.take
    rw [hlen] at this
    simpa [ROOT_PAGE] using this

/-- The cache behind a commit: every page as it was, page 1 as it was written. -/
theorem committed_lookup (p : Nat) : (s.committed f).cache.lookup p =
    if p = ROOT_PAGE then some { data := s.rootPage f, dirty := false }
    else (s.cache.lookup p).map fun g => { g with dirty := false } := by
  rw [committed, Table.lookup_mapVals]
  by_cases hp : p = ROOT_PAGE
  · subst hp
    rw [AList.lookup_insert, if_pos rfl]
    rfl
  · rw [AList.lookup_insert_ne hp, if_neg hp]

theorem committed_clean (p : Nat) : (s.committed f).CleanAt p := by
  intro g hg
  rw [committed_lookup] at hg
  split at hg
  · cases hg
    rfl
  · obtain ⟨g', -, rfl⟩ := Option.map_eq_some_iff.mp hg
    rfl

/-- The file behind a commit. -/
theorem committed_wrote (h : s.Stocked) (hl : s.logs = false)
    (hw : s.Wrote { s with file := f } s.dirtyPages) :
    (s.rootPage f).length = s.pageSize ∧
      Wrote { s with file := f } (s.committed f) [⟨ROOT_PAGE, s.rootPage f, false⟩] := by
  have hroot := rootImage_length h hw.disk.root
  have hlen : (s.rootPage f).length = s.pageSize := by
    rw [rootPage, DatabaseHeader.overlay_length (by rw [hroot]; exact h.size), hroot]
  have hfit : PageFits { s with file := f } ⟨ROOT_PAGE, s.rootPage f, false⟩ :=
    ⟨Nat.le_refl 1, h.count.1, hlen⟩
  exact ⟨hlen, (wrote_file hw.disk hl hfit).of_fields rfl rfl rfl rfl rfl rfl rfl rfl⟩

theorem committed_root (h : s.Stocked) (hl : s.logs = false)
    (hw : s.Wrote { s with file := f } s.dirtyPages) :
    (s.committed f).readBack ROOT_PAGE = .ok (s.rootPage f) :=
  (committed_wrote h hl hw).2.here ⟨ROOT_PAGE, s.rootPage f, false⟩ List.mem_cons_self

/-- Behind a commit the file has the image a page was read with before. -/
theorem committed_readBack (h : s.Stocked) (hl : s.logs = false)
    (hw : s.Wrote { s with file := f } s.dirtyPages) {p : Nat} {d : Bytes} (h1 : 1 ≤ p)
    (hp : p ≠ ROOT_PAGE) (hv : s.view p = .ok d) (hc : s.CleanAt p → s.readBack p = .ok d) :
    (s.committed f).readBack p = .ok d := by
  refine (committed_wrote h hl hw).2.there p d h1 (fun page hmem => ?_) ?_
  · rw [List.mem_singleton.mp hmem]
    exact hp.symm
  · by_cases hclean : s.CleanAt p
    · exact hw.there p d h1 hclean.not_dirty (hc hclean)
    · obtain ⟨g, hg, hd⟩ : ∃ g, s.cache.lookup p = some g ∧ g.dirty = true := by
        rw [CleanAt] at hclean
        push Not at hclean
        obtain ⟨g, hg, hd⟩ := hclean
        exact ⟨g, hg, by simpa using hd⟩
      rw [view_cached hg] at hv
      cases hv
      exact hw.here _ (mem_dirtyPages_of hg hd)

/-- The file starts with the new header. -/
theorem committed_parse (h : s.Stocked) (hl : s.logs = false)
    (hw : s.Wrote { s with file := f } s.dirtyPages) (hv : s.nextDbHeader.Valid) :
    DatabaseHeader.parse ((s.committed f).file.take DATABASE_HEADER_SIZE) = .ok s.nextDbHeader :=
  parse_of_root (committed_wrote h hl hw).2.disk hl (committed_root h hl hw) (rootImage_length h hw.disk.root) hv

end

/-- Everything is in the file. -/
structure Saved (s : Pager) : Prop where
  clean : ∀ p, s.CleanAt p
  stored : DatabaseHeader.parse (s.file.take DATABASE_HEADER_SIZE) = .ok s.header
  size : s.header.databaseSize = s.pageCount
  root : ∃ page : Bytes, 100 ≤ page.length ∧ s.readBack ROOT_PAGE = .ok (s.header.overlay page)

theorem nextDbHeader_valid {s : Pager} (hv : s.header.Valid) (hn : s.pageCount < 2 ^ 32)
    (hc : s.header.changeCounter + 1 < 2 ^ 32) : s.nextDbHeader.Valid := by
  refine ⟨hv.pageSize, fun v hmem => ?_⟩
  have hall := hv.words
  simp only [DatabaseHeader.words, nextDbHeader, List.mem_cons, List.not_mem_nil, or_false] at hmem hall
  rcases hmem with h | h | h
  · omega
  · omega
  · exact hall v (.inr (.inr h))

/-- A commit keeps the pages and saves them. -/
theorem Represents.commit {s : Pager} {m : PageMap} (h : s.Represents m) {f : Bytes}
    (hw : s.Wrote { s with file := f } s.dirtyPages) (hc : s.header.changeCounter + 1 < 2 ^ 32) :
    (s.committed f).Represents { m with inTransaction := false } ∧ (s.committed f).Saved := by
  have hl := h.logs
  have hcount : m.count = s.pageCount := h.pageCount.symm
  have hsz := h.size
  have hvalid := nextDbHeader_valid h.valid h.count.2 hc
  have hwr := committed_wrote h.stocked hl hw
  have hparse := committed_parse h.stocked hl hw hvalid
  have hroot := committed_root h.stocked hl hw
  have hrlen : 100 ≤ (s.rootImage f).length := by
    rw [rootImage_length h.stocked hw.disk.root]
    exact hsz
  refine ⟨?_, ⟨committed_clean, hparse, rfl, s.rootImage f, hrlen, hroot⟩⟩
  exact
    { hwr.2.disk with
      cached := fun p g hg => by
        rw [committed_lookup] at hg
        split at hg
        · next hp =>
          subst hp
          cases hg
          exact ⟨Nat.le_refl 1, h.count.1, hwr.1⟩
        · obtain ⟨g', hg', rfl⟩ := Option.map_eq_some_iff.mp hg
          exact h.cached p g' hg'
      header := ⟨_, hparse, h.hdrSize⟩
      mode := h.mode
      writable := h.writable
      memory := h.memory
      faults := h.faults
      valid := hvalid
      hdrSize := h.hdrSize
      pageCount := h.pageCount
      transaction := rfl
      pages := fun p h1 h2 => by
        obtain ⟨d, hv, ha, hclean⟩ := h.pages p h1 h2
        by_cases hp : p = ROOT_PAGE
        · subst hp
          have hlookup : (s.committed f).cache.lookup ROOT_PAGE =
              some { data := s.rootPage f, dirty := false } := by
            rw [committed_lookup, if_pos rfl]
          refine ⟨s.rootPage f, view_cached hlookup, ?_, fun _ => hroot⟩
          have himage : s.rootImage f = d := rootImage_view hl hw hv
          rw [himage] at hrlen
          rw [rootPage, himage]
          rw [Agrees, if_pos rfl] at ha ⊢
          intro g
          rw [DatabaseHeader.overlay_overlay hrlen]
          exact ha g
        · have hback := committed_readBack h.stocked hl hw h1 hp hv hclean
          refine ⟨d, ?_, ha, fun _ => hback⟩
          rw [view_eq, committed_lookup, if_neg hp]
          rw [view_eq] at hv
          cases hg : s.cache.lookup p with
          | some g =>
            rw [hg] at hv
            exact hv
          | none =>
            have hback : (s.committed f).readBack p = .ok d := hback
            simp only [Option.map_none]
            have h2 : p ≤ m.count := h2
            rw [stored, if_neg (by
              change ¬ (p = 0 ∨ p > s.pageCount)
              omega)]
            exact hback }

/-! ## Runs -/

/-- Page count and change counter are at most `k`. -/
structure Within (s : Pager) (k : Nat) : Prop where
  pageCount : s.pageCount ≤ k
  changeCounter : s.header.changeCounter ≤ k

theorem Represents.getPage {s : Pager} {m : PageMap} (h : s.Represents m) (p : Nat) :
    (∃ page d, s.view p = .ok d ∧ Pager.getPage p s = .ok page (s.touch p d)) ∨
      ∃ e, Pager.getPage p s = .error (.err e) s := by
  rw [getPage_eq h.ready.wal]
  cases hv : s.view p with
  | ok d => exact .inl ⟨_, d, rfl, rfl⟩
  | error e =>
    have hout : p = 0 ∨ p > s.pageCount := by
      by_contra hin
      obtain ⟨d, hd, -⟩ := h.pages p (by omega) (by rw [← h.pageCount]; omega)
      cases hd.symm.trans hv
    have hnone : s.cache.lookup p = none := by
      cases hc : s.cache.lookup p with
      | none => rfl
      | some g =>
        obtain ⟨h1, h2, -⟩ := h.cached p g hc
        have h1 : 1 ≤ p := h1
        have h2 : p ≤ s.pageCount := h2
        omega
    rw [view_eq, hnone] at hv
    simp only at hv
    rw [stored, if_pos hout] at hv
    cases hv
    exact .inr ⟨_, rfl⟩

/-- A call on the pager does what it does to the page map; it fails only where a
`u32` overflows. -/
theorem op_run {s : Pager} {m : PageMap} {k : Nat} (h : s.Represents m)
    (hk : s.Within k) {op : PagerOp} (hop : m.Takes s.pageSize op) :
    (∃ s', attempt op.run s = .ok () s' ∧ s'.Represents (m.next s.pageSize op) ∧
      s'.pageSize = s.pageSize ∧ s'.Within (k + 1)) ∨
    ∃ s', attempt op.run s = .error .panic s' ∧ 2 ^ 32 ≤ k + 1 := by
  have hcount := h.pageCount
  have hlt := h.count
  obtain ⟨hk1, hk2⟩ := hk
  cases op with
  | rehash cache =>
    by_cases hp : cache.entries.Perm s.cache.entries
    · refine .inl ⟨{ s with cache := cache }, attempt_ok ?_, h.rehash hp, rfl,
        Nat.le_succ_of_le hk1, Nat.le_succ_of_le hk2⟩
      rw [PagerOp.run, Pager.rehash, modify_apply, if_pos hp]
    · refine .inl ⟨s, attempt_ok ?_, h, rfl, Nat.le_succ_of_le hk1, Nat.le_succ_of_le hk2⟩
      rw [PagerOp.run, Pager.rehash, modify_apply, if_neg hp]
  | begin =>
    exact .inl ⟨_, attempt_ok rfl, h.begin, rfl, Nat.le_succ_of_le hk1, Nat.le_succ_of_le hk2⟩
  | allocate =>
    by_cases hn : s.pageCount + 1 < 2 ^ 32
    · have hput := h.putDirty (s.pageCount + 1) (List.replicate s.pageSize 0)
        (Nat.le_succ _) hn ⟨by omega, Nat.le_refl _, List.length_replicate⟩ fun q _ _ => by omega
      refine .inl ⟨s.putCached (s.pageCount + 1)
        { data := List.replicate s.pageSize 0, dirty := true } (s.pageCount + 1), ?_, ?_, rfl,
        Nat.succ_le_succ hk1, Nat.le_succ_of_le hk2⟩
      · apply attempt_ok
        rw [PagerOp.run, allocatePage, bind_apply, bind_ok (get_apply s)]
        simp only [if_pos hn]
        rfl
      · rw [PageMap.next, ← hcount]
        exact hput
    · refine .inr ⟨s, attempt_panic ?_, by omega⟩
      rw [PagerOp.run, allocatePage, bind_apply, bind_ok (get_apply s)]
      simp only [if_neg hn]
      rfl
  | get p =>
    refine .inl ?_
    rcases h.getPage p with ⟨page, d, hv, hget⟩ | ⟨e, hget⟩
    · have hr := h.touch hv
      have hs : (s.touch p d).pageSize = s.pageSize ∧ (s.touch p d).pageCount = s.pageCount ∧
          (s.touch p d).header = s.header := by
        unfold touch
        split <;> exact ⟨rfl, rfl, rfl⟩
      refine ⟨s.touch p d, attempt_ok ?_, hr, hs.1, ?_, ?_⟩
      · rw [PagerOp.run, bind_ok hget]
        rfl
      · rw [hs.2.1]
        exact Nat.le_succ_of_le hk1
      · rw [hs.2.2]
        exact Nat.le_succ_of_le hk2
    · have hrun : (PagerOp.get p).run s = .error (.err e) s := by
        rw [PagerOp.run, bind_error hget]
      exact ⟨s, attempt_err hrun, h, rfl, Nat.le_succ_of_le hk1, Nat.le_succ_of_le hk2⟩
  | write page =>
    obtain ⟨h1, h2, h3⟩ := hop
    have hput := h.putDirty page.pgno page.data (Nat.le_refl _) hlt.2
      ⟨h1, by rw [hcount]; exact h2, h3⟩ fun q _ _ => by omega
    refine .inl ⟨s.putCached page.pgno { data := page.data, dirty := true } s.pageCount, ?_, ?_,
      rfl, Nat.le_succ_of_le hk1, Nat.le_succ_of_le hk2⟩
    · apply attempt_ok
      rw [PagerOp.run, writePage, bind_ok (get_apply s), if_neg (by rw [h.writable]; decide)]
      rfl
    · rw [hcount] at hput ⊢
      exact hput
  | commit =>
    by_cases htx : s.inTransaction = true
    · obtain ⟨f, hw, hok, hpanic⟩ := commit_run h.stocked h.logs h.faults htx
      by_cases hc : s.header.changeCounter + 1 < 2 ^ 32
      · refine .inl ⟨s.committed f, attempt_ok (hok hc), (h.commit hw hc).1, rfl,
          Nat.le_succ_of_le hk1, Nat.succ_le_succ hk2⟩
      · obtain ⟨s', hs'⟩ := hpanic (Nat.not_lt.mp hc)
        exact .inr ⟨s', attempt_panic hs', by omega⟩
    · refine .inl ⟨s, attempt_ok ?_, ?_, rfl, Nat.le_succ_of_le hk1, Nat.le_succ_of_le hk2⟩
      · rw [PagerOp.run, Pager.commit, bind_ok (get_apply s), if_pos htx]
        rfl
      · have hfalse : s.inTransaction = false := by simpa using htx
        exact { h with transaction := hfalse }

theorem ops_run : ∀ (ops : List PagerOp) {s : Pager} {m : PageMap} {k : Nat}, s.Represents m →
    s.Within k → m.TakesAll s.pageSize ops →
    (∃ s', forEach (fun op => attempt op.run) ops s = .ok () s' ∧
      s'.Represents (m.nextAll s.pageSize ops) ∧ s'.pageSize = s.pageSize ∧
      s'.Within (k + ops.length)) ∨
    ∃ s', forEach (fun op => attempt op.run) ops s = .error .panic s' ∧ 2 ^ 32 ≤ k + ops.length
  | [], s, m, k, h, hk, _ => .inl ⟨s, rfl, h, rfl, hk⟩
  | op :: ops, s, m, k, h, hk, htakes => by
    obtain ⟨hop, htakes⟩ := htakes
    rcases op_run h hk hop with ⟨t, hrun, ht, hps, hkt⟩ | ⟨t, hrun, hbig⟩
    · rw [forEach, bind_ok hrun, List.length_cons, Nat.add_comm ops.length 1, ← Nat.add_assoc]
      have ih := ops_run ops ht hkt (hps ▸ htakes)
      rw [hps] at ih
      exact ih
    · rw [forEach, bind_error hrun, List.length_cons]
      exact .inr ⟨t, rfl, by omega⟩

/-! ## A new file -/

/-- The header of a new database. -/
def firstHeader : DatabaseHeader := { DatabaseHeader.new DEFAULT_PAGE_SIZE with databaseSize := 1 }

/-- Page 1 of a new database: an empty leaf behind the header. -/
def firstPage : Bytes :=
  patch (firstHeader.overlay (List.replicate DEFAULT_PAGE_SIZE 0)) 100
    ([PAGE_TYPE_LEAF_TABLE, 0, 0, 0, 0] ++ be16 DEFAULT_PAGE_SIZE ++ [0])

/-- The pages of a new database. -/
def newPages : PageMap := { count := 1, image := fun _ => firstPage, inTransaction := false }

/-- What `open` makes of an empty file. -/
def opened (s : Pager) (mode : JournalMode) : Pager :=
  { s with
    file := firstPage, wal := none, pageSize := DEFAULT_PAGE_SIZE, header := firstHeader, cache := ∅
    journalMode := mode, inTransaction := false, readOnly := false, pageCount := 1, memory := false }

theorem zeros_length : 100 ≤ (List.replicate DEFAULT_PAGE_SIZE (0 : UInt8)).length := by
  rw [List.length_replicate]
  decide

theorem firstHeader_page_length :
    (firstHeader.overlay (List.replicate DEFAULT_PAGE_SIZE 0)).length = DEFAULT_PAGE_SIZE :=
  (DatabaseHeader.overlay_length zeros_length).trans List.length_replicate

theorem firstPage_length : firstPage.length = DEFAULT_PAGE_SIZE := by
  rw [firstPage, patch_length (by rw [firstHeader_page_length]; decide), firstHeader_page_length]

theorem open_new {s : Pager} {flags : PagerFlags} {mode : JournalMode} (hfile : s.file = [])
    (hf : s.faults = []) (hmem : flags.memory = false) (hro : flags.readOnly = false)
    (hmode : mode ≠ .wal) :
    (do «open» flags; let _ ← setJournalMode mode) s = .ok () (s.opened mode) := by
  rcases flags with ⟨j, _, _⟩
  simp only at hmem hro
  subst hmem hro
  have hne : firstPage ≠ [] := fun h0 => by
    have := firstPage_length
    rw [h0] at this
    exact absurd this (by decide)
  have hinit : initializeNewDatabase { s with
      file := [], wal := none, pageSize := DEFAULT_PAGE_SIZE
      header := DatabaseHeader.new DEFAULT_PAGE_SIZE, cache := ∅, journalMode := .delete
      inTransaction := false, readOnly := false, pageCount := 0, memory := false } =
      .ok () (s.opened .delete) := by
    have hwrite := writeFileAt_ok (s := { s with
      file := [], wal := none, pageSize := DEFAULT_PAGE_SIZE
      header := firstHeader, cache := ∅, journalMode := .delete
      inTransaction := false, readOnly := false, pageCount := 0, memory := false })
      0 hf hne
    rw [fileWrite_nil] at hwrite
    rw [initializeNewDatabase, bind_ok (get_apply _)]
    simp only
    rw [bind_ok (set_apply _ _)]
    change ((lift (firstHeader.write (List.replicate DEFAULT_PAGE_SIZE 0)) : PagerM Bytes) >>= _) _ = _
    rw [DatabaseHeader.write_ok zeros_length, bind_ok (lift_ok _ _),
      copyInto_ok (by rw [firstHeader_page_length]; decide), bind_ok (lift_ok _ _)]
    have hpage : writePageDirect ROOT_PAGE firstPage { s with
        file := [], wal := none, pageSize := DEFAULT_PAGE_SIZE
        header := firstHeader, cache := ∅, journalMode := .delete
        inTransaction := false, readOnly := false, pageCount := 0, memory := false } =
        .ok () { s with
          file := firstPage, wal := none, pageSize := DEFAULT_PAGE_SIZE
          header := firstHeader, cache := ∅, journalMode := .delete
          inTransaction := false, readOnly := false, pageCount := 0, memory := false } := by
      rw [writePageDirect, bind_ok (get_apply _), if_neg (by decide)]
      exact hwrite
    exact bind_ok hpage _
  have hopen : «open» ⟨j, false, false⟩ s = .ok () (s.opened .delete) := by
    rw [«open», bind_ok (get_apply s)]
    simp only [hfile, Bool.false_eq_true, if_false, List.length_nil, if_true]
    rw [bind_ok (lift_ok _ _), bind_ok (set_apply _ _)]
    exact hinit
  rw [bind_ok hopen]
  have hdelete : (s.opened .delete).journalMode ≠ .wal := fun h => by cases h
  exact bind_ok (setJournalMode_other hmode hdelete) _

theorem opened_represents {s : Pager} {mode : JournalMode} (hf : s.faults = []) (hmode : mode ≠ .wal) :
    (s.opened mode).Represents newPages := by
  have hlen := firstPage_length
  have hsize : DATABASE_HEADER_SIZE ≤ DEFAULT_PAGE_SIZE := by decide
  have hone : 1 < 2 ^ 32 := by decide
  have hvalid : firstHeader.Valid := ⟨by decide, by decide⟩
  have hlogs : (s.opened mode).logs = false := by
    rw [Pager.logs, opened, beq_eq_false_iff_ne.mpr hmode, Bool.false_and]
  have hdisk : (s.opened mode).DiskOk :=
    ⟨hsize, Nat.le_of_eq hlen.symm, ⟨Nat.le_refl 1, hone⟩, fun h => absurd (h.symm.trans hlogs) (by decide),
      fun h => by cases h⟩
  exact
    { hdisk with
      cached := fun p g hg => by
        rw [opened, AList.lookup_empty] at hg
        cases hg
      header := ⟨firstHeader, by
        change DatabaseHeader.parse (firstPage.take DATABASE_HEADER_SIZE) = _
        decide +kernel, rfl⟩
      mode := hmode
      writable := rfl
      memory := rfl
      faults := hf
      valid := hvalid
      hdrSize := rfl
      pageCount := rfl
      transaction := rfl
      pages := fun p h1 h2 => by
        have h2 : p ≤ 1 := h2
        obtain rfl : p = ROOT_PAGE := Nat.le_antisymm h2 h1
        have hback : (s.opened mode).readBack ROOT_PAGE = .ok firstPage := by
          rw [readBack_file hdisk hlogs, readExactAt_eq_ok]
          refine ⟨hlen, At.of_take ?_⟩
          rw [hlen, ← hlen]
          exact List.take_length
        refine ⟨firstPage, ?_, Agrees.refl _ _, fun _ => hback⟩
        rw [view_eq, opened, AList.lookup_empty]
        exact hback }

/-! ## The file opened again -/

/-- A saved file opens with the same pages. -/
theorem Saved.reopen {s : Pager} {m : PageMap} (h : s.Represents m) (hs : s.Saved)
    {flags : PagerFlags} (hmem : flags.memory = false) (hro : flags.readOnly = false) :
    ∃ t, «open» flags s = .ok () t ∧ t.pageCount = s.pageCount ∧
      ∀ p, 1 ≤ p → p ≤ s.pageCount → observe (getPage p) t =
        some (if p = ROOT_PAGE then s.header.overlay (m.image p) else m.image p) := by
  have hcount := h.count
  have hopen : «open» flags s = .ok () (s.reopened s.header) := by
    have hopen := open_eq (Nat.le_trans h.size h.root) hs.stored
    rw [h.writable] at hopen
    rcases flags with ⟨_, _, _⟩
    simp only at hmem hro
    subst hmem hro
    exact hopen
  have hpc : (s.reopened s.header).pageCount = s.pageCount := by
    change s.reopenCount s.header = s.pageCount
    rw [reopenCount, hs.size, if_pos (by omega)]
  refine ⟨_, hopen, hpc, fun p h1 h2 => ?_⟩
  obtain ⟨d, -, ha, hclean⟩ := h.pages p h1 (h.pageCount ▸ h2)
  have hback := hclean (hs.clean p)
  have hread : (s.reopened s.header).readBack p = .ok d := by
    rw [readBack_file h.toDiskOk h.logs] at hback
    rw [readBack]
    change readExactAt s.file ((p - 1) * s.header.pageSize) s.header.pageSize = _
    rw [h.hdrSize]
    exact hback
  rw [observe_getPage (s := s.reopened s.header) (fun hm => by cases hm) rfl, Pager.stored,
    if_neg (by rw [hpc]; omega), hread]
  by_cases hp : p = ROOT_PAGE
  · subst hp
    obtain ⟨page, hlen, hroot⟩ := hs.root
    cases hback.symm.trans hroot
    rw [Agrees, if_pos rfl] at ha
    rw [if_pos rfl, ← ha, DatabaseHeader.overlay_overlay hlen]
    rfl
  · rw [Agrees, if_neg hp] at ha
    rw [if_neg hp, ha]
    rfl

/-- A database is opened, its journal mode set, and the calls are made; the
caller drops error values and goes on. -/
def session (flags : PagerFlags) (mode : JournalMode) (ops : List PagerOp) : PagerM Unit := do
  «open» flags
  let _ ← setJournalMode mode
  forEach (fun op : PagerOp => attempt op.run) ops

/-- After any run of a pager on a new file that ends with a commit the file opens
with the same page count, and each page reads the image last written to it, page
1 with the header of the pager over it. A run stops short only where a page
number or the change counter leaves its `u32`. -/
theorem persist_run {s : Pager} (hfile : s.file = []) (hf : s.faults = []) {flags : PagerFlags}
    (hmem : flags.memory = false) (hro : flags.readOnly = false) {mode : JournalMode}
    (hmode : mode ≠ .wal) (ops : List PagerOp) (htakes : newPages.TakesAll DEFAULT_PAGE_SIZE ops)
    (htx : (newPages.nextAll DEFAULT_PAGE_SIZE ops).inTransaction = true) :
    (∃ s' t, session flags mode (ops ++ [.commit]) s = .ok () s' ∧
      s'.pageCount = (newPages.nextAll DEFAULT_PAGE_SIZE ops).count ∧
      «open» flags s' = .ok () t ∧ t.pageCount = s'.pageCount ∧
      ∀ p, 1 ≤ p → p ≤ s'.pageCount → observe (getPage p) t =
        some (if p = ROOT_PAGE
          then s'.header.overlay ((newPages.nextAll DEFAULT_PAGE_SIZE ops).image p)
          else (newPages.nextAll DEFAULT_PAGE_SIZE ops).image p)) ∨
    ∃ s', session flags mode (ops ++ [.commit]) s = .error .panic s' ∧
      2 ^ 32 ≤ ops.length + 2 := by
  have hstart : session flags mode (ops ++ [.commit]) s =
      forEach (fun op : PagerOp => attempt op.run) (ops ++ [.commit]) (s.opened mode) := by
    have hopen := open_new hfile hf hmem hro hmode
    obtain ⟨_, t, h1, h2⟩ := bind_eq_ok.mp hopen
    obtain ⟨_, u, h3, h4⟩ := bind_eq_ok.mp h2
    cases h4
    rw [session, bind_ok h1, bind_ok h3]
  have hk : (s.opened mode).Within 1 := ⟨Nat.le_refl 1, Nat.le_refl 1⟩
  rw [hstart, forEach_append]
  rcases ops_run ops (opened_represents hf hmode) hk htakes with
    ⟨t, hrun, ht, -, hkt⟩ | ⟨t, hrun, hbig⟩
  · simp only [hrun, forEach_singleton]
    have htrue : t.inTransaction = true := ht.transaction.trans htx
    obtain ⟨f, hw, hok, hpanic⟩ := commit_run ht.stocked ht.logs ht.faults htrue
    by_cases hc : t.header.changeCounter + 1 < 2 ^ 32
    · obtain ⟨hrep, hsaved⟩ := ht.commit hw hc
      obtain ⟨u, hopen, hpc, hread⟩ := Saved.reopen hrep hsaved hmem hro
      exact .inl ⟨_, u, attempt_ok (hok hc), hrep.pageCount, hopen, hpc, hread⟩
    · obtain ⟨s', hs'⟩ := hpanic (Nat.not_lt.mp hc)
      have := hkt.changeCounter
      exact .inr ⟨s', attempt_panic hs', by omega⟩
  · simp only [hrun]
    exact .inr ⟨t, rfl, by omega⟩

/-- A second page is written. -/
def secondPage : List PagerOp :=
  [.begin, .allocate, .write ⟨2, List.replicate DEFAULT_PAGE_SIZE 7, false⟩, .get 1]

theorem persist_run_secondPage :
    (∃ s' t, session {} .persist (secondPage ++ [.commit]) noFiles = .ok () s' ∧
      s'.pageCount = (newPages.nextAll DEFAULT_PAGE_SIZE secondPage).count ∧
      «open» {} s' = .ok () t ∧ t.pageCount = s'.pageCount ∧
      ∀ p, 1 ≤ p → p ≤ s'.pageCount → observe (getPage p) t =
        some (if p = ROOT_PAGE
          then s'.header.overlay ((newPages.nextAll DEFAULT_PAGE_SIZE secondPage).image p)
          else (newPages.nextAll DEFAULT_PAGE_SIZE secondPage).image p)) ∨
    ∃ s', session {} .persist (secondPage ++ [.commit]) noFiles = .error .panic s' ∧
      2 ^ 32 ≤ secondPage.length + 2 :=
  persist_run rfl rfl rfl rfl (by decide) secondPage (by decide +kernel) (by decide)

end Pager

end Sqllite
