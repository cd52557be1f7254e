import Sqllite.L2Storage.Pager

/-!
# What pager calls do to the pages

A caller of the pager sees the pages through `view`. On a pager that is `Ready`
the calls of the B-tree succeed; `Reads` and `Writes` say what they do to the
views.

* `getPage_ready`: no view changes.
* `writePage_ready`, `allocatePage_ready`: one view changes.
-/
namespace Sqllite.Pager
open Lib Lib.Run Lib.Span

/-- No read or write of a page fails for a reason outside the page. -/
structure Ready (s : Pager) : Prop where
  wal : s.WalReady
  writable : s.readOnly = false
  faults : s.faults = []

/-- `s'` is `s` but for its cache, and every page reads as before. -/
structure Reads (s s' : Pager) : Prop where
  state : ∃ cache, s' = { s with cache := cache }
  view : ∀ p, s'.view p = s.view p

/-- What holds of `s'` after writes to the pages of `touched`. -/
structure Writes (touched : List Nat) (s s' : Pager) : Prop where
  ready : s'.Ready
  pageSize : s'.pageSize = s.pageSize
  pageCount : s.pageCount ≤ s'.pageCount
  keep : ∀ q d, q ∉ touched → s.view q = .ok d → s'.view q = .ok d

section
variable {s s' s'' : Pager}

theorem Reads.refl (s : Pager) : s.Reads s := ⟨⟨s.cache, rfl⟩, fun _ => rfl⟩

theorem Reads.trans (h : s.Reads s') (g : s'.Reads s'') : s.Reads s'' := by
  obtain ⟨⟨c, rfl⟩, hv⟩ := h
  obtain ⟨⟨c', rfl⟩, hv'⟩ := g
  exact ⟨⟨c', rfl⟩, fun p => (hv' p).trans (hv p)⟩

theorem Reads.pageSize (h : s.Reads s') : s'.pageSize = s.pageSize := by
  obtain ⟨⟨c, rfl⟩, -⟩ := h; rfl

theorem Reads.pageCount (h : s.Reads s') : s'.pageCount = s.pageCount := by
  obtain ⟨⟨c, rfl⟩, -⟩ := h; rfl

theorem Reads.ready (h : s.Reads s') (hr : s.Ready) : s'.Ready := by
  obtain ⟨⟨c, rfl⟩, -⟩ := h
  exact ⟨hr.wal, hr.writable, hr.faults⟩

theorem Reads.writes (h : s.Reads s') (hr : s.Ready) : Writes [] s s' :=
  ⟨h.ready hr, h.pageSize, Nat.le_of_eq h.pageCount.symm, fun q _ _ hd => (h.view q).trans hd⟩

theorem Writes.trans {ps qs : List Nat} (h : Writes ps s s') (g : Writes qs s' s'') :
    Writes (ps ++ qs) s s'' where
  ready := g.ready
  pageSize := g.pageSize.trans h.pageSize
  pageCount := Nat.le_trans h.pageCount g.pageCount
  keep := fun q d hq hd => by
    rw [List.mem_append, not_or] at hq
    exact g.keep q d hq.2 (h.keep q d hq.1 hd)

theorem Writes.mono {ps qs : List Nat} (h : Writes ps s s') (hsub : ∀ p ∈ ps, p ∈ qs) :
    Writes qs s s' :=
  ⟨h.ready, h.pageSize, h.pageCount, fun q d hq hd => h.keep q d (fun hp => hq (hsub q hp)) hd⟩

/-! ## Reads -/

theorem view_touch {p : Nat} {d : Bytes} (hv : s.view p = .ok d) : s.Reads (s.touch p d) := by
  unfold touch
  cases hc : s.cache.lookup p with
  | some f => exact Reads.refl s
  | none =>
    refine ⟨⟨_, rfl⟩, fun q => ?_⟩
    unfold view
    by_cases hq : q = p
    · subst hq
      simp only [AList.lookup_insert, hc]
      rw [view, hc] at hv
      exact hv.symm
    · simp only [AList.lookup_insert_ne hq]
      rfl

theorem getPage_ready (h : s.Ready) {p : Nat} {d : Bytes} (hv : s.view p = .ok d) :
    ∃ page s', getPage p s = .ok page s' ∧ page.pgno = p ∧ page.data = d ∧ s.Reads s' := by
  refine ⟨s.pageOf p d, s.touch p d, ?_, rfl, rfl, view_touch hv⟩
  rw [getPage_eq h.wal p, hv]

/-- The same behind other reads. -/
theorem Reads.getPage (h : s.Reads s') (hs : s.Ready) {p : Nat} {d : Bytes} (hv : s.view p = .ok d) :
    ∃ page t, Pager.getPage p s' = .ok page t ∧ page.pgno = p ∧ page.data = d ∧ s.Reads t := by
  obtain ⟨page, t, h1, h2, h3, h4⟩ := getPage_ready (h.ready hs) ((h.view p).trans hv)
  exact ⟨page, t, h1, h2, h3, h.trans h4⟩

/-! ## Writes -/

theorem stored_mono (s' : Pager) (hr : ∀ p, s'.readBack p = s.readBack p) (hn : s.pageCount ≤ s'.pageCount)
    {p : Nat} {d : Bytes} (h : s.stored p = .ok d) : s'.stored p = .ok d := by
  unfold stored at h ⊢
  split at h
  · cases h
  · next h0 =>
    rw [if_neg (by omega), hr]
    exact h

theorem view_eq (s : Pager) (p : Nat) : s.view p = match s.cache.lookup p with
    | some f => .ok f.data
    | none => s.stored p := rfl

theorem view_cached {p : Nat} {f : Frame} (h : s.cache.lookup p = some f) :
    s.view p = .ok f.data := by
  rw [view_eq, h]

/-- A page that was got is the one that was asked for. -/
theorem getPage_pgno {p : Nat} {page : Page} (h : getPage p s = .ok page s') : page.pgno = p := by
  rw [getPage, bind_ok (get_apply s)] at h
  cases hc : s.cache.lookup p with
  | some f =>
    rw [hc] at h
    cases h
    rfl
  | none =>
    rw [hc] at h
    by_cases hp : p = 0 ∨ p > s.pageCount
    · simp only [if_pos hp] at h
      cases h
    · simp only [if_neg hp] at h
      obtain ⟨u, t, -, h⟩ := bind_eq_ok.mp h
      rw [bind_ok (get_apply t)] at h
      obtain ⟨data, -, h⟩ := lift_bind_eq_ok.mp h
      cases h
      rfl

/-- A page that was written reads so. -/
theorem writePage_eq_ok {page : Page} {u : Unit} (h : writePage page s = .ok u s') :
    s'.cache.lookup page.pgno = some ⟨page.data, true⟩ := by
  rw [writePage, bind_ok (get_apply s)] at h
  split at h
  · cases h
  · cases h
    exact AList.lookup_insert _

/-- The pager with a page put into its cache. -/
def putCached (s : Pager) (p : Nat) (f : Frame) (n : Nat) : Pager :=
  { s with pageCount := n, cache := s.cache.insert p f }

theorem view_putCached (s : Pager) (p : Nat) (f : Frame) (n : Nat) :
    (s.putCached p f n).view p = .ok f.data := by
  rw [view_eq, putCached, AList.lookup_insert]

theorem putCached_writes (h : s.Ready) (p : Nat) (f : Frame) {n : Nat} (hn : s.pageCount ≤ n) :
    Writes [p] s (s.putCached p f n) where
  ready := ⟨h.wal, h.writable, h.faults⟩
  pageSize := rfl
  pageCount := hn
  keep := fun q d hq hd => by
    rw [view_eq] at hd ⊢
    have hl : (s.putCached p f n).cache.lookup q = s.cache.lookup q :=
      AList.lookup_insert_ne (by simpa using hq)
    rw [hl]
    cases hc : s.cache.lookup q with
    | some g => rw [hc] at hd; exact hd
    | none =>
      rw [hc] at hd
      exact stored_mono (s := s) (s.putCached p f n) (fun _ => rfl) hn hd

theorem writePage_ready (h : s.Ready) (page : Page) :
    ∃ s', writePage page s = .ok () s' ∧ Writes [page.pgno] s s' ∧
      s'.view page.pgno = .ok page.data ∧ s'.pageCount = s.pageCount ∧
      s'.cache.lookup page.pgno = some { data := page.data, dirty := true } := by
  refine ⟨s.putCached page.pgno { data := page.data, dirty := true } s.pageCount, ?_,
    putCached_writes h _ _ (Nat.le_refl _), view_putCached _ _ _ _, rfl, AList.lookup_insert _⟩
  rw [writePage, bind_ok (get_apply s), if_neg (by rw [h.writable]; decide)]
  rfl

theorem allocatePage_ready (h : s.Ready) (hn : s.pageCount + 1 < 2 ^ 32) :
    ∃ s', allocatePage s = .ok (s.pageCount + 1) s' ∧ Writes [s.pageCount + 1] s s' ∧
      s'.view (s.pageCount + 1) = .ok (List.replicate s.pageSize 0) ∧
      s'.pageCount = s.pageCount + 1 := by
  refine ⟨s.putCached (s.pageCount + 1) { data := List.replicate s.pageSize 0, dirty := true }
    (s.pageCount + 1), ?_, putCached_writes h _ _ (Nat.le_succ _), view_putCached _ _ _ _, rfl⟩
  rw [allocatePage, bind_ok (get_apply s)]
  simp only [if_pos hn]
  rfl

/-- A write to the file behind a cached page. -/
theorem writePageDirect_ready (h : s.Ready) {p : Nat} (hp : 1 ≤ p) {data : Bytes}
    (hlen : data.length = s.pageSize) (hc : (s.cache.lookup p).isSome) :
    ∃ s', writePageDirect p data s = .ok () s' ∧ Writes [] s s' ∧ s'.pageCount = s.pageCount ∧
      s'.cache = s.cache := by
  unfold writePageDirect writeFileAt
  rw [bind_ok (get_apply s), if_neg (by omega)]
  by_cases hnil : data = []
  · rw [if_pos hnil]
    exact ⟨s, rfl, (Reads.refl s).writes h, rfl, rfl⟩
  · have hw : vfsWrite s = .ok () s := by
      rw [vfsWrite, bind_ok (get_apply s), h.faults]
      rfl
    rw [if_neg hnil, bind_ok hw]
    refine ⟨_, rfl, ⟨⟨h.wal, h.writable, h.faults⟩, rfl, Nat.le_refl _, fun q d _ hd => ?_⟩, rfl, rfl⟩
    rw [view_eq] at hd ⊢
    cases hq : s.cache.lookup q with
    | some g => rw [hq] at hd; exact hd
    | none =>
      rw [hq] at hd
      have hqp : q ≠ p := by rintro rfl; rw [hq] at hc; cases hc
      change s.stored q = _ at hd
      change stored _ q = _
      unfold stored at hd ⊢
      split at hd
      · cases hd
      · next h0 =>
        unfold readBack at hd ⊢
        obtain ⟨o, h1, h2⟩ := Res.bind_eq_ok.mp hd
        rw [if_neg h0]
        refine Res.bind_eq_ok.mpr ⟨o, h1, ?_⟩
        cases o with
        | some d => exact h2
        | none =>
          have h2 : readExactAt s.file ((q - 1) * s.pageSize) s.pageSize = .ok d := h2
          change readExactAt (fileWrite s.file ((p - 1) * s.pageSize) data) ((q - 1) * s.pageSize)
            s.pageSize = _
          rw [readExactAt_eq_ok] at h2 ⊢
          have hap := page_apart s.pageSize (by omega : 1 ≤ q) hp hqp
          exact ⟨h2.1, fileWrite_at_frame (by omega) h2.2⟩

end

end Sqllite.Pager
