import Sqllite.L2Storage.PagerRun
import Sqllite.L2Storage.WalReopen
import Sqllite.L2Storage.WalRuns

/-!
# Commits in WAL mode

A commit appends a frame for each dirty page and one for page 1 behind them.
Nothing marks the last frame of a transaction, and opening a log takes every
valid frame, so a crash can leave a part of a transaction visible.

* `Pager.commit_wal`: the frames a commit appends.
* `Pager.crash_whole`: what is read after a crash.
-/
namespace Sqllite
open Lib Lib.Run Lib.Span

namespace Wal

/-- The handle and the log behind appends of the frames `new`. -/
structure Grown (w : Wal) (log : Bytes) (fs : List (Nat × Bytes)) (w' : Wal) (log' : Bytes)
    (new : List (Nat × Bytes)) : Prop where
  serves : w'.Serves log' (fs ++ new)
  same : w.SameLog w'
  length : log'.length = max log.length (w.frameOffset (fs ++ new).length)
  before : ∀ i < w.frameOffset fs.length, log'[i]? = log[i]?

section
variable {w w' w'' : Wal} {log log' log'' : Bytes} {fs new new' : List (Nat × Bytes)}

theorem SameLog.frameOffset (h : w.SameLog w') (i : Nat) : w'.frameOffset i = w.frameOffset i := by
  rw [Wal.frameOffset, Wal.frameOffset, h.2.1]

theorem SameLog.trans (h : w.SameLog w') (g : w'.SameLog w'') : w.SameLog w'' :=
  ⟨g.1.trans h.1, g.2.1.trans h.2.1, g.2.2.trans h.2.2⟩

theorem frameOffset_le (w : Wal) {i j : Nat} (h : i ≤ j) : w.frameOffset i ≤ w.frameOffset j :=
  Nat.add_le_add_left (Nat.mul_le_mul_right _ h) _

theorem Grown.refl (h : w.Serves log fs) : w.Grown log fs w log [] where
  serves := by
    rw [List.append_nil]
    exact h
  same := ⟨rfl, rfl, rfl⟩
  length := by
    rw [List.append_nil]
    exact (Nat.max_eq_left h.inside).symm
  before := fun _ _ => rfl

theorem Grown.trans (h : w.Grown log fs w' log' new) (g : w'.Grown log' (fs ++ new) w'' log'' new') :
    w.Grown log fs w'' log'' (new ++ new') where
  serves := by
    rw [← List.append_assoc]
    exact g.serves
  same := h.same.trans g.same
  length := by
    have hle := w.frameOffset_le (show (fs ++ new).length ≤ (fs ++ new ++ new').length by
      simp only [List.length_append]; omega)
    rw [g.length, h.length, h.same.frameOffset, ← List.append_assoc]
    omega
  before := fun i hi => by
    have hle := w.frameOffset_le (show fs.length ≤ (fs ++ new).length by
      simp only [List.length_append]; omega)
    rw [g.before i (by rw [h.same.frameOffset]; omega), h.before i hi]

/-- Where nothing stands behind the last frame, nothing does after appends. -/
theorem Grown.exact (h : w.Grown log fs w' log' new) (hlen : log.length = w.frameOffset fs.length) :
    log'.length = w.frameOffset (fs ++ new).length := by
  have hle := w.frameOffset_le (show fs.length ≤ (fs ++ new).length by
    simp only [List.length_append]; omega)
  rw [h.length, hlen]
  exact Nat.max_eq_right hle

theorem Serves.countable (h : w.Serves log fs) (hexact : log.length = w.frameOffset fs.length) :
    (log.length - WAL_HEADER_SIZE) / (WAL_FRAME_HEADER_SIZE + w.pageSize) < 2 ^ 32 := by
  rw [hexact, Wal.frameOffset, Nat.add_sub_cancel_left,
    Nat.mul_div_cancel _ (by simp [WAL_FRAME_HEADER_SIZE])]
  exact h.count

theorem SameLog.behind (h : w.SameLog w') (log : Bytes) (n : Nat) :
    w'.behind log n = w.behind log n := by
  rw [Wal.behind, Wal.behind, h.scan, h.2.1]

theorem Serves.grown (h : w.Serves log fs) {a : Append} (hp : a.pgno ≠ 0) (hu : a.U32)
    (hlen : a.data.length = w.pageSize) (hc : fs.length + 1 < 2 ^ 32) :
    w.Grown log fs (w.pushed a.pgno) (w.logWith log a.pgno a.data a.dbSize) [a.frame] where
  serves := h.append hp hu hlen hc
  same := ⟨rfl, rfl, rfl⟩
  length := by
    have hcount := h.index.count
    rw [logWith_length a.pgno a.dbSize hlen (by rw [hcount]; exact h.inside), List.length_append,
      List.length_singleton, hcount]
  before := fun i hi => by
    have hcount := h.index.count
    exact logWith_getElem? hlen (by rw [hcount]; exact h.inside) (.inl (by rw [hcount]; exact hi))

end

end Wal

namespace Pager

theorem appends_grow : ∀ (as : List Append) {s s' : Pager} {w : Wal} {log : Bytes}
    {fs : List (Nat × Bytes)}, s.faults = [] → s.wal = some w → s.walFile = some log →
    w.Serves log fs → (∀ a ∈ as, a.pgno ≠ 0 ∧ a.U32) → appendFrames as s = .ok () s' →
    ∃ w' log', s' = { s with wal := some w', walFile := some log' } ∧
      w.Grown log fs w' log' (as.map (·.frame))
  | [], s, s', w, log, fs, _, hw, hlog, h, _, hrun => by
    cases hrun
    refine ⟨w, log, ?_, Wal.Grown.refl h⟩
    cases s
    simp only at hw hlog
    subst hw hlog
    rfl
  | a :: as, s, s', w, log, fs, hf, hw, hlog, h, has, hrun => by
    obtain ⟨_, t, h1, h2⟩ := bind_eq_ok.mp hrun
    obtain ⟨hlen, hc, rfl⟩ := appendIfOpen_ok hf hw hlog h1
    obtain ⟨hp, hu⟩ := has a List.mem_cons_self
    rw [h.index.count] at hc
    have hg := h.grown hp hu hlen hc
    obtain ⟨w', log', rfl, hg'⟩ := appends_grow as (s := { s with
      wal := some (w.pushed a.pgno), walFile := some (w.logWith log a.pgno a.data a.dbSize) })
      hf rfl rfl hg.serves (fun x hx => has x (List.mem_cons_of_mem _ hx)) h2
    exact ⟨w', log', rfl, hg.trans hg'⟩

/-- The frames a commit appends. -/
def commitFrames (s : Pager) : List (Nat × Bytes) :=
  s.dirtyPages.map (fun page => (page.pgno, page.data)) ++ [(ROOT_PAGE, s.rootPage s.file)]

/-- A pager over a database file whose writes succeed; in WAL mode it has a
handle that serves the frames of a log with fewer frames than a `u32` counts. -/
structure Steady (s : Pager) : Prop where
  size : DATABASE_HEADER_SIZE ≤ s.pageSize
  small : s.pageSize < 2 ^ 32
  root : s.pageSize ≤ s.file.length
  count : 1 ≤ s.pageCount ∧ s.pageCount < 2 ^ 32
  cached : ∀ p f, s.cache.lookup p = some f → s.PageFits ⟨p, f.data, f.dirty⟩
  faults : s.faults = []
  log : s.logs = true → ∃ w log fs, s.wal = some w ∧ s.walFile = some log ∧
    w.pageSize = s.pageSize ∧ w.Serves log fs
  noLog : s.memory = true → s.wal = none
  countable : ∀ log, s.walFile = some log →
    (log.length - WAL_HEADER_SIZE) / (WAL_FRAME_HEADER_SIZE + s.pageSize) < 2 ^ 32

theorem Steady.stocked {s : Pager} (h : s.Steady) (hl : s.logs = false) : s.Stocked :=
  ⟨⟨h.size, h.root, h.count, fun h' => absurd (h'.symm.trans hl) (by decide), h.noLog⟩, h.cached⟩

theorem Steady.ready {s : Pager} (h : s.Steady) : s.WalReady := fun hm => by
  cases hmem : s.memory with
  | true => exact .inl rfl
  | false =>
    obtain ⟨w, _, _, hw, -⟩ := h.log (by rw [Pager.logs, hm, hmem]; rfl)
    rw [hw]
    exact .inr rfl

theorem Steady.rootImage_length {s : Pager} (h : s.Steady) :
    (s.rootImage s.file).length = s.pageSize := by
  unfold rootImage
  cases hr : s.cache.lookup ROOT_PAGE with
  | some g => exact (h.cached _ _ hr).2.2
  | none =>
    have := h.root
    simp only [List.length_take]
    omega

/-- A commit in WAL mode appends its frames and writes nothing else. -/
theorem commit_wal {s s' : Pager} {w : Wal} {log : Bytes} {fs : List (Nat × Bytes)} (h : s.Steady)
    (hl : s.logs = true) (hw : s.wal = some w) (hlog : s.walFile = some log) (hs : w.Serves log fs)
    (htx : s.inTransaction = true) (hrun : commit s = .ok () s') :
    ∃ w' log', w.Grown log fs w' log' s.commitFrames ∧
      s' = { s with
        wal := some w', walFile := some log', header := s.nextDbHeader, inTransaction := false
        cache := Table.mapVals (fun f => { f with dirty := false })
          (s.cache.insert ROOT_PAGE { data := s.rootPage s.file, dirty := false }) } := by
  have hcount := h.count
  have hone : ROOT_PAGE ≠ 0 ∧ ROOT_PAGE < 2 ^ 32 := by decide
  have hready : ensureWal s = .ok () s := ensureWal_ready h.ready
  rw [commit, bind_ok (get_apply s), if_neg (by simp [htx])] at hrun
  obtain ⟨_, t, hflush, hrun⟩ := bind_eq_ok.mp hrun
  rw [flushPages, bind_ok (get_apply s), if_pos hl, bind_ok hready,
    ← forEach_map (fun a : Append => appendIfOpen a.pgno a.data a.dbSize)
      (fun page : Page => ⟨page.pgno, page.data, s.pageCount⟩)] at hflush
  obtain ⟨w1, log1, rfl, hg1⟩ := appends_grow _ h.faults hw hlog hs (fun a ha => by
    obtain ⟨page, hp, rfl⟩ := List.mem_map.mp ha
    obtain ⟨h1, h2, -⟩ := h.cached _ _ (mem_dirtyPages hp)
    have h1 : 1 ≤ page.pgno := h1
    have h2 : page.pgno ≤ s.pageCount := h2
    exact ⟨Nat.ne_of_gt h1, Nat.lt_of_le_of_lt h2 hcount.2, hcount.2⟩) hflush
  rw [bind_ok (get_apply _)] at hrun
  simp only at hrun
  split at hrun
  · rw [bind_ok (set_apply _ _)] at hrun
    have hhead : headerPage { s with
        wal := some w1, walFile := some log1, header := s.nextDbHeader } =
        .ok (s.rootImage s.file) { s with
          wal := some w1, walFile := some log1, header := s.nextDbHeader } := by
      have := headerPage_run (s := { s with wal := some w1, walFile := some log1 })
        s.nextDbHeader h.root
      exact this
    have hsz : 100 ≤ (s.rootImage s.file).length := by
      rw [h.rootImage_length]
      exact h.size
    change (headerPage >>= _) { s with
      wal := some w1, walFile := some log1, header := s.nextDbHeader } = _ at hrun
    rw [bind_ok hhead, DatabaseHeader.write_ok hsz, bind_ok (lift_ok _ _)] at hrun
    obtain ⟨_, u, hroot, hrun⟩ := bind_eq_ok.mp hrun
    change writeHeaderPage (s.rootPage s.file) s.pageCount { s with
      wal := some w1, walFile := some log1, header := s.nextDbHeader } = _ at hroot
    have hroot' : appendFrames [⟨ROOT_PAGE, s.rootPage s.file, s.pageCount⟩] { s with
        wal := some w1, walFile := some log1, header := s.nextDbHeader } = .ok () u := by
      rw [writeHeaderPage, bind_ok (get_apply _), if_pos (by exact hl)] at hroot
      rw [appendFrames, forEach_singleton]
      exact hroot
    obtain ⟨w2, log2, rfl, hg2⟩ := appends_grow [⟨ROOT_PAGE, s.rootPage s.file, s.pageCount⟩]
      (s := { s with wal := some w1, walFile := some log1, header := s.nextDbHeader })
      h.faults rfl rfl hg1.serves (fun a ha => by
        rw [List.mem_singleton.mp ha]
        exact ⟨hone.1, hone.2, hcount.2⟩) hroot'
    refine ⟨w2, log2, ?_, ?_⟩
    · have := hg1.trans hg2
      rw [List.map_map] at this
      exact this
    · cases hrun
      rfl
  · cases hrun

/-! ## Calls that write nothing -/

/-- Images are written to pages of the database only, of full length. -/
def Takes (s : Pager) : PagerOp → Prop
  | .write page => s.PageFits page
  | _ => True

/-- What a call that is not a commit changes: the cache, where pages become dirty
but not clean, and the page count. -/
structure Quiet (s s' : Pager) : Prop where
  state : s' = { s with
    cache := s'.cache, inTransaction := s'.inTransaction, pageCount := s'.pageCount }
  grows : s.pageCount ≤ s'.pageCount
  clean : ∀ p, s'.CleanAt p → s.CleanAt p
  steady : s'.Steady

section
variable {s s' : Pager}

theorem Quiet.readBack (h : s.Quiet s') (p : Nat) : s'.readBack p = s.readBack p := by
  rw [h.state]
  rfl

/-- A page put into the cache. -/
theorem Steady.put (h : s.Steady) {p : Nat} {f : Frame} {n : Nat} (hn : s.pageCount ≤ n)
    (hlt : n < 2 ^ 32) (hfit : 1 ≤ p ∧ p ≤ n ∧ f.data.length = s.pageSize)
    (hclean : f.dirty = false → s.CleanAt p) : s.Quiet (s.putCached p f n) := by
  have hcount := h.count
  have hl : ∀ q, q ≠ p → (s.putCached p f n).cache.lookup q = s.cache.lookup q := fun q hq =>
    AList.lookup_insert_ne hq
  have hlp : (s.putCached p f n).cache.lookup p = some f := AList.lookup_insert _
  refine ⟨rfl, hn, fun q hq => ?_, ?_⟩
  · by_cases hqp : q = p
    · subst hqp
      exact hclean (hq f hlp)
    · exact fun g hg => hq g ((hl q hqp).trans hg)
  · exact
      { h with
        count := ⟨Nat.le_trans hcount.1 hn, hlt⟩
        cached := fun q g hg => by
          by_cases hqp : q = p
          · subst hqp
            cases hlp.symm.trans hg
            exact hfit
          · obtain ⟨c1, c2, c3⟩ := h.cached q g ((hl q hqp).symm.trans hg)
            exact ⟨c1, Nat.le_trans c2 hn, c3⟩ }

/-- A page read back has the page size. -/
theorem Steady.readBack_length (h : s.Steady) {p : Nat} {d : Bytes} (hr : s.readBack p = .ok d) :
    d.length = s.pageSize := by
  obtain ⟨o, ho, hd⟩ := Res.bind_eq_ok.mp hr
  cases o with
  | none => exact (readExactAt_eq_ok.mp hd).1
  | some image =>
    cases hd
    unfold Pager.logged at ho
    split at ho
    · next w hm hw =>
      have hmem : s.memory = false := by
        by_contra h0
        rw [h.noLog (by simpa using h0)] at hw
        cases hw
      obtain ⟨w', log, fs, hw', hlog, hps, -⟩ := h.log (by rw [Pager.logs, hm, hmem]; rfl)
      cases hw.symm.trans hw'
      obtain ⟨i, -, himage⟩ := readPage_image ho
      rw [frameImage_length himage, hps]
    · cases ho

theorem Steady.op (h : s.Steady) {op : PagerOp} (hop : s.Takes op) (hrun : op.run s = .ok () s') :
    s.Quiet s' ∨ op = .commit ∧ s.inTransaction = true := by
  have hcount := h.count
  cases op with
  | rehash cache =>
    refine .inl ?_
    rw [PagerOp.run, Pager.rehash, modify_apply] at hrun
    by_cases hp : cache.entries.Perm s.cache.entries
    · have hl : ∀ p, cache.lookup p = s.cache.lookup p := fun p => AList.perm_lookup hp
      rw [if_pos hp] at hrun
      cases hrun
      exact ⟨rfl, Nat.le_refl _, fun p hc f hf => hc f ((hl p).trans hf),
        { h with cached := fun p f hf => h.cached p f ((hl p).symm.trans hf) }⟩
    · rw [if_neg hp] at hrun
      cases hrun
      exact ⟨rfl, Nat.le_refl _, fun _ hc => hc, h⟩
  | begin =>
    cases hrun
    exact .inl ⟨rfl, Nat.le_refl _, fun _ hc => hc, { h with }⟩
  | allocate =>
    obtain ⟨n, t, halloc, ht⟩ := bind_eq_ok.mp hrun
    cases ht
    rw [allocatePage, bind_ok (get_apply s)] at halloc
    split at halloc
    · next hn =>
      refine .inl ?_
      have hput := h.put (p := s.pageCount + 1)
        (f := { data := List.replicate s.pageSize 0, dirty := true })
        (n := s.pageCount + 1) (Nat.le_succ _) hn
        ⟨by omega, Nat.le_refl _, List.length_replicate⟩ fun hd => by cases hd
      cases halloc
      exact hput
    · cases halloc
  | get p =>
    obtain ⟨page, t, hget, ht⟩ := bind_eq_ok.mp hrun
    cases ht
    rw [getPage_eq h.ready] at hget
    cases hv : s.view p with
    | error e =>
      rw [hv] at hget
      cases hget
    | ok d =>
      rw [hv] at hget
      cases hget
      refine .inl ?_
      rw [view_eq] at hv
      unfold touch
      cases hc : s.cache.lookup p with
      | some f => exact ⟨rfl, Nat.le_refl _, fun _ hc => hc, h⟩
      | none =>
        rw [hc] at hv
        obtain ⟨h1, h2, hback⟩ := stored_eq_ok.mp (congrArg Except.toOption hv)
        exact h.put (f := { data := d, dirty := false }) (Nat.le_refl _) hcount.2
          ⟨h1, h2, h.readBack_length hback⟩ fun _ f hf => by
            rw [hc] at hf
            cases hf
  | write page =>
    rw [PagerOp.run, writePage, bind_ok (get_apply s)] at hrun
    split at hrun
    · cases hrun
    · refine .inl ?_
      have hput := h.put (p := page.pgno) (f := { data := page.data, dirty := true })
        (n := s.pageCount) (Nat.le_refl _) hcount.2 hop fun hd => by cases hd
      cases hrun
      exact hput
  | commit =>
    by_cases htx : s.inTransaction = true
    · exact .inr ⟨rfl, htx⟩
    · refine .inl ?_
      rw [PagerOp.run, Pager.commit, bind_ok (get_apply s), if_pos htx] at hrun
      cases hrun
      exact ⟨rfl, Nat.le_refl _, fun _ hc => hc, h⟩

/-! ## What a commit stores -/

/-- The image a commit gives a page, `none` where it writes none. -/
def writes (s : Pager) (p : Nat) : Option Bytes :=
  if p = ROOT_PAGE then some (s.rootPage s.file)
  else match s.cache.lookup p with
    | some f => if f.dirty then some f.data else none
    | none => none

theorem writes_none {p : Nat} (h : s.writes p = none) : p ≠ ROOT_PAGE ∧ s.CleanAt p := by
  unfold writes at h
  split at h
  · cases h
  · next hp =>
    refine ⟨hp, fun f hf => ?_⟩
    rw [hf] at h
    simp only at h
    split at h
    · cases h
    · next hd => simpa using hd

theorem writes_dirty {p : Nat} {d : Bytes} (h : s.writes p = some d) (hp : p ≠ ROOT_PAGE) :
    ∃ f, s.cache.lookup p = some f ∧ f.dirty = true ∧ f.data = d := by
  rw [writes, if_neg hp] at h
  cases hf : s.cache.lookup p with
  | none =>
    rw [hf] at h
    cases h
  | some f =>
    rw [hf] at h
    simp only at h
    split at h
    · next hd =>
      cases h
      exact ⟨f, rfl, hd, rfl⟩
    · cases h

/-- The last frame of a commit for each page. -/
theorem latest_commitFrames (p : Nat) : latest s.commitFrames p = s.writes p := by
  rw [commitFrames, latest_snoc]
  by_cases hp : p = ROOT_PAGE
  · rw [if_pos hp, writes, if_pos hp]
  · have hnodup : ((s.dirtyPages.map fun page => (page.pgno, page.data)).map (·.1)).Nodup := by
      rw [List.map_map]
      exact dirtyPages_nodup s
    rw [if_neg (by exact hp)]
    cases hw : s.writes p with
    | none =>
      refine latest_eq_none.mpr fun e he => ?_
      obtain ⟨page, hpage, rfl⟩ := List.mem_map.mp he
      exact (writes_none hw).2.not_dirty page hpage
    | some d =>
      obtain ⟨f, hf, hd, rfl⟩ := writes_dirty hw hp
      exact latest_of_nodup hnodup (List.mem_map.mpr ⟨_, mem_dirtyPages_of hf hd, rfl⟩)

/-- What a page reads as through a log. -/
theorem readBack_serves {w : Wal} {log : Bytes} {fs : List (Nat × Bytes)} (hl : s.logs = true)
    (hw : s.wal = some w) (hlog : s.walFile = some log) (h : w.Serves log fs) {p : Nat} (hp : p ≠ 0) :
    s.readBack p = match latest fs p with
      | some d => .ok d
      | none => readExactAt s.file ((p - 1) * s.pageSize) s.pageSize := by
  rw [readBack_log hl hw hlog, h.index.readPage, if_neg hp, Res.ok_bind]
  cases latest fs p <;> rfl

/-- What `commit` leaves behind, whatever the journal mode. -/
structure Stores (s s' : Pager) : Prop where
  steady : s'.Steady
  clean : ∀ p, s'.CleanAt p
  pageCount : s'.pageCount = s.pageCount
  logs : s'.logs = s.logs
  here : ∀ p d, s.writes p = some d → s'.readBack p = .ok d
  there : ∀ p d, 1 ≤ p → s.writes p = none → s.readBack p = .ok d → s'.readBack p = .ok d

theorem Steady.committed_cached (h : s.Steady) {f : Bytes} (hlen : (s.rootPage f).length = s.pageSize)
    {p : Nat} {g : Frame} (hg : (s.committed f).cache.lookup p = some g) :
    s.PageFits ⟨p, g.data, g.dirty⟩ := by
  rw [committed_lookup] at hg
  split at hg
  · next hp =>
    subst hp
    cases hg
    exact ⟨Nat.le_refl 1, h.count.1, hlen⟩
  · obtain ⟨g', hg', rfl⟩ := Option.map_eq_some_iff.mp hg
    exact h.cached p g' hg'

theorem Steady.commit_file (h : s.Steady) (hl : s.logs = false) (htx : s.inTransaction = true)
    (hrun : commit s = .ok () s') : s.Stores s' := by
  have hst := h.stocked hl
  obtain ⟨f, hw, hok, hpanic⟩ := commit_run hst hl h.faults htx
  have hc : s.header.changeCounter + 1 < 2 ^ 32 := by
    by_contra hbig
    obtain ⟨t, ht⟩ := hpanic (Nat.not_lt.mp hbig)
    cases hrun.symm.trans ht
  cases hrun.symm.trans (hok hc)
  obtain ⟨hlen, hwr⟩ := committed_wrote hst hl hw
  have hroot : s.rootPage f = s.rootPage s.file := by
    unfold rootPage rootImage
    cases hr : s.cache.lookup ROOT_PAGE with
    | some g => rfl
    | none =>
      have hback : s.readBack ROOT_PAGE = .ok (s.file.take s.pageSize) := by
        have := h.root
        have hlen : (s.file.take s.pageSize).length = s.pageSize := by simp; omega
        rw [readBack_file hst.toDiskOk hl, readExactAt_eq_ok]
        exact ⟨hlen, At.of_take (by rw [hlen]; simp [ROOT_PAGE])⟩
      have hclean : s.CleanAt ROOT_PAGE := fun g hg => by
        rw [hr] at hg
        cases hg
      have hread := hw.there ROOT_PAGE _ (Nat.le_refl 1) hclean.not_dirty hback
      rw [readBack_file hw.disk hl, readExactAt_eq_ok] at hread
      have htake := hread.2.take
      rw [hread.1] at htake
      simp only [ROOT_PAGE, Nat.sub_self, Nat.zero_mul, List.drop_zero] at htake
      rw [htake]
  exact
    { steady :=
        { size := hwr.disk.size
          small := h.small
          root := hwr.disk.root
          count := hwr.disk.count
          cached := fun p g hg => h.committed_cached hlen hg
          faults := h.faults
          log := fun hl' => absurd (hl'.symm.trans hl) (by decide)
          noLog := h.noLog
          countable := h.countable }
      clean := committed_clean
      pageCount := rfl
      logs := rfl
      here := fun p d hd => by
        by_cases hp : p = ROOT_PAGE
        · subst hp
          rw [writes, if_pos rfl] at hd
          cases hd
          rw [← hroot]
          exact committed_root hst hl hw
        · obtain ⟨g, hg, hdirty, rfl⟩ := writes_dirty hd hp
          have h1 := (h.cached p g hg).1
          refine committed_readBack hst hl hw h1 hp (view_cached hg) fun hc => ?_
          exact absurd ((hc g hg).symm.trans hdirty) (by decide)
      there := fun p d h1 hn hr => by
        obtain ⟨hp, hclean⟩ := writes_none hn
        refine hwr.there p d h1 (fun page hmem => ?_) (hw.there p d h1 hclean.not_dirty hr)
        rw [List.mem_singleton.mp hmem]
        exact hp.symm }

/-- The log has no more frames than a `u32` counts. -/
theorem countable_grown {w : Wal} {len n : Nat}
    (hlen : (len - WAL_HEADER_SIZE) / (WAL_FRAME_HEADER_SIZE + w.pageSize) < 2 ^ 32)
    (hn : n < 2 ^ 32) :
    (max len (w.frameOffset n) - WAL_HEADER_SIZE) / (WAL_FRAME_HEADER_SIZE + w.pageSize) <
      2 ^ 32 := by
  rcases Nat.le_total len (w.frameOffset n) with hle | hle
  · rw [Nat.max_eq_right hle, Wal.frameOffset, Nat.add_sub_cancel_left,
      Nat.mul_div_cancel _ (by simp [WAL_FRAME_HEADER_SIZE])]
    exact hn
  · rw [Nat.max_eq_left hle]
    exact hlen

theorem Steady.commit_log (h : s.Steady) (hl : s.logs = true) (htx : s.inTransaction = true)
    (hrun : commit s = .ok () s') : s.Stores s' := by
  obtain ⟨w, log, fs, hw, hlog, hps, hs⟩ := h.log hl
  obtain ⟨w', log', hg, hs'⟩ := commit_wal h hl hw hlog hs htx hrun
  have hps' : w'.pageSize = s.pageSize := hg.same.2.1.trans hps
  have hlen : (s.rootPage s.file).length = s.pageSize := by
    have := h.rootImage_length
    rw [rootPage, DatabaseHeader.overlay_length (by rw [this]; exact h.size), this]
  have hcache : s'.cache = (s.committed s.file).cache := by rw [hs']; rfl
  have hfits : ∀ p g, s'.cache.lookup p = some g → s.PageFits ⟨p, g.data, g.dirty⟩ := fun p g hg => by
    rw [hcache] at hg
    exact h.committed_cached hlen hg
  have hl' : s'.logs = true := by rw [hs']; exact hl
  have hread : ∀ p, p ≠ 0 → s'.readBack p = match latest (fs ++ s.commitFrames) p with
      | some d => .ok d
      | none => readExactAt s.file ((p - 1) * s.pageSize) s.pageSize := fun p hp => by
    have := readBack_serves (s := s') hl' (by rw [hs']) (by rw [hs']) hg.serves hp
    rw [this, hs']
  exact
    { steady :=
        { size := by rw [hs']; exact h.size
          small := by rw [hs']; exact h.small
          root := by rw [hs']; exact h.root
          count := by rw [hs']; exact h.count
          cached := fun p g hg => by
            have := hfits p g hg
            rw [hs']
            exact this
          faults := by rw [hs']; exact h.faults
          log := fun _ => ⟨w', log', fs ++ s.commitFrames, by rw [hs'], by rw [hs'],
            by rw [hs']; exact hps', hg.serves⟩
          noLog := fun hm => by
            rw [hs'] at hm
            have := h.noLog hm
            rw [hw] at this
            cases this
          countable := fun l hlog' => by
            rw [hs'] at hlog' ⊢
            cases hlog'
            rw [hg.length]
            have hc := h.countable log hlog
            rw [← hps] at hc ⊢
            exact countable_grown hc hg.serves.count }
      clean := fun p g hg => by
        rw [hcache] at hg
        exact committed_clean p g hg
      pageCount := by rw [hs']
      logs := hl'.trans hl.symm
      here := fun p d hd => by
        have hp : p ≠ 0 := by
          rintro rfl
          obtain ⟨g, hg, -⟩ := writes_dirty hd (by decide)
          exact Nat.not_succ_le_zero 0 (h.cached 0 g hg).1
        rw [hread p hp, latest_append, latest_commitFrames, hd, Option.some_or]
      there := fun p d h1 hn hr => by
        have hp : p ≠ 0 := Nat.ne_of_gt h1
        rw [hread p hp, latest_append, latest_commitFrames, hn, Option.none_or,
          ← readBack_serves hl hw hlog hs hp]
        exact hr }

/-- A commit stores what it writes, and every other page reads as before. -/
theorem Steady.commit (h : s.Steady) (htx : s.inTransaction = true)
    (hrun : Pager.commit s = .ok () s') : s.Stores s' := by
  cases hl : s.logs with
  | false => exact h.commit_file hl htx hrun
  | true => exact h.commit_log hl htx hrun

/-! ## Crashes -/

/-- The calls of a run write to pages of the database only. -/
def TakesRun : Pager → List PagerOp → Prop
  | _, [] => True
  | s, op :: ops => s.Takes op ∧ TakesRun (post op.run s) ops

instance (s : Pager) (op : PagerOp) : Decidable (s.Takes op) :=
  match op with
  | .write _ => inferInstanceAs (Decidable (_ ∧ _ ∧ _))
  | .rehash _ | .begin | .allocate | .get _ | .commit => inferInstanceAs (Decidable True)

instance decidableTakesRun : (ops : List PagerOp) → (s : Pager) → Decidable (s.TakesRun ops)
  | [], _ => inferInstanceAs (Decidable True)
  | op :: ops, s =>
    have := decidableTakesRun ops (post op.run s)
    inferInstanceAs (Decidable (_ ∧ _))

theorem TakesRun.split : ∀ (l : List PagerOp) {l' : List PagerOp} {s u : Pager},
    s.TakesRun (l ++ l') → forEach PagerOp.run l s = .ok () u → s.TakesRun l ∧ u.TakesRun l'
  | [], _, s, u, h, hu => by
    cases hu
    exact ⟨trivial, h⟩
  | op :: l, _, s, u, h, hu => by
    obtain ⟨hop, h⟩ := h
    obtain ⟨_, t, h1, h2⟩ := bind_eq_ok.mp hu
    have hpost : post op.run s = t := by
      rw [post, h1]
    rw [hpost] at h
    obtain ⟨hl, hl'⟩ := TakesRun.split l h h2
    exact ⟨⟨hop, by rw [hpost]; exact hl⟩, hl'⟩

/-- What a run in WAL mode does to the files: the log gets frames. -/
structure Extended (s s' : Pager) (w : Wal) (log : Bytes) (fs : List (Nat × Bytes)) : Prop where
  steady : s'.Steady
  logs : s'.logs = true
  file : s'.file = s.file
  pageSize : s'.pageSize = s.pageSize
  log : ∃ w' log' new, s'.wal = some w' ∧ s'.walFile = some log' ∧ w.Grown log fs w' log' new

theorem run_extends : ∀ (ops : List PagerOp) {s s' : Pager} {w : Wal} {log : Bytes}
    {fs : List (Nat × Bytes)}, s.Steady → s.logs = true → s.wal = some w → s.walFile = some log →
    w.Serves log fs → s.TakesRun ops → forEach PagerOp.run ops s = .ok () s' →
    s.Extended s' w log fs
  | [], s, s', w, log, fs, h, hl, hw, hlog, hs, _, hrun => by
    cases hrun
    exact ⟨h, hl, rfl, rfl, w, log, [], hw, hlog, Wal.Grown.refl hs⟩
  | op :: ops, s, s', w, log, fs, h, hl, hw, hlog, hs, htakes, hrun => by
    obtain ⟨hop, htakes⟩ := htakes
    obtain ⟨_, t, h1, h2⟩ := bind_eq_ok.mp hrun
    have hpost : post op.run s = t := by
      rw [post, h1]
    rw [hpost] at htakes
    rcases h.op hop h1 with hq | ⟨rfl, htx⟩
    · have hwt : t.wal = some w := by rw [hq.state]; exact hw
      have hlogt : t.walFile = some log := by rw [hq.state]; exact hlog
      have hlt : t.logs = true := by rw [hq.state]; exact hl
      have ih := run_extends ops hq.steady hlt hwt hlogt hs htakes h2
      exact ⟨ih.steady, ih.logs, ih.file.trans (by rw [hq.state]),
        ih.pageSize.trans (by rw [hq.state]), ih.log⟩
    · obtain ⟨w1, log1, hg, ht⟩ := Pager.commit_wal h hl hw hlog hs htx h1
      have hst := h.commit htx h1
      have ih := run_extends ops hst.steady (hst.logs.trans hl) (by rw [ht]) (by rw [ht])
        hg.serves htakes h2
      obtain ⟨w', log', new, hw', hlog', hg'⟩ := ih.log
      exact ⟨ih.steady, ih.logs, ih.file.trans (by rw [ht]), ih.pageSize.trans (by rw [ht]),
        w', log', _, hw', hlog', hg.trans hg'⟩

/-- What a page reads as when the first `len` bytes of the log are left and the
log is opened again. -/
def readCrashed (s : Pager) (len p : Nat) : Result Bytes := do
  let log := (s.walFile.getD []).take len
  let wal ← Wal.openLog log s.pageSize
  readBack { s with wal := some wal, walFile := some log } p

/-- A log cut at `len` recovers the frames in front of `len`, the first `n` and
those behind them. -/
theorem recovered_take {w : Wal} {log : Bytes} {fs : List (Nat × Bytes)} (h : w.Serves log fs)
    (hexact : log.length = w.frameOffset fs.length) {n len : Nat} (hn : n ≤ fs.length)
    (hlen : w.frameOffset n ≤ len) :
    w.recovered (log.take len) = fs.take n ++ w.behind (log.take len) n := by
  have hle := w.frameOffset_le hn
  have hlength : (log.take len).length = min len log.length := List.length_take
  have hoff : w.frameOffset n = 32 + n * (24 + w.pageSize) := rfl
  have hcount : ((log.take len).length - 32) / (24 + w.pageSize) < 2 ^ 32 := by
    exact Nat.lt_of_le_of_lt (Nat.div_le_div_right (show _ ≤ log.length - 32 by omega))
      (h.countable hexact)
  have hframes : n ≤ Wal.frames w.pageSize (log.take len).length :=
    (Wal.frames_le_iff hcount (by omega)).mpr (by omega)
  have htake : (fs.take n).length = n := by
    rw [List.length_take]
    omega
  have hadd := w.scan_add (log.take len) (Wal.frames w.pageSize (log.take len).length - n)
    (fs.take n) 0 fun j f hf => by
      have hj := (List.getElem?_eq_some_iff.mp hf).1
      rw [htake] at hj
      rw [List.getElem?_take, if_pos hj] at hf
      rw [Nat.zero_add, ← h.index.frame j f hf]
      refine Wal.frameAt_ext fun i _ hi => ?_
      have := w.frameOffset_le (show j + 1 ≤ n from hj)
      rw [List.getElem?_take, if_pos (by omega)]
  rw [htake, Nat.zero_add, Nat.add_sub_cancel' hframes] at hadd
  exact hadd

end

/-! ### A crash inside a transaction -/

/-- Three pages of 512 bytes, the last two all zeros. -/
def threePages : Pager := { noFiles with
  file := (DatabaseHeader.new 512).overlay (List.replicate 512 0) ++ List.replicate 1024 0
  pageSize := 512, header := DatabaseHeader.new 512, pageCount := 3 }

theorem threePages_steady : threePages.Steady := by
  have hsize : DATABASE_HEADER_SIZE ≤ threePages.pageSize := by decide
  have hsmall : threePages.pageSize < 2 ^ 32 := by decide
  have hroot : threePages.pageSize ≤ threePages.file.length := by decide +kernel
  have hcount : 1 ≤ threePages.pageCount ∧ threePages.pageCount < 2 ^ 32 := by decide
  exact
    { size := hsize
      small := hsmall
      root := hroot
      count := hcount
      cached := fun p f hf => by
        change (∅ : Table Nat Frame).lookup p = some f at hf
        rw [AList.lookup_empty] at hf
        cases hf
      faults := rfl
      log := fun hl => by cases hl
      noLog := fun _ => rfl
      countable := fun _ hl => by cases hl }

/-- The same in WAL mode with a new log. -/
def threeLogged : Pager := post (do let _ ← setJournalMode .wal) threePages

/-- Pages 2 and 3 are written in one transaction. -/
def writeBoth : List PagerOp :=
  [.begin, .write ⟨2, filled 1, false⟩, .write ⟨3, filled 1, false⟩, .commit]

/-- The pager behind it. -/
def wroteBoth : Pager := post (forEach PagerOp.run writeBoth) threeLogged

theorem writeBoth_ok : forEach PagerOp.run writeBoth threeLogged = .ok () wroteBoth :=
  eq_ok_post (by decide +kernel)

example : threeLogged.walFile.map List.length = some 32 := by decide +kernel

theorem threeLogged_takes : threeLogged.TakesRun writeBoth := by decide +kernel

theorem threeLogged_steady : threeLogged.Steady ∧ threeLogged.logs = true ∧ ∃ w log,
    threeLogged.wal = some w ∧ threeLogged.walFile = some log ∧ w.Holds log [] := by
  obtain ⟨w, log, hrun, hpw, hh⟩ := setJournalMode_new (s := threePages) rfl rfl (by decide) rfl rfl
  have hrun' : (do let _ ← setJournalMode .wal : PagerM Unit) threePages =
      .ok () { threePages with wal := some w, walFile := some log, journalMode := .wal } := by
    rw [bind_ok hrun]
    rfl
  have heq : threeLogged = { threePages with
      wal := some w, walFile := some log, journalMode := .wal } := by
    rw [threeLogged, post, hrun']
  refine ⟨?_, by rw [heq]; rfl, w, log, by rw [heq], by rw [heq], hh⟩
  rw [heq]
  exact
    { threePages_steady with
      log := fun _ => ⟨w, log, [], rfl, rfl, hpw, hh.toServes⟩
      noLog := fun hm => by cases hm
      countable := fun l hl => by
        cases hl
        rw [← hpw]
        exact hh.toServes.countable hh.length }

example : wroteBoth.readBack 2 = .ok (filled 1) := by decide +kernel

end Pager

end Sqllite
