import Sqllite.L2Storage.CommitSync
import Sqllite.L2Storage.WalCommit

/-!
# One page size

Every offset is a page number times the page size. A pager is `Sized` where its cache, its
file and its log hold pages of one size, and page 1 tells it.

* `Pager.commitSynced_carries`, `Pager.Sized.checkpoint`: calls keep it, whether they succeed
  or fail.
-/
namespace Sqllite
open Lib Lib.Run Lib.Span

/-! ## Page 1 -/

/-- The page size that page 1 tells. -/
def pageSizeIn (page : Bytes) : Option Nat := (DatabaseHeader.parse page).toOption.map (·.pageSize)

theorem pageSizeIn_eq_some {page : Bytes} {ps : Nat} : pageSizeIn page = some ps ↔
    ∃ h : DatabaseHeader, h.Valid ∧ At page 0 h.front ∧ At page 92 h.back ∧ h.pageSize = ps := by
  unfold pageSizeIn
  constructor
  · intro h
    cases hp : DatabaseHeader.parse page with
    | error e =>
      rw [hp] at h
      cases h
    | ok header =>
      rw [hp] at h
      cases h
      obtain ⟨hv, hfront, hback⟩ := DatabaseHeader.parse_eq_ok.mp hp
      exact ⟨header, hv, hfront, hback, rfl⟩
  · rintro ⟨h, hv, hfront, hback, rfl⟩
    rw [DatabaseHeader.parse_eq_ok.mpr ⟨hv, hfront, hback⟩]
    rfl

theorem pageSizeIn_bounds {page : Bytes} {ps : Nat} (h : pageSizeIn page = some ps) : 512 ≤ ps ∧ ps ≤ 65536 := by
  obtain ⟨header, hv, -, -, rfl⟩ := pageSizeIn_eq_some.mp h
  exact ⟨hv.pageSize.1, hv.pageSize.2.1⟩

/-- What a file starts with stands in it. -/
theorem at_prefix {file d bs : Bytes} {off : Nat} (h : At file 0 d) (hle : off + bs.length ≤ d.length) :
    At file off bs ↔ At d off bs := by
  refine forall₂_congr fun i hi => ?_
  have hget := h (off + i) (by omega)
  rw [Nat.zero_add] at hget
  rw [hget]

theorem pageSizeIn_front {file d : Bytes} (h : At file 0 d) (hlen : 100 ≤ d.length) : pageSizeIn file = pageSizeIn d := by
  refine Option.ext fun ps => ?_
  have hfront : ∀ header : DatabaseHeader, At file 0 header.front ↔ At d 0 header.front := fun header =>
    at_prefix h (by rw [DatabaseHeader.front_length]; omega)
  have hback : ∀ header : DatabaseHeader, At file 92 header.back ↔ At d 92 header.back := fun header =>
    at_prefix h (by rw [DatabaseHeader.back_length]; omega)
  rw [pageSizeIn_eq_some, pageSizeIn_eq_some]
  exact exists_congr fun header => by rw [hfront, hback]

theorem pageSizeIn_overlay {header : DatabaseHeader} {page : Bytes} (hv : header.Valid) (hlen : 100 ≤ page.length) :
    pageSizeIn (header.overlay page) = some header.pageSize :=
  pageSizeIn_eq_some.mpr ⟨header, hv, (DatabaseHeader.overlay_at hlen).1, (DatabaseHeader.overlay_at hlen).2, rfl⟩

/-! ## Pages of one size -/

namespace Pager

/-- An image of page `p` where pages have `ps` bytes. -/
structure ImageFits (ps p : Nat) (d : Bytes) : Prop where
  page : 1 ≤ p ∧ p < 2 ^ 32
  length : d.length = ps
  root : p = ROOT_PAGE → pageSizeIn d = some ps

/-- Each frame the handle knows is an image of its page. -/
def FramesFit (ps : Nat) (w : Wal) (log : Bytes) : Prop :=
  ∀ p i d, w.pageIndex.lookup p = some i → frameImage w log i = .ok d → ImageFits ps p d

/-- A pager all of whose pages have `ps` bytes, in the cache, in the file and in the log. -/
structure Sized (ps : Nat) (s : Pager) : Prop where
  size : s.pageSize = ps
  header : s.header.pageSize = ps ∧ s.header.Valid
  file : ps ≤ s.file.length ∧ s.file.length ≤ (2 ^ 32 - 1) * ps ∧ pageSizeIn s.file = some ps
  cached : ∀ p f, s.cache.lookup p = some f → ImageFits ps p f.data
  count : 1 ≤ s.pageCount ∧ s.pageCount < 2 ^ 32
  log : ∀ log, s.walFile = some log → log = [] ∨ ∃ w : Wal, w.Opened log ps ∧ FramesFit ps w log
  handle : ∀ w, s.wal = some w → ∃ log, s.walFile = some log ∧ w.Opened log ps

section
variable {ps p : Nat} {s t : Pager} {d : Bytes} {w : Wal} {log : Bytes}

theorem Sized.bounds (h : s.Sized ps) : 512 ≤ ps ∧ ps ≤ 65536 := pageSizeIn_bounds h.file.2.2

theorem Sized.faults (h : s.Sized ps) (fs : List (Option SqlliteError)) : Sized ps { s with faults := fs } := { h with }

/-- The handle knows frames that fit. -/
theorem Sized.frames (h : s.Sized ps) (hw : s.wal = some w) :
    ∃ log, s.walFile = some log ∧ w.Opened log ps ∧ FramesFit ps w log := by
  obtain ⟨log, hlog, hopened⟩ := h.handle w hw
  refine ⟨log, hlog, hopened, ?_⟩
  rcases h.log log hlog with hnil | ⟨w', hopened', hfit⟩
  · have hlen := hopened.frames_eq.2
    rw [hnil] at hlen
    exact absurd hlen (by simp [Wal.frameOffset, WAL_HEADER_SIZE])
  · cases hopened.openLog.symm.trans hopened'.openLog
    exact hfit

theorem Sized.readBack (h : s.Sized ps) (hp : 1 ≤ p ∧ p < 2 ^ 32) (hd : s.readBack p = .ok d) : ImageFits ps p d := by
  obtain ⟨o, ho, hd⟩ := Res.bind_eq_ok.mp hd
  cases o with
  | some image =>
    cases hd
    unfold Pager.logged at ho
    split at ho
    · next w _ hw =>
      obtain ⟨log, hlog, hopened, hfit⟩ := h.frames hw
      rw [hlog, Option.getD_some] at ho
      obtain ⟨i, hi, himage⟩ := readPage_image ho
      exact hfit p i d hi himage
    · cases ho
  | none =>
    obtain ⟨hlen, hat⟩ := readExactAt_eq_ok.mp hd
    rw [h.size] at hlen
    refine ⟨hp, hlen, fun hroot => ?_⟩
    subst hroot
    rw [show (ROOT_PAGE - 1) * s.pageSize = 0 by simp [ROOT_PAGE]] at hat
    exact (pageSizeIn_front hat (by have := h.bounds; omega)).symm.trans h.file.2.2

theorem Sized.view (h : s.Sized ps) (hd : s.view p = .ok d) : ImageFits ps p d := by
  unfold Pager.view at hd
  cases hc : s.cache.lookup p with
  | some f =>
    rw [hc] at hd
    cases hd
    exact h.cached p f hc
  | none =>
    rw [hc] at hd
    unfold stored at hd
    dsimp only at hd
    split at hd
    · cases hd
    · next hp =>
      have hcount := h.count
      exact h.readBack ⟨by omega, by omega⟩ hd

/-- One more page is cached. -/
theorem Sized.put (h : s.Sized ps) {f : Frame} (hf : ImageFits ps p f.data) :
    ∀ q g, (s.cache.insert p f).lookup q = some g → ImageFits ps q g.data := by
  intro q g hg
  by_cases hq : q = p
  · subst hq
    rw [AList.lookup_insert] at hg
    cases hg
    exact hf
  · rw [AList.lookup_insert_ne hq] at hg
    exact h.cached q g hg

/-! ## Writes -/

/-- A page written into the file. -/
theorem Sized.written (h : s.Sized ps) (hd : ImageFits ps p d) :
    Sized ps { s with file := fileWrite s.file ((p - 1) * ps) d } := by
  have hbounds := h.bounds
  obtain ⟨hlen, hle, hsize⟩ := h.file
  have hp := hd.page
  refine { h with file := ⟨?_, ?_, ?_⟩ }
  · show ps ≤ (fileWrite s.file ((p - 1) * ps) d).length
    rw [fileWrite_length]
    exact Nat.le_trans hlen (Nat.le_max_left _ _)
  · show (fileWrite s.file ((p - 1) * ps) d).length ≤ (2 ^ 32 - 1) * ps
    rw [fileWrite_length, hd.length]
    refine Nat.max_le.mpr ⟨hle, ?_⟩
    calc (p - 1) * ps + ps = (p - 1 + 1) * ps := by rw [Nat.add_mul, Nat.one_mul]
      _ ≤ (2 ^ 32 - 1) * ps := Nat.mul_le_mul_right ps (by omega)
  · show pageSizeIn (fileWrite s.file ((p - 1) * ps) d) = some ps
    by_cases hroot : p = ROOT_PAGE
    · subst hroot
      rw [show (ROOT_PAGE - 1) * ps = 0 by simp [ROOT_PAGE]]
      exact (pageSizeIn_front (fileWrite_at_self _ _ _) (by rw [hd.length]; omega)).trans (hd.root rfl)
    · have htake : (s.file.take ps).length = ps := by rw [List.length_take, Nat.min_eq_left hlen]
      have hfirst : At s.file 0 (s.file.take ps) := At.of_take (by rw [List.drop_zero, htake])
      have hapart : ps ≤ (p - 1) * ps := Nat.le_mul_of_pos_left ps (by have : p ≠ 1 := hroot; omega)
      have hkept : At (fileWrite s.file ((p - 1) * ps) d) 0 (s.file.take ps) :=
        fileWrite_at_frame (.inl (by rw [htake]; omega)) hfirst
      rw [pageSizeIn_front hkept (by rw [htake]; omega), ← pageSizeIn_front hfirst (by rw [htake]; omega)]
      exact hsize

theorem ImageFits.data_ne (hd : ImageFits ps p d) (h : s.Sized ps) : d ≠ [] := by
  rintro rfl
  have hlen := hd.length
  have hbounds := h.bounds
  rw [List.length_nil] at hlen
  omega

theorem writeFile_carries (hd : ImageFits ps p d) : Carries (Sized ps) (writeFileAt ((p - 1) * ps) d) := by
  constructor
  · intro s a t hs hrun
    rw [writeFileAt_eq (hd.data_ne hs)] at hrun
    split at hrun
    · cases hrun
      exact (hs.faults s.faults.tail).written hd
    · cases hrun
  · intro s e t hs hrun
    rw [writeFileAt_eq (hd.data_ne hs)] at hrun
    split at hrun
    · cases hrun
    · cases hrun
      exact hs.faults s.faults.tail

theorem writePageDirect_carries (hd : ImageFits ps p d) : Carries (Sized ps) (writePageDirect p d) := by
  refine .get_bind fun s hs => ?_
  rw [hs.size]
  exact .ite (fun _ => .lift) fun _ => writeFile_carries hd

/-- The frames in front of a new one are as they were. -/
theorem frameImage_front (h : w.Opened log ps) {log' : Bytes} {i : Nat} (hi : i < w.frameCount)
    (ht : log'.take (w.frameOffset w.frameCount) = log.take (w.frameOffset w.frameCount)) :
    frameImage w log' i = frameImage w log i := by
  have hin := w.frameOffset_mono hi
  unfold frameImage
  exact readExactAt_congr ht h.frames_eq.2 hin

theorem logWith_take (h : w.Opened log ps) {n : Nat} :
    (w.logWith log p d n).take (w.frameOffset w.frameCount) = log.take (w.frameOffset w.frameCount) := by
  have hle := h.frames_eq.2
  unfold Wal.logWith
  generalize hlog : fileWrite log (w.frameOffset w.frameCount) (w.frameHeader p d n).encode = log'
  have hlen : w.frameOffset w.frameCount + 24 ≤ log'.length := by
    rw [← hlog, fileWrite_length, WalFrameHeader.encode_length]
    exact Nat.le_max_right _ _
  have hwritten := congrArg (List.take (w.frameOffset w.frameCount)) (fileWrite_take d hlen)
  rw [List.take_take, List.take_take, Nat.min_eq_left (Nat.le_add_right _ 24)] at hwritten
  rw [hwritten, ← hlog, fileWrite_take _ hle]

/-- A header without its image behind the last frame. -/
theorem FramesFit.torn (hfit : FramesFit ps w log) (h : w.Opened log ps) (hdr : WalFrameHeader) :
    FramesFit ps w (fileWrite log (w.frameOffset w.frameCount) hdr.encode) := fun p i d hi himage => by
  rw [frameImage_front h (h.indexed p i hi) (fileWrite_take _ h.frames_eq.2)] at himage
  exact hfit p i d hi himage

theorem FramesFit.pushed (hfit : FramesFit ps w log) (h : w.Opened log ps) (hd : ImageFits ps p d) {n : Nat} :
    FramesFit ps (w.pushed p) (w.logWith log p d n) := fun q i e hi himage => by
  change frameImage w (w.logWith log p d n) i = .ok e at himage
  rw [Wal.pushed] at hi
  by_cases hq : q = p
  · subst hq
    rw [AList.lookup_insert] at hi
    cases hi
    obtain ⟨hlen, hat⟩ := readExactAt_eq_ok.mp himage
    have hself : At (w.logWith log q d n) (w.frameOffset w.frameCount + 24) d := fileWrite_at_self _ _ _
    cases hat.eq_of_length hself (by rw [hlen, hd.length, h.pageSize])
    exact hd
  · rw [AList.lookup_insert_ne hq] at hi
    rw [frameImage_front h (h.indexed q i hi) (logWith_take h)] at himage
    exact hfit q i e hi himage

theorem appendIfOpen_carries (hd : ImageFits ps p d) {n : Nat} (hn : n < 2 ^ 32) : Carries (Sized ps) (appendIfOpen p d n) := by
  have hnone : ∀ {s : Pager}, s.wal = none → appendIfOpen p d n s = .ok () s := by
    intro s hw
    rw [appendIfOpen, bind_ok (get_apply s), hw]
    rfl
  constructor
  · intro s a t hs h
    cases hw : s.wal with
    | none =>
      rw [hnone hw] at h
      cases h
      exact hs
    | some w =>
      obtain ⟨log, hlog, hopened, hfit⟩ := hs.frames hw
      have heq := @appendIfOpen_eq s w log ⟨p, d, false⟩ n hw hlog (hs.size.symm ▸ hopened)
        (hd.length.trans hs.size.symm) (hd.data_ne hs)
      dsimp only at heq
      rw [heq] at h
      split at h
      · cases h
      · cases h
      · split at h
        · next hcount =>
          cases h
          have happend := (hopened.append hd.length hd.page.1 hd.page.2 hn hcount).1
          exact
            { hs with
              log := fun l hl => by
                cases hl
                exact .inr ⟨_, happend, hfit.pushed hopened hd⟩
              handle := fun w' hw' => by
                cases hw'
                exact ⟨_, rfl, happend⟩ }
        · cases h
  · intro s e t hs h
    cases hw : s.wal with
    | none =>
      rw [hnone hw] at h
      cases h
    | some w =>
      obtain ⟨log, hlog, hopened, hfit⟩ := hs.frames hw
      have heq := @appendIfOpen_eq s w log ⟨p, d, false⟩ n hw hlog (hs.size.symm ▸ hopened)
        (hd.length.trans hs.size.symm) (hd.data_ne hs)
      dsimp only at heq
      rw [heq] at h
      split at h
      · cases h
        exact hs.faults _
      · cases h
        have htorn := (hopened.torn (w.frameHeader p d n)).1
        exact
          { hs with
            log := fun l hl => by
              cases hl
              exact .inr ⟨w, htorn, hfit.torn hopened _⟩
            handle := fun w' hw' => by
              cases hw.symm.trans hw'
              exact ⟨_, rfl, htorn⟩ }
      · split at h <;> cases h

/-! ## The log -/

/-- A log that is nothing but its header. -/
theorem opened_header {header : WalHeader} (hv : header.Valid) (ha : header.Accepted) (hps : header.pageSize = ps)
    (hpos : 0 < ps) : (Wal.fresh header ps).Opened header.encode ps := by
  have hself : At header.encode 0 header.encode := At.of_take (by rw [List.drop_zero, List.take_length])
  have hframes : Wal.frames ps header.encode.length = 0 := by
    rw [WalHeader.encode_length, Wal.frames, WAL_HEADER_SIZE, Nat.sub_self, Nat.zero_div, Nat.zero_mod]
  refine ⟨Wal.openLog_eq_ok.mpr ⟨header.encode, header, readExactAt_eq_ok.mpr ⟨WalHeader.encode_length _, hself⟩,
    WalHeader.decode_encode hv ha, hps, ?_⟩, ?_, hpos⟩
  · rw [hframes]
    rfl
  · rw [WalHeader.encode_length, Wal.frameOffset, WAL_HEADER_SIZE]
    exact Nat.le_trans (Nat.le_add_right 32 _) (Nat.le_add_right _ 24)

theorem framesFit_fresh {header : WalHeader} : FramesFit ps (Wal.fresh header ps) log := fun p i d hi _ => by
  rw [Wal.fresh, AList.lookup_empty] at hi
  cases hi

/-- The handle that is opened and kept. -/
theorem openWal_carries : Carries (Sized ps) (do
    let wal ← walOpen
    modify fun s => { s with wal := some wal }) := by
  have hcreate : ∀ {s : Pager}, s.Sized ps → s.walFile.getD [] = [] →
      (∀ w t, walCreate s = .ok w t → Sized ps { t with wal := some w }) ∧
        ∀ e t, walCreate s = .error (.err e) t → t.Sized ps := by
    intro s hs hnil
    have hbounds := hs.bounds
    have hlt : ps < 2 ^ 32 := Nat.lt_of_le_of_lt hbounds.2 (by decide)
    obtain ⟨hv, ha⟩ : (WalHeader.new ps 0x12345678 0x9abcdef0).Valid ∧ (WalHeader.new ps 0x12345678 0x9abcdef0).Accepted :=
      WalHeader.new_ok hlt (by decide) (by decide)
    have hopened : (Wal.fresh (WalHeader.new ps 0x12345678 0x9abcdef0) ps).Opened
        (WalHeader.new ps 0x12345678 0x9abcdef0).encode ps := opened_header hv ha rfl (by omega)
    have hne : (WalHeader.new ps 0x12345678 0x9abcdef0).encode ≠ [] := fun h => by
      have := congrArg List.length h
      rw [WalHeader.encode_length] at this
      cases this
    have hstep : walCreate s = (s.faults[0]?.join).elim
        (.ok (Wal.fresh (WalHeader.new ps 0x12345678 0x9abcdef0) ps) { s with
          faults := s.faults.tail, walFile := some (WalHeader.new ps 0x12345678 0x9abcdef0).encode })
        fun e => .error (.err e) { s with faults := s.faults.tail, walFile := some [] } := by
      rw [walCreate, bind_ok (modify_apply _ _), hnil, bind_ok (get_apply _), bind_apply]
      dsimp only
      rw [hs.size, writeLogAt_eq hne]
      dsimp only
      rw [Option.getD_some, fileWrite_nil]
      cases s.faults[0]?.join <;> rfl
    constructor
    · intro w t hrun
      rw [hstep] at hrun
      cases hfault : s.faults[0]?.join with
      | none =>
        rw [hfault] at hrun
        cases hrun
        exact
          { hs with
            log := fun l hl => by
              cases hl
              exact .inr ⟨_, hopened, framesFit_fresh⟩
            handle := fun w' hw' => by
              cases hw'
              exact ⟨_, rfl, hopened⟩ }
      | some e =>
        rw [hfault] at hrun
        cases hrun
    · intro e t hrun
      rw [hstep] at hrun
      cases hfault : s.faults[0]?.join with
      | none =>
        rw [hfault] at hrun
        cases hrun
      | some e' =>
        rw [hfault] at hrun
        cases hrun
        have hnone : s.wal = none := by
          cases hw : s.wal with
          | none => rfl
          | some w =>
            obtain ⟨log, hlog, hopened', -⟩ := hs.frames hw
            rw [hlog, Option.getD_some] at hnil
            have hlen := hopened'.frames_eq.2
            rw [hnil] at hlen
            exact absurd hlen (by simp [Wal.frameOffset, WAL_HEADER_SIZE])
        exact
          { hs with
            log := fun l hl => by
              cases hl
              exact .inl rfl
            handle := fun w' hw' => by
              cases hnone.symm.trans hw' }
  have hopen : ∀ {s : Pager}, s.Sized ps → (∀ w t, walOpen s = .ok w t → Sized ps { t with wal := some w }) ∧
      ∀ e t, walOpen s = .error (.err e) t → t.Sized ps := by
    intro s hs
    unfold walOpen
    rw [bind_ok (get_apply s)]
    cases hlog : s.walFile with
    | none => exact hcreate hs (by rw [hlog]; rfl)
    | some log =>
      dsimp only
      by_cases hnil : log = []
      · rw [if_pos hnil]
        exact hcreate hs (by rw [hlog]; exact hnil)
      · rw [if_neg hnil, hs.size]
        obtain ⟨w, hopened, hfit⟩ := (hs.log log hlog).resolve_left hnil
        rw [hopened.openLog]
        constructor
        · intro w' t hrun
          cases hrun
          exact
            { hs with
              handle := fun w' hw' => by
                cases hw'
                exact ⟨log, hlog, hopened⟩ }
        · intro e t hrun
          cases hrun
  constructor
  · intro s a t hs hrun
    obtain ⟨w, u, hw, hrun⟩ := bind_eq_ok.mp hrun
    cases hrun
    exact (hopen hs).1 w u hw
  · intro s e t hs hrun
    rw [bind_apply] at hrun
    cases hw : walOpen s with
    | ok w u =>
      rw [hw] at hrun
      cases hrun
    | error f u =>
      rw [hw] at hrun
      cases hrun
      exact (hopen hs).2 e _ hw

theorem ensureWal_carries : Carries (Sized ps) ensureWal :=
  .get_bind fun _ _ => .ite (fun _ => .pure) fun _ => .ite (fun _ => .pure) fun _ => openWal_carries

theorem setJournalMode_carries (m : JournalMode) : Carries (Sized ps) (setJournalMode m) :=
  .get_bind fun _ _ => .ite (fun _ => .throw) fun _ =>
    Carries.bind (.get_bind fun _ _ => .ite (fun _ => openWal_carries) fun _ => .ite
      (fun _ => .modify fun _ hs => { hs with handle := fun w hw => by cases hw }) fun _ => .pure) fun _ =>
    Carries.bind (.modify fun _ hs => { hs with }) fun _ => .pure

/-! ## Checkpoints -/

/-- The frames are copied, the log stays. -/
theorem copyFrame_carries {i : Nat} (hopened : w.Opened log ps) (hfit : FramesFit ps w log) (hi : w.pageIndex.lookup p = some i) :
    Carries (fun s => s.Sized ps ∧ s.walFile = some log ∧ s.wal = some w) (copyFrame w p i) := by
  refine .get_bind fun s hs => .lift_bind fun d hd => .ite (fun _ => .lift) fun _ => ?_
  rw [hs.2.1, Option.getD_some] at hd
  have hd := hfit p i d hi hd
  rw [hopened.pageSize]
  have hkeep : ∀ {t u : Pager} {a : Unit}, t.Sized ps ∧ t.walFile = some log ∧ t.wal = some w →
      (writeFileAt ((p - 1) * ps) d t = .ok a u ∨ ∃ e, writeFileAt ((p - 1) * ps) d t = .error (.err e) u) →
      u.walFile = some log ∧ u.wal = some w := by
    intro t u a ht hrun
    rw [writeFileAt_eq (hd.data_ne ht.1)] at hrun
    cases hfault : t.faults[0]?.join with
    | none =>
      rw [hfault] at hrun
      rcases hrun with hrun | ⟨e, hrun⟩
      · cases hrun
        exact ht.2
      · cases hrun
    | some e' =>
      rw [hfault] at hrun
      rcases hrun with hrun | ⟨e, hrun⟩
      · cases hrun
      · cases hrun
        exact ht.2
  exact ⟨fun ht hrun => ⟨(writeFile_carries hd).ok ht.1 hrun, hkeep ht (.inl hrun)⟩,
    fun ht hrun => ⟨(writeFile_carries hd).err ht.1 hrun, hkeep (a := ()) ht (.inr ⟨_, hrun⟩)⟩⟩

theorem Clear.tail {n : Nat} (h : s.Clear (n + 1)) (ht : t.faults = s.faults.tail) : t.Clear n := fun i hi => by
  rw [ht, List.getElem?_tail]
  exact h (i + 1) (by omega)

theorem copyFrame_clear {i n : Nat} (h : s.Clear (n + 1)) (hrun : copyFrame w p i s = .ok () t) : t.Clear n := by
  rw [copyFrame, bind_ok (get_apply s)] at hrun
  obtain ⟨d, -, hrun⟩ := lift_bind_eq_ok.mp hrun
  split at hrun
  · cases hrun
  · by_cases hne : d = []
    · rw [hne, writeFileAt, if_pos rfl] at hrun
      cases hrun
      exact fun j hj => h j (by omega)
    · rw [writeFileAt_eq hne, h 0 (Nat.zero_lt_succ n)] at hrun
      cases hrun
      exact h.tail rfl

theorem copies_clear {n : Nat} {es : List (Sigma fun _ : Nat => Nat)} (h : s.Clear (es.length + n))
    (hrun : forEach (fun e => copyFrame w e.1 e.2) es s = .ok () t) : t.Clear n := by
  induction es generalizing s with
  | nil =>
    cases hrun
    rwa [List.length_nil, Nat.zero_add] at h
  | cons e es ih =>
    obtain ⟨_, u, hfirst, hrest⟩ := bind_eq_ok.mp hrun
    rw [List.length_cons, Nat.add_right_comm] at h
    exact ih (copyFrame_clear h hfirst) hrest

/-- The VFS takes what a checkpoint writes: the frames and the header of the log. -/
def CheckpointTaken (s : Pager) : Prop := ∀ w, s.wal = some w → s.Clear (w.pageIndex.entries.length + 1)

theorem Sized.checkpoint (h : s.Sized ps) (htaken : s.CheckpointTaken) :
    (∀ t, walCheckpoint s = .ok () t → t.Sized ps) ∧ ∀ e t, walCheckpoint s = .error (.err e) t → t.Sized ps := by
  rw [walCheckpoint, bind_ok (get_apply s)]
  by_cases hm : s.journalMode ≠ .wal
  · rw [if_pos hm]
    exact ⟨fun t hrun => by cases hrun; exact h, fun e t hrun => by cases hrun⟩
  · rw [if_neg hm]
    cases hw : s.wal with
    | none => exact ⟨fun t hrun => by cases hrun; exact h, fun e t hrun => by cases hrun⟩
    | some w =>
      dsimp only
      obtain ⟨log, hlog, hopened, hfit⟩ := h.frames hw
      have hcopies : Carries (fun s => s.Sized ps ∧ s.walFile = some log ∧ s.wal = some w)
          (forEach (fun e => copyFrame w e.1 e.2) w.pageIndex.entries) :=
        .forEach fun e he => copyFrame_carries hopened hfit (Table.mem_entries_iff.mp he)
      obtain ⟨hps, hat, -⟩ := Wal.openLog_spec hopened.openLog
      obtain ⟨hdrBuf, -, hdecode, hsize, hle⟩ := hat
      obtain ⟨hv, ha⟩ := WalHeader.decode_ok hdecode
      obtain ⟨hv', ha'⟩ := nextHeader_ok hv ha
      have hempty : emptied w = Wal.fresh (nextHeader w.header) ps := by
        rw [emptied, Wal.fresh, hps, hle]
        rfl
      have hheader := opened_header hv' ha' (hsize.trans hps) hopened.pos
      have hne : (nextHeader w.header).encode ≠ [] := fun h0 => by
        have := congrArg List.length h0
        rw [WalHeader.encode_length] at this
        cases this
      -- behind the copies only the header is written
      have hrest : ∀ {u : Pager}, forEach (fun e => copyFrame w e.1 e.2) w.pageIndex.entries s = .ok () u →
          Pager.checkpoint w s = .ok () { u with
            faults := u.faults.tail, wal := some (emptied w), walFile := some (nextHeader w.header).encode } := by
        intro u hu
        have hclear : u.faults[0]?.join = none := copies_clear (htaken w hw) hu 0 Nat.one_pos
        have htake : ∀ l, (fileWrite l 0 (nextHeader w.header).encode).take WAL_HEADER_SIZE =
            (nextHeader w.header).encode := fun l => by
          have hself := (fileWrite_at_self l 0 (nextHeader w.header).encode).take
          rwa [List.drop_zero, WalHeader.encode_length] at hself
        rw [Pager.checkpoint, bind_ok hu, bind_ok (modify_apply _ _), bind_apply, writeLogAt_eq hne]
        dsimp only
        rw [hclear]
        show EStateM.Result.ok () { u with
          faults := u.faults.tail, wal := some (emptied w)
          walFile := some ((fileWrite (u.walFile.getD []) 0 (nextHeader w.header).encode).take WAL_HEADER_SIZE) } = _
        rw [htake]
      constructor
      · intro t hrun
        obtain ⟨_, u, hu, -⟩ := bind_eq_ok.mp hrun
        cases (hrest hu).symm.trans hrun
        obtain ⟨hs, -⟩ := hcopies.ok ⟨h, hlog, hw⟩ hu
        exact
          { hs with
            log := fun l hl => by
              cases hl
              exact .inr ⟨_, hheader, framesFit_fresh⟩
            handle := fun w' hw' => by
              cases hw'
              exact ⟨_, rfl, hempty ▸ hheader⟩ }
      · intro e t hrun
        cases hu : forEach (fun e => copyFrame w e.1 e.2) w.pageIndex.entries s with
        | ok a u => cases (hrest hu).symm.trans hrun
        | error f u =>
          rw [Pager.checkpoint, bind_error hu] at hrun
          cases hrun
          exact (hcopies.err ⟨h, hlog, hw⟩ hu).1

/-! ## Pages -/

theorem getPage_carries (p : Nat) : Carries (Sized ps) (getPage p) := by
  refine .get_bind fun s hs => ?_
  cases s.cache.lookup p with
  | some f => exact .pure
  | none =>
    refine .ite (fun _ => .lift) fun hp => ensureWal_carries.bind fun _ => .get_bind fun t ht => .lift_bind fun d hd => ?_
    have hcount := hs.count
    have hfit := ht.readBack ⟨by omega, by omega⟩ hd
    exact Carries.bind (.modify fun u hu => { hu with cached := hu.put hfit }) fun _ => .pure

theorem writePage_carries {page : Page} (hfit : ImageFits ps page.pgno page.data) : Carries (Sized ps) (writePage page) :=
  .get_bind fun _ hs => .ite (fun _ => .lift) fun _ => .set { hs with cached := hs.put hfit }

theorem allocatePage_carries : Carries (Sized ps) allocatePage := by
  refine .get_bind fun s hs => .ite (fun hlt => ?_) fun _ => .lift
  have hcount := hs.count
  have hne : s.pageCount + 1 ≠ ROOT_PAGE := by
    show s.pageCount + 1 ≠ 1
    omega
  have hpos : 1 ≤ s.pageCount + 1 := Nat.le_add_left 1 _
  have hfit : ImageFits ps (s.pageCount + 1) (List.replicate s.pageSize 0) :=
    ⟨⟨hpos, hlt⟩, List.length_replicate.trans hs.size, fun h => absurd h hne⟩
  exact Carries.bind (.set { hs with cached := hs.put (f := ⟨_, true⟩) hfit, count := ⟨hpos, hlt⟩ }) fun _ => .pure

theorem Sized.dirty (h : s.Sized ps) : ∀ page ∈ s.dirtyPages, ImageFits ps page.pgno page.data :=
  fun _ hp => h.cached _ _ (mem_dirtyPages hp)

/-! ## Commits -/

theorem flushPages_carries {dirty : List Page} (hfit : ∀ page ∈ dirty, ImageFits ps page.pgno page.data) {n : Nat}
    (hn : n < 2 ^ 32) : Carries (Sized ps) (flushPages dirty n) :=
  .get_bind fun _ _ => .ite
    (fun _ => ensureWal_carries.bind fun _ => .forEach fun page hp => appendIfOpen_carries (hfit page hp) hn)
    fun _ => .forEach fun page hp => writePageDirect_carries (hfit page hp)

theorem headerPage_fits (h : s.Sized ps) (hrun : headerPage s = .ok d t) : ImageFits ps ROOT_PAGE d := by
  rw [headerPage, bind_ok (get_apply s)] at hrun
  cases hc : s.cache.lookup ROOT_PAGE with
  | some f =>
    rw [hc] at hrun
    cases hrun
    exact h.cached _ f hc
  | none =>
    rw [hc] at hrun
    dsimp only at hrun
    rw [h.size] at hrun
    cases hread : readExactAt s.file 0 ps with
    | error e =>
      rw [hread] at hrun
      cases hrun
    | ok image =>
      rw [hread] at hrun
      cases hrun
      obtain ⟨hlen, hat⟩ := readExactAt_eq_ok.mp hread
      refine ⟨by decide, hlen, fun _ => ?_⟩
      exact (pageSizeIn_front hat (by have := h.bounds; omega)).symm.trans h.file.2.2

theorem headerPage_carries : Carries (Sized ps) headerPage := by
  refine .get_bind fun s _ => ?_
  cases s.cache.lookup ROOT_PAGE with
  | some f => exact .pure
  | none => exact .lift

theorem overlay_fits {header : DatabaseHeader} (hsize : header.pageSize = ps) (hv : header.Valid) (hd : ImageFits ps ROOT_PAGE d) :
    ImageFits ps ROOT_PAGE (header.overlay d) := by
  have hlow : 512 ≤ ps := (pageSizeIn_bounds (hd.root rfl)).1
  have hlen : 100 ≤ d.length := by
    rw [hd.length]
    omega
  exact ⟨hd.page, (DatabaseHeader.overlay_length hlen).trans hd.length, fun _ => hsize ▸ pageSizeIn_overlay hv hlen⟩

/-- Page 1 with its new header. -/
theorem header_write_fits {header : DatabaseHeader} (hsize : header.pageSize = ps) (hv : header.Valid)
    (hd : ImageFits ps ROOT_PAGE d) {page : Bytes} (hw : header.write d = .ok page) : ImageFits ps ROOT_PAGE page := by
  have hlow : 512 ≤ ps := (pageSizeIn_bounds (hd.root rfl)).1
  rw [DatabaseHeader.write_ok (by rw [hd.length]; omega)] at hw
  cases hw
  exact overlay_fits hsize hv hd

theorem writeHeaderPage_carries {page : Bytes} (hfit : ImageFits ps ROOT_PAGE page) {n : Nat} (hn : n < 2 ^ 32) :
    Carries (Sized ps) (writeHeaderPage page n) :=
  .get_bind fun _ _ => .ite (fun _ => appendIfOpen_carries hfit hn) fun _ => writePageDirect_carries hfit

/-- The header a commit writes. -/
def counted (header : DatabaseHeader) (n : Nat) : DatabaseHeader :=
  { header with databaseSize := n, changeCounter := header.changeCounter + 1 }

theorem Sized.counted (h : s.Sized ps) {n : Nat} (hn : n < 2 ^ 32) (hcount : s.header.changeCounter + 1 < 2 ^ 32) :
    (Pager.counted s.header n).pageSize = ps ∧ (Pager.counted s.header n).Valid :=
  ⟨h.header.1, nextDbHeader_valid (s := { s with pageCount := n }) h.header.2 hn hcount⟩

/-- The header of a commit, and its page 1. -/
theorem rootWrites_carries (h : s.Sized ps) {n : Nat} (hn : n < 2 ^ 32) (hcount : s.header.changeCounter + 1 < 2 ^ 32) :
    Carries (Sized ps) (do
      set { s with header := Pager.counted s.header n }
      let page ← headerPage
      let page ← lift ((Pager.counted s.header n).write page)
      writeHeaderPage page n
      pure page) := by
  have hv := h.counted hn hcount
  refine Carries.bind (.set { h with header := hv }) fun _ =>
    headerPage_carries.bind_fact (fun _ _ _ hs hrun => headerPage_fits hs hrun) fun d hd => .lift_bind fun page hw => ?_
  have hfit := header_write_fits hv.1 hv.2 hd hw
  exact (writeHeaderPage_carries hfit hn).bind fun _ => .pure

theorem commitWrites_carries : Carries (Sized ps) commitWrites := by
  refine .get_bind fun s hs => (flushPages_carries hs.dirty hs.count.2).bind fun _ => .get_bind fun t ht => ?_
  refine .ite (fun hcount => rootWrites_carries ht hs.count.2 hcount) fun _ => Carries.bind (.set ?_) fun _ => .lift
  refine { ht with header := ⟨ht.header.1, ht.header.2.pageSize, fun v hv => ?_⟩ }
  have hall := ht.header.2.words
  have hn := hs.count.2
  simp only [DatabaseHeader.words, List.mem_cons, List.not_mem_nil, or_false] at hv hall
  rcases hv with hv | hv | hv
  · exact hall v (.inl hv)
  · omega
  · exact hall v (.inr (.inr hv))

theorem commitWrites_fits (h : s.Sized ps) {page : Bytes} (hrun : commitWrites s = .ok page t) : ImageFits ps ROOT_PAGE page := by
  rw [commitWrites, bind_ok (get_apply s)] at hrun
  obtain ⟨_, u, hflush, hrun⟩ := bind_eq_ok.mp hrun
  have hu := (flushPages_carries h.dirty h.count.2).ok h hflush
  rw [bind_ok (get_apply u)] at hrun
  split at hrun
  · next hcount =>
    have hv := hu.counted h.count.2 hcount
    rw [bind_ok (set_apply _ _)] at hrun
    obtain ⟨d, v, hhead, hrun⟩ := bind_eq_ok.mp hrun
    obtain ⟨page', hw, hrun⟩ := lift_bind_eq_ok.mp hrun
    obtain ⟨_, x, -, hrun⟩ := bind_eq_ok.mp hrun
    cases hrun
    have hset : Sized ps { u with header := Pager.counted u.header s.pageCount } := { hu with header := hv }
    exact header_write_fits hv.1 hv.2 (headerPage_fits hset hhead) hw
  · cases hrun

theorem sync_carries (outcome : Option SqlliteError) : Carries (Sized ps) (sync outcome) := by
  cases outcome with
  | none => exact .pure
  | some e => exact .throw

theorem commitSynced_carries (y : Syncs) : Carries (Sized ps) (commitSynced y) := by
  refine .get_bind fun _ _ => .ite (fun _ => .pure) fun _ =>
    commitWrites_carries.bind_fact (fun _ _ _ hs hrun => commitWrites_fits hs hrun) fun page hfit => .get_bind fun _ _ => ?_
  have hrest : Carries (Sized ps) (do
      modify fun s => { s with
        cache := Table.mapVals (fun f => { f with dirty := false })
          (s.cache.insert ROOT_PAGE { data := page, dirty := false }) }
      sync y.file
      modify fun s => { s with inTransaction := false }) := by
    refine Carries.bind (.modify fun t ht => { ht with cached := fun q g hg => ?_ }) fun _ =>
      (sync_carries y.file).bind fun _ => .modify fun _ ht => { ht with }
    rw [Table.lookup_mapVals] at hg
    obtain ⟨f, hf, rfl⟩ := Option.map_eq_some_iff.mp hg
    exact ht.put (f := { data := page, dirty := false }) hfit q f hf
  exact .ite (fun _ => (sync_carries y.log).bind fun _ => hrest) fun _ => hrest

/-- mirrors sqllite-core/src/storage/pager.rs:354-366 -/
def syncPages (outcome : Option SqlliteError) : PagerM Unit := do
  let s ← get
  forEach (fun page => writePageDirect page.pgno page.data) s.dirtyPages
  sync outcome

theorem syncPages_carries (outcome : Option SqlliteError) : Carries (Sized ps) (syncPages outcome) :=
  .get_bind fun _ hs => Carries.bind (.forEach fun page hp => writePageDirect_carries (hs.dirty page hp)) fun _ => sync_carries outcome

end

end Pager

end Sqllite
