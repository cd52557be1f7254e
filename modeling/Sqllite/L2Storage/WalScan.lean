import Sqllite.Lib.Latest
import Sqllite.L2Storage.Pager

/-!
# The frames a log recovers

`Wal.scan` lists the frames that `rebuild_index` takes, `Wal.Indexes` says that
the handle of a log gives the last frame of each page among them. A frame's
checksum covers the frame alone, and `Wal::open` leaves what it does not take in
the file, so frames behind an invalid one come back when it is overwritten.

* `Wal.openLog_spec`: what an opened log reads.
* `Pager.appendIfOpen_run`: an append is two writes behind the last frame.
-/
namespace Sqllite
open Lib Lib.Run Lib.Span

/-! ## Parts of files -/

/-- A read sees the bytes of its range only. -/
theorem readExactAt_ext {f g : Bytes} {off n : Nat}
    (h : ∀ i, off ≤ i → i < off + n → g[i]? = f[i]?) :
    readExactAt g off n = readExactAt f off n := by
  unfold readExactAt
  by_cases hn : n = 0
  · rw [if_pos hn, if_pos hn]
  · have hlast := h (off + n - 1) (by omega) (by omega)
    have hlen : off + n ≤ g.length ↔ off + n ≤ f.length := by
      have hnone : g[off + n - 1]? = none ↔ f[off + n - 1]? = none := by rw [hlast]
      rw [List.getElem?_eq_none_iff, List.getElem?_eq_none_iff] at hnone
      omega
    have hdata : (g.drop off).take n = (f.drop off).take n := by
      refine List.ext_getElem? fun i => ?_
      rw [List.getElem?_take, List.getElem?_take]
      split
      · rw [List.getElem?_drop, List.getElem?_drop]
        exact h _ (by omega) (by omega)
      · rfl
    simp only [if_neg hn, hlen, hdata]

/-- A write changes the bytes of its range only. -/
theorem fileWrite_getElem? {file : Bytes} {off : Nat} {buf : Bytes} {i : Nat}
    (h : i < off ∧ i < file.length ∨ off + buf.length ≤ i) :
    (fileWrite file off buf)[i]? = file[i]? := by
  rw [fileWrite, patch_getElem? (by simp; omega), if_neg (by omega)]
  rcases h with h | h
  · rw [List.getElem?_append_left h.2]
  · by_cases hi : i < file.length
    · rw [List.getElem?_append_left hi]
    · rw [List.getElem?_append_right (by omega), List.getElem?_replicate, if_neg (by omega),
        List.getElem?_eq_none (by omega)]

namespace Wal

/-! ## One frame -/

/-- Frame `i` as `rebuild_index` reads it, `none` where it stops. -/
def frameAt (w : Wal) (log : Bytes) (i : Nat) : Result (Option (Nat × Bytes)) := do
  let hdrBuf ← readExactAt log (w.frameOffset i) WAL_FRAME_HEADER_SIZE
  let frameHdr ← WalFrameHeader.decode hdrBuf
  if frameHdr.salt1 ≠ w.header.salt1 ∨ frameHdr.salt2 ≠ w.header.salt2 then pure none
  else do
    let pageBuf ← readExactAt log (w.frameOffset i + WAL_FRAME_HEADER_SIZE) w.pageSize
    if ¬ frameHdr.verifyChecksum pageBuf w.isLe then pure none
    else pure (some (frameHdr.pgno, pageBuf))

section
variable {w : Wal} {log log' : Bytes} {i : Nat}

theorem frameAt_ext (h : ∀ j, w.frameOffset i ≤ j → j < w.frameOffset (i + 1) → log'[j]? = log[j]?) :
    w.frameAt log' i = w.frameAt log i := by
  rw [w.frameOffset_succ] at h
  unfold frameAt
  rw [WAL_FRAME_HEADER_SIZE, readExactAt_ext fun j h1 h2 => h j h1 (by omega),
    readExactAt_ext (n := w.pageSize) fun j h1 h2 => h j (by omega) (by omega)]

/-- A frame inside the file is valid or not. -/
theorem frameAt_ok (h : w.frameOffset (i + 1) ≤ log.length) :
    ∃ o, w.frameAt log i = .ok o := by
  rw [w.frameOffset_succ] at h
  have hread : ∀ off n, off + n ≤ log.length → ∃ d, readExactAt log off n = .ok d ∧ d.length = n :=
    fun off n hle => by
      refine ⟨(log.drop off).take n, readExactAt_eq_ok.mpr ?_, by simp; omega⟩
      have hl : ((log.drop off).take n).length = n := by simp; omega
      exact ⟨hl, At.of_take (by rw [hl])⟩
  obtain ⟨hdrBuf, h1, h1'⟩ := hread (w.frameOffset i) 24 (by omega)
  obtain ⟨pageBuf, h2, -⟩ := hread (w.frameOffset i + 24) w.pageSize (by omega)
  obtain ⟨hdr, h3⟩ : ∃ hdr, WalFrameHeader.decode hdrBuf = .ok hdr := by
    have hat : At hdrBuf 0 hdrBuf := At.of_take (by rw [List.drop_zero, List.take_length])
    have hu32 : ∀ off, off + 4 ≤ 24 → ∃ v, readU32Be hdrBuf off = .ok v := fun off hoff => readU32Be_ok (h1' ▸ hoff)
    obtain ⟨_, e0⟩ := hu32 0 (by decide)
    obtain ⟨_, e4⟩ := hu32 4 (by decide)
    obtain ⟨_, e8⟩ := hu32 8 (by decide)
    obtain ⟨_, e12⟩ := hu32 12 (by decide)
    obtain ⟨_, e16⟩ := hu32 16 (by decide)
    obtain ⟨_, e20⟩ := hu32 20 (by decide)
    rw [WalFrameHeader.decode, if_neg (by rw [h1']; decide), e0, e4, e8, e12, e16, e20]
    exact ⟨_, rfl⟩
  rw [frameAt, WAL_FRAME_HEADER_SIZE, h1, Res.ok_bind, h3, Res.ok_bind]
  split
  · exact ⟨_, rfl⟩
  · rw [h2, Res.ok_bind]
    split <;> exact ⟨_, rfl⟩

/-- The rebuild loop stops at an invalid frame. -/
theorem rebuildFrom_none (n : Nat) (h : w.frameAt log i = .ok none) :
    rebuildFrom log (n + 1) i w = .ok w := by
  obtain ⟨hdrBuf, h1, h⟩ := Res.bind_eq_ok.mp h
  obtain ⟨hdr, h2, h⟩ := Res.bind_eq_ok.mp h
  rw [rebuildFrom, h1, Res.ok_bind, h2, Res.ok_bind]
  split at h
  · next hs => rw [if_pos hs]; rfl
  · next hs =>
    rw [if_neg hs]
    obtain ⟨data, h3, h⟩ := Res.bind_eq_ok.mp h
    rw [h3, Res.ok_bind]
    split at h
    · next hv => rw [if_pos hv]; rfl
    · cases h

/-- It takes a valid one. -/
theorem rebuildFrom_some (n : Nat) {f : Nat × Bytes} (h : w.frameAt log i = .ok (some f)) :
    rebuildFrom log (n + 1) i w = rebuildFrom log n (i + 1) { w with
      pageIndex := if f.1 > 0 then w.pageIndex.insert f.1 i else w.pageIndex
      frameCount := i + 1 } := by
  obtain ⟨hdrBuf, h1, h⟩ := Res.bind_eq_ok.mp h
  obtain ⟨hdr, h2, h⟩ := Res.bind_eq_ok.mp h
  split at h
  · cases h
  · next hs =>
    obtain ⟨data, h3, h⟩ := Res.bind_eq_ok.mp h
    split at h
    · cases h
    · next hv =>
      cases h
      simp only [not_or, not_not] at hs
      exact rebuildFrom_take h1 h2 hs.1 hs.2 h3 (by simpa using hv)

/-- A read of a valid frame. -/
theorem readPage_frame {p : Nat} {f : Nat × Bytes} (hl : w.pageIndex.lookup p = some i)
    (h : w.frameAt log i = .ok (some f)) : w.readPage log p = .ok (some f.2) := by
  obtain ⟨hdrBuf, h1, h⟩ := Res.bind_eq_ok.mp h
  obtain ⟨hdr, h2, h⟩ := Res.bind_eq_ok.mp h
  rw [readPage, hl]
  simp only
  rw [h1, Res.ok_bind, h2, Res.ok_bind]
  split at h
  · cases h
  · obtain ⟨data, h3, h⟩ := Res.bind_eq_ok.mp h
    rw [h3, Res.ok_bind]
    split at h
    · cases h
    · next hv =>
      cases h
      rw [if_neg hv]
      rfl

end

/-! ## The frames -/

/-- At most `n` frames from frame `i` on, up to the first invalid one. -/
def scan (w : Wal) (log : Bytes) : Nat → Nat → List (Nat × Bytes)
  | 0, _ => []
  | n + 1, i =>
    match w.frameAt log i with
    | .ok (some f) => f :: scan w log n (i + 1)
    | _ => []

/-- The frames that `rebuild_index` takes. -/
def recovered (w : Wal) (log : Bytes) : List (Nat × Bytes) :=
  w.scan log (frames w.pageSize log.length) 0

/-- The handle reads the last of these frames for each page. -/
structure Indexes (w : Wal) (log : Bytes) (fs : List (Nat × Bytes)) : Prop where
  count : w.frameCount = fs.length
  frame : ∀ i f, fs[i]? = some f → w.frameAt log i = .ok (some f)
  index : ∀ p, (w.pageIndex.lookup p).map (fs[·]?) =
    (if p = 0 then none else latest fs p).map fun d => some (p, d)

section
variable {w : Wal} {log log' : Bytes} {fs : List (Nat × Bytes)}

theorem Indexes.readPage (h : w.Indexes log fs) (p : Nat) :
    w.readPage log p = .ok (if p = 0 then none else latest fs p) := by
  have hi := h.index p
  cases hl : w.pageIndex.lookup p with
  | none =>
    rw [hl, Option.map_none, eq_comm, Option.map_eq_none_iff] at hi
    rw [hi, Wal.readPage, hl]
  | some i =>
    rw [hl, Option.map_some] at hi
    obtain ⟨d, hd, hf⟩ := Option.map_eq_some_iff.mp hi.symm
    rw [readPage_frame hl (h.frame i (p, d) hf.symm), hd]

theorem Indexes.nil (hc : w.frameCount = 0) (hi : w.pageIndex = ∅) : w.Indexes log [] where
  count := hc
  frame := fun i f hf => by cases hf
  index := fun p => by
    rw [hi, AList.lookup_empty, latest_nil]
    split <;> rfl

/-- One more frame. -/
theorem Indexes.snoc (h : w.Indexes log fs) {f : Nat × Bytes}
    (hf : w.frameAt log fs.length = .ok (some f)) :
    Indexes { w with
      pageIndex := if f.1 > 0 then w.pageIndex.insert f.1 fs.length else w.pageIndex
      frameCount := fs.length + 1 } log (fs ++ [f]) := by
  have hold : ∀ p, (w.pageIndex.lookup p).map ((fs ++ [f])[·]?) =
      (w.pageIndex.lookup p).map (fs[·]?) := fun p => by
    refine Option.map_congr fun i hi => ?_
    have hidx := h.index p
    rw [hi, Option.map_some] at hidx
    obtain ⟨d, -, hd⟩ := Option.map_eq_some_iff.mp hidx.symm
    exact List.getElem?_append_left (List.getElem?_eq_some_iff.mp hd.symm).1
  refine ⟨by rw [List.length_append]; rfl, fun i g hg => ?_, fun p => ?_⟩
  · change w.frameAt log i = _
    rw [List.getElem?_append] at hg
    split at hg
    · exact h.frame i g hg
    · rw [List.getElem?_singleton] at hg
      split at hg
      · cases hg
        rwa [show i = fs.length by omega]
      · cases hg
  · simp only
    rw [latest_snoc]
    by_cases hp : p = f.1
    · subst hp
      by_cases h0 : f.1 > 0
      · rw [if_pos h0, AList.lookup_insert, if_neg (by omega), if_pos rfl, Option.map_some,
          List.getElem?_concat_length]
        rfl
      · rw [if_neg h0, hold, h.index, if_pos (by omega), if_pos (by omega)]
    · have hl : (if f.1 > 0 then w.pageIndex.insert f.1 fs.length else w.pageIndex).lookup p =
          w.pageIndex.lookup p := by
        split
        · exact AList.lookup_insert_ne hp
        · rfl
      rw [hl, hold, h.index, if_neg hp]

/-- Handles over the same log that differ in what they index. -/
def SameLog (w w' : Wal) : Prop :=
  w'.header = w.header ∧ w'.pageSize = w.pageSize ∧ w'.isLe = w.isLe

theorem SameLog.frameAt {w' : Wal} (h : w.SameLog w') (i : Nat) : w'.frameAt log i = w.frameAt log i := by
  obtain ⟨h1, h2, h3⟩ := h
  unfold Wal.frameAt Wal.frameOffset
  rw [h1, h2, h3]

theorem SameLog.scan {w' : Wal} (h : w.SameLog w') : ∀ n i, w'.scan log n i = w.scan log n i
  | 0, _ => rfl
  | n + 1, i => by
    unfold Wal.scan
    rw [h.frameAt]
    split
    · rw [h.scan n (i + 1)]
    · rfl

/-- The rebuild loop takes the frames of the scan. -/
theorem rebuildFrom_scan : ∀ (n : Nat) {w : Wal} {fs : List (Nat × Bytes)}, w.Indexes log fs →
    w.frameOffset (fs.length + n) ≤ log.length →
    ∃ index count, rebuildFrom log n fs.length w =
        .ok { w with pageIndex := index, frameCount := count } ∧
      Indexes { w with pageIndex := index, frameCount := count } log (fs ++ w.scan log n fs.length)
  | 0, w, fs, h, _ => ⟨w.pageIndex, w.frameCount, rfl, by rw [scan, List.append_nil]; exact h⟩
  | n + 1, w, fs, h, hin => by
    have hmono : w.frameOffset (fs.length + 1) ≤ w.frameOffset (fs.length + (n + 1)) := by
      rcases Nat.eq_zero_or_pos n with rfl | hn
      · exact Nat.le_refl _
      · have := w.frameOffset_mono (show fs.length + 1 < fs.length + (n + 1) by omega)
        omega
    obtain ⟨o, ho⟩ := frameAt_ok (Nat.le_trans hmono hin)
    cases o with
    | none =>
      rw [rebuildFrom_none n ho, scan, ho]
      exact ⟨w.pageIndex, w.frameCount, rfl, by rw [List.append_nil]; exact h⟩
    | some f =>
      rw [rebuildFrom_some n ho, scan, ho]
      have hs := h.snoc ho
      have hlen : (fs ++ [f]).length = fs.length + 1 := by rw [List.length_append]; rfl
      obtain ⟨index, count, h1, h2⟩ := rebuildFrom_scan n hs (by
        rw [hlen, Nat.add_assoc, Nat.add_comm 1 n]
        exact hin)
      rw [hlen] at h1 h2
      refine ⟨index, count, h1, ?_⟩
      have hsame : w.SameLog { w with
          pageIndex := if f.1 > 0 then w.pageIndex.insert f.1 fs.length else w.pageIndex
          frameCount := fs.length + 1 } := ⟨rfl, rfl, rfl⟩
      rw [List.append_assoc, hsame.scan] at h2
      exact h2

theorem frames_le (h32 : 32 ≤ log.length) : w.frameOffset (frames w.pageSize log.length) ≤ log.length := by
  have hmod := Nat.mod_le ((log.length - 32) / (24 + w.pageSize)) (2 ^ 32)
  have hdiv := Nat.div_mul_le_self (log.length - 32) (24 + w.pageSize)
  have hmul := Nat.mul_le_mul_right (24 + w.pageSize) hmod
  simp only [frameOffset, WAL_HEADER_SIZE, WAL_FRAME_HEADER_SIZE, frames]
  omega

/-- The header of a log file and the handle agree. -/
def HeaderAt (w : Wal) (log : Bytes) : Prop :=
  ∃ hdrBuf, readExactAt log 0 WAL_HEADER_SIZE = .ok hdrBuf ∧
    WalHeader.decode hdrBuf = .ok w.header ∧ w.header.pageSize = w.pageSize ∧
    w.isLe = (w.header.magic == WAL_MAGIC_LE)

theorem HeaderAt.length_le (h : w.HeaderAt log) : 32 ≤ log.length := by
  obtain ⟨hdrBuf, h1, -⟩ := h
  obtain ⟨hl, hat⟩ := readExactAt_eq_ok.mp h1
  have := hat.le (List.length_pos_iff.mp (by rw [hl]; decide))
  rw [hl] at this
  simpa [WAL_HEADER_SIZE] using this

theorem HeaderAt.openLog (h : w.HeaderAt log) : ∃ w', Wal.openLog log w.pageSize = .ok w' ∧
    w.SameLog w' ∧ w'.HeaderAt log ∧ w'.Indexes log (w.recovered log) := by
  obtain ⟨hdrBuf, h1, h2, h3, h4⟩ := h
  have hfresh : w.SameLog (fresh w.header w.pageSize) := ⟨rfl, rfl, h4.symm⟩
  obtain ⟨index, count, hr, hi⟩ := rebuildFrom_scan (frames w.pageSize log.length)
    (Indexes.nil rfl rfl : (fresh w.header w.pageSize).Indexes log []) (by
      rw [List.length_nil, Nat.zero_add]
      exact frames_le (HeaderAt.length_le ⟨hdrBuf, h1, h2, h3, h4⟩))
  rw [List.nil_append, List.length_nil, hfresh.scan] at hi
  exact ⟨_, openLog_eq_ok.mpr ⟨hdrBuf, w.header, h1, h2, h3, hr⟩, hfresh,
    ⟨hdrBuf, h1, h2, h3, rfl⟩, hi⟩

/-- An opened log reads the last frame of each page among those it recovered. -/
theorem openLog_spec {ps : Nat} (h : Wal.openLog log ps = .ok w) :
    w.pageSize = ps ∧ w.HeaderAt log ∧ w.Indexes log (w.recovered log) := by
  obtain ⟨hdrBuf, header, h1, h2, h3, hr⟩ := openLog_eq_ok.mp h
  have hat : (fresh header ps).HeaderAt log := ⟨hdrBuf, h1, h2, h3, rfl⟩
  obtain ⟨w', hopen, hsame, hat', hi⟩ := hat.openLog
  cases h.symm.trans hopen
  refine ⟨hsame.2.1, hat', ?_⟩
  have hrec : w.recovered log = (fresh header ps).recovered log := by
    rw [recovered, recovered, hsame.scan, hsame.2.1]
  rw [hrec]
  exact hi

/-! ## Appends -/

theorem scan_add (w : Wal) (log : Bytes) (m : Nat) : ∀ (fs : List (Nat × Bytes)) (i : Nat),
    (∀ j f, fs[j]? = some f → w.frameAt log (i + j) = .ok (some f)) →
    w.scan log (fs.length + m) i = fs ++ w.scan log m (i + fs.length)
  | [], i, _ => by rw [List.length_nil, Nat.zero_add, List.nil_append, Nat.add_zero]
  | f :: fs, i, h => by
    have h0 := h 0 f rfl
    rw [Nat.add_zero] at h0
    have ih := scan_add w log m fs (i + 1) fun j g hg => by
      have := h (j + 1) g hg
      rwa [← Nat.add_assoc, Nat.add_right_comm] at this
    rw [List.length_cons, Nat.add_right_comm, scan, h0, ih, List.cons_append, Nat.add_assoc,
      Nat.add_comm 1 fs.length]

theorem scan_length_le (w : Wal) (log : Bytes) : ∀ n i, (w.scan log n i).length ≤ n
  | 0, _ => Nat.le_refl 0
  | n + 1, i => by
    unfold scan
    split
    · exact Nat.succ_le_succ (scan_length_le w log n (i + 1))
    · exact Nat.zero_le _

theorem scan_ext (w : Wal) : ∀ n i, (∀ j, i ≤ j → j < i + n → w.frameAt log' j = w.frameAt log j) →
    w.scan log' n i = w.scan log n i
  | 0, _, _ => rfl
  | n + 1, i, h => by
    unfold scan
    rw [h i (Nat.le_refl i) (by omega), scan_ext w n (i + 1) fun j h1 h2 => h j (by omega) (by omega)]

section
variable {data : Bytes}

theorem logWith_length (pgno dbSize : Nat) (hd : data.length = w.pageSize) (hin : w.frameOffset w.frameCount ≤ log.length) :
    (w.logWith log pgno data dbSize).length =
      max log.length (w.frameOffset (w.frameCount + 1)) := by
  rw [logWith, fileWrite_length, fileWrite_length, WalFrameHeader.encode_length, hd,
    w.frameOffset_succ]
  omega

theorem logWith_getElem? {pgno dbSize : Nat} (hd : data.length = w.pageSize)
    (hin : w.frameOffset w.frameCount ≤ log.length) {i : Nat}
    (h : i < w.frameOffset w.frameCount ∨ w.frameOffset (w.frameCount + 1) ≤ i) :
    (w.logWith log pgno data dbSize)[i]? = log[i]? := by
  rw [w.frameOffset_succ] at h
  have hl := fileWrite_length log (w.frameOffset w.frameCount) (w.frameHeader pgno data dbSize).encode
  rw [WalFrameHeader.encode_length] at hl
  rw [logWith, fileWrite_getElem? (by omega),
    fileWrite_getElem? (by rw [WalFrameHeader.encode_length]; omega)]

theorem frameAt_logWith {pgno dbSize : Nat} (hs : w.header.salt1 < 2 ^ 32 ∧ w.header.salt2 < 2 ^ 32)
    (hd : data.length = w.pageSize) (hp : pgno < 2 ^ 32) (hn : dbSize < 2 ^ 32) :
    w.frameAt (w.logWith log pgno data dbSize) w.frameCount = .ok (some (pgno, data)) := by
  have hval := frameHeader_valid data hs.1 hs.2 hp hn
  have hver := w.frameHeader_verify pgno dbSize data
  have hs1 : (w.frameHeader pgno data dbSize).salt1 = w.header.salt1 := rfl
  have hs2 : (w.frameHeader pgno data dbSize).salt2 = w.header.salt2 := rfl
  have hpg : (w.frameHeader pgno data dbSize).pgno = pgno := rfl
  have h1 : readExactAt (w.logWith log pgno data dbSize) (w.frameOffset w.frameCount) 24 =
      .ok (w.frameHeader pgno data dbSize).encode :=
    readExactAt_eq_ok.mpr ⟨WalFrameHeader.encode_length _,
      fileWrite_at_frame (by simp) (fileWrite_at_self _ _ _)⟩
  have h2 : readExactAt (w.logWith log pgno data dbSize) (w.frameOffset w.frameCount + 24)
      w.pageSize = .ok data := readExactAt_eq_ok.mpr ⟨hd, fileWrite_at_self _ _ _⟩
  rw [frameAt, WAL_FRAME_HEADER_SIZE, h1, Res.ok_bind, WalFrameHeader.decode_encode hval,
    Res.ok_bind, if_neg (by simp [hs1, hs2]), h2, Res.ok_bind, if_neg (by simp [hver]), hpg]
  rfl

end

theorem HeaderAt.salts_lt (h : w.HeaderAt log) : w.header.salt1 < 2 ^ 32 ∧ w.header.salt2 < 2 ^ 32 := by
  obtain ⟨_, -, hd, -⟩ := h
  exact WalHeader.decode_salts_lt hd

theorem HeaderAt.ext (h : w.HeaderAt log) (hext : ∀ i < 32, log'[i]? = log[i]?) : w.HeaderAt log' := by
  obtain ⟨hdrBuf, h1, h2⟩ := h
  exact ⟨hdrBuf, (readExactAt_ext fun i _ hi => hext i (by simpa [WAL_HEADER_SIZE] using hi)).trans h1, h2⟩

end

end Wal

/-- A call of `append_frame`. -/
structure Append where
  pgno : Nat
  data : Bytes
  dbSize : Nat
  deriving DecidableEq, Repr

/-- The frame of a call. -/
def Append.frame (a : Append) : Nat × Bytes := (a.pgno, a.data)

/-- Page numbers and sizes are `u32`. -/
def Append.U32 (a : Append) : Prop := a.pgno < 2 ^ 32 ∧ a.dbSize < 2 ^ 32

instance (a : Append) : Decidable a.U32 := inferInstanceAs (Decidable (_ ∧ _))

namespace Pager

def appendFrames (fs : List Append) : PagerM Unit :=
  forEach (fun a => appendIfOpen a.pgno a.data a.dbSize) fs

/-- The handle and the log behind appends to frame `w.frameCount` and on. -/
structure Appended (w : Wal) (log : Bytes) (fs : List Append) (w' : Wal) (log' : Bytes) : Prop where
  same : w.SameLog w'
  count : w'.frameCount = w.frameCount + fs.length
  length : log'.length = max log.length (w.frameOffset (w.frameCount + fs.length))
  header : ∀ i < 32, log'[i]? = log[i]?
  new : ∀ i a, fs[i]? = some a → w.frameAt log' (w.frameCount + i) = .ok (some a.frame)
  old : ∀ i, i < w.frameCount ∨ w.frameCount + fs.length ≤ i → w.frameAt log' i = w.frameAt log i

/-- A write to the database file when no write fails. -/
theorem writeFileAt_ok {s : Pager} {buf : Bytes} (off : Nat) (hf : s.faults = []) (hne : buf ≠ []) :
    writeFileAt off buf s = .ok () { s with file := fileWrite s.file off buf } := by
  rcases s with ⟨_, _, _, _, _, _, _, _, _, _, _, _⟩
  simp only at hf
  subst hf
  rw [writeFileAt, if_neg hne]
  rfl

/-- A write to an existing log when no write fails. -/
theorem writeLogAt_ok {s : Pager} {log : Bytes} (off : Nat) (buf : Bytes) (hf : s.faults = [])
    (hlog : s.walFile = some log) (hle : buf = [] → off ≤ log.length) :
    writeLogAt off buf s = .ok () { s with walFile := some (fileWrite log off buf) } := by
  rcases s with ⟨_, _, _, _, _, _, _, _, _, _, _, _⟩
  simp only at hf hlog
  subst hf hlog
  by_cases hb : buf = []
  · subst hb
    have hsame : fileWrite log off [] = log := by
      rw [fileWrite, patch_nil, List.length_nil, Nat.add_zero, Nat.sub_eq_zero_of_le (hle rfl),
        List.replicate_zero, List.append_nil]
    rw [hsame]
    rfl
  · rw [writeLogAt, if_neg hb]
    rfl

/-- An append to an open log when no write fails. -/
theorem appendIfOpen_run {s : Pager} {w : Wal} {log : Bytes} {a : Append} (hf : s.faults = [])
    (hw : s.wal = some w) (hlog : s.walFile = some log) (hlen : a.data.length = w.pageSize) :
    appendIfOpen a.pgno a.data a.dbSize s =
      if w.frameCount + 1 < 2 ^ 32 then
        .ok () { s with wal := some (w.pushed a.pgno)
                        walFile := some (w.logWith log a.pgno a.data a.dbSize) }
      else .error .panic { s with walFile := some (w.logWith log a.pgno a.data a.dbSize) } := by
  have hne : (w.frameHeader a.pgno a.data a.dbSize).encode ≠ [] := fun h0 => by
    have := congrArg List.length h0
    rw [WalFrameHeader.encode_length] at this
    cases this
  rw [appendIfOpen, bind_ok (get_apply s), hw]
  simp only
  rw [appendFrame, if_neg (not_not.mpr hlen),
    bind_ok (writeLogAt_ok _ _ hf hlog fun h0 => absurd h0 hne),
    bind_ok (writeLogAt_ok (s := { s with walFile := some (fileWrite log (w.frameOffset w.frameCount)
          (w.frameHeader a.pgno a.data a.dbSize).encode) }) _ _ hf rfl fun _ => by
        rw [fileWrite_length, WalFrameHeader.encode_length, WAL_FRAME_HEADER_SIZE]
        omega)]
  by_cases hc : w.frameCount + 1 < 2 ^ 32
  · rw [if_pos hc, if_pos hc]
    rfl
  · rw [if_neg hc, if_neg hc, ← hw]
    rfl

theorem appendIfOpen_ok {s s' : Pager} {w : Wal} {log : Bytes} {a : Append} (hf : s.faults = [])
    (hw : s.wal = some w) (hlog : s.walFile = some log)
    (h : appendIfOpen a.pgno a.data a.dbSize s = .ok () s') :
    a.data.length = w.pageSize ∧ w.frameCount + 1 < 2 ^ 32 ∧
      s' = { s with wal := some (w.pushed a.pgno)
                    walFile := some (w.logWith log a.pgno a.data a.dbSize) } := by
  by_cases hlen : a.data.length = w.pageSize
  · rw [appendIfOpen_run hf hw hlog hlen] at h
    split at h
    · next hc =>
      cases h
      exact ⟨hlen, hc, rfl⟩
    · cases h
  · rw [appendIfOpen, bind_ok (get_apply s), hw] at h
    simp only at h
    rw [appendFrame, if_pos hlen] at h
    cases h

theorem appendFrames_ok : ∀ (fs : List Append) {s s' : Pager} {w : Wal} {log : Bytes},
    s.faults = [] → s.wal = some w → s.walFile = some log → w.HeaderAt log →
    w.frameOffset w.frameCount ≤ log.length → (∀ a ∈ fs, a.U32) →
    appendFrames fs s = .ok () s' →
    ∃ w' log', s' = { s with wal := some w', walFile := some log' } ∧
      Appended w log fs w' log' ∧ (w.frameCount < 2 ^ 32 → w'.frameCount < 2 ^ 32)
  | [], s, s', w, log, hf, hw, hlog, _, hin, _, h => by
    cases h
    refine ⟨w, log, ?_, ⟨⟨rfl, rfl, rfl⟩, rfl, (Nat.max_eq_left hin).symm, fun _ _ => rfl, ?_,
      fun _ _ => rfl⟩, id⟩
    · cases s
      simp only at hw hlog
      subst hw hlog
      rfl
    · intro i a ha; cases ha
  | a :: fs, s, s', w, log, hf, hw, hlog, hat, hin, hu, h => by
    obtain ⟨_, t, h1, h2⟩ := bind_eq_ok.mp h
    obtain ⟨hlen, hc, rfl⟩ := appendIfOpen_ok hf hw hlog h1
    obtain ⟨hp, hn⟩ := hu a List.mem_cons_self
    have hsame : w.SameLog (w.pushed a.pgno) := ⟨rfl, rfl, rfl⟩
    have hl1 := Wal.logWith_length a.pgno a.dbSize hlen hin
    have h32 := hat.length_le
    have hoff : 32 ≤ w.frameOffset w.frameCount := Nat.le_add_right _ _
    have hext : ∀ i < 32, (w.logWith log a.pgno a.data a.dbSize)[i]? = log[i]? := fun i hi =>
      Wal.logWith_getElem? hlen hin (.inl (by omega))
    obtain ⟨w', log', rfl, happ, hlt⟩ := appendFrames_ok fs
      (s := { s with wal := some (w.pushed a.pgno)
                     walFile := some (w.logWith log a.pgno a.data a.dbSize) }) hf rfl rfl
      (hat.ext hext) (by
        change w.frameOffset (w.frameCount + 1) ≤ _
        rw [hl1]; omega) (fun x hx => hu x (List.mem_cons_of_mem _ hx)) h2
    have hframe : ∀ l i, (w.pushed a.pgno).frameAt l i = w.frameAt l i := fun _ => hsame.frameAt
    have hcount : (w.pushed a.pgno).frameCount = w.frameCount + 1 := rfl
    have hold : ∀ i, i < w.frameCount ∨ w.frameCount + 1 ≤ i →
        w.frameAt (w.logWith log a.pgno a.data a.dbSize) i = w.frameAt log i := fun i hi => by
      refine Wal.frameAt_ext fun j h1 h2 => Wal.logWith_getElem? hlen hin ?_
      have hs := w.frameOffset_succ i
      rcases hi with hi | hi
      · have := w.frameOffset_mono hi
        exact .inl (by omega)
      · rcases Nat.eq_or_lt_of_le hi with rfl | hi
        · exact .inr h1
        · have := w.frameOffset_mono hi
          exact .inr (by omega)
    refine ⟨w', log', rfl, ⟨happ.same, ?_, ?_, ?_, ?_, ?_⟩, fun _ => hlt (by rw [hcount]; exact hc)⟩
    · rw [happ.count, hcount, List.length_cons]; omega
    · have hoff' : (w.pushed a.pgno).frameOffset = w.frameOffset := rfl
      rw [happ.length, hl1, hoff', hcount, List.length_cons]
      have hle : w.frameOffset (w.frameCount + 1) ≤ w.frameOffset (w.frameCount + 1 + fs.length) :=
        Nat.add_le_add_left (Nat.mul_le_mul_right _ (Nat.le_add_right _ _)) _
      rw [Nat.add_right_comm, Nat.add_assoc w.frameCount fs.length 1] at hle
      rw [show w.frameCount + 1 + fs.length = w.frameCount + (fs.length + 1) by omega]
      omega
    · exact fun i hi => (happ.header i hi).trans (hext i hi)
    · intro i b hb
      rcases i with _ | i
      · cases hb
        rw [← hframe, happ.old _ (.inl (by rw [hcount]; omega)), hframe]
        exact Wal.frameAt_logWith hat.salts_lt hlen hp hn
      · have := happ.new i b hb
        rw [hframe, hcount] at this
        rwa [show w.frameCount + (i + 1) = w.frameCount + 1 + i by omega]
    · intro i hi
      rw [List.length_cons] at hi
      rw [← hframe, happ.old _ (by rw [hcount]; omega), hframe]
      exact hold i (by omega)

end Pager

end Sqllite
