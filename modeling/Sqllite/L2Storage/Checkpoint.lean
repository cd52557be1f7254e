import Sqllite.L2Storage.Commit
import Sqllite.L2Storage.WalScan

/-!
# Checkpoints

`checkpoint` copies the last frame of each page to its place in the database
file, in the order of the page index, and starts the log afresh. The places are
computed with the log's page size, reads of the file use the pager's.

* `Pager.checkpoint_ok`: what a checkpoint does to the file and the log.
* `Pager.walCheckpoint_iff`: when every page reads the same before and after.
-/
namespace Sqllite
open Lib Lib.Run Lib.Span

/-! ## Headers -/

namespace WalHeader

/-- Field values that are `u32`. -/
structure Valid (h : WalHeader) : Prop where
  magic : h.magic < 2 ^ 32
  version : h.version < 2 ^ 32
  pageSize : h.pageSize < 2 ^ 32
  checkpointSeq : h.checkpointSeq < 2 ^ 32
  salt1 : h.salt1 < 2 ^ 32
  salt2 : h.salt2 < 2 ^ 32
  checksum1 : h.checksum1 < 2 ^ 32
  checksum2 : h.checksum2 < 2 ^ 32

/-- A header that `decode` takes. -/
def Accepted (h : WalHeader) : Prop :=
  (h.magic = WAL_MAGIC ∨ h.magic = WAL_MAGIC_LE) ∧ h.version = WAL_FORMAT_VERSION ∧
    h.verifyChecksum = true

@[simp] theorem encode_length (h : WalHeader) : h.encode.length = 32 := by
  simp [encode]

theorem decode_encode {h : WalHeader} (hv : h.Valid) (ha : h.Accepted) : decode h.encode = .ok h := by
  have hat : At h.encode 0 h.encode := At.of_take (by rw [List.drop_zero, List.take_length])
  have hat' := hat
  simp only [encode, At.append, be32_length, Nat.zero_add, Nat.reduceAdd] at hat'
  obtain ⟨h0, h4, h8, h12, h16, h20, h24, h28⟩ := hat'
  obtain ⟨hm, hver, hc⟩ := ha
  rw [decode, if_neg (by simp [WAL_HEADER_SIZE])]
  rw [← encode] at h0 h4 h8 h12 h16 h20 h24 h28
  simp only [readU32Be_at h0 hv.magic, readU32Be_at h4 hv.version, readU32Be_at h8 hv.pageSize,
    readU32Be_at h12 hv.checkpointSeq, readU32Be_at h16 hv.salt1, readU32Be_at h20 hv.salt2,
    readU32Be_at h24 hv.checksum1, readU32Be_at h28 hv.checksum2, Res.ok_bind]
  rw [if_neg (by rintro ⟨h1, h2⟩; exact hm.elim h1 h2), if_neg (not_not.mpr hver),
    if_neg (by simp [hc])]
  rfl

theorem decode_ok {d : Bytes} {h : WalHeader} (hd : decode d = .ok h) : h.Valid ∧ h.Accepted := by
  unfold decode at hd
  split at hd
  · cases hd
  · obtain ⟨_, e0, hd⟩ := Res.bind_eq_ok.mp hd
    obtain ⟨_, e4, hd⟩ := Res.bind_eq_ok.mp hd
    obtain ⟨_, e8, hd⟩ := Res.bind_eq_ok.mp hd
    obtain ⟨_, e12, hd⟩ := Res.bind_eq_ok.mp hd
    obtain ⟨_, e16, hd⟩ := Res.bind_eq_ok.mp hd
    obtain ⟨_, e20, hd⟩ := Res.bind_eq_ok.mp hd
    obtain ⟨_, e24, hd⟩ := Res.bind_eq_ok.mp hd
    obtain ⟨_, e28, hd⟩ := Res.bind_eq_ok.mp hd
    dsimp only at hd
    split at hd; · cases hd
    next hm =>
    split at hd; · cases hd
    next hver =>
    split at hd; · cases hd
    next hc =>
    cases hd
    exact ⟨⟨readU32Be_lt e0, readU32Be_lt e4, readU32Be_lt e8, readU32Be_lt e12, readU32Be_lt e16,
      readU32Be_lt e20, readU32Be_lt e24, readU32Be_lt e28⟩,
      by by_contra h; rw [not_or] at h; exact hm h, not_not.mp hver, by simpa using hc⟩

theorem updateChecksum_accepted {h : WalHeader} (hm : h.magic = WAL_MAGIC ∨ h.magic = WAL_MAGIC_LE)
    (hv : h.version = WAL_FORMAT_VERSION) : h.updateChecksum.Accepted :=
  ⟨hm, hv, by simp [updateChecksum, verifyChecksum, headerWords]⟩

theorem new_ok {ps salt1 salt2 : Nat} (hps : ps < 2 ^ 32) (h1 : salt1 < 2 ^ 32)
    (h2 : salt2 < 2 ^ 32) : (new ps salt1 salt2).Valid ∧ (new ps salt1 salt2).Accepted := by
  have hm : WAL_MAGIC < 2 ^ 32 := by decide
  have hv : WAL_FORMAT_VERSION < 2 ^ 32 := by decide
  have h0 : 0 < 2 ^ 32 := by decide
  exact ⟨⟨hm, hv, hps, h0, h1, h2, (walChecksum_lt _ _ _).1, (walChecksum_lt _ _ _).2⟩,
    updateChecksum_accepted (.inl rfl) rfl⟩

end WalHeader

namespace Pager

theorem nextHeader_ok {h : WalHeader} (hv : h.Valid) (ha : h.Accepted) :
    (nextHeader h).Valid ∧ (nextHeader h).Accepted := by
  refine ⟨⟨hv.magic, hv.version, hv.pageSize, Nat.mod_lt _ (by decide), Nat.mod_lt _ (by decide),
    Nat.mod_lt _ (by decide), ?_, ?_⟩, WalHeader.updateChecksum_accepted ha.1 ha.2.1⟩
  · exact (walChecksum_lt _ _ _).1
  · exact (walChecksum_lt _ _ _).2

/-! ## The copies -/

/-- Byte `j` of a file stands in the place of page `p`. -/
def InPlace (ps p j : Nat) : Prop := (p - 1) * ps ≤ j ∧ j < (p - 1) * ps + ps

theorem InPlace.unique {ps p q j : Nat} (hp : InPlace ps p j) (hq : InPlace ps q j) (h1 : p ≠ 0)
    (h2 : q ≠ 0) : p = q := by
  by_contra hne
  obtain ⟨hp1, hp2⟩ := hp
  obtain ⟨hq1, hq2⟩ := hq
  have := page_apart ps (Nat.one_le_iff_ne_zero.mpr h1) (Nat.one_le_iff_ne_zero.mpr h2) hne
  omega

/-- The image of a frame. -/
def frameImage (w : Wal) (log : Bytes) (i : Nat) : Result Bytes :=
  readExactAt log (w.frameOffset i + WAL_FRAME_HEADER_SIZE) w.pageSize

theorem frameImage_length {w : Wal} {log d : Bytes} {i : Nat} (h : frameImage w log i = .ok d) :
    d.length = w.pageSize := (readExactAt_eq_ok.mp h).1

/-- File `f'` is `f` with the frames of these entries in the places of their pages. -/
structure Copied (w : Wal) (log : Bytes) (es : List (Sigma fun _ : Nat => Nat)) (f f' : Bytes) :
    Prop where
  here : ∀ e ∈ es, e.1 ≠ 0 ∧ ∃ d, frameImage w log e.2 = .ok d ∧ At f' ((e.1 - 1) * w.pageSize) d
  there : ∀ j < f.length, (∀ e ∈ es, ¬ InPlace w.pageSize e.1 j) → f'[j]? = f[j]?
  grows : f.length ≤ f'.length

theorem copyFrame_ok {s s' : Pager} {w : Wal} {p i : Nat} (h : copyFrame w p i s = .ok () s') :
    p ≠ 0 ∧ ∃ d, frameImage w (s.walFile.getD []) i = .ok d ∧
      s' = { s with faults := s'.faults, file := fileWrite s.file ((p - 1) * w.pageSize) d } := by
  rw [copyFrame, bind_ok (get_apply s)] at h
  cases hd : frameImage w (s.walFile.getD []) i with
  | error e =>
    unfold frameImage at hd
    rw [hd] at h
    cases h
  | ok d =>
    have hlen := frameImage_length hd
    unfold frameImage at hd
    rw [hd, bind_ok (lift_ok _ _)] at h
    by_cases hp : p = 0
    · rw [if_pos hp] at h
      cases h
    · rw [if_neg hp] at h
      refine ⟨hp, d, rfl, ?_⟩
      by_cases hne : d = []
      · subst hne
        cases h
        have h0 : w.pageSize = 0 := hlen.symm
        have hsame : fileWrite s.file ((p - 1) * w.pageSize) [] = s.file := by
          rw [h0, Nat.mul_zero, fileWrite, patch_nil, List.length_nil, Nat.add_zero, Nat.zero_sub,
            List.replicate_zero, List.append_nil]
        rw [hsame]
      · rw [writeFileAt_eq hne] at h
        cases hf : s.faults[0]?.join with
        | none => rw [hf] at h; cases h; rfl
        | some e => rw [hf] at h; cases h

theorem copies_ok {w : Wal} {log : Bytes} : ∀ {es : List (Sigma fun _ : Nat => Nat)} {s s' : Pager},
    s.walFile.getD [] = log → es.NodupKeys →
    forEach (fun e => copyFrame w e.1 e.2) es s = .ok () s' →
    s' = { s with faults := s'.faults, file := s'.file } ∧ Copied w log es s.file s'.file
  | [], s, s', _, _, h => by
    cases h
    exact ⟨rfl, ⟨fun e he => (by cases he), fun _ _ _ => rfl, Nat.le_refl _⟩⟩
  | e :: es, s, s', hlog, hnd, h => by
    obtain ⟨hnot, hnd⟩ := List.nodupKeys_cons.mp hnd
    obtain ⟨_, t, h1, h2⟩ := bind_eq_ok.mp h
    obtain ⟨hp, d, hd, ht⟩ := copyFrame_ok h1
    rw [hlog] at hd
    have hlen := frameImage_length hd
    have htlog : t.walFile.getD [] = log := by rw [ht]; exact hlog
    have htfile : t.file = fileWrite s.file ((e.1 - 1) * w.pageSize) d := by rw [ht]
    obtain ⟨hs', hc⟩ := copies_ok htlog hnd h2
    have hgrow := fileWrite_length s.file ((e.1 - 1) * w.pageSize) d
    refine ⟨?_, ⟨fun x hx => ?_, fun j hj hout => ?_, ?_⟩⟩
    · rw [ht] at hs'
      exact hs'
    · rcases List.mem_cons.mp hx with rfl | hx
      · refine ⟨hp, d, hd, fun i hi => ?_⟩
        -- the later copies go to the places of other pages
        rw [hc.there _ (by rw [htfile, hgrow]; omega) fun y hy hin => ?_, htfile]
        · exact fileWrite_at_self _ _ _ i hi
        · have heq := hin.unique ⟨Nat.le_add_right _ _, by omega⟩ (hc.here y hy).1 hp
          exact hnot (heq ▸ List.mem_keys_of_mem hy)
      · exact hc.here x hx
    · rw [hc.there j (by rw [htfile, hgrow]; omega) fun y hy => hout y (List.mem_cons_of_mem _ hy),
        htfile]
      have hout' := hout e List.mem_cons_self
      rw [InPlace] at hout'
      exact fileWrite_getElem? (by omega)
    · have := hc.grows
      rw [htfile, hgrow] at this
      omega

/-- What a checkpoint leaves of the log. -/
def emptied (w : Wal) : Wal :=
  { w with header := nextHeader w.header, frameCount := 0, pageIndex := ∅ }

theorem checkpoint_ok {s s' : Pager} {w : Wal} (h : checkpoint w s = .ok () s') :
    s' = { s with
      faults := s'.faults, file := s'.file, wal := some (emptied w)
      walFile := some (nextHeader w.header).encode } ∧
    Copied w (s.walFile.getD []) w.pageIndex.entries s.file s'.file := by
  obtain ⟨_, t, h1, h2⟩ := bind_eq_ok.mp h
  obtain ⟨ht, hc⟩ := copies_ok rfl w.pageIndex.nodupKeys h1
  have hne : (nextHeader w.header).encode ≠ [] := fun h0 => by
    have := congrArg List.length h0
    rw [WalHeader.encode_length] at this
    cases this
  have htake : ∀ log, (fileWrite log 0 (nextHeader w.header).encode).take WAL_HEADER_SIZE =
      (nextHeader w.header).encode := fun log => by
    have := (fileWrite_at_self log 0 (nextHeader w.header).encode).take
    rwa [List.drop_zero, WalHeader.encode_length] at this
  rw [bind_ok (modify_apply _ _), bind_apply, writeLogAt_eq hne] at h2
  cases hf : t.faults[0]?.join with
  | some e =>
    simp only [hf] at h2
    cases h2
  | none =>
    simp only [hf] at h2
    cases h2
    refine ⟨?_, hc⟩
    rw [ht]
    simp only [Option.map_some, htake]
    rfl

/-! ## Pages before and after -/

/-- `get_page` with an empty cache. -/
def readUncached (s : Pager) (p : Nat) : Option Bytes := observe (getPage p) { s with cache := ∅ }

theorem readUncached_eq {s : Pager} (h : s.WalReady) (p : Nat) :
    s.readUncached p = (s.stored p).toOption :=
  observe_getPage (s := { s with cache := ∅ }) h rfl p

theorem readUncached_iff {s : Pager} (h : s.WalReady) {p : Nat} {d : Bytes} :
    s.readUncached p = some d ↔ 1 ≤ p ∧ p ≤ s.pageCount ∧ s.readBack p = .ok d := by
  rw [readUncached_eq h, stored_eq_ok]

/-- No page of the database is read from the log, and no frame of it changes a
byte of one when it is copied. -/
def KeepsPages (s : Pager) (w : Wal) : Prop :=
  ∀ p d, s.readUncached p = some d → w.pageIndex.lookup p = none ∧
    ∀ q i image, w.pageIndex.lookup q = some i → frameImage w (s.walFile.getD []) i = .ok image →
      ∀ j, InPlace s.pageSize p j → InPlace w.pageSize q j →
        image[j - (q - 1) * w.pageSize]? = d[j - (p - 1) * s.pageSize]?

theorem readPage_image {w : Wal} {log d : Bytes} {p : Nat} (h : w.readPage log p = .ok (some d)) :
    ∃ i, w.pageIndex.lookup p = some i ∧ frameImage w log i = .ok d := by
  unfold Wal.readPage at h
  split at h
  · cases h
  · next i hi =>
    obtain ⟨_, -, h⟩ := Res.bind_eq_ok.mp h
    obtain ⟨_, -, h⟩ := Res.bind_eq_ok.mp h
    obtain ⟨image, himage, h⟩ := Res.bind_eq_ok.mp h
    split at h
    · cases h
    · cases h
      exact ⟨i, hi, himage⟩

theorem readPage_none {w : Wal} {log : Bytes} {p : Nat} (h : w.readPage log p = .ok none) :
    w.pageIndex.lookup p = none := by
  unfold Wal.readPage at h
  split at h
  · assumption
  · obtain ⟨_, -, h⟩ := Res.bind_eq_ok.mp h
    obtain ⟨_, -, h⟩ := Res.bind_eq_ok.mp h
    obtain ⟨_, -, h⟩ := Res.bind_eq_ok.mp h
    split at h <;> cases h

/-- A page of a pager in WAL mode comes from the log or from the file. -/
theorem readBack_wal {s : Pager} {w : Wal} (hm : s.journalMode = .wal) (hw : s.wal = some w)
    {p : Nat} {d : Bytes} : s.readBack p = .ok d ↔
      w.readPage (s.walFile.getD []) p = .ok (some d) ∨
      w.readPage (s.walFile.getD []) p = .ok none ∧ d.length = s.pageSize ∧
        At s.file ((p - 1) * s.pageSize) d := by
  have hl : s.logged p = w.readPage (s.walFile.getD []) p := by rw [logged, hm, hw]
  rw [readBack, hl, Res.bind_eq_ok]
  constructor
  · rintro ⟨o, ho, h⟩
    cases o with
    | none => exact .inr ⟨ho, readExactAt_eq_ok.mp h⟩
    | some d' =>
      cases h
      exact .inl ho
  · rintro (h | ⟨h, h'⟩)
    · exact ⟨_, h, rfl⟩
    · exact ⟨_, h, readExactAt_eq_ok.mpr h'⟩

/-- What a checkpoint that returns does: the file gets the image the log has of
each page and keeps every other byte, the log is left empty, and every page
reads as before exactly when the log has the page size of the pager, or no page
of the database is in it or changed by it. -/
theorem walCheckpoint_iff {s s' : Pager} {w : Wal} (hm : s.journalMode = .wal) (hw : s.wal = some w)
    (hok : walCheckpoint s = .ok () s') :
    (∀ p d, w.readPage (s.walFile.getD []) p = .ok (some d) →
      At s'.file ((p - 1) * w.pageSize) d) ∧
    (∀ j < s.file.length, (∀ p i, w.pageIndex.lookup p = some i → ¬ InPlace w.pageSize p j) →
      s'.file[j]? = s.file[j]?) ∧
    (∃ w', s'.wal = some w' ∧ w'.pageIndex = ∅ ∧ w'.frameCount = 0 ∧
      s'.walFile = some w'.header.encode) ∧
    ((∀ p d, s.readUncached p = some d → s'.readUncached p = some d) ↔
      w.pageSize = s.pageSize ∨ s.KeepsPages w) := by
  rw [walCheckpoint, bind_ok (get_apply s), if_neg (not_not.mpr hm), hw] at hok
  obtain ⟨hs', hc⟩ := checkpoint_ok hok
  obtain ⟨f', hf'⟩ : ∃ f', f' = s'.file := ⟨_, rfl⟩
  rw [← hf'] at hs' hc ⊢
  have hm' : s'.journalMode = .wal := by rw [hs']; exact hm
  have hw' : s'.wal = some (emptied w) := by rw [hs']
  have hps : s'.pageSize = s.pageSize := by rw [hs']
  have hpc : s'.pageCount = s.pageCount := by rw [hs']
  have hready : s.WalReady := fun _ => .inr (by rw [hw]; rfl)
  have hready' : s'.WalReady := fun _ => .inr (by rw [hw']; rfl)
  have hhere : ∀ q i image, w.pageIndex.lookup q = some i →
      frameImage w (s.walFile.getD []) i = .ok image → At f' ((q - 1) * w.pageSize) image :=
    fun q i image hq himage => by
      obtain ⟨-, d, hd, hat⟩ := hc.here ⟨q, i⟩ (Table.mem_entries_iff.mpr hq)
      cases hd.symm.trans himage
      exact hat
  have hthere : ∀ j < s.file.length,
      (∀ p i, w.pageIndex.lookup p = some i → ¬ InPlace w.pageSize p j) → f'[j]? = s.file[j]? :=
    fun j hj hout => hc.there j hj fun e he => hout e.1 e.2 (Table.mem_entries_iff.mp he)
  -- behind the checkpoint every page is read from the file
  have hback : ∀ p d, s'.readBack p = .ok d ↔
      d.length = s.pageSize ∧ At f' ((p - 1) * s.pageSize) d := fun p d => by
    have hnone : (emptied w).readPage (s'.walFile.getD []) p = .ok none := by
      rw [Wal.readPage, emptied, AList.lookup_empty]
    rw [readBack_wal hm' hw', hnone, hps, ← hf']
    simp
  have hkeep : ∀ p d, s.readUncached p = some d → w.readPage (s.walFile.getD []) p = .ok none →
      (∀ q i image, w.pageIndex.lookup q = some i → frameImage w (s.walFile.getD []) i = .ok image →
        ∀ j, InPlace s.pageSize p j → InPlace w.pageSize q j →
          image[j - (q - 1) * w.pageSize]? = d[j - (p - 1) * s.pageSize]?) →
      s'.readUncached p = some d := fun p d hd hn hsame => by
    obtain ⟨h1, h2, h3⟩ := (readUncached_iff hready).mp hd
    rcases (readBack_wal hm hw).mp h3 with h | ⟨-, hlen, hat⟩
    · cases hn.symm.trans h
    · refine (readUncached_iff hready').mpr ⟨h1, hpc ▸ h2, (hback p d).mpr ⟨hlen, fun k hk => ?_⟩⟩
      by_cases hin : ∃ q i, w.pageIndex.lookup q = some i ∧
          InPlace w.pageSize q ((p - 1) * s.pageSize + k)
      · obtain ⟨q, i, hq, hplace⟩ := hin
        obtain ⟨-, image, himage, hat'⟩ := hc.here ⟨q, i⟩ (Table.mem_entries_iff.mpr hq)
        have hil := frameImage_length himage
        have heq := hsame q i image hq himage _ ⟨Nat.le_add_right _ _, by omega⟩ hplace
        obtain ⟨hp1, hp2⟩ := hplace
        have hb := hat' ((p - 1) * s.pageSize + k - (q - 1) * w.pageSize) (by omega)
        rw [Nat.add_sub_cancel' hp1] at hb
        rw [hb, heq, Nat.add_sub_cancel_left]
      · have hin' : (p - 1) * s.pageSize + k < s.file.length := by
          have := hat k hk
          rw [List.getElem?_eq_getElem hk] at this
          exact (List.getElem?_eq_some_iff.mp this).1
        rw [hthere _ hin' fun q i hq hplace => hin ⟨q, i, hq, hplace⟩]
        exact hat k hk
  refine ⟨fun p d hd => ?_, hthere, ⟨emptied w, hw', rfl, rfl, by rw [hs']; rfl⟩, fun h => ?_, ?_⟩
  · obtain ⟨i, hi, himage⟩ := readPage_image hd
    exact hhere p i d hi himage
  · by_cases hsize : w.pageSize = s.pageSize
    · exact .inl hsize
    · refine .inr fun p d hd => ?_
      obtain ⟨-, -, h3⟩ := (readUncached_iff hready).mp hd
      obtain ⟨-, -, h3'⟩ := (readUncached_iff hready').mp (h p d hd)
      obtain ⟨hlen', hat'⟩ := (hback p d).mp h3'
      rcases (readBack_wal hm hw).mp h3 with hl | ⟨hn, -, -⟩
      · obtain ⟨i, -, himage⟩ := readPage_image hl
        exact absurd ((frameImage_length himage).symm.trans hlen') hsize
      · refine ⟨readPage_none hn, fun q i image hq himage j hp hplace => ?_⟩
        have hil := frameImage_length himage
        have hb := hhere q i image hq himage (j - (q - 1) * w.pageSize) (by
          obtain ⟨h1, h2⟩ := hplace; omega)
        have hb' := hat' (j - (p - 1) * s.pageSize) (by obtain ⟨h1, h2⟩ := hp; omega)
        rw [Nat.add_sub_cancel' hplace.1] at hb
        rw [Nat.add_sub_cancel' hp.1] at hb'
        exact hb.symm.trans hb'
  · rintro (hsize | hk) p d hd
    · obtain ⟨h1, h2, h3⟩ := (readUncached_iff hready).mp hd
      rcases (readBack_wal hm hw).mp h3 with hl | ⟨hn, -, -⟩
      · obtain ⟨i, hi, himage⟩ := readPage_image hl
        refine (readUncached_iff hready').mpr ⟨h1, hpc ▸ h2, (hback p d).mpr ⟨?_, ?_⟩⟩
        · rw [frameImage_length himage, hsize]
        · rw [← hsize]
          exact hhere p i d hi himage
      · refine hkeep p d hd hn fun q i image hq _ j hp hplace => ?_
        have hq0 := (hc.here ⟨q, i⟩ (Table.mem_entries_iff.mpr hq)).1
        rw [← hsize] at hp
        have heq := hp.unique hplace (by omega) hq0
        rw [← heq, readPage_none hn] at hq
        cases hq
    · obtain ⟨hnone, hsame⟩ := hk p d hd
      have hn : w.readPage (s.walFile.getD []) p = .ok none := by rw [Wal.readPage, hnone]
      exact hkeep p d hd hn hsame

/-! ### A log of another page size -/

/-- A new database whose page 1 is read before the mode and the page size are
set. The commit logs that page with the size it was read with. -/
def resize : PagerM Unit := do
  «open» {}
  let _ ← getPage ROOT_PAGE
  let _ ← setJournalMode .wal
  let _ ← setPageSize 1024
  begin
  commit

/-- The pager behind it. -/
def resized : Pager := post resize noFiles

/-- Its log. -/
def resizedWal : Wal := resized.wal.getD (Wal.fresh (WalHeader.new 0 0 0) 0)

theorem resize_ok : resize noFiles = .ok () resized := eq_ok_post (by decide +kernel)

theorem resized_mode : resized.journalMode = .wal := by decide +kernel

theorem resized_wal : resized.wal = some resizedWal := by
  have h : resized.wal.isSome = true := by decide +kernel
  obtain ⟨w, hw⟩ := Option.isSome_iff_exists.mp h
  rw [resizedWal, hw, Option.getD_some]

theorem resized_checkpoint : walCheckpoint resized = .ok () (post walCheckpoint resized) :=
  eq_ok_post (by decide +kernel)

theorem walCheckpoint_iff_resized :
    (∀ p d, resizedWal.readPage (resized.walFile.getD []) p = .ok (some d) →
      At (post walCheckpoint resized).file ((p - 1) * resizedWal.pageSize) d) ∧
    (∀ j < resized.file.length,
      (∀ p i, resizedWal.pageIndex.lookup p = some i → ¬ InPlace resizedWal.pageSize p j) →
      (post walCheckpoint resized).file[j]? = resized.file[j]?) ∧
    (∃ w', (post walCheckpoint resized).wal = some w' ∧ w'.pageIndex = ∅ ∧ w'.frameCount = 0 ∧
      (post walCheckpoint resized).walFile = some w'.header.encode) ∧
    ((∀ p d, resized.readUncached p = some d →
        (post walCheckpoint resized).readUncached p = some d) ↔
      resizedWal.pageSize = resized.pageSize ∨ resized.KeepsPages resizedWal) :=
  walCheckpoint_iff resized_mode resized_wal resized_checkpoint

/-- Page 1 is read from the log with 4096 bytes before the checkpoint and from
the file with 1024 bytes behind it. -/
theorem checkpoint_cuts_page : resize noFiles = .ok () resized ∧
    resized.journalMode = .wal ∧
    walCheckpoint resized = .ok () (post walCheckpoint resized) ∧
    (resized.readUncached ROOT_PAGE).map (·.length) = some 4096 ∧
    ((post walCheckpoint resized).readUncached ROOT_PAGE).map (·.length) = some 1024 ∧
    ¬ ∀ p d, resized.readUncached p = some d →
      (post walCheckpoint resized).readUncached p = some d := by
  have hbefore : (resized.readUncached ROOT_PAGE).map (·.length) = some 4096 := by decide +kernel
  have hbehind : ((post walCheckpoint resized).readUncached ROOT_PAGE).map (·.length) = some 1024 := by
    decide +kernel
  refine ⟨resize_ok, resized_mode, resized_checkpoint, hbefore, hbehind, fun h => ?_⟩
  obtain ⟨d, hd, hlen⟩ := Option.map_eq_some_iff.mp hbefore
  rw [h _ d hd, Option.map_some, hlen] at hbehind
  exact absurd hbehind (by decide)

example : fault walCheckpoint noFiles = none := by decide +kernel

end Pager

end Sqllite
