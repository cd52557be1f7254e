import Sqllite.L2Storage.WalScan

/-!
# One altered word of a log

A frame's checksum runs over the words of its header and of its page. Its first sum counts
the page number, the size and each word of the page once, so a change of one of them cannot
cancel. The salts are counted twice, so a change of a salt's top bit does cancel; they are
compared with those of the log's header.

* `Wal.openLog_altered`: with one word of a frame altered the log is opened up to the frame.
-/
namespace Sqllite
open Lib Lib.Run Lib.Span

/-! ## Words -/

/-- `d'` is `d` but for the four bytes at `off`. -/
structure WordAltered (d d' : Bytes) (off : Nat) : Prop where
  outside : Outside d d' off (off + 4)
  ne : d' ≠ d

section
variable {d d' log log' : Bytes} {off n k : Nat}

theorem sum_set {v : Nat} : ∀ {ws : List Nat} {k : Nat} (hk : k < ws.length),
    (ws.set k v).sum + ws[k] = ws.sum + v
  | w :: ws, 0, _ => by
    simp
    omega
  | w :: ws, k + 1, hk => by
    have ih := @sum_set v ws k (by simpa using hk)
    simp
    omega

theorem ofBE_word (x y z t : UInt8) : ofBE [x, y, z, t] < 2 ^ 32 := by
  have hlt := ofBE_lt [x, y, z, t]
  simpa using hlt

theorem ofBE_inj {a b : Bytes} (ha : a.length = 4) (hb : b.length = 4) (h : ofBE a = ofBE b) : a = b := by
  rw [← be32_ofBE ha, h, be32_ofBE hb]

/-- The words behind a changed byte are the words with one of them set. -/
theorem bytesToU32Be_altered : ∀ {k : Nat} {d d' : Bytes}, 4 * k + 4 ≤ d.length → WordAltered d d' (4 * k) →
    ∃ v, v < 2 ^ 32 ∧ bytesToU32Be d' = (bytesToU32Be d).set k v ∧
      ∃ hk : k < (bytesToU32Be d).length, (bytesToU32Be d)[k] < 2 ^ 32 ∧ v ≠ (bytesToU32Be d)[k] := by
  intro k d d' hlen h
  obtain ⟨x, y, z, t, rest, rfl⟩ : ∃ x y z t rest, d = x :: y :: z :: t :: rest := by
    match d, hlen with
    | x :: y :: z :: t :: rest, _ => exact ⟨x, y, z, t, rest, rfl⟩
  obtain ⟨x', y', z', t', rest', rfl⟩ : ∃ x y z t rest, d' = x :: y :: z :: t :: rest := by
    have hlen' := h.outside.1
    match d', hlen' with
    | x :: y :: z :: t :: rest, _ => exact ⟨x, y, z, t, rest, rfl⟩
  have hout := h.outside.2
  cases k with
  | zero =>
    have hrest : rest' = rest := by
      apply List.ext_getElem?
      intro i
      have hi := hout (i + 4) (.inr (by omega))
      simpa using hi
    subst hrest
    refine ⟨ofBE [x', y', z', t'], ofBE_word _ _ _ _, rfl, Nat.zero_lt_succ _, ofBE_word _ _ _ _, ?_⟩
    intro heq
    apply h.ne
    have hword := ofBE_inj rfl rfl heq
    simpa using hword
  | succ k =>
    have h0 := hout 0 (.inl (by omega))
    have h1 := hout 1 (.inl (by omega))
    have h2 := hout 2 (.inl (by omega))
    have h3 := hout 3 (.inl (by omega))
    simp only [List.getElem?_cons_zero, List.getElem?_cons_succ, Option.some.injEq] at h0 h1 h2 h3
    subst h0 h1 h2 h3
    have hrest : WordAltered rest rest' (4 * k) := by
      refine ⟨⟨by simpa using h.outside.1, fun i hi => ?_⟩, fun heq => h.ne (by rw [heq])⟩
      have hi' := hout (i + 4) (by omega)
      simpa using hi'
    obtain ⟨v, hv, hset, hk, hlt, hne⟩ := bytesToU32Be_altered (by simp at hlen; omega) hrest
    exact ⟨v, hv, by rw [bytesToU32Be, hset]; rfl, Nat.succ_lt_succ hk, hlt, hne⟩

/-- A read of a range with the altered word. -/
theorem readExactAt_altered (h : readExactAt log off n = .ok d) (hk : 4 * k + 4 ≤ n)
    (ha : WordAltered log log' (off + 4 * k)) :
    ∃ d', readExactAt log' off n = .ok d' ∧ d'.length = n ∧ WordAltered d d' (4 * k) := by
  obtain ⟨hlen, hat⟩ := readExactAt_eq_ok.mp h
  have hle := hat.le (List.length_pos_iff.mp (by omega))
  obtain ⟨hlen', hout⟩ := ha.outside
  have hl : ((log'.drop off).take n).length = n := by
    simp
    omega
  have hat' : At log' off ((log'.drop off).take n) := At.of_take (by rw [hl])
  generalize (log'.drop off).take n = d' at hl hat'
  refine ⟨d', readExactAt_eq_ok.mpr ⟨hl, hat'⟩, hl, ⟨by omega, fun i hi => ?_⟩, fun heq => ha.ne ?_⟩
  · by_cases hin : i < n
    · rw [← hat i (by omega), ← hat' i (by omega)]
      exact hout _ (by omega)
    · rw [List.getElem?_eq_none (by omega), List.getElem?_eq_none (by omega)]
  · subst heq
    apply List.ext_getElem?
    intro i
    by_cases hin : off ≤ i ∧ i < off + n
    · have h1 := hat (i - off) (by omega)
      have h2 := hat' (i - off) (by omega)
      rw [Nat.add_sub_cancel' hin.1] at h1 h2
      rw [h1, h2]
    · exact hout i (by omega)

end

theorem swapBytes_inj {u v : Nat} (hu : u < 2 ^ 32) (hv : v < 2 ^ 32) (h : swapBytes u = swapBytes v) : u = v := by
  have hbytes : ∀ n, swapBytes n =
      n / 16777216 % 256 + 256 * (n / 65536 % 256 + 256 * (n / 256 % 256 + 256 * (n % 256))) := by
    intro n
    simp [swapBytes, be32, ofLE]
  have hdigits : ∀ n < 2 ^ 32, n =
      16777216 * (n / 16777216 % 256) + 65536 * (n / 65536 % 256) + 256 * (n / 256 % 256) + n % 256 := by
    intro n hn
    omega
  have hlt : ∀ n : Nat, n % 256 < 256 := fun n => Nat.mod_lt n (by decide)
  rw [hbytes, hbytes] at h
  rw [hdigits u hu, hdigits v hv]
  have hu0 := hlt u
  have hu1 := hlt (u / 256)
  have hu2 := hlt (u / 65536)
  have hu3 := hlt (u / 16777216)
  have hv0 := hlt v
  have hv1 := hlt (v / 256)
  have hv2 := hlt (v / 65536)
  have hv3 := hlt (v / 16777216)
  generalize u % 256 = u0, u / 256 % 256 = u1, u / 65536 % 256 = u2, u / 16777216 % 256 = u3 at *
  generalize v % 256 = v0, v / 256 % 256 = v1, v / 65536 % 256 = v2, v / 16777216 % 256 = v3 at *
  omega

/-! ## The first sum -/

theorem walChecksum_fst (salt : Nat) (data : List Nat) (c : Nat × Nat) :
    (walChecksum salt data c).1 = (c.1 + salt + data.length + data.sum) % 2 ^ 32 := by
  have hfold : ∀ (l : List Nat) (p : Nat × Nat), (l.foldl (fun s word =>
      ((s.1 + word) % 2 ^ 32, (s.2 + (s.1 + word) % 2 ^ 32) % 2 ^ 32)) p).1 % 2 ^ 32 = (p.1 + l.sum) % 2 ^ 32 := by
    intro l
    induction l with
    | nil => exact fun p => rfl
    | cons x l ih =>
      intro s
      rw [List.foldl_cons, ih, List.sum_cons]
      dsimp only
      omega
  have hlt := (walChecksum_lt salt data c).1
  have hsum := hfold data ((c.1 + salt + data.length) % 2 ^ 32, (c.2 + salt + data.length * 2) % 2 ^ 32)
  rw [← Nat.mod_eq_of_lt hlt]
  refine hsum.trans ?_
  omega

namespace WalFrameHeader

/-- The first of the two sums before its bytes are put in order. -/
def firstSum (h : WalFrameHeader) (data : List Nat) : Nat :=
  (h.pgno + h.dbSize + 2 * h.salt1 + 2 * h.salt2 + 6 + data.length + data.sum) % 2 ^ 32

theorem computeChecksum_fst (h : WalFrameHeader) (data : Bytes) (le : Bool) : (h.computeChecksum data le).1 =
    if le then swapBytes (h.firstSum (bytesToU32Be data)) else h.firstSum (bytesToU32Be data) := by
  have hsum : (walChecksum h.salt2 (bytesToU32Be data) (walChecksum h.salt1 h.frameWords (0, 0))).1 =
      h.firstSum (bytesToU32Be data) := by
    rw [walChecksum_fst, walChecksum_fst]
    simp only [frameWords, firstSum, List.length_cons, List.length_nil, List.sum_cons, List.sum_nil]
    omega
  cases le with
  | false => exact hsum
  | true => exact congrArg swapBytes hsum

theorem verifyChecksum_iff {h : WalFrameHeader} {data : Bytes} {le : Bool} : h.verifyChecksum data le = true ↔
    (h.computeChecksum data le).1 = h.checksum1 ∧ (h.computeChecksum data le).2 = h.checksum2 := by
  rw [verifyChecksum, beq_iff_eq, Prod.ext_iff]

/-- Two frames with one checksum have one first sum. -/
theorem firstSum_eq {h h' : WalFrameHeader} {data data' : Bytes} {le : Bool} (hv : h.verifyChecksum data le = true)
    (hv' : h'.verifyChecksum data' le = true) (hc : h'.checksum1 = h.checksum1) :
    h'.firstSum (bytesToU32Be data') = h.firstSum (bytesToU32Be data) := by
  have hsum := (verifyChecksum_iff.mp hv').1.trans (hc.trans (verifyChecksum_iff.mp hv).1.symm)
  rw [computeChecksum_fst, computeChecksum_fst] at hsum
  cases le with
  | false => exact hsum
  | true => exact swapBytes_inj (Nat.mod_lt _ (by decide)) (Nat.mod_lt _ (by decide)) hsum

/-- The words of a frame header. -/
def words (h : WalFrameHeader) : List Nat := [h.pgno, h.dbSize, h.salt1, h.salt2, h.checksum1, h.checksum2]

theorem bytesToU32Be_be32 {v : Nat} (hv : v < 2 ^ 32) (r : Bytes) : bytesToU32Be (be32 v ++ r) = v :: bytesToU32Be r := by
  have hword : ofBE (be32 v) = v := by
    rw [ofBE_be32]
    omega
  exact congrArg (· :: bytesToU32Be r) hword

theorem words_encode {h : WalFrameHeader} (hv : h.Valid) : bytesToU32Be h.encode = h.words := by
  have hlast : bytesToU32Be (be32 h.checksum2) = [h.checksum2] := by
    have hword := bytesToU32Be_be32 hv.checksum2 []
    rwa [List.append_nil] at hword
  rw [encode, bytesToU32Be_be32 hv.pgno, bytesToU32Be_be32 hv.dbSize, bytesToU32Be_be32 hv.salt1,
    bytesToU32Be_be32 hv.salt2, bytesToU32Be_be32 hv.checksum1, hlast]
  rfl

theorem decode_eq_ok {d : Bytes} {h : WalFrameHeader} (hd : d.length = 24) (hdec : decode d = .ok h) :
    h.Valid ∧ d = h.encode := by
  rw [decode, if_neg (by rw [hd]; decide)] at hdec
  obtain ⟨v0, h0, hdec⟩ := Res.bind_eq_ok.mp hdec
  obtain ⟨v4, h4, hdec⟩ := Res.bind_eq_ok.mp hdec
  obtain ⟨v8, h8, hdec⟩ := Res.bind_eq_ok.mp hdec
  obtain ⟨v12, h12, hdec⟩ := Res.bind_eq_ok.mp hdec
  obtain ⟨v16, h16, hdec⟩ := Res.bind_eq_ok.mp hdec
  obtain ⟨v20, h20, hdec⟩ := Res.bind_eq_ok.mp hdec
  cases hdec
  obtain ⟨w0, h0⟩ := readU32Be_eq_ok h0
  obtain ⟨w4, h4⟩ := readU32Be_eq_ok h4
  obtain ⟨w8, h8⟩ := readU32Be_eq_ok h8
  obtain ⟨w12, h12⟩ := readU32Be_eq_ok h12
  obtain ⟨w16, h16⟩ := readU32Be_eq_ok h16
  obtain ⟨w20, h20⟩ := readU32Be_eq_ok h20
  refine ⟨⟨w0, w4, w8, w12, w16, w20⟩, ?_⟩
  have hat : At d 0 (encode ⟨v0, v4, v8, v12, v16, v20⟩) := by
    simp only [encode, At.append, be32_length, Nat.zero_add, Nat.reduceAdd]
    exact ⟨h0, h4, h8, h12, h16, h20⟩
  have hself : At d 0 d := At.of_take (by rw [List.drop_zero, List.take_length])
  exact hself.eq_of_length hat (by rw [hd, encode_length])

end WalFrameHeader

namespace Wal

section
variable {w : Wal} {log log' : Bytes} {i k : Nat}

/-! ## One frame -/

/-- What `rebuild_index` checks of a frame that it takes. -/
theorem frameAt_some {f : Nat × Bytes} (h : w.frameAt log i = .ok (some f)) :
    ∃ hdr : WalFrameHeader, readExactAt log (w.frameOffset i) 24 = .ok hdr.encode ∧ hdr.Valid ∧
      hdr.salt1 = w.header.salt1 ∧ hdr.salt2 = w.header.salt2 ∧
      readExactAt log (w.frameOffset i + 24) w.pageSize = .ok f.2 ∧ hdr.verifyChecksum f.2 w.isLe = true := by
  obtain ⟨hdrBuf, h1, h⟩ := Res.bind_eq_ok.mp h
  obtain ⟨hdr, h2, h⟩ := Res.bind_eq_ok.mp h
  obtain ⟨hvalid, hbuf⟩ := WalFrameHeader.decode_eq_ok (readExactAt_eq_ok.mp h1).1 h2
  rw [hbuf] at h1
  split at h
  · cases h
  rename_i hsalts
  obtain ⟨data, h3, h⟩ := Res.bind_eq_ok.mp h
  split at h
  · cases h
  rename_i hv
  cases h
  obtain ⟨hs1, hs2⟩ := not_or.mp hsalts
  exact ⟨hdr, h1, hvalid, not_not.mp hs1, not_not.mp hs2, h3, by simpa using hv⟩

/-- A frame with an altered word is not taken. -/
theorem frameAt_altered {f : Nat × Bytes} (h : w.frameAt log i = .ok (some f)) (hps : 4 ∣ w.pageSize)
    (hk : 4 * k + 4 ≤ 24 + w.pageSize) (ha : WordAltered log log' (w.frameOffset i + 4 * k)) :
    w.frameAt log' i = .ok none := by
  obtain ⟨hdr, hread, hvalid, hs1, hs2, hpage, hverify⟩ := frameAt_some h
  have hend : w.frameOffset (i + 1) ≤ log'.length := by
    obtain ⟨hlen, hat⟩ := readExactAt_eq_ok.mp hread
    obtain ⟨hlen', hat'⟩ := readExactAt_eq_ok.mp hpage
    have hle := hat.le (List.length_pos_iff.mp (by omega))
    rw [w.frameOffset_succ, ha.outside.1]
    by_cases hzero : w.pageSize = 0
    · omega
    · have hle' := hat'.le (List.length_pos_iff.mp (by omega))
      omega
  obtain ⟨o, ho⟩ := frameAt_ok hend
  cases o with
  | none => exact ho
  | some f' =>
    exfalso
    obtain ⟨hdr', hread', hvalid', hs1', hs2', hpage', hverify'⟩ := frameAt_some ho
    by_cases hfront : k < 6
    · -- the altered word is one of the header's
      obtain ⟨d', hd', hlen', halt⟩ := readExactAt_altered (d := hdr.encode) (n := 24) hread (by omega) ha
      cases hread'.symm.trans hd'
      have hsame : f'.2 = f.2 := by
        have hext : readExactAt log' (w.frameOffset i + 24) w.pageSize = readExactAt log (w.frameOffset i + 24) w.pageSize := readExactAt_ext
          fun j hj _ => ha.outside.2 j (by omega)
        rw [hext, hpage] at hpage'
        exact (Except.ok.inj hpage').symm
      rw [hsame] at hverify'
      obtain ⟨v, hv, hset, hkl, hlt, hne⟩ := bytesToU32Be_altered (by rw [WalFrameHeader.encode_length]; omega) halt
      simp only [WalFrameHeader.words_encode hvalid, WalFrameHeader.words_encode hvalid'] at hset hlt hne
      have hsum := WalFrameHeader.firstSum_eq hverify hverify'
      have hcheck := WalFrameHeader.verifyChecksum_iff.mp hverify
      have hcheck' := WalFrameHeader.verifyChecksum_iff.mp hverify'
      obtain ⟨pgno, dbSize, salt1, salt2, checksum1, checksum2⟩ := hdr
      obtain ⟨pgno', dbSize', salt1', salt2', checksum1', checksum2'⟩ := hdr'
      obtain rfl | rfl | rfl | rfl | rfl | rfl : k = 0 ∨ k = 1 ∨ k = 2 ∨ k = 3 ∨ k = 4 ∨ k = 5 := by omega
      all_goals
        simp only [WalFrameHeader.words, List.set_cons_zero, List.set_cons_succ, List.cons.injEq, and_true,
          List.getElem_cons_zero, List.getElem_cons_succ] at hset hlt hne
        obtain ⟨rfl, rfl, rfl, rfl, rfl, rfl⟩ := hset
      · have hsum := hsum rfl
        simp only [WalFrameHeader.firstSum] at hsum
        omega
      · have hsum := hsum rfl
        simp only [WalFrameHeader.firstSum] at hsum
        omega
      · exact hne (hs1'.trans hs1.symm)
      · exact hne (hs2'.trans hs2.symm)
      · exact hne (hcheck'.1.symm.trans hcheck.1)
      · exact hne (hcheck'.2.symm.trans hcheck.2)
    · -- it is one of the page's
      obtain ⟨m, rfl⟩ : ∃ m, k = m + 6 := ⟨k - 6, by omega⟩
      have hoff : w.frameOffset i + 4 * (m + 6) = w.frameOffset i + 24 + 4 * m := by omega
      rw [hoff] at ha
      obtain ⟨d', hd', hlen', halt⟩ := readExactAt_altered hpage (by omega) ha
      cases hpage'.symm.trans hd'
      have hsame : hdr' = hdr := by
        have hext : readExactAt log' (w.frameOffset i) 24 = readExactAt log (w.frameOffset i) 24 := readExactAt_ext
          fun j _ hj => ha.outside.2 j (by omega)
        rw [hext, hread] at hread'
        have hdec := WalFrameHeader.decode_encode hvalid'
        rw [← Except.ok.inj hread', WalFrameHeader.decode_encode hvalid] at hdec
        exact (Except.ok.inj hdec).symm
      subst hsame
      have hlen := (readExactAt_eq_ok.mp hpage).1
      obtain ⟨v, hv, hset, hkl, hlt, hne⟩ := bytesToU32Be_altered (by omega) halt
      have hsum := WalFrameHeader.firstSum_eq hverify hverify' rfl
      have hwords := sum_set (v := v) hkl
      simp only [WalFrameHeader.firstSum, hset, List.length_set] at hsum
      omega

/-! ## The log -/

/-- With one word of a frame altered the log is opened up to the frame, and no further. -/
theorem openLog_altered {ps : Nat} (h : openLog log ps = .ok w) (hps : 4 ∣ ps) (hi : i < w.frameCount)
    (hk : 4 * k + 4 ≤ 24 + ps) (ha : WordAltered log log' (w.frameOffset i + 4 * k)) :
    ∃ w', openLog log' ps = .ok w' ∧ w'.frameCount = i ∧ w'.recovered log' = (w.recovered log).take i ∧
      ∀ p j, w'.pageIndex.lookup p = some j → j < i := by
  obtain ⟨rfl, hheader, hindex⟩ := openLog_spec h
  have hcount := hindex.count
  rw [hcount] at hi
  have hstop := frameAt_altered (hindex.frame i _ (List.getElem?_eq_getElem hi)) hps hk ha
  have hheader' : w.HeaderAt log' := by
    refine hheader.ext fun j hj => ha.outside.2 j (.inl ?_)
    have hoff : 32 ≤ w.frameOffset i := Nat.le_add_right _ _
    omega
  have hrecovered : w.recovered log' = (w.recovered log).take i := by
    have hlen : ((w.recovered log).take i).length = i := by
      rw [List.length_take]
      omega
    have hbound : i < frames w.pageSize log.length := Nat.lt_of_lt_of_le hi (scan_length_le w log _ _)
    obtain ⟨m, hm⟩ : ∃ m, frames w.pageSize log.length = ((w.recovered log).take i).length + (m + 1) :=
      ⟨frames w.pageSize log.length - i - 1, by omega⟩
    have hscan := scan_add w log' (m + 1) ((w.recovered log).take i) 0 fun j f hj => by
      rw [List.getElem?_take] at hj
      split at hj
      · rename_i hji
        rw [Nat.zero_add, frameAt_ext fun l _ hl => ha.outside.2 l (.inl ?_)]
        · exact hindex.frame j f hj
        · have hmono := w.frameOffset_mono hji
          rw [w.frameOffset_succ] at hl
          omega
      · cases hj
    rw [recovered, ha.outside.1, hm, hscan, hlen, Nat.zero_add, scan, hstop, List.append_nil]
  obtain ⟨w', hopen, hsame, -, hindex'⟩ := hheader'.openLog
  have hcount' := hindex'.count
  rw [hrecovered, List.length_take, Nat.min_eq_left (Nat.le_of_lt hi)] at hcount'
  refine ⟨w', hopen, hcount', ?_, fun p j hj => ?_⟩
  · rw [← hrecovered, recovered, recovered, hsame.scan, hsame.2.1]
  · have hidx := hindex'.index p
    rw [hj, Option.map_some] at hidx
    obtain ⟨d, -, hd⟩ := Option.map_eq_some_iff.mp hidx.symm
    have hlt := (List.getElem?_eq_some_iff.mp hd.symm).1
    rw [← hindex'.count, hcount'] at hlt
    exact hlt

end

/-- The page of the only frame is altered. -/
theorem openLog_altered_page : let header := WalHeader.new 4 1 2
    let log := (fresh header 4).logWith header.encode 1 [1, 2, 3, 4] 1
    ∃ w w', openLog log 4 = .ok w ∧ w.frameCount = 1 ∧ openLog (patch log 56 [1, 2, 3, 5]) 4 = .ok w' ∧
      w'.frameCount = 0 := by
  intro header log
  have htest : ((openLog log 4).toOption.any fun w => w.frameCount == 1) = true := by decide +kernel
  have halt : WordAltered log (patch log 56 [1, 2, 3, 5]) 56 := ⟨Outside.patch (by decide +kernel), by decide +kernel⟩
  clear_value log
  cases hopen : openLog log 4 with
  | error e =>
    rw [hopen] at htest
    cases htest
  | ok w =>
    rw [hopen] at htest
    have hcount : w.frameCount = 1 := beq_iff_eq.mp htest
    have hoff : 56 = w.frameOffset 0 + 4 * 6 := by simp [frameOffset, WAL_HEADER_SIZE]
    generalize patch log 56 [1, 2, 3, 5] = log' at halt ⊢
    rw [hoff] at halt
    obtain ⟨w', hopen', hzero, -, -⟩ := openLog_altered hopen (by decide) (by omega) (by decide) halt
    exact ⟨w, w', rfl, hcount, hopen', hzero⟩

end Wal

end Sqllite
