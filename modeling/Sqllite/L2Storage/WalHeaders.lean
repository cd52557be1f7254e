import Sqllite.L2Storage.Checkpoint
import Sqllite.L2Storage.WalAltered

/-!
# The headers of a log

Both headers are a few big-endian words. The log's header ends with sums over its other
words; each of these is counted once in the first sum, and differs by less than 2^32, so a
header with one word altered does not check.

* `WalHeader.header_round_trips`: both headers come back, and an altered one is rejected.
-/
namespace Sqllite
open Lib Lib.Run Lib.Span

namespace WalHeader

/-- The words of a log header. -/
def words (h : WalHeader) : List Nat :=
  [h.magic, h.version, h.pageSize, h.checkpointSeq, h.salt1, h.salt2, h.checksum1, h.checksum2]

/-- What `new` makes, and what it is after changes of the sequence number and of the salts with
`update_checksum` behind them. -/
inductive Made : WalHeader → Prop
  | new {pageSize salt1 salt2 : Nat} : pageSize < 2 ^ 32 → salt1 < 2 ^ 32 → salt2 < 2 ^ 32 → Made (new pageSize salt1 salt2)
  | update {h : WalHeader} {checkpointSeq salt1 salt2 : Nat} : Made h → checkpointSeq < 2 ^ 32 → salt1 < 2 ^ 32 →
      salt2 < 2 ^ 32 → Made (updateChecksum { h with checkpointSeq := checkpointSeq, salt1 := salt1, salt2 := salt2 })

variable {h : WalHeader} {d : Bytes} {k : Nat}

theorem Made.ok (hm : Made h) : h.Valid ∧ h.Accepted := by
  induction hm with
  | new hps h1 h2 => exact new_ok hps h1 h2
  | update _ hseq h1 h2 ih =>
    obtain ⟨hv, ha⟩ := ih
    refine ⟨⟨hv.magic, hv.version, hv.pageSize, hseq, h1, h2, ?_, ?_⟩, updateChecksum_accepted ha.1 ha.2.1⟩
    · exact (walChecksum_lt _ _ _).1
    · exact (walChecksum_lt _ _ _).2

/-- Bytes that are accepted begin with the encoded header. -/
theorem decode_at (hd : decode d = .ok h) : At d 0 h.encode := by
  unfold decode at hd
  split at hd
  · cases hd
  obtain ⟨v0, h0, hd⟩ := Res.bind_eq_ok.mp hd
  obtain ⟨v4, h4, hd⟩ := Res.bind_eq_ok.mp hd
  obtain ⟨v8, h8, hd⟩ := Res.bind_eq_ok.mp hd
  obtain ⟨v12, h12, hd⟩ := Res.bind_eq_ok.mp hd
  obtain ⟨v16, h16, hd⟩ := Res.bind_eq_ok.mp hd
  obtain ⟨v20, h20, hd⟩ := Res.bind_eq_ok.mp hd
  obtain ⟨v24, h24, hd⟩ := Res.bind_eq_ok.mp hd
  obtain ⟨v28, h28, hd⟩ := Res.bind_eq_ok.mp hd
  dsimp only at hd
  split at hd
  · cases hd
  split at hd
  · cases hd
  split at hd
  · cases hd
  cases hd
  simp only [encode, At.append, be32_length, Nat.zero_add, Nat.reduceAdd]
  exact ⟨(readU32Be_eq_ok h0).2, (readU32Be_eq_ok h4).2, (readU32Be_eq_ok h8).2, (readU32Be_eq_ok h12).2,
    (readU32Be_eq_ok h16).2, (readU32Be_eq_ok h20).2, (readU32Be_eq_ok h24).2, (readU32Be_eq_ok h28).2⟩

/-- No read leaves the bytes: they are accepted or corrupt. -/
theorem decode_cases (hlen : WAL_HEADER_SIZE ≤ d.length) :
    (∃ h, decode d = .ok h) ∨ ∃ msg, decode d = fail .corrupt msg := by
  have hsize : 32 ≤ d.length := hlen
  obtain ⟨v0, h0⟩ : ∃ v, readU32Be d 0 = .ok v := readU32Be_ok (by omega)
  obtain ⟨v4, h4⟩ : ∃ v, readU32Be d 4 = .ok v := readU32Be_ok (by omega)
  obtain ⟨v8, h8⟩ : ∃ v, readU32Be d 8 = .ok v := readU32Be_ok (by omega)
  obtain ⟨v12, h12⟩ : ∃ v, readU32Be d 12 = .ok v := readU32Be_ok (by omega)
  obtain ⟨v16, h16⟩ : ∃ v, readU32Be d 16 = .ok v := readU32Be_ok (by omega)
  obtain ⟨v20, h20⟩ : ∃ v, readU32Be d 20 = .ok v := readU32Be_ok (by omega)
  obtain ⟨v24, h24⟩ : ∃ v, readU32Be d 24 = .ok v := readU32Be_ok (by omega)
  obtain ⟨v28, h28⟩ : ∃ v, readU32Be d 28 = .ok v := readU32Be_ok (by omega)
  unfold decode
  rw [if_neg (Nat.not_lt.mpr hlen)]
  simp only [h0, h4, h8, h12, h16, h20, h24, h28, Res.ok_bind]
  split
  · exact .inr ⟨_, rfl⟩
  split
  · exact .inr ⟨_, rfl⟩
  split
  · exact .inr ⟨_, rfl⟩
  · exact .inl ⟨_, rfl⟩

theorem words_encode (hv : h.Valid) : bytesToU32Be h.encode = h.words := by
  have hlast : bytesToU32Be (be32 h.checksum2) = [h.checksum2] := by
    have hword := WalFrameHeader.bytesToU32Be_be32 hv.checksum2 []
    rwa [List.append_nil] at hword
  rw [encode, WalFrameHeader.bytesToU32Be_be32 hv.magic, WalFrameHeader.bytesToU32Be_be32 hv.version,
    WalFrameHeader.bytesToU32Be_be32 hv.pageSize, WalFrameHeader.bytesToU32Be_be32 hv.checkpointSeq,
    WalFrameHeader.bytesToU32Be_be32 hv.salt1, WalFrameHeader.bytesToU32Be_be32 hv.salt2,
    WalFrameHeader.bytesToU32Be_be32 hv.checksum1, hlast]
  rfl

/-- What a header that checks has for its sums. -/
theorem checksums (hc : h.verifyChecksum = true) : walChecksum 0 h.headerWords (0, 0) = (h.checksum1, h.checksum2) :=
  beq_iff_eq.mp hc

/-- The first sum is that of the words in front of the sums. -/
theorem checksum1_eq (hc : h.verifyChecksum = true) :
    h.checksum1 = (8 + h.magic + h.version + h.pageSize + h.checkpointSeq + h.salt1 + h.salt2) % 2 ^ 32 := by
  have hsum := walChecksum_fst 0 h.headerWords (0, 0)
  rw [checksums hc] at hsum
  refine hsum.trans ?_
  simp only [headerWords, List.length_cons, List.length_nil, List.sum_cons, List.sum_nil]
  omega

/-- A header with one word altered does not check. -/
theorem decode_altered (hv : h.Valid) (ha : h.Accepted) (hk : k < 8) (hd : WordAltered h.encode d (4 * k)) (h' : WalHeader) :
    decode d ≠ .ok h' := by
  intro hdec
  obtain ⟨hv', ha'⟩ := decode_ok hdec
  have hself : At d 0 d := At.of_take (by rw [List.drop_zero, List.take_length])
  have hbytes : d = h'.encode := hself.eq_of_length (decode_at hdec) (by rw [hd.outside.1, encode_length, encode_length])
  obtain ⟨v, -, hset, hkl, hlt, hne⟩ := bytesToU32Be_altered (by rw [encode_length]; omega) hd
  rw [hbytes] at hset
  simp only [words_encode hv, words_encode hv'] at hset hlt hne
  have hsum := checksum1_eq ha.2.2
  have hsum' := checksum1_eq ha'.2.2
  have hpair := checksums ha.2.2
  have hpair' := checksums ha'.2.2
  obtain ⟨b0, b1, b2, b3, b4, b5, -, -⟩ := hv'
  obtain ⟨magic, version, pageSize, checkpointSeq, salt1, salt2, checksum1, checksum2⟩ := h
  obtain ⟨magic', version', pageSize', checkpointSeq', salt1', salt2', checksum1', checksum2'⟩ := h'
  obtain rfl | rfl | rfl | rfl | rfl | rfl | rfl | rfl : k = 0 ∨ k = 1 ∨ k = 2 ∨ k = 3 ∨ k = 4 ∨ k = 5 ∨ k = 6 ∨ k = 7 := by omega
  all_goals
    simp only [words, List.set_cons_zero, List.set_cons_succ, List.cons.injEq, and_true,
      List.getElem_cons_zero, List.getElem_cons_succ] at hset hlt hne hsum hsum' b0 b1 b2 b3 b4 b5
    obtain ⟨rfl, rfl, rfl, rfl, rfl, rfl, rfl, rfl⟩ := hset
  -- the first sum tells all of them apart but its own second half
  any_goals omega
  exact hne (congrArg Prod.snd (hpair'.symm.trans hpair))

end WalHeader

namespace WalFrameHeader

/-- Every 24 bytes are an encoded frame header. -/
theorem decode_total {d : Bytes} (hlen : d.length = WAL_FRAME_HEADER_SIZE) :
    ∃ h : WalFrameHeader, h.Valid ∧ decode d = .ok h ∧ h.encode = d := by
  have hsize : d.length = 24 := hlen
  obtain ⟨v0, h0⟩ : ∃ v, readU32Be d 0 = .ok v := readU32Be_ok (by omega)
  obtain ⟨v4, h4⟩ : ∃ v, readU32Be d 4 = .ok v := readU32Be_ok (by omega)
  obtain ⟨v8, h8⟩ : ∃ v, readU32Be d 8 = .ok v := readU32Be_ok (by omega)
  obtain ⟨v12, h12⟩ : ∃ v, readU32Be d 12 = .ok v := readU32Be_ok (by omega)
  obtain ⟨v16, h16⟩ : ∃ v, readU32Be d 16 = .ok v := readU32Be_ok (by omega)
  obtain ⟨v20, h20⟩ : ∃ v, readU32Be d 20 = .ok v := readU32Be_ok (by omega)
  have hdec : decode d = .ok ⟨v0, v4, v8, v12, v16, v20⟩ := by
    rw [decode, if_neg (by omega), h0, h4, h8, h12, h16, h20]
    rfl
  obtain ⟨hv, hd⟩ := decode_eq_ok hsize hdec
  exact ⟨_, hv, hdec, hd.symm⟩

end WalFrameHeader

namespace WalHeader

/-- Both headers come back from their bytes, the bytes from what they are decoded to, and a log
header with one word altered is rejected. -/
theorem header_round_trips :
    (∀ h, Made h → decode h.encode = .ok h) ∧
    (∀ d h, WAL_HEADER_SIZE ≤ d.length → decode d = .ok h → h.encode = d.take WAL_HEADER_SIZE) ∧
    (∀ h d k, decode h.encode = .ok h → k < 8 → WordAltered h.encode d (4 * k) → ∃ msg, decode d = fail .corrupt msg) ∧
    (∀ d, d.length = WAL_FRAME_HEADER_SIZE →
      ∃ h : WalFrameHeader, h.Valid ∧ WalFrameHeader.decode d = .ok h ∧ h.encode = d) ∧
    ∀ h : WalFrameHeader, h.Valid → h.encode.length = WAL_FRAME_HEADER_SIZE ∧ WalFrameHeader.decode h.encode = .ok h := by
  refine ⟨fun h hm => decode_encode hm.ok.1 hm.ok.2, fun d h _ hd => ?_, fun h d k hdec hk hd => ?_, fun d => WalFrameHeader.decode_total,
    fun h hv => ⟨h.encode_length, WalFrameHeader.decode_encode hv⟩⟩
  · have htake := (decode_at hd).take
    rwa [List.drop_zero, encode_length, eq_comm] at htake
  · obtain ⟨hv, ha⟩ := decode_ok hdec
    refine (decode_cases ?_).resolve_left fun hok => ?_
    · rw [hd.outside.1, encode_length]
      exact Nat.le_refl _
    · obtain ⟨h', hok⟩ := hok
      exact decode_altered hv ha hk hd h' hok

/-- The header of a new log, and the same with its page size altered. -/
theorem header_round_trips_new :
    decode (new 4096 1 2).encode = .ok (new 4096 1 2) ∧
      ∃ msg, decode ({ new 4096 1 2 with pageSize := 8192 }).encode = fail .corrupt msg := by
  have hround := header_round_trips.1 (new 4096 1 2) (.new (by decide) (by decide) (by decide))
  have hinside : ∀ i < 32, i < 8 ∨ 12 ≤ i →
      ({ new 4096 1 2 with pageSize := 8192 } : WalHeader).encode[i]? = (new 4096 1 2).encode[i]? := by decide +kernel
  refine ⟨hround, header_round_trips.2.2.1 (new 4096 1 2) _ 2 hround (by decide) ⟨⟨by decide, fun i hi => ?_⟩, by decide⟩⟩
  rcases Nat.lt_or_ge i 32 with hlt | hge
  · exact hinside i hlt hi
  · rw [List.getElem?_eq_none (by simpa using hge), List.getElem?_eq_none (by simpa using hge)]

end WalHeader

end Sqllite
