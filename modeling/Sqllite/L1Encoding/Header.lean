import Sqllite.L1Encoding.Types

/-!
# Database header (`storage/header.rs`)

The first 100 bytes of page 1: a magic string, the page size as a big-endian
`u16` (1 stands for 65536), six single bytes and thirteen big-endian `u32`
fields. `write` overwrites the fields in place and leaves the gap at 72..92 as
it is.

* `parse_write`: a header reads back as it was written, on any page.
* `parse_eq_ok`: `parse` accepts a page exactly when a header's bytes are in place.
* `header_round_trip`: a header and the page it is on determine each other.
-/
namespace Sqllite
open Lib.Run Lib.Span

/-- `b"SQLite format 3\0"`. -/
def DATABASE_HEADER_MAGIC : Bytes :=
  [83, 81, 76, 105, 116, 101, 32, 102, 111, 114, 109, 97, 116, 32, 51, 0]

def DATABASE_HEADER_SIZE : Nat := 100
def DEFAULT_PAGE_SIZE : Nat := 4096
def MIN_PAGE_SIZE : Nat := 512
def MAX_PAGE_SIZE : Nat := 65536

def PAGE_TYPE_INTERIOR_INDEX : UInt8 := 0x02
def PAGE_TYPE_INTERIOR_TABLE : UInt8 := 0x05
def PAGE_TYPE_LEAF_INDEX : UInt8 := 0x0a
def PAGE_TYPE_LEAF_TABLE : UInt8 := 0x0d

/-- Page 1 is always the database header page. -/
def ROOT_PAGE : Nat := 1

/-- mirrors sqllite-core/src/storage/header.rs:9-32 -/
structure DatabaseHeader where
  pageSize : Nat
  writeVersion : UInt8
  readVersion : UInt8
  reservedBytes : UInt8
  maxEmbeddedPayload : UInt8
  minEmbeddedPayload : UInt8
  leafPayload : UInt8
  changeCounter : Nat
  databaseSize : Nat
  freelistTrunk : Nat
  freelistCount : Nat
  schemaCookie : Nat
  schemaFormat : Nat
  defaultCacheSize : Nat
  largestRoot : Nat
  textEncoding : Nat
  userVersion : Nat
  incrVacuum : Nat
  applicationId : Nat
  versionValidFor : Nat
  sqliteVersion : Nat
  deriving DecidableEq, Repr

namespace DatabaseHeader

/-- mirrors sqllite-core/src/storage/header.rs:41-65 -/
def new (pageSize : Nat) : DatabaseHeader where
  pageSize := pageSize
  writeVersion := 1
  readVersion := 1
  reservedBytes := 0
  maxEmbeddedPayload := 64
  minEmbeddedPayload := 32
  leafPayload := 32
  changeCounter := 1
  databaseSize := 0
  freelistTrunk := 0
  freelistCount := 0
  schemaCookie := 0
  schemaFormat := 4
  defaultCacheSize := 0
  largestRoot := 0
  textEncoding := 1
  userVersion := 0
  incrVacuum := 0
  applicationId := 0
  versionValidFor := 1
  sqliteVersion := 3044001

/-- `n.is_power_of_two()` for a `u32`. -/
def isPowerOfTwo (n : Nat) : Bool := (List.range 32).any fun k => n == 2 ^ k

/-- mirrors sqllite-core/src/storage/header.rs:68-111 -/
def parse (data : Bytes) : Result DatabaseHeader :=
  if data.length < DATABASE_HEADER_SIZE then fail .corrupt "database header too short"
  else do
    let magic ← slice data 0 16
    if magic ≠ DATABASE_HEADER_MAGIC then fail .notADb "file is not a database"
    else do
      let raw ← readU16Be data 16
      let pageSize := if raw = 1 then 65536 else raw
      if pageSize < MIN_PAGE_SIZE ∨ pageSize > MAX_PAGE_SIZE ∨ ¬ isPowerOfTwo pageSize then
        fail .corrupt "invalid page size"
      else do
        pure {
          pageSize := pageSize
          writeVersion := ← byteAt data 18
          readVersion := ← byteAt data 19
          reservedBytes := ← byteAt data 20
          maxEmbeddedPayload := ← byteAt data 21
          minEmbeddedPayload := ← byteAt data 22
          leafPayload := ← byteAt data 23
          changeCounter := ← readU32Be data 24
          databaseSize := ← readU32Be data 28
          freelistTrunk := ← readU32Be data 32
          freelistCount := ← readU32Be data 36
          schemaCookie := ← readU32Be data 40
          schemaFormat := ← readU32Be data 44
          defaultCacheSize := ← readU32Be data 48
          largestRoot := ← readU32Be data 52
          textEncoding := ← readU32Be data 56
          userVersion := ← readU32Be data 60
          incrVacuum := ← readU32Be data 64
          applicationId := ← readU32Be data 68
          versionValidFor := ← readU32Be data 92
          sqliteVersion := ← readU32Be data 96 }

/-- The contiguous bytes from the magic to `application_id`. -/
def front (h : DatabaseHeader) : Bytes :=
  DATABASE_HEADER_MAGIC ++ (be16 (if h.pageSize = 65536 then 1 else h.pageSize) ++
    ([h.writeVersion, h.readVersion, h.reservedBytes, h.maxEmbeddedPayload, h.minEmbeddedPayload,
      h.leafPayload] ++ (be32 h.changeCounter ++ (be32 h.databaseSize ++ (be32 h.freelistTrunk ++
    (be32 h.freelistCount ++ (be32 h.schemaCookie ++ (be32 h.schemaFormat ++
    (be32 h.defaultCacheSize ++ (be32 h.largestRoot ++ (be32 h.textEncoding ++
    (be32 h.userVersion ++ (be32 h.incrVacuum ++ be32 h.applicationId)))))))))))))

/-- The last two fields, at 92. -/
def back (h : DatabaseHeader) : Bytes := be32 h.versionValidFor ++ be32 h.sqliteVersion

/-- mirrors sqllite-core/src/storage/header.rs:114-143; the fields up to byte 72
are contiguous and written as one range. -/
def write (h : DatabaseHeader) (page : Bytes) : Result Bytes := do
  let page ← copyInto page 0 h.front
  copyInto page 92 h.back

@[simp] theorem front_length (h : DatabaseHeader) : h.front.length = 72 := by
  simp [front, DATABASE_HEADER_MAGIC]

@[simp] theorem back_length (h : DatabaseHeader) : h.back.length = 8 := by simp [back]

/-- A page with the header written over it. -/
def overlay (h : DatabaseHeader) (page : Bytes) : Bytes := patch (patch page 0 h.front) 92 h.back

theorem write_ok {h : DatabaseHeader} {page : Bytes} (hl : 100 ≤ page.length) :
    h.write page = .ok (h.overlay page) := by
  have h1 : (patch page 0 h.front).length = page.length := patch_length (by simp; omega)
  rw [write, copyInto_ok (by simp; omega), Res.ok_bind, copyInto_ok (by simp; omega), overlay]

theorem overlay_length {h : DatabaseHeader} {page : Bytes} (hl : 100 ≤ page.length) :
    (h.overlay page).length = page.length := by
  have h1 : (patch page 0 h.front).length = page.length := patch_length (by simp; omega)
  rw [overlay, patch_length (by simp; omega), h1]

/-- Only the bytes 0..72 and 92..100 are written. -/
theorem overlay_frame {h : DatabaseHeader} {page : Bytes} (hl : 100 ≤ page.length) {i : Nat}
    (hi : 72 ≤ i ∧ i < 92 ∨ 100 ≤ i) : (h.overlay page)[i]? = page[i]? := by
  have h1 : (patch page 0 h.front).length = page.length := patch_length (by simp; omega)
  rw [overlay, getElem?_patch_frame (by simp; omega) (by simp; omega),
    getElem?_patch_frame (by simp; omega) (by simp; omega)]

theorem overlay_at {h : DatabaseHeader} {page : Bytes} (hl : 100 ≤ page.length) :
    At (h.overlay page) 0 h.front ∧ At (h.overlay page) 92 h.back := by
  have h1 : (patch page 0 h.front).length = page.length := patch_length (by simp; omega)
  exact ⟨(At.patch_frame (by simp; omega) (by simp)).mpr (At.patch_self (by simp; omega)),
    At.patch_self (by simp; omega)⟩

/-- The last header written is the one that is read. -/
theorem overlay_overlay {h h' : DatabaseHeader} {page : Bytes} (hl : 100 ≤ page.length) :
    h.overlay (h'.overlay page) = h.overlay page := by
  have key : ∀ (g : DatabaseHeader) (d : Bytes), 100 ≤ d.length → ∀ i,
      (g.overlay d)[i]? = if 92 ≤ i ∧ i < 100 then g.back[i - 92]?
        else if i < 72 then g.front[i]? else d[i]? := fun g d hd i => by
    have h1 : (patch d 0 g.front).length = d.length := patch_length (by simp; omega)
    rw [overlay, patch_getElem? (by simp; omega), patch_getElem? (by simp; omega)]
    simp only [back_length, front_length, Nat.zero_add, Nat.zero_le, true_and, Nat.sub_zero]
  refine List.ext_getElem? fun i => ?_
  rw [key h _ (by rw [overlay_length hl]; exact hl), key h _ hl, key h' _ hl]
  split
  · rfl
  · split <;> rfl

/-- The `u32` fields but the page size. -/
def words (h : DatabaseHeader) : List Nat :=
  [h.changeCounter, h.databaseSize, h.freelistTrunk, h.freelistCount, h.schemaCookie,
    h.schemaFormat, h.defaultCacheSize, h.largestRoot, h.textEncoding, h.userVersion,
    h.incrVacuum, h.applicationId, h.versionValidFor, h.sqliteVersion]

/-- Field values of their Rust types, and a page size `parse` accepts. -/
structure Valid (h : DatabaseHeader) : Prop where
  pageSize : MIN_PAGE_SIZE ≤ h.pageSize ∧ h.pageSize ≤ MAX_PAGE_SIZE ∧ isPowerOfTwo h.pageSize
  words : ∀ v ∈ h.words, v < 2 ^ 32

theorem new_valid {pageSize : Nat} (h1 : MIN_PAGE_SIZE ≤ pageSize) (h2 : pageSize ≤ MAX_PAGE_SIZE)
    (h3 : isPowerOfTwo pageSize) : (new pageSize).Valid :=
  ⟨⟨h1, h2, h3⟩, by simp [words, new]⟩

/-- A page that starts with a header's bytes parses to that header. -/
theorem parse_of_at {h : DatabaseHeader} (hv : h.Valid) {page : Bytes} (hf : At page 0 h.front)
    (hb : At page 92 h.back) : parse page = .ok h := by
  have hlen := hb.le (by simp [back, be32])
  rw [back_length] at hlen
  simp only [front, At.append, be16_length, be32_length, List.length_cons, List.length_nil,
    DATABASE_HEADER_MAGIC, Nat.zero_add, Nat.reduceAdd] at hf
  obtain ⟨h0, h16, h18, h24, h28, h32, h36, h40, h44, h48, h52, h56, h60, h64, h68⟩ := hf
  simp only [At.cons, Nat.reduceAdd, At.nil, and_true] at h18
  obtain ⟨h18, h19, h20, h21, h22, h23⟩ := h18
  obtain ⟨h92, h96⟩ := At.append.mp hb
  rw [be32_length] at h96
  obtain ⟨w24, w28, w32, w36, w40, w44, w48, w52, w56, w60, w64, w68, w92, w96⟩ := by
    simpa only [words, List.forall_mem_cons, List.not_mem_nil, false_imp_iff, implies_true,
      and_true] using hv.words
  have hraw : (if h.pageSize = 65536 then 1 else h.pageSize) < 65536 := by
    have := hv.pageSize; simp only [MAX_PAGE_SIZE] at this; split <;> omega
  have hps : (if (if h.pageSize = 65536 then 1 else h.pageSize) = 1 then 65536
      else (if h.pageSize = 65536 then 1 else h.pageSize)) = h.pageSize := by
    have := hv.pageSize; simp only [MIN_PAGE_SIZE] at this; split <;> split <;> omega
  rw [parse, if_neg (by simp only [DATABASE_HEADER_SIZE]; omega),
    slice_at_ne h0 (by simp) (by simp), Res.ok_bind, if_neg (by simp [DATABASE_HEADER_MAGIC]),
    readU16Be_at h16 hraw, Res.ok_bind, hps,
    if_neg (by have := hv.pageSize; simp only [not_or, not_not]; exact ⟨by omega, by omega, this.2.2⟩)]
  simp only [byteAt_at h18, byteAt_at h19, byteAt_at h20, byteAt_at h21, byteAt_at h22,
    byteAt_at h23, readU32Be_at h24 w24, readU32Be_at h28 w28,
    readU32Be_at h32 w32, readU32Be_at h36 w36,
    readU32Be_at h40 w40, readU32Be_at h44 w44,
    readU32Be_at h48 w48, readU32Be_at h52 w52,
    readU32Be_at h56 w56, readU32Be_at h60 w60,
    readU32Be_at h64 w64, readU32Be_at h68 w68,
    readU32Be_at h92 w92, readU32Be_at h96 w96, Res.ok_bind,
    Res.pure_eq]

/-- What `parse` accepts is a page that starts with a header's bytes. -/
theorem at_of_parse {h : DatabaseHeader} {page : Bytes} (hp : parse page = .ok h) :
    h.Valid ∧ At page 0 h.front ∧ At page 92 h.back := by
  rw [parse] at hp
  split at hp
  · cases hp
  obtain ⟨magic, h0, hp⟩ := Res.bind_eq_ok.mp hp
  split at hp
  · cases hp
  rename_i hm
  rw [not_not.mp hm] at h0
  obtain ⟨raw, h16, hp⟩ := Res.bind_eq_ok.mp hp
  dsimp only at hp
  generalize hsz : (if raw = 1 then 65536 else raw) = pageSize at hp
  split at hp
  · cases hp
  rename_i hsize
  obtain ⟨v18, h18, hp⟩ := Res.bind_eq_ok.mp hp
  obtain ⟨v19, h19, hp⟩ := Res.bind_eq_ok.mp hp
  obtain ⟨v20, h20, hp⟩ := Res.bind_eq_ok.mp hp
  obtain ⟨v21, h21, hp⟩ := Res.bind_eq_ok.mp hp
  obtain ⟨v22, h22, hp⟩ := Res.bind_eq_ok.mp hp
  obtain ⟨v23, h23, hp⟩ := Res.bind_eq_ok.mp hp
  obtain ⟨v24, h24, hp⟩ := Res.bind_eq_ok.mp hp
  obtain ⟨v28, h28, hp⟩ := Res.bind_eq_ok.mp hp
  obtain ⟨v32, h32, hp⟩ := Res.bind_eq_ok.mp hp
  obtain ⟨v36, h36, hp⟩ := Res.bind_eq_ok.mp hp
  obtain ⟨v40, h40, hp⟩ := Res.bind_eq_ok.mp hp
  obtain ⟨v44, h44, hp⟩ := Res.bind_eq_ok.mp hp
  obtain ⟨v48, h48, hp⟩ := Res.bind_eq_ok.mp hp
  obtain ⟨v52, h52, hp⟩ := Res.bind_eq_ok.mp hp
  obtain ⟨v56, h56, hp⟩ := Res.bind_eq_ok.mp hp
  obtain ⟨v60, h60, hp⟩ := Res.bind_eq_ok.mp hp
  obtain ⟨v64, h64, hp⟩ := Res.bind_eq_ok.mp hp
  obtain ⟨v68, h68, hp⟩ := Res.bind_eq_ok.mp hp
  obtain ⟨v92, h92, hp⟩ := Res.bind_eq_ok.mp hp
  obtain ⟨v96, h96, hp⟩ := Res.bind_eq_ok.mp hp
  cases hp
  obtain ⟨hraw, h16⟩ := readU16Be_eq_ok h16
  obtain ⟨w24, h24⟩ := readU32Be_eq_ok h24
  obtain ⟨w28, h28⟩ := readU32Be_eq_ok h28
  obtain ⟨w32, h32⟩ := readU32Be_eq_ok h32
  obtain ⟨w36, h36⟩ := readU32Be_eq_ok h36
  obtain ⟨w40, h40⟩ := readU32Be_eq_ok h40
  obtain ⟨w44, h44⟩ := readU32Be_eq_ok h44
  obtain ⟨w48, h48⟩ := readU32Be_eq_ok h48
  obtain ⟨w52, h52⟩ := readU32Be_eq_ok h52
  obtain ⟨w56, h56⟩ := readU32Be_eq_ok h56
  obtain ⟨w60, h60⟩ := readU32Be_eq_ok h60
  obtain ⟨w64, h64⟩ := readU32Be_eq_ok h64
  obtain ⟨w68, h68⟩ := readU32Be_eq_ok h68
  obtain ⟨w92, h92⟩ := readU32Be_eq_ok h92
  obtain ⟨w96, h96⟩ := readU32Be_eq_ok h96
  -- 65536 is stored as 1, and no accepted size is 1
  have hps : (if pageSize = 65536 then 1 else pageSize) = raw := by
    simp only [MIN_PAGE_SIZE] at hsize
    subst hsz
    split <;> split <;> omega
  refine ⟨⟨?_, ?_⟩, ?_, ?_⟩
  · simp only [not_or, not_not] at hsize
    exact ⟨Nat.le_of_not_lt hsize.1, Nat.le_of_not_lt hsize.2.1, hsize.2.2⟩
  · simp only [words, List.forall_mem_cons, List.not_mem_nil, false_imp_iff, implies_true, and_true]
    exact ⟨w24, w28, w32, w36, w40, w44, w48, w52, w56, w60, w64, w68, w92, w96⟩
  · simp only [front, hps, At.append, be16_length, be32_length, List.length_cons, List.length_nil,
      DATABASE_HEADER_MAGIC, Nat.zero_add, Nat.reduceAdd, At.cons, At.nil, and_true]
    exact ⟨by simpa only [DATABASE_HEADER_MAGIC, At.cons, At.nil, and_true] using (slice_eq_ok h0).2,
      h16, ⟨byteAt_eq_ok h18, byteAt_eq_ok h19, byteAt_eq_ok h20, byteAt_eq_ok h21,
        byteAt_eq_ok h22, byteAt_eq_ok h23⟩,
      h24, h28, h32, h36, h40, h44, h48, h52, h56, h60, h64, h68⟩
  · exact At.append.mpr ⟨h92, by rw [be32_length]; exact h96⟩

/-- `parse` accepts a page exactly when a header's bytes are in place. -/
theorem parse_eq_ok {h : DatabaseHeader} {page : Bytes} :
    parse page = .ok h ↔ h.Valid ∧ At page 0 h.front ∧ At page 92 h.back :=
  ⟨at_of_parse, fun hp => parse_of_at hp.1 hp.2.1 hp.2.2⟩

/-- A header whose bytes are in place already. -/
theorem overlay_self {h : DatabaseHeader} {page : Bytes} (hf : At page 0 h.front)
    (hb : At page 92 h.back) : h.overlay page = page := by
  have hl := hb.le (by simp [back, be32])
  rw [back_length] at hl
  rw [overlay, hf.patch_eq (by simp; omega), hb.patch_eq (by simp; omega)]

/-- A header and the page it is on determine each other: what is written reads
back, and what is read and written again leaves the page as it is. -/
theorem header_round_trip (h : DatabaseHeader) (page : Bytes) :
    (h.Valid → 100 ≤ page.length → ∃ page', h.write page = .ok page' ∧ parse page' = .ok h ∧
      page'.length = page.length ∧
      ∀ i, 72 ≤ i ∧ i < 92 ∨ 100 ≤ i → page'[i]? = page[i]?) ∧
    (parse page = .ok h → h.write page = .ok page) := by
  constructor
  · intro hv hl
    obtain ⟨hf, hb⟩ := overlay_at (h := h) hl
    exact ⟨h.overlay page, write_ok hl, parse_of_at hv hf hb, overlay_length hl,
      fun _ hi => overlay_frame hl hi⟩
  · intro hp
    obtain ⟨hv, hf, hb⟩ := at_of_parse hp
    have hl := hb.le (by simp [back, be32])
    rw [back_length] at hl
    rw [write_ok hl, overlay_self hf hb]

/-- Over a blank page, with the largest page size, and read from there. -/
theorem header_round_trip_largest :
    (∃ page', (new 65536).write (List.replicate 100 0) = .ok page' ∧
      parse page' = .ok (new 65536) ∧ page'.length = 100 ∧
      ∀ i, 72 ≤ i ∧ i < 92 ∨ 100 ≤ i → page'[i]? = (List.replicate 100 (0 : UInt8))[i]?) ∧
    (new 65536).write ((new 65536).overlay (List.replicate 100 0)) =
      .ok ((new 65536).overlay (List.replicate 100 0)) :=
  have hv : (new 65536).Valid :=
    new_valid (by decide) (by decide) (by decide)
  ⟨(header_round_trip (new 65536) (List.replicate 100 0)).1 hv (by decide),
    (header_round_trip (new 65536) ((new 65536).overlay (List.replicate 100 0))).2
      (parse_of_at hv (overlay_at (by decide)).1 (overlay_at (by decide)).2)⟩

/-- A header reads back as it was written, on any page. -/
theorem parse_write {h : DatabaseHeader} (hv : h.Valid) {page : Bytes} (hl : 100 ≤ page.length) :
    ∃ page', h.write page = .ok page' ∧ parse page' = .ok h :=
  ⟨_, write_ok hl, parse_of_at hv (overlay_at hl).1 (overlay_at hl).2⟩

end DatabaseHeader

end Sqllite
