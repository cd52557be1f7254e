import Sqllite.Lib.Bytes
import Mathlib.Data.List.InsertIdx
import Mathlib.Tactic.Ring

/-!
# Lists in order

`<` on lists goes by the first place where they differ, a proper prefix in front.

* `append_lt_append_iff`: of parts of one length the front ones decide first.
* `ofDigits_lt_iff`: digits, the highest first, are in the order of their numbers.
* `leBytes_lt_iff`: little-endian bytes are in the order of the lowest byte that differs.
* `insertIdx_findIdx_sorted`: an element in front of the first one behind it.
-/
namespace Lib.Span

section
variable {α : Type} [LT α]

theorem append_lt_append_iff {x y : List α} : ∀ {a b : List α}, a.length = b.length →
    (a ++ x < b ++ y ↔ a < b ∨ a = b ∧ x < y)
  | [], [], _ => by simp
  | c :: a, d :: b, h => by
    have ih := append_lt_append_iff (x := x) (y := y) (Nat.succ.inj h)
    simp only [List.cons_append, List.cons_lt_cons_iff, ih, List.cons.injEq]
    tauto

theorem append_lt_append {a b : List α} (h : a.length = b.length) (hlt : a < b) (x y : List α) :
    a ++ x < b ++ y := (append_lt_append_iff h).mpr (.inl hlt)

end

theorem compare_bytes_lt : ∀ {a b : Bytes}, compare a b = .lt ↔ a < b
  | [], [] => by simp
  | [], _ :: _ => by simp
  | _ :: _, [] => by simp
  | c :: a, d :: b => by
    rw [List.compare_cons_cons, List.cons_lt_cons_iff, ← compare_bytes_lt (a := a)]
    cases hc : compare c d with
    | lt => simp [Std.compare_eq_lt.mp hc]
    | eq => simp [Std.LawfulEqOrd.eq_of_compare hc]
    | gt =>
      have hlt := Std.compare_eq_gt.mp hc
      have hne : c ≠ d := fun h => UInt8.lt_irrefl d (h ▸ hlt)
      simp [hne, UInt8.le_of_lt hlt]

/-! ## Insertion -/

section
variable {κ : Type} {lt : κ → κ → Prop} [DecidableRel lt] {c : κ}

theorem insertIdx_findIdx_sorted (hi : ∀ a, ¬ lt a a)
    (ht : ∀ a b d, lt a b → lt b d → lt a d) : ∀ {l : List κ},
    l.Pairwise (fun a b => ¬ lt b a) →
    (l.insertIdx (l.findIdx fun x => lt c x) c).Pairwise fun a b => ¬ lt b a
  | [], _ => List.pairwise_singleton _ _
  | a :: l, h => by
    obtain ⟨hhead, htail⟩ := List.pairwise_cons.mp h
    rw [List.findIdx_cons]
    by_cases hlt : lt c a
    · rw [decide_eq_true hlt, cond_true, List.insertIdx_zero]
      refine List.pairwise_cons.mpr ⟨fun x hx hxc => ?_, h⟩
      have hxa := ht x c a hxc hlt
      obtain rfl | hx := List.mem_cons.mp hx
      · exact hi _ hxa
      · exact hhead x hx hxa
    · rw [decide_eq_false hlt, cond_false, List.insertIdx_succ_cons]
      refine List.pairwise_cons.mpr ⟨fun x hx => ?_, insertIdx_findIdx_sorted hi ht htail⟩
      obtain rfl | hx := List.eq_or_mem_of_mem_insertIdx hx
      · exact hlt
      · exact hhead x hx

end

/-! ## Digits -/

/-- The number of digits to the base `base`, the highest first, behind `acc`. -/
def ofDigits (base acc : Nat) (ds : List Nat) : Nat := ds.foldl (fun a d => a * base + d) acc

theorem ofDigits_lt_iff {base : Nat} : ∀ {ds es : List Nat} {acc acc' : Nat},
    ds.length = es.length → (∀ d ∈ ds, d < base) → (∀ e ∈ es, e < base) →
    (ofDigits base acc ds < ofDigits base acc' es ↔ acc < acc' ∨ acc = acc' ∧ ds < es)
  | [], [], acc, acc', _, _, _ => by simp [ofDigits]
  | d :: ds, e :: es, acc, acc', h, hd, he => by
    have hdb := hd d List.mem_cons_self
    have heb := he e List.mem_cons_self
    have hlt : acc < acc' → acc * base + d < acc' * base + e := by
      intro hlt
      have := Nat.mul_le_mul_right base (show acc + 1 ≤ acc' from hlt)
      rw [Nat.add_mul] at this
      omega
    have hgt : acc' < acc → acc' * base + e < acc * base + d := by
      intro hlt
      have := Nat.mul_le_mul_right base (show acc' + 1 ≤ acc from hlt)
      rw [Nat.add_mul] at this
      omega
    have hcons : ofDigits base acc (d :: ds) < ofDigits base acc' (e :: es) ↔
        acc * base + d < acc' * base + e ∨ acc * base + d = acc' * base + e ∧ ds < es :=
      ofDigits_lt_iff (Nat.succ.inj h) (fun x hx => hd x (List.mem_cons_of_mem _ hx))
        fun x hx => he x (List.mem_cons_of_mem _ hx)
    rw [hcons, List.cons_lt_cons_iff]
    obtain hacc | rfl | hacc := Nat.lt_trichotomy acc acc'
    · exact iff_of_true (.inl (hlt hacc)) (.inl hacc)
    · simp
    · have := hgt hacc
      constructor <;> intro <;> omega

/-! ## Little-endian numbers -/

/-- In the lowest byte where they differ `a` has the lower one. -/
def LowBytesBefore (a b : Nat) : Prop :=
  ∃ k, a % 256 ^ k = b % 256 ^ k ∧ a / 256 ^ k % 256 < b / 256 ^ k % 256

theorem mod_pow_succ_eq_iff {a b k : Nat} : a % 256 ^ (k + 1) = b % 256 ^ (k + 1) ↔
    a % 256 = b % 256 ∧ a / 256 % 256 ^ k = b / 256 % 256 ^ k := by
  rw [Nat.pow_succ, Nat.mul_comm, Nat.mod_mul, Nat.mod_mul]
  omega

theorem leBytes_lt_iff : ∀ {w a b : Nat}, leBytes w a < leBytes w b ↔
    ∃ k < w, a % 256 ^ k = b % 256 ^ k ∧ a / 256 ^ k % 256 < b / 256 ^ k % 256
  | 0, a, b => by simp [leBytes]
  | w + 1, a, b => by
    have ha : (UInt8.ofNat a).toNat = a % 256 := UInt8.toNat_ofNat'
    have hb : (UInt8.ofNat b).toNat = b % 256 := UInt8.toNat_ofNat'
    have hdiv : ∀ n k, n / 256 / 256 ^ k = n / 256 ^ (k + 1) := by
      intro n k
      rw [Nat.div_div_eq_div_mul, Nat.pow_succ, Nat.mul_comm 256]
    rw [leBytes, leBytes, List.cons_lt_cons_iff, leBytes_lt_iff, UInt8.lt_iff_toNat_lt,
      ← UInt8.toNat_inj, ha, hb]
    constructor
    · intro h
      obtain h | ⟨heq, k, hk, hmod, hlt⟩ := h
      · exact ⟨0, Nat.succ_pos w, by simp [Nat.mod_one], by simpa using h⟩
      · exact ⟨k + 1, by omega, mod_pow_succ_eq_iff.mpr ⟨heq, hmod⟩, by rwa [← hdiv, ← hdiv]⟩
    · intro h
      obtain ⟨k, hk, hmod, hlt⟩ := h
      cases k with
      | zero => exact .inl (by simpa using hlt)
      | succ k =>
        obtain ⟨heq, hmod⟩ := mod_pow_succ_eq_iff.mp hmod
        exact .inr ⟨heq, k, by omega, hmod, by rwa [hdiv, hdiv]⟩

theorem leBytes_congr : ∀ {w a b : Nat}, a % 256 ^ w = b % 256 ^ w → leBytes w a = leBytes w b
  | 0, _, _, _ => rfl
  | w + 1, a, b, h => by
    obtain ⟨hlow, hhigh⟩ := mod_pow_succ_eq_iff.mp h
    have ha : (UInt8.ofNat a).toNat = a % 256 := UInt8.toNat_ofNat'
    have hb : (UInt8.ofNat b).toNat = b % 256 := UInt8.toNat_ofNat'
    have hbyte : UInt8.ofNat a = UInt8.ofNat b := UInt8.toNat_inj.mp (by rw [ha, hb, hlow])
    rw [leBytes, leBytes, leBytes_congr hhigh, hbyte]

/-- Of two numbers with different low bytes the byte that decides is among these. -/
theorem leBytes_lt_iff_of_ne {w a b : Nat} (hne : leBytes w a ≠ leBytes w b) :
    leBytes w a < leBytes w b ↔ LowBytesBefore a b := by
  rw [leBytes_lt_iff]
  constructor
  · intro h
    obtain ⟨k, -, h⟩ := h
    exact ⟨k, h⟩
  · intro h
    obtain ⟨k, hmod, hlt⟩ := h
    refine ⟨k, Nat.lt_of_not_le fun hle => hne (leBytes_congr ?_), hmod, hlt⟩
    have hdvd : 256 ^ w ∣ 256 ^ k := Nat.pow_dvd_pow 256 hle
    rw [← Nat.mod_mod_of_dvd a hdvd, hmod, Nat.mod_mod_of_dvd b hdvd]

end Lib.Span
