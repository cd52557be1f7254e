import Mathlib.Order.Filter.AtTopBot.Basic
import Mathlib.Order.Filter.Finite

/-!
# The flow of control in code with jumps

Of an instruction it counts whether control falls to the next one and where it may jump
to (`Control`). `Edge` is one move, `Walk` a path from the beginning with the addresses
behind it. In `Closed` code a jump goes forward, inside the code or right behind it, or
back to the address behind the head of its loop; it is put together from straight code,
guards and loops.

An infinite path in code that is closed goes back in some loop for ever, and from some
time on it stays behind the head of that loop (`Closed.endless`).
-/
namespace Lib.Flow

open Filter

variable {ι : Type}

/-- How control goes on behind an instruction. -/
structure Control (ι : Type) where
  falls : ι → Bool
  target : ι → Option Nat

namespace Control

variable (c : Control ι)

/-- Control goes from address `i` to address `j`. -/
def Edge (code : List ι) (i j : Nat) : Prop :=
  ∃ a, code[i]? = some a ∧ (c.falls a = true ∧ j = i + 1 ∨ c.target a = some j)

/-- A path from the beginning to an address, with the addresses in front of it. -/
inductive Walk (code : List ι) : Nat → List Nat → Prop
  | start : Walk code 0 []
  | next {i j : Nat} {behind : List Nat} : Walk code i behind → c.Edge code i j → Walk code j (i :: behind)

/-- Control falls through the code. -/
def Straight (code : List ι) : Prop := ∀ a ∈ code, c.falls a = true ∧ c.target a = none

/-- The jumps of code at address `start` stay in it: they go forward, or back to the
instruction behind the head of a loop. -/
def Closed (heads : ι → ι → Prop) (start : Nat) (code : List ι) : Prop :=
  ∀ i a t, code[i]? = some a → c.target a = some t →
    start + i < t ∧ t ≤ start + code.length ∨
      ∃ k h, k < i ∧ t = start + k + 1 ∧ code[k]? = some h ∧ heads h a

variable {c}

/-! ## Closed code -/

section
variable {heads : ι → ι → Prop} {start : Nat} {p q : List ι} {a h : ι}

theorem Straight.closed (hp : c.Straight p) : c.Closed heads start p := by
  intro i a t hi ht
  have hnone := (hp a (List.mem_of_getElem? hi)).2
  rw [ht] at hnone
  cases hnone

theorem Straight.append (hp : c.Straight p) (hq : c.Straight q) : c.Straight (p ++ q) := by
  intro a ha
  rcases List.mem_append.mp ha with ha | ha
  · exact hp a ha
  · exact hq a ha

/-- Two pieces of code, one behind the other. The first one may jump over the second one. -/
theorem Closed.append_of {last : Nat} (hlast : start + p.length + q.length = last)
    (hp : ∀ i a t, p[i]? = some a → c.target a = some t → start + i < t ∧ t ≤ last ∨
      ∃ k h, k < i ∧ t = start + k + 1 ∧ p[k]? = some h ∧ heads h a)
    (hq : c.Closed heads (start + p.length) q) : c.Closed heads start (p ++ q) := by
  intro i a t hi ht
  rw [List.length_append]
  by_cases hlt : i < p.length
  · rw [List.getElem?_append_left hlt] at hi
    rcases hp i a t hi ht with hfwd | ⟨k, h, hk, rfl, hh, hheads⟩
    · exact .inl ⟨hfwd.1, by omega⟩
    · exact .inr ⟨k, h, hk, rfl, by rwa [List.getElem?_append_left (by omega)], hheads⟩
  · rw [List.getElem?_append_right (by omega)] at hi
    rcases hq _ a t hi ht with hfwd | ⟨k, h, hk, rfl, hh, hheads⟩
    · exact .inl ⟨by omega, by omega⟩
    · refine .inr ⟨p.length + k, h, by omega, by omega, ?_, hheads⟩
      rwa [List.getElem?_append_right (by omega), Nat.add_sub_cancel_left]

theorem Closed.append (hp : c.Closed heads start p) (hq : c.Closed heads (start + p.length) q) :
    c.Closed heads start (p ++ q) := by
  refine Closed.append_of rfl (fun i a t hi ht => ?_) hq
  rcases hp i a t hi ht with hfwd | hback
  · exact .inl ⟨hfwd.1, by omega⟩
  · exact .inr hback

/-- Code in front of a jump over the rest. -/
theorem Closed.guard (hp : c.Closed heads start p) (ha : c.target a = some (start + p.length + 1 + q.length))
    (hq : c.Closed heads (start + p.length + 1) q) : c.Closed heads start (p ++ a :: q) := by
  have hlen : (p ++ [a]).length = p.length + 1 := by rw [List.length_append, List.length_singleton]
  rw [List.append_cons]
  refine Closed.append_of rfl (fun i b t hi ht => ?_) (by rwa [hlen, ← Nat.add_assoc])
  by_cases hlt : i < p.length
  · rw [List.getElem?_append_left hlt] at hi
    rcases hp i b t hi ht with hfwd | ⟨k, h, hk, rfl, hh, hheads⟩
    · exact .inl ⟨hfwd.1, by omega⟩
    · exact .inr ⟨k, h, hk, rfl, by rwa [List.getElem?_append_left (by omega)], hheads⟩
  · obtain rfl : i = p.length := by
      have := (List.getElem?_eq_some_iff.mp hi).1
      omega
    rw [List.getElem?_concat_length] at hi
    cases hi
    rw [ha] at ht
    cases ht
    exact .inl ⟨by omega, by omega⟩

/-- A loop: its head may jump behind it, its last instruction goes back behind the head. -/
theorem Closed.loop (hh : ∀ t, c.target h = some t → t = start + p.length + 2) (hp : c.Closed heads (start + 1) p)
    (ha : ∀ t, c.target a = some t → t = start + 1) (hheads : heads h a) :
    c.Closed heads start (h :: (p ++ [a])) := by
  intro i b t hi ht
  rw [List.length_cons, List.length_append, List.length_singleton]
  cases i with
  | zero =>
    cases hi
    have := hh t ht
    exact .inl ⟨by omega, by omega⟩
  | succ i =>
    rw [List.getElem?_cons_succ] at hi
    by_cases hlt : i < p.length
    · rw [List.getElem?_append_left hlt] at hi
      rcases hp i b t hi ht with hfwd | ⟨k, g, hk, rfl, hg, hgb⟩
      · exact .inl ⟨by omega, by omega⟩
      · refine .inr ⟨k + 1, g, by omega, by omega, ?_, hgb⟩
        rwa [List.getElem?_cons_succ, List.getElem?_append_left (by omega)]
    · obtain rfl : i = p.length := by
        have := (List.getElem?_eq_some_iff.mp hi).1
        simp only [List.length_append, List.length_singleton] at this
        omega
      rw [List.getElem?_concat_length] at hi
      cases hi
      exact .inr ⟨0, h, by omega, ha t ht, rfl, hheads⟩

end

/-! ## Paths -/

section
variable {code : List ι} {i j : Nat} {behind : List Nat}

/-- A path behind an address has passed it, where nothing in front of it jumps over it. -/
theorem Walk.through {g : Nat} (hjump : ∀ (i : Nat) (a : ι) (t : Nat), i < g → code[i]? = some a → c.target a = some t → t ≤ g)
    (h : c.Walk code i behind) (hi : g < i) : g ∈ behind := by
  induction h with
  | start => cases hi
  | @next i j behind _ hedge ih =>
    rcases Nat.lt_trichotomy i g with hlt | rfl | hgt
    · obtain ⟨a, ha, ⟨-, rfl⟩ | htarget⟩ := hedge
      · omega
      · have := hjump i a j hlt ha htarget
        omega
    · exact List.mem_cons_self
    · exact List.mem_cons_of_mem _ (ih hgt)

/-- A path that has left straight code at the beginning has passed all of it. -/
theorem Walk.passes {m k : Nat} (hstraight : c.Straight (code.take m)) (h : c.Walk code i behind)
    (hk : k < m) (hki : k < i) : k ∈ behind := by
  refine h.through (fun i a t hi ha ht => ?_) hki
  have hmem : a ∈ code.take m := List.mem_of_getElem? (List.getElem?_take_of_lt (Nat.lt_trans hi hk) ▸ ha)
  rw [(hstraight a hmem).2] at ht
  cases ht

/-- An address that nothing jumps to is reached from the one in front of it. -/
theorem Walk.front {x : Nat} (hno : ∀ (i : Nat) (a : ι), code[i]? = some a → c.target a ≠ some (x + 1)) (h : c.Walk code i behind)
    (hx : x + 1 ∈ i :: behind) : x ∈ behind := by
  induction h with
  | start =>
    rcases List.mem_cons.mp hx with hx | hx
    · cases hx
    · cases hx
  | @next i j behind _ hedge ih =>
    rcases List.mem_cons.mp hx with rfl | hx
    · obtain ⟨a, ha, ⟨-, heq⟩ | htarget⟩ := hedge
      · rw [Nat.succ.inj heq]
        exact List.mem_cons_self
      · exact absurd htarget (hno i a ha)
    · exact List.mem_cons_of_mem _ (ih hx)

/-- A path that has come behind an address stays there, where nothing there jumps in front of it. -/
theorem Walk.past {m : Nat} (hstay : ∀ (i : Nat) (a : ι) (t : Nat), m ≤ i → code[i]? = some a → c.target a = some t → m < t)
    (h : c.Walk code i behind) {k : Nat} (hk : k ∈ behind) (hm : m ≤ k) : m < i := by
  induction h with
  | start => cases hk
  | @next i j behind _ hedge ih =>
    have hi : m ≤ i := by
      rcases List.mem_cons.mp hk with rfl | hk
      · exact hm
      · exact Nat.le_of_lt (ih hk)
    obtain ⟨a, ha, ⟨-, rfl⟩ | htarget⟩ := hedge
    · omega
    · exact hstay i a j hi ha htarget

/-- Control goes back in loops only. -/
theorem Closed.back {heads : ι → ι → Prop} (hclosed : c.Closed heads 0 code) (hedge : c.Edge code i j) (hback : j ≤ i) :
    ∃ k h a, j = k + 1 ∧ code[k]? = some h ∧ code[i]? = some a ∧ heads h a := by
  obtain ⟨a, ha, ⟨-, rfl⟩ | htarget⟩ := hedge
  · omega
  · rcases hclosed i a j ha htarget with hfwd | ⟨k, h, -, rfl, hh, hheads⟩
    · omega
    · exact ⟨k, h, a, by omega, hh, ha, hheads⟩

end

/-! ## Infinite paths -/

theorem frequently_mem {p : Nat → Nat} {b : Nat} {Q : Nat → Prop} (hp : ∀ n, p n < b) (hQ : ∃ᶠ n in atTop, Q n) :
    ∃ a < b, ∃ᶠ n in atTop, p n = a ∧ Q n := by
  by_contra hnone
  have hall : ∀ a ∈ {i | i < b}, ∀ᶠ n in atTop, ¬ (p n = a ∧ Q n) := fun a ha =>
    not_frequently.mp fun hfreq => hnone ⟨a, ha, hfreq⟩
  have hnever := (eventually_all_finite (Set.finite_lt_nat b)).mpr hall
  refine hQ (hnever.mono fun n hn hq => ?_)
  exact hn (p n) (hp n) ⟨rfl, hq⟩

/-- Numbers that never grow fall finitely often. -/
theorem not_frequently_lt {f : Nat → Nat} (hle : ∀ᶠ n in atTop, f (n + 1) ≤ f n) :
    ¬ ∃ᶠ n in atTop, f (n + 1) < f n := by
  intro hlt
  obtain ⟨b, hb⟩ := eventually_atTop.mp hle
  have hmono : ∀ n m, b ≤ n → n ≤ m → f m ≤ f n := by
    intro n m hn hnm
    induction m, hnm using Nat.le_induction with
    | base => exact Nat.le_refl _
    | succ m hm ih => exact Nat.le_trans (hb m (by omega)) ih
  have hnone : ∀ v n, b ≤ n → f n = v → False := by
    intro v
    induction v using Nat.strong_induction_on with
    | h v ih =>
      intro n hn hv
      obtain ⟨m, hm, hfall⟩ := frequently_atTop.mp hlt n
      have hbelow := hmono n m hn hm
      exact ih (f (m + 1)) (by omega) (m + 1) (by omega) rfl
  exact hnone (f b) b (Nat.le_refl _) rfl

/-- A bounded path comes to some lowest address again and again. It comes there from the
address or from behind it. -/
theorem exists_lowest {p : Nat → Nat} {b : Nat} (hp : ∀ n, p n < b) :
    ∃ t i, t ≤ i ∧ (∃ᶠ n in atTop, p n = i ∧ p (n + 1) = t) ∧ ∀ᶠ n in atTop, t ≤ p n := by
  have hsome : ∃ t, ∃ᶠ n in atTop, p n = t := by
    obtain ⟨t, -, ht⟩ := frequently_mem (Q := fun _ => True) hp (Frequently.of_forall fun _ => trivial)
    exact ⟨t, ht.mono fun n hn => hn.1⟩
  classical
  have hlow : ∀ᶠ n in atTop, Nat.find hsome ≤ p n := by
    have hall : ∀ a ∈ {i | i < Nat.find hsome}, ∀ᶠ n in atTop, ¬ p n = a :=
      fun a ha => not_frequently.mp (Nat.find_min hsome ha)
    refine ((eventually_all_finite (Set.finite_lt_nat _)).mpr hall).mono fun n hn => ?_
    exact Nat.le_of_not_lt fun hlt => hn (p n) hlt rfl
  have hback : ∃ᶠ n in atTop, p (n + 1) = Nat.find hsome := by
    rw [frequently_atTop]
    intro m
    obtain ⟨n, hn, heq⟩ := frequently_atTop.mp (Nat.find_spec hsome) (m + 1)
    obtain ⟨n, rfl⟩ := Nat.exists_eq_succ_of_ne_zero (show n ≠ 0 by omega)
    exact ⟨n, by omega, heq⟩
  obtain ⟨i, -, hi⟩ := frequently_mem hp (hback.and_eventually hlow)
  obtain ⟨n, heq, -, hle⟩ := hi.exists
  exact ⟨Nat.find hsome, i, heq ▸ hle, hi.mono fun n hn => ⟨hn.1, hn.2.1⟩, hlow⟩

/-- A path that does not end goes back in some loop for ever, and stays behind its head. -/
theorem Closed.endless {heads : ι → ι → Prop} {code : List ι} (hclosed : c.Closed heads 0 code) {p : Nat → Nat}
    (hp : ∀ n, c.Edge code (p n) (p (n + 1))) : ∃ k i h a, k < i ∧ code[k]? = some h ∧ code[i]? = some a ∧
      heads h a ∧ (∃ᶠ n in atTop, p n = i ∧ p (n + 1) = k + 1) ∧ ∀ᶠ n in atTop, k < p n := by
  have hbound : ∀ n, p n < code.length := fun n => by
    obtain ⟨a, ha, -⟩ := hp n
    exact (List.getElem?_eq_some_iff.mp ha).1
  obtain ⟨t, i, hle, hback, hlow⟩ := exists_lowest hbound
  obtain ⟨n, hi, ht⟩ := hback.exists
  have hedge := hp n
  rw [hi, ht] at hedge
  obtain ⟨k, h, a, rfl, hh, ha, hheads⟩ := hclosed.back hedge hle
  exact ⟨k, i, h, a, by omega, hh, ha, hheads, hback, hlow⟩

end Control

end Lib.Flow
