import Sqllite.Lib.Mixed
import Sqllite.L4Vdbe.Where

/-!
# What comparing values comes to (`types.rs`, `vdbe/exec.rs`)

`Value::compare` orders two values of one kind by themselves and two values of
different kinds by their texts; the comparator of `sort_buffer` goes by one column
after the other. The six comparison opcodes all go by `Value::compare`.

* `compare_trans_iff`: where `compare`, and with it the sort, has an order.
* `comparisons_consistent_iff`: where the six opcodes agree on one.
-/
namespace Sqllite
open Std Lib Lib.Run Lib.Span Lib.Machine

namespace Value

/-! ## The kinds -/

/-- The kind of a value: the arms of `compare` that do not go by the text. -/
def kind : Value → Nat
  | .null => 0
  | .integer _ => 1
  | .real _ => 2
  | .text _ => 3
  | .blob _ => 4

/-- What two values of different kinds are compared by: their texts, NULL in front. -/
def sortText (v : Value) : Option Bytes := if v.isNull then none else some (asBytes v.toText)

/-- `a` compares greater than `c`, which is of the same kind, and `b` of another kind has
a text from that of `a` on up to that of `c`. -/
def Crossed (a b c : Value) : Prop := Mixed.Crossed kind compare sortText a b c

theorem compare_across {a b : Value} (ha : a.kind ≠ 2) (hb : b.kind ≠ 2) (h : a.kind ≠ b.kind) :
    a.compare b = Ord.compare a.sortText b.sortText := by
  cases a <;> cases b <;> first | rfl | exact absurd rfl ha | exact absurd rfl hb | exact absurd rfl h

/-- Two values of one kind, reals apart. -/
theorem same_kind : ∀ {a b : Value}, a.kind = b.kind → a.kind ≠ 2 →
    (a = .null ∧ b = .null) ∨ (∃ i j, a = .integer i ∧ b = .integer j) ∨
      (∃ s t, a = .text s ∧ b = .text t) ∨ ∃ x y, a = .blob x ∧ b = .blob y
  | .null, .null, _, _ => .inl ⟨rfl, rfl⟩
  | .integer i, .integer j, _, _ => .inr (.inl ⟨i, j, rfl, rfl⟩)
  | .text s, .text t, _, _ => .inr (.inr (.inl ⟨s, t, rfl, rfl⟩))
  | .blob x, .blob y, _, _ => .inr (.inr (.inr ⟨x, y, rfl, rfl⟩))
  | .real _, _, _, hr => absurd rfl hr

theorem asBytes_injective {s t : String} (h : asBytes s = asBytes t) : s = t := by
  rw [← fromUtf8Lossy_asBytes s, h, fromUtf8Lossy_asBytes]

section
variable {a b c : Value}

theorem compare_swap_same (h : a.kind = b.kind) (hr : a.kind ≠ 2) :
    a.compare b = (b.compare a).swap := by
  obtain ⟨rfl, rfl⟩ | ⟨i, j, rfl, rfl⟩ | ⟨s, t, rfl, rfl⟩ | ⟨x, y, rfl, rfl⟩ := same_kind h hr
  · rfl
  · exact OrientedOrd.eq_swap
  · exact OrientedOrd.eq_swap
  · exact OrientedOrd.eq_swap

theorem compare_trans_same (hab : a.kind = b.kind) (hbc : b.kind = c.kind) (hr : a.kind ≠ 2)
    (h1 : (a.compare b).isLE) (h2 : (b.compare c).isLE) : (a.compare c).isLE := by
  have hbr : b.kind ≠ 2 := hab ▸ hr
  obtain ⟨rfl, rfl⟩ | ⟨i, j, rfl, rfl⟩ | ⟨s, t, rfl, rfl⟩ | ⟨x, y, rfl, rfl⟩ := same_kind hab hr
  · exact h2
  · obtain ⟨h, -⟩ | ⟨_, k, -, rfl⟩ | ⟨_, _, h, -⟩ | ⟨_, _, h, -⟩ := same_kind hbc hbr <;>
      first | exact TransOrd.isLE_trans h1 h2 | cases h
  · obtain ⟨h, -⟩ | ⟨_, _, h, -⟩ | ⟨_, u, -, rfl⟩ | ⟨_, _, h, -⟩ := same_kind hbc hbr <;>
      first | exact TransOrd.isLE_trans h1 h2 | cases h
  · obtain ⟨h, -⟩ | ⟨_, _, h, -⟩ | ⟨_, _, h, -⟩ | ⟨_, z, -, rfl⟩ := same_kind hbc hbr <;>
      first | exact TransOrd.isLE_trans h1 h2 | cases h

theorem eq_of_compare_same (h : a.kind = b.kind) (hr : a.kind ≠ 2) (heq : a.compare b = .eq) :
    a = b := by
  obtain ⟨rfl, rfl⟩ | ⟨i, j, rfl, rfl⟩ | ⟨s, t, rfl, rfl⟩ | ⟨x, y, rfl, rfl⟩ := same_kind h hr
  · rfl
  · exact congrArg Value.integer (LawfulEqOrd.eq_of_compare heq)
  · exact congrArg Value.text (asBytes_injective (LawfulEqOrd.eq_of_compare heq))
  · exact congrArg Value.blob (LawfulEqOrd.eq_of_compare heq)

end

section
variable {S : Value → Prop}

/-- The values of `S`, compared. -/
def compareIn (S : Value → Prop) (a b : { v // S v }) : Ordering := a.1.compare b.1

theorem kind_ne_real (hS : ∀ r, ¬ S (.real r)) : ∀ v : { v // S v }, v.1.kind ≠ 2
  | ⟨.real r, h⟩ => fun _ => hS r h
  | ⟨.null, _⟩ | ⟨.integer _, _⟩ | ⟨.text _, _⟩ | ⟨.blob _, _⟩ => fun h => by cases h

theorem mixes_compare (hS : ∀ r, ¬ S (.real r)) :
    Mixed.Mixes (fun v : { v // S v } => v.1.kind) (compareIn S) (fun v => v.1.sortText)
      (compareIn S) where
  within _ _ _ := rfl
  across a b h := compare_across (kind_ne_real hS a) (kind_ne_real hS b) h

theorem native_compare (hS : ∀ r, ¬ S (.real r)) :
    Mixed.Native (fun v : { v // S v } => v.1.kind) (compareIn S) (fun v => v.1.sortText) where
  swap a _ h := compare_swap_same h (kind_ne_real hS a)
  trans a _ _ hab hbc := compare_trans_same hab hbc (kind_ne_real hS a)
  key_eq a _ h heq := congrArg sortText (eq_of_compare_same h (kind_ne_real hS a) heq)

/-- `compare` is a total preorder on values without reals exactly if none of them cross. -/
theorem compareIn_trans_iff (hS : ∀ r, ¬ S (.real r)) :
    TransCmp (compareIn S) ↔ ∀ a b c, S a → S b → S c → ¬ Crossed a b c := by
  rw [Mixed.trans_iff (mixes_compare hS) (native_compare hS)]
  constructor
  · intro h a b c ha hb hc hx
    exact h ⟨a, ha⟩ ⟨b, hb⟩ ⟨c, hc⟩ ⟨hx.same, hx.other, hx.left, hx.right, hx.behind⟩
  · intro h a b c hx
    exact h a.1 b.1 c.1 a.2 b.2 c.2 ⟨hx.same, hx.other, hx.left, hx.right, hx.behind⟩

/-- NULL crosses nothing. -/
theorem Crossed.not_null {a b c : Value} (hx : Crossed a b c) :
    a ≠ .null ∧ b ≠ .null ∧ c ≠ .null := by
  have hends : a = .null → c = .null → False := by
    intro ha hc
    have hbehind := hx.behind
    rw [ha, hc] at hbehind
    cases hbehind
  have hkind : ∀ {v : Value}, v.kind = Value.null.kind → v = .null := by
    intro v hv
    cases v <;> first | rfl | exact absurd hv (Nat.succ_ne_zero _)
  refine ⟨fun ha => hends ha (hkind (ha ▸ hx.same.symm)), fun hb => ?_,
    fun hc => hends (hkind (hc ▸ hx.same)) hc⟩
  subst hb
  have hleft := hx.left
  have ha : a ≠ .null := fun ha => hx.other (congrArg kind ha)
  cases a <;> first | exact ha rfl | exact absurd hleft Bool.false_ne_true

end

end Value

/-! ## Sorting -/

/-- How two rows compare by one key. -/
def compareColumn (key : SortKey) (a b : List Value) : Ordering :=
  let ord := (a[key.colIndex]?.getD .null).compare (b[key.colIndex]?.getD .null)
  if key.desc then ord.swap else ord

theorem compareRows_cons (key : SortKey) (keys : List SortKey) (a b : List Value) :
    compareRows (key :: keys) a b = (compareColumn key a b).then (compareRows keys a b) := by
  change (if compareColumn key a b ≠ .eq then compareColumn key a b else compareRows keys a b) = _
  cases compareColumn key a b <;> rfl

/-- Rows over values of `S`. -/
abbrev RowIn (S : Value → Prop) := { row : List Value // ∀ v ∈ row, S v }

theorem getElem?_in {S : Value → Prop} (row : RowIn S) (i : Nat) :
    S (row.1[i]?.getD .null) ∨ row.1[i]?.getD .null = .null := by
  cases hi : row.1[i]? with
  | none => exact .inr rfl
  | some v => exact .inl (row.2 v (List.mem_of_getElem? hi))

/-- Rows over values of `S`, compared as `sort_buffer` does. -/
def compareRowsIn (S : Value → Prop) (keys : List SortKey) (a b : RowIn S) : Ordering :=
  compareRows keys a.1 b.1

section
variable {S : Value → Prop} (h : TransCmp (Value.compareIn fun v => S v ∨ v = .null))
include h

theorem compareColumn_trans (key : SortKey) :
    TransCmp fun a b : RowIn S => compareColumn key a.1 b.1 := by
  have hcolumn := Mixed.trans_comap h fun row : RowIn S =>
    ⟨row.1[key.colIndex]?.getD .null, getElem?_in row key.colIndex⟩
  unfold compareColumn
  cases key.desc with
  | false => exact hcolumn
  | true => exact Mixed.trans_swap hcolumn

/-- Where `compare` has an order, so has the comparator: one column, then the rest. -/
theorem compareRows_trans : ∀ keys, TransCmp (compareRowsIn S keys)
  | [] => { eq_swap := rfl, isLE_trans := fun _ _ => rfl }
  | key :: keys => by
    have hlex : compareRowsIn S (key :: keys) =
        compareLex (fun a b => compareColumn key a.1 b.1) (compareRowsIn S keys) := by
      funext a b
      exact compareRows_cons key keys a.1 b.1
    have hone := compareColumn_trans h key
    have hrest := compareRows_trans keys
    rw [hlex]
    infer_instance

end

/-- On values without reals `compare` is a total preorder, and with it the comparator of
every sort, exactly if no text of another kind lies between those of two values of one
kind that compare the other way round. -/
theorem compare_trans_iff (S : Value → Prop) (hS : ∀ r, ¬ S (.real r)) :
    (TransCmp (Value.compareIn S) ∧ ∀ keys, TransCmp (compareRowsIn S keys)) ↔
      ∀ a b c, S a → S b → S c → ¬ Value.Crossed a b c := by
  rw [← Value.compareIn_trans_iff hS]
  refine ⟨And.left, fun h => ⟨h, compareRows_trans ?_⟩⟩
  have hnull : ∀ r, ¬ (S (.real r) ∨ Value.real r = .null) := by
    intro r hr
    obtain hr | hr := hr
    · exact hS r hr
    · cases hr
  rw [Value.compareIn_trans_iff hnull]
  intro a b c ha hb hc hx
  obtain ⟨hna, hnb, hnc⟩ := hx.not_null
  exact (Value.compareIn_trans_iff hS).mp h a b c (ha.resolve_right hna) (hb.resolve_right hnb)
    (hc.resolve_right hnc) hx

theorem compare_trans_iff_integers : TransCmp (Value.compareIn fun v => ∃ i, v = .integer i) ∧
    ∀ keys, TransCmp (compareRowsIn (fun v => ∃ i, v = .integer i) keys) := by
  refine (compare_trans_iff _ ?_).mpr ?_
  · intro r h
    obtain ⟨i, h⟩ := h
    cases h
  · intro a b c ha hb hc hx
    obtain ⟨i, rfl⟩ := ha
    obtain ⟨j, rfl⟩ := hb
    exact hx.other rfl

/-- 10 is in front of `'9'`, `'9'` equal to 9, and 9 in front of 10. -/
theorem compare_goes_round : Value.compare (.integer 10) (.text "9") = .lt ∧
    Value.compare (.text "9") (.integer 9) = .eq ∧ Value.compare (.integer 9) (.integer 10) = .lt ∧
    ¬ ∀ a b c : Value, (a.compare b).isLE → (b.compare c).isLE → (a.compare c).isLE := by
  have hlt : Value.compare (.integer 10) (.text "9") = .lt := by decide +kernel
  have heq : Value.compare (.text "9") (.integer 9) = .eq := by decide +kernel
  have hgt : Value.compare (.integer 10) (.integer 9) = .gt := by decide +kernel
  refine ⟨hlt, heq, by decide +kernel, fun h => ?_⟩
  have hle := h _ _ _ (Ordering.isLE_of_eq_lt hlt) (Ordering.isLE_of_eq_eq heq)
  rw [hgt] at hle
  cases hle

/-! ## The comparison opcodes -/

theorem partialCmp_comm {x y : Float} (h : (partialCmp x y).getD .eq = .eq) :
    (partialCmp y x).getD .eq = .eq := by
  unfold partialCmp at h ⊢
  by_cases hxy : x < y
  · rw [if_pos hxy] at h
    cases h
  · by_cases hyx : y < x
    · rw [if_neg hxy, if_pos hyx] at h
      cases h
    · rw [if_neg hyx, if_neg hxy]
      split <;> rfl

theorem ord_eq_comm {α : Type} [Ord α] [OrientedOrd α] {x y : α} (h : compare x y = .eq) :
    compare y x = .eq := by
  rw [OrientedOrd.eq_swap, h]
  rfl

theorem Value.compare_eq_comm {a b : Value} (h : a.compare b = .eq) : b.compare a = .eq := by
  cases a <;> cases b <;> first
    | exact h
    | exact partialCmp_comm h
    | exact ord_eq_comm h
    | exact absurd h (fun h => Ordering.noConfusion h)

namespace Vdbe

section
variable [Unicode] (fuel : Nat) (s : Machine) (r : Nat)

/-- What an opcode on two registers leaves in its target register `r`. -/
def stored (op : Opcode) (x y : Int) : Option Value :=
  match execute fuel { opcode := op, p1 := r, p2 := x, p3 := y } s with
  | .ok .continue t => some (getReg t r)
  | _ => none

/-- The opcode finds its comparison true. -/
def finds (op : Opcode) (x y : Int) : Bool := (stored fuel s r op x y).any Value.nonzero

/-- The six comparisons of two registers go by one ordering, and are NULL with NULL. -/
structure Consistent (x y : Int) : Prop where
  unknown : (getReg s x).isNull = true ∨ (getReg s y).isNull = true →
    ∀ op ∈ [Opcode.lt, .le, .gt, .ge, .eq, .ne], stored fuel s r op x y = some .null
  known : (getReg s x).isNull = false → (getReg s y).isNull = false →
    finds fuel s r .ge x y = !finds fuel s r .lt x y ∧
    finds fuel s r .le x y = !finds fuel s r .gt x y ∧
    finds fuel s r .ne x y = !finds fuel s r .eq x y ∧
    finds fuel s r .le x y = (finds fuel s r .lt x y || finds fuel s r .eq x y) ∧
    finds fuel s r .lt x y = finds fuel s r .gt y x

variable {fuel s r} {op : Opcode} {x y : Int}

theorem stored_logic (h : isLogic op = true) :
    stored fuel s r op x y = some (logic op (getReg s x) (getReg s y)) := by
  unfold stored
  rw [execute_logic h, answer_nat]
  dsimp only
  rw [getReg_nat, Machine.moveTo_regs, regAt_putReg_self]

theorem finds_compare (h : op ∈ [Opcode.lt, .le, .gt, .ge, .eq, .ne]) :
    finds fuel s r op x y = compareCond op ((getReg s x).compare (getReg s y)) := by
  have hlogic : isLogic op = true := by
    revert op
    decide
  have hcompare : logic op (getReg s x) (getReg s y) =
      Value.ofBool (compareCond op ((getReg s x).compare (getReg s y))) := by
    revert op
    simp [logic]
  unfold finds
  rw [stored_logic hlogic, hcompare, Option.any_some, Value.nonzero_ofBool]

/-- The six opcodes agree exactly on equal values other than NULL. -/
theorem comparisons_consistent_iff (fuel : Nat) (s : Machine) (r : Nat) (x y : Int) :
    Consistent fuel s r x y ↔ (getReg s x).isNull = false ∧ (getReg s y).isNull = false ∧
      (getReg s x).compare (getReg s y) = .eq := by
  constructor
  · intro h
    have hstored : stored fuel s r .lt x y ≠ some .null := by
      rw [stored_logic rfl]
      exact fun h => by cases h
    have hx : (getReg s x).isNull = false := by
      by_contra hx
      exact hstored (h.unknown (.inl (by simpa using hx)) .lt (by simp))
    have hy : (getReg s y).isNull = false := by
      by_contra hy
      exact hstored (h.unknown (.inr (by simpa using hy)) .lt (by simp))
    refine ⟨hx, hy, ?_⟩
    obtain ⟨hge, hle, -⟩ := h.known hx hy
    rw [finds_compare (by simp), finds_compare (by simp)] at hge hle
    cases hc : (getReg s x).compare (getReg s y) with
    | lt => rw [hc] at hge; cases hge
    | eq => rfl
    | gt => rw [hc] at hle; cases hle
  · intro ⟨hx, hy, hc⟩
    refine ⟨fun h => ?_, fun _ _ => ?_⟩
    · rw [hx, hy] at h
      exact absurd h (by decide)
    · have hback := Value.compare_eq_comm hc
      simp only [finds_compare, List.mem_cons, true_or, or_true, hc, hback]
      decide

end

/-- 1 is both less than 2 and not less; a comparison with NULL is false, not NULL. -/
theorem comparisons_disagree : let _ := Unicode.ascii
    let s := (fresh { insns := [], nReg := 0, readOnly := true } oneRowDb).moveTo 0
      [.integer 1, .integer 2, .null]
    finds 0 s 3 .lt 0 1 = true ∧ finds 0 s 3 .ge 0 1 = true ∧
      stored 0 s 3 .eq 0 2 = some (.integer 0) ∧ ¬ Consistent 0 s 3 0 1 := by
  intro _ s
  have hlt : finds 0 s 3 .lt 0 1 = true := by
    rw [finds_compare (by simp)]
    decide
  have hge : finds 0 s 3 .ge 0 1 = true := by
    rw [finds_compare (by simp)]
    decide
  refine ⟨hlt, hge, ?_, fun h => ?_⟩
  · rw [stored_logic rfl]
    decide
  · have := (h.known rfl rfl).1
    rw [hlt, hge] at this
    cases this

-- An integer and a text go by their texts.
example : (Value.integer 10).compare (.text "9") = .lt ∧ Value.null.compare (.integer 10) = .lt := by
  decide +kernel

end Vdbe

end Sqllite
