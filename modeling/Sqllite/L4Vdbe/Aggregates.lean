import Mathlib.Algebra.Order.BigOperators.Group.List
import Sqllite.Lib.Binary64
import Sqllite.Lib.Joined
import Sqllite.L4Vdbe.SelectList

/-!
# What the aggregates come to

COUNT, SUM, MIN and MAX of a column of integers and NULLs, as SQL has them (`Right`),
and what the accumulators of `apply_group_by` make of it. SUM is a sum of doubles,
exact for whole numbers that a double holds.

* `right_iff`: when an aggregate is right.
* `aggregates_iff`: when all rows that a statement makes of its scan are right.
-/
namespace Sqllite
open Lib Lib.Run Lib.Machine Lib.Groups Lib.Joined Lib.Binary64

/-- The value is an integer or NULL. -/
def Value.IntOrNull (v : Value) : Prop := v = .null ∨ ∃ i, v = .integer i

/-- The integer, none for other values. -/
def Value.int? : Value → Option Int64
  | .integer i => some i
  | _ => none

/-- The integers of a column, its NULLs left out. -/
def ints (arg : Option ColumnRef) (tuples : List (List (List Value))) : List Int64 :=
  tuples.filterMap fun t => (arg.map (·.value t)).bind Value.int?

/-- The value is this whole number. -/
def Value.IsNumber (v : Value) (n : Int) : Prop :=
  match v with
  | .integer i => i.toInt = n
  | .real bits => bitsValue bits = some (n : ℚ)
  | _ => False

/-- The one of the integers that is as `le` says to all of them, NULL where there is none. -/
def Extremum (le : Int64 → Int64 → Prop) (l : List Int64) (v : Value) : Prop :=
  l = [] ∧ v = .null ∨ ∃ m ∈ l, v = .integer m ∧ ∀ i ∈ l, le m i

/-- The value is what SQL says of the aggregate: the number of rows, or of those where
the column is not NULL; the sum of the values, the least and the greatest, NULL where
there is none. -/
def Right (func : AggFunc) (arg : Option ColumnRef) (tuples : List (List (List Value)))
    (v : Value) : Prop :=
  match func, arg with
  | .count, none => v.IsNumber tuples.length
  | .count, some c => v.IsNumber (tuples.countP fun t => c.value t ≠ .null)
  | .sum, _ => if ints arg tuples = [] then v = .null
      else v.IsNumber ((ints arg tuples).map Int64.toInt).sum
  | .min, _ => Extremum (fun a b => a.toInt ≤ b.toInt) (ints arg tuples) v
  | .max, _ => Extremum (fun a b => b.toInt ≤ a.toInt) (ints arg tuples) v

/-- Where the accumulators are right: COUNT of a column where the column has no NULL, SUM
where it has a value. -/
def Faithful (func : AggFunc) (arg : Option ColumnRef) (tuples : List (List (List Value))) : Prop :=
  match func, arg with
  | .count, some c => ∀ t ∈ tuples, c.value t ≠ .null
  | .sum, _ => ints arg tuples ≠ []
  | _, _ => True

/-- The column holds integers and NULLs. -/
def IntsOnly (arg : Option ColumnRef) (tuples : List (List (List Value))) : Prop :=
  ∀ c, arg = some c → ∀ t ∈ tuples, (c.value t).IntOrNull

/-- All partial sums stay below 2^53 in magnitude. -/
def PartialSums (l : List Int64) : Prop :=
  ∀ l', l' <+: l → ((l'.map Int64.toInt).sum).natAbs < 2 ^ 53

/-- A double holds each of the integers. -/
def Doubles (l : List Int64) : Prop := ∀ i ∈ l, Representable i.toInt

/-! ## The accumulators -/

section
variable {arg : Option ColumnRef} {tuples : List (List (List Value))} {t : List (List Value)}

theorem ints_append : ints arg (tuples ++ [t]) = ints arg tuples ++ ints arg [t] := by
  unfold ints
  rw [List.filterMap_append]

theorem IntsOnly.init (h : IntsOnly arg (tuples ++ [t])) : IntsOnly arg tuples :=
  fun c hc t' ht' => h c hc t' (List.mem_append_left _ ht')

/-- The last row: no column, NULL, or an integer. -/
theorem IntsOnly.last (h : IntsOnly arg (tuples ++ [t])) :
    (arg.map (·.value t) = none ∨ arg.map (·.value t) = some .null) ∧ ints arg [t] = [] ∨
      ∃ i, arg.map (·.value t) = some (.integer i) ∧ ints arg [t] = [i] := by
  cases arg with
  | none => exact .inl ⟨.inl rfl, rfl⟩
  | some c =>
    cases h c rfl t (List.mem_append_right _ List.mem_cons_self) with
    | inl hnull => exact .inl ⟨.inr (congrArg some hnull), by simp [ints, hnull, Value.int?]⟩
    | inr hint =>
      obtain ⟨i, hi⟩ := hint
      exact .inr ⟨i, congrArg some hi, by simp [ints, hi, Value.int?]⟩

/-- The state of an aggregate behind these rows. -/
def stateOf (func : AggFunc) (arg : Option ColumnRef) (tuples : List (List (List Value))) : AggState :=
  tuples.foldl (fun st t => st.step func (arg.map (·.value t))) AggState.new

theorem stateOf_append (func : AggFunc) : stateOf func arg (tuples ++ [t]) =
    (stateOf func arg tuples).step func (arg.map (·.value t)) := by
  unfold stateOf
  rw [List.foldl_append]
  rfl

/-- A row without a value is only counted. -/
theorem step_skip {func : AggFunc} {st : AggState} {val : Option Value}
    (h : val = none ∨ val = some .null) :
    st.step func val = { st with count := st.count + 1 } := by
  cases h with
  | inl h => rw [h]; cases func <;> rfl
  | inr h => rw [h]; cases func <;> rfl

/-! ### Extrema -/

/-- What is kept of the integers so far. -/
def Kept (le : Int64 → Int64 → Prop) (l : List Int64) (old : Option Value) : Prop :=
  l = [] ∧ old = none ∨ ∃ m ∈ l, old = some (.integer m) ∧ ∀ i ∈ l, le m i

theorem Kept.extremum {le : Int64 → Int64 → Prop} {l : List Int64} {old : Option Value}
    (h : Kept le l old) : Extremum le l (old.getD .null) := by
  cases h with
  | inl h =>
    obtain ⟨hnil, hold⟩ := h
    exact .inl ⟨hnil, by rw [hold]; rfl⟩
  | inr h =>
    obtain ⟨m, hm, hold, hall⟩ := h
    exact .inr ⟨m, hm, by rw [hold]; rfl, hall⟩

/-- One more integer replaces the one kept where it compares as `o`. -/
theorem Kept.best {le : Int64 → Int64 → Prop} {o : Ordering} {l : List Int64} {old : Option Value}
    {i : Int64} (htotal : ∀ a b : Int64, if Ord.compare a b = o then le a b else le b a)
    (hrefl : ∀ a, le a a) (htrans : ∀ a b c, le a b → le b c → le a c) (h : Kept le l old) :
    Kept le (l ++ [i]) (AggState.best o old (.integer i)) := by
  have hall : ∀ {m : Int64}, (∀ j ∈ l, le m j) → le m i → ∀ j ∈ l ++ [i], le m j := by
    intro m hl hi j hj
    cases List.mem_append.mp hj with
    | inl hj => exact hl j hj
    | inr hj => rwa [List.mem_singleton.mp hj]
  cases h with
  | inl h =>
    obtain ⟨hnil, hold⟩ := h
    subst hnil hold
    exact .inr ⟨i, List.mem_cons_self, rfl, hall (fun j hj => by cases hj) (hrefl i)⟩
  | inr h =>
    obtain ⟨m, hm, hold, hle⟩ := h
    subst hold
    have hcmp := htotal i m
    show Kept le _ (if Ord.compare i m = o then _ else _)
    by_cases ho : Ord.compare i m = o
    · rw [if_pos ho] at hcmp
      rw [if_pos ho]
      exact .inr ⟨i, by simp, rfl, hall (fun j hj => htrans i m j hcmp (hle j hj)) (hrefl i)⟩
    · rw [if_neg ho] at hcmp
      rw [if_neg ho]
      exact .inr ⟨m, List.mem_append_left _ hm, rfl, hall hle hcmp⟩

theorem compare_lt_total (a b : Int64) :
    if Ord.compare a b = .lt then a.toInt ≤ b.toInt else b.toInt ≤ a.toInt := by
  split
  · next h => exact Int.le_of_lt (Int64.lt_iff_toInt_lt.mp (Std.compare_eq_lt.mp h))
  · next h =>
    have hlt : ¬ a.toInt < b.toInt := fun hlt => h (Std.compare_eq_lt.mpr (Int64.lt_iff_toInt_lt.mpr hlt))
    omega

theorem compare_gt_total (a b : Int64) :
    if Ord.compare a b = .gt then b.toInt ≤ a.toInt else a.toInt ≤ b.toInt := by
  split
  · next h => exact Int.le_of_lt (Int64.lt_iff_toInt_lt.mp (Std.compare_eq_gt.mp h))
  · next h =>
    have hlt : ¬ b.toInt < a.toInt := fun hlt => h (Std.compare_eq_gt.mpr (Int64.lt_iff_toInt_lt.mpr hlt))
    omega

theorem min_kept (h : IntsOnly arg tuples) :
    Kept (fun a b => a.toInt ≤ b.toInt) (ints arg tuples) (stateOf .min arg tuples).min := by
  induction tuples using List.reverseRecOn with
  | nil => exact .inl ⟨rfl, rfl⟩
  | append_singleton tuples t ih =>
    rw [stateOf_append, ints_append]
    cases h.last with
    | inl hskip =>
      obtain ⟨hval, hnil⟩ := hskip
      rw [step_skip hval, hnil, List.append_nil]
      exact ih h.init
    | inr hint =>
      obtain ⟨i, hval, hi⟩ := hint
      rw [hval, hi]
      exact (ih h.init).best compare_lt_total (fun _ => Int.le_refl _) fun _ _ _ => Int.le_trans

theorem max_kept (h : IntsOnly arg tuples) :
    Kept (fun a b => b.toInt ≤ a.toInt) (ints arg tuples) (stateOf .max arg tuples).max := by
  induction tuples using List.reverseRecOn with
  | nil => exact .inl ⟨rfl, rfl⟩
  | append_singleton tuples t ih =>
    rw [stateOf_append, ints_append]
    cases h.last with
    | inl hskip =>
      obtain ⟨hval, hnil⟩ := hskip
      rw [step_skip hval, hnil, List.append_nil]
      exact ih h.init
    | inr hint =>
      obtain ⟨i, hval, hi⟩ := hint
      rw [hval, hi]
      exact (ih h.init).best compare_gt_total (fun _ => Int.le_refl _)
        fun _ _ _ hab hbc => Int.le_trans hbc hab

/-! ### Sums -/

/-- A representable integer is converted exactly. -/
theorem whole_i64AsF64 {i : Int64} (h : Representable i.toInt) : Whole (i64AsF64 i) i.toInt := by
  have hlt : i.toInt.natAbs < 2 ^ 64 := h.1
  have hnat : (UInt64.ofNat i.toInt.natAbs).toNat = i.toInt.natAbs := by
    rw [UInt64.toNat_ofNat', Nat.mod_eq_of_lt hlt]
  have habs : Representable (i.toInt.natAbs : Int) := by
    cases Int.natAbs_eq i.toInt with
    | inl heq => rwa [← heq]
    | inr heq =>
      have hneg := h.neg
      rwa [heq, Int.neg_neg] at hneg
  have hwhole : Whole (UInt64.ofNat i.toInt.natAbs).toFloat i.toInt.natAbs := by
    have hofNat := whole_ofNat (n := UInt64.ofNat i.toInt.natAbs) (by rwa [hnat])
    rwa [hnat] at hofNat
  unfold i64AsF64
  split
  · next hneg =>
    have hlt0 : i.toInt < 0 := Int64.lt_iff_toInt_lt.mp hneg
    have hval : i.toInt = -(i.toInt.natAbs : Int) := by omega
    have := hwhole.neg (by omega)
    rwa [← hval] at this
  · next hpos =>
    have hge : ¬ i.toInt < 0 := fun hlt0 => hpos (Int64.lt_iff_toInt_lt.mpr hlt0)
    have hval : i.toInt = (i.toInt.natAbs : Int) := by omega
    rwa [← hval] at hwhole

theorem sum_whole (h : IntsOnly arg tuples) (hsum : PartialSums (ints arg tuples))
    (hdoubles : Doubles (ints arg tuples)) :
    Whole ((stateOf .sum arg tuples).sum.getD 0) ((ints arg tuples).map Int64.toInt).sum := by
  induction tuples using List.reverseRecOn with
  | nil => exact whole_zero
  | append_singleton tuples t ih =>
    rw [ints_append] at hsum hdoubles
    have hinit := ih h.init (fun l hl => hsum l (hl.trans (List.prefix_append _ _)))
      fun i hi => hdoubles i (List.mem_append_left _ hi)
    rw [stateOf_append, ints_append]
    cases h.last with
    | inl hskip =>
      obtain ⟨hval, hnil⟩ := hskip
      rw [step_skip hval, hnil, List.append_nil]
      exact hinit
    | inr hint =>
      obtain ⟨i, hval, hi⟩ := hint
      rw [hi] at hsum hdoubles
      have hpartial := hsum _ List.prefix_rfl
      have hrep := hdoubles i (List.mem_append_right _ List.mem_cons_self)
      rw [List.map_append, List.sum_append, List.map_singleton, List.sum_singleton] at hpartial
      rw [hval, hi, List.map_append, List.sum_append, List.map_singleton, List.sum_singleton]
      exact hinit.add (whole_i64AsF64 hrep) (representable_small hpartial)

/-! ### When they are right -/

theorem isNumber_ofNat {n : Nat} (h : n < 2 ^ 63) (k : Int) :
    (Value.integer (Int64.ofInt n)).IsNumber k ↔ (n : Int) = k := by
  show (Int64.ofInt n).toInt = k ↔ _
  rw [Int64.toInt_ofInt_of_le (by omega) (by omega)]

/-- An aggregate is right exactly where the accumulators are made for it. -/
theorem right_iff {func : AggFunc} (h : IntsOnly arg tuples) (hlen : tuples.length < 2 ^ 63)
    (hsum : func = .sum → PartialSums (ints arg tuples) ∧ Doubles (ints arg tuples)) :
    Right func arg tuples (aggregated func arg tuples) ↔ Faithful func arg tuples := by
  cases func with
  | count =>
    rw [aggregated_count]
    cases arg with
    | none => exact iff_of_true ((isNumber_ofNat hlen _).mpr rfl) trivial
    | some c =>
      refine (isNumber_ofNat hlen _).trans ?_
      rw [Int.natCast_inj, eq_comm, List.countP_eq_length]
      simp only [decide_eq_true_eq]
      rfl
  | sum =>
    have hvalue : aggregated .sum arg tuples = .real ((stateOf .sum arg tuples).sum.getD 0).toBits := rfl
    unfold Right Faithful
    rw [hvalue]
    by_cases hnil : ints arg tuples = []
    · rw [if_pos hnil]
      exact iff_of_false Value.noConfusion fun hne => hne hnil
    · rw [if_neg hnil]
      exact iff_of_true (sum_whole h (hsum rfl).1 (hsum rfl).2).value_toBits hnil
  | min => exact iff_of_true (min_kept h).extremum trivial
  | max => exact iff_of_true (max_kept h).extremum trivial

end

/-! ## Keys of integers -/

theorem Value.IntOrNull.text {v : Value} (h : v.IntOrNull) :
    v = .null ∧ v.toText = "" ∨ ∃ i : Int64, v = .integer i ∧ v.toText = i.toInt.repr := by
  cases h with
  | inl hnull => exact .inl ⟨hnull, by rw [hnull]; rfl⟩
  | inr hint =>
    obtain ⟨i, hi⟩ := hint
    exact .inr ⟨i, hi, by rw [hi]; rfl⟩

/-- Neither has the separator in its text. -/
theorem Value.IntOrNull.no_separator {v : Value} (h : v.IntOrNull) : '\x1f' ∉ v.toText.toList := by
  cases h.text with
  | inl hnull =>
    rw [hnull.2]
    exact List.not_mem_nil
  | inr hint =>
    obtain ⟨i, -, htext⟩ := hint
    intro hmem
    rw [htext] at hmem
    cases mem_repr hmem with
    | inl hsign => exact absurd hsign (by decide)
    | inr hdigit => exact absurd hdigit (by decide)

theorem Value.IntOrNull.toText_injective {v w : Value} (hv : v.IntOrNull) (hw : w.IntOrNull)
    (h : v.toText = w.toText) : v = w := by
  cases hv.text with
  | inl hv =>
    cases hw.text with
    | inl hw => rw [hv.1, hw.1]
    | inr hw =>
      obtain ⟨i, -, htext⟩ := hw
      exact absurd (htext.symm.trans (h.symm.trans hv.2)) (repr_ne_empty _)
  | inr hv =>
    obtain ⟨i, hi, htext⟩ := hv
    cases hw.text with
    | inl hw => exact absurd (htext.symm.trans (h.trans hw.2)) (repr_ne_empty _)
    | inr hw =>
      obtain ⟨j, hj, htext'⟩ := hw
      rw [htext, htext'] at h
      rw [hi, hj, Int64.toInt_inj.mp (int_repr_injective h)]

/-- Keys of integers and NULLs are told apart by their texts. -/
theorem keyText_injective {key key' : List Value} (hlen : key.length = key'.length)
    (h : ∀ v ∈ key, v.IntOrNull) (h' : ∀ v ∈ key', v.IntOrNull)
    (heq : keyText key = keyText key') : key = key' := by
  have hfree : ∀ {key : List Value}, (∀ v ∈ key, v.IntOrNull) →
      ∀ s ∈ key.map (·.toText), '\x1f' ∉ s.toList := by
    intro key h s hs
    obtain ⟨v, hv, rfl⟩ := List.mem_map.mp hs
    exact (h v hv).no_separator
  have htexts := intercalate_injective (by rwa [List.length_map, List.length_map]) (hfree h)
    (hfree h') heq
  clear heq hlen
  induction key generalizing key' with
  | nil => exact (List.map_eq_nil_iff.mp htexts.symm).symm
  | cons v key ih =>
    cases key' with
    | nil => cases htexts
    | cons w key' =>
      rw [List.map_cons, List.map_cons, List.cons.injEq] at htexts
      rw [(h v List.mem_cons_self).toText_injective (h' w List.mem_cons_self) htexts.1,
        ih (fun v hv => h v (List.mem_cons_of_mem _ hv))
          (fun v hv => h' v (List.mem_cons_of_mem _ hv)) htexts.2]

/-! ## The rows of the groups -/

/-- The keys of the groups. Without GROUP BY all rows are one group, also where there is none. -/
def GroupsBy {sources : List RowSource} (cols : List ColumnRef) (rows : List (ScannedRow sources))
    (keys : List (List Value)) : Prop :=
  if cols = [] then keys = [[]] else Enumerates (·.key cols) rows keys

/-- The rows that have a key. -/
def tuplesOf {sources : List RowSource} (cols : List ColumnRef) (rows : List (ScannedRow sources))
    (key : List Value) : List (List (List Value)) :=
  (group (·.key cols) rows key).map (·.tuple)

/-- The rows that the statement makes of its groups: the next instruction leaves them in the
buffer, and as many are returned. A program that only counts returns its one row. -/
def Makes [Unicode] (select : Select) (src : TableRef Select) (s : Machine)
    (made : List (List Value)) : Prop :=
  match simpleCountStar select src with
  | some _ => Vdbe.Returns s made
  | none => ∃ t, (∀ fuel, Vdbe.round fuel s = .ok none t) ∧ t.rowBuffer = made ∧
      ∃ out, Vdbe.Returns t out ∧ out.length = made.length

/-- The row of a group: its key, and for each function what it should be. -/
def RightRow {sources : List RowSource} (cols : List ColumnRef) (aggs : List (AggFunc × Option ColumnRef))
    (rows : List (ScannedRow sources)) (key row : List Value) : Prop :=
  ∃ vals, row = key ++ vals ∧ List.Forall₂ (fun e v => Right e.1 e.2 (tuplesOf cols rows key) v) aggs vals

/-- Every group comes to one row, with the right aggregates. -/
def RightAggregates [Unicode] {sources : List RowSource} (select : Select) (src : TableRef Select)
    (s : Machine) (cols : List ColumnRef) (aggs : List (AggFunc × Option ColumnRef))
    (rows : List (ScannedRow sources)) : Prop :=
  ∃ keys made, GroupsBy cols rows keys ∧ Makes select src s made ∧
    List.Forall₂ (RightRow cols aggs rows) keys made

/-- The columns that a statement groups by and aggregates hold integers and NULLs, and no
partial sum reaches 2^53. -/
structure IntegerColumns {sources : List RowSource} (cols : List ColumnRef)
    (aggs : List (AggFunc × Option ColumnRef)) (rows : List (ScannedRow sources)) : Prop where
  keys : ∀ r ∈ rows, ∀ v ∈ r.key cols, v.IntOrNull
  args : ∀ e ∈ aggs, IntsOnly e.2 (rows.map (·.tuple))
  sums : ∀ e ∈ aggs, e.1 = .sum → ∀ key, PartialSums (ints e.2 (tuplesOf cols rows key))
  length : rows.length < 2 ^ 63

/-- All values that are summed are doubles. -/
def SumsOfDoubles {sources : List RowSource} (aggs : List (AggFunc × Option ColumnRef))
    (rows : List (ScannedRow sources)) : Prop :=
  ∀ e ∈ aggs, e.1 = .sum → Doubles (ints e.2 (rows.map (·.tuple)))

section
variable {sources : List RowSource} {cols : List ColumnRef} {aggs : List (AggFunc × Option ColumnRef)}
  {rows : List (ScannedRow sources)} {key : List Value}

theorem IntegerColumns.separates (h : IntegerColumns cols aggs rows) :
    Separates (·.key cols) (fun r => keyText (r.key cols)) rows := by
  intro r hr r' hr' heq
  exact keyText_injective (by simp [ScannedRow.key]) (h.keys r hr) (h.keys r' hr') heq

/-- An aggregate of a group is right where the accumulators are made for it. -/
theorem IntegerColumns.right (h : IntegerColumns cols aggs rows) (hdoubles : SumsOfDoubles aggs rows)
    {e : AggFunc × Option ColumnRef} (he : e ∈ aggs) :
    Right e.1 e.2 (tuplesOf cols rows key) (aggregated e.1 e.2 (tuplesOf cols rows key)) ↔
      Faithful e.1 e.2 (tuplesOf cols rows key) := by
  refine right_iff (fun c hc t ht => ?_) ?_ fun hsum =>
    ⟨h.sums e he hsum key, fun i hi => hdoubles e he hsum i ?_⟩
  · obtain ⟨r, hr, rfl⟩ := List.mem_map.mp ht
    exact h.args e he c hc r.tuple (List.mem_map_of_mem (mem_group.mp hr).1)
  · unfold tuplesOf group
    rw [List.length_map]
    exact Nat.lt_of_le_of_lt (List.length_filter_le _ rows) h.length
  · exact ((List.filter_sublist.map _).filterMap _).subset hi

/-- Where a group has the right row, all its aggregates are sound. -/
theorem IntegerColumns.sound (h : IntegerColumns cols aggs rows) (hdoubles : SumsOfDoubles aggs rows)
    {key' : List Value} (hrow : RightRow cols aggs rows key'
      (key ++ aggs.map fun e => aggregated e.1 e.2 (tuplesOf cols rows key))) :
    ∀ e ∈ aggs, Faithful e.1 e.2 (tuplesOf cols rows key) := by
  obtain ⟨vals, heq, hvals⟩ := hrow
  obtain ⟨hkey, rfl⟩ := List.append_inj' heq (by rw [List.length_map, hvals.length_eq])
  subst hkey
  rw [List.forall₂_map_right_iff, List.forall₂_same] at hvals
  intro e he
  exact (h.right hdoubles he).mp (hvals e he)

end

theorem exists_of_forall₂ {α β : Type} {R : α → β → Prop} {l : List α} {l' : List β}
    (h : List.Forall₂ R l l') {b : β} (hb : b ∈ l') : ∃ a, R a b := by
  induction h with
  | nil => cases hb
  | cons hab _ ih =>
    cases hb with
    | head => exact ⟨_, hab⟩
    | tail _ hb => exact ih hb

section
variable [Unicode] {select : Select} {schema : Schema} {src : TableRef Select}
  {tables : List TableBinding} {plan : SelectPlan} {prog : Program} {s : Machine}
  {cols : List ColumnRef} {entries : List SelectEntry} {rows : List (ScannedRow plan.rowSources)}
  {spec : GroupBySpec}

open Vdbe

/-- The instruction behind the scans leaves a row for each key. -/
theorem groups_made (h : Compiled select schema src tables plan prog)
    (hcount : simpleCountStar select src = none) (hplan : Planned plan spec cols entries)
    (hints : IntegerColumns cols (entries.filterMap SelectEntry.agg?) rows)
    (hs : ScanDone prog (rows.map (·.values)) s) :
    ∃ t keys, (∀ fuel, round fuel s = .ok none t) ∧ Enumerates (·.key cols) rows keys ∧
      t.rowBuffer = keys.map (fun key => key ++ (entries.filterMap SelectEntry.agg?).map fun e =>
        aggregated e.1 e.2 (tuplesOf cols rows key)) ∧
      ∃ out, Returns t out ∧ out.length = keys.length := by
  obtain ⟨t, hrun, hbuffer, hreturns⟩ := hs.groups h hcount hplan
  obtain ⟨texts, htexts, hbuf⟩ := applyGroupBy_groups hplan.keys hplan.aggs rows
  obtain ⟨keys, hkeys, rfl, hsame⟩ := regroup (f := keyText) (fun _ => rfl) hints.separates htexts
  have hrows : applyGroupBy spec (rows.map (·.values)) =
      keys.map fun key => key ++ (entries.filterMap SelectEntry.agg?).map fun e =>
        aggregated e.1 e.2 (tuplesOf cols rows key) := by
    rw [hbuf, List.map_map]
    refine List.map_congr_left fun key hkey => ?_
    rw [Function.comp_apply, rowsOf, hsame key hkey, groupRow, group_head (hkeys.group_ne_nil hkey)]
    rfl
  rw [hrows] at hbuffer hreturns
  refine ⟨t, keys, hrun, hkeys, hbuffer, _, hreturns, ?_⟩
  obtain ⟨keys', hperm, hordered⟩ := ordered_map select plan (fun key =>
    key ++ (entries.filterMap SelectEntry.agg?).map fun e => aggregated e.1 e.2 (tuplesOf cols rows key)) keys
  rw [← (shown_rows plan.outputWidth s.regs _).length_eq, hordered, List.length_map, hperm.length_eq]

/-- What right aggregates take. -/
theorem right_sound (h : Compiled select schema src tables plan prog)
    (hcount : simpleCountStar select src = none) (hplan : Planned plan spec cols entries)
    (hints : IntegerColumns cols (entries.filterMap SelectEntry.agg?) rows)
    (hdoubles : SumsOfDoubles (entries.filterMap SelectEntry.agg?) rows)
    (hs : ScanDone prog (rows.map (·.values)) s)
    (hright : RightAggregates select src s cols (entries.filterMap SelectEntry.agg?) rows) :
    (cols = [] → rows ≠ []) ∧ ∀ key, group (·.key cols) rows key ≠ [] →
      ∀ e ∈ entries.filterMap SelectEntry.agg?, Faithful e.1 e.2 (tuplesOf cols rows key) := by
  obtain ⟨t, keys, hrun, hkeys, hbuffer, -⟩ := groups_made h hcount hplan hints hs
  obtain ⟨keys', made, hgroups, hmakes, hrows⟩ := hright
  unfold Makes at hmakes
  rw [hcount] at hmakes
  obtain ⟨t', hrun', hmade, -⟩ := hmakes
  cases (hrun 0).symm.trans (hrun' 0)
  rw [← hmade, hbuffer] at hrows
  constructor
  · intro hcols hnil
    unfold GroupsBy at hgroups
    rw [if_pos hcols] at hgroups
    have hlen := hrows.length_eq
    rw [hgroups, List.length_map, hkeys.nil_iff.mpr hnil] at hlen
    cases hlen
  · intro key hgroup
    obtain ⟨r, rest, hr⟩ := List.exists_cons_of_ne_nil hgroup
    have hmem : r ∈ group (·.key cols) rows key := hr ▸ List.mem_cons_self
    have hkey : key ∈ keys := (hkeys.mem key).mpr ⟨r, mem_group.mp hmem⟩
    obtain ⟨key', hrow⟩ := exists_of_forall₂ hrows (List.mem_map_of_mem hkey)
    exact hints.sound hdoubles hrow

/-- An aggregate query on scanned columns of integers and NULLs, where no partial sum reaches 2^53 and
all summed values are doubles: its groups have the right aggregates exactly if there is a row, or a
GROUP BY clause, or nothing but rows to count, and in no group COUNT meets a NULL or SUM only NULLs. -/
theorem aggregates_iff (h : Compiled select schema src tables plan prog)
    (hagg : (select.columns.any fun c => isFunction c.expr) = true)
    (hcols : select.groupColumns schema tables = .ok cols)
    (hentries : select.entries schema tables = .ok entries)
    (hints : IntegerColumns cols (entries.filterMap SelectEntry.agg?) rows)
    (hdoubles : SumsOfDoubles (entries.filterMap SelectEntry.agg?) rows)
    (hs : ScanDone prog (rows.map (·.values)) s) :
    RightAggregates select src s cols (entries.filterMap SelectEntry.agg?) rows ↔
      (cols = [] → rows ≠ [] ∨ (simpleCountStar select src).isSome) ∧
      ∀ key, group (·.key cols) rows key ≠ [] →
        ∀ e ∈ entries.filterMap SelectEntry.agg?, Faithful e.1 e.2 (tuplesOf cols rows key) := by
  obtain ⟨spec, cols', entries', hcols', hentries', hplan⟩ := buildSelectPlan_groups h.planned hagg
  cases hcols.symm.trans hcols'
  cases hentries.symm.trans hentries'
  cases hcount : simpleCountStar select src with
  | some cursor =>
    obtain ⟨rfl, rfl, name, hcode⟩ := compileSelect_count h hcount hcols hentries
    have hgroup : group (·.key []) rows [] = rows := group_eq_self fun _ _ => rfl
    have htuples : tuplesOf [] rows [] = rows.map (·.tuple) := congrArg (List.map _) hgroup
    have hone : GroupsBy [] rows [[]] := by
      unfold GroupsBy
      rw [if_pos rfl]
    refine iff_of_true ⟨[[]], [[.integer (Int64.ofInt (rows.map (·.values)).length)]], hone, ?_,
      .cons ⟨_, rfl, .cons ?_ .nil⟩ .nil⟩ ⟨fun _ => .inr rfl, fun key _ e he => ?_⟩
    · unfold Makes
      rw [hcount]
      exact counted_returns hcode hs
    · rw [htuples]
      refine (isNumber_ofNat ?_ _).mpr ?_
      · rw [List.length_map]
        exact hints.length
      · rw [List.length_map, List.length_map]
    · rw [List.mem_singleton.mp he]
      trivial
  | none =>
    constructor
    · intro hright
      obtain ⟨hrows, hsound⟩ := right_sound h hcount hplan hints hdoubles hs hright
      exact ⟨fun hnil => .inl (hrows hnil), hsound⟩
    · intro hcond
      obtain ⟨hrows, hsound⟩ := hcond
      obtain ⟨t, keys, hrun, hkeys, hbuffer, out, hreturns, hlen⟩ := groups_made h hcount hplan hints hs
      refine ⟨keys, t.rowBuffer, ?_, ?_, ?_⟩
      · unfold GroupsBy
        split
        · next hnil =>
          have hne : rows ≠ [] := (hrows hnil).resolve_right fun hsome => by cases hsome
          refine hkeys.singleton hne fun r _ => ?_
          rw [hnil]
          rfl
        · exact hkeys
      · unfold Makes
        rw [hcount]
        exact ⟨t, hrun, rfl, out, hreturns, by rw [hlen, hbuffer, List.length_map]⟩
      · rw [hbuffer, List.forall₂_map_right_iff]
        refine List.forall₂_same.mpr fun key hkey => ⟨_, rfl, ?_⟩
        rw [List.forall₂_map_right_iff]
        exact List.forall₂_same.mpr fun e he =>
          (hints.right hdoubles he).mpr (hsound key (hkeys.group_ne_nil hkey) e he)

end

/-- Magnitudes that come to less than 2^53 in all. -/
theorem small_sums {l : List Int64} (h : (l.map (·.toInt.natAbs)).sum < 2 ^ 53) :
    PartialSums l ∧ Doubles l := by
  have habs : ∀ l : List Int64, ((l.map Int64.toInt).sum).natAbs ≤ (l.map (·.toInt.natAbs)).sum := by
    intro l
    induction l with
    | nil => exact Nat.le_refl 0
    | cons i l ih =>
      rw [List.map_cons, List.map_cons, List.sum_cons, List.sum_cons]
      omega
  constructor
  · intro l' hl'
    obtain ⟨rest, rfl⟩ := hl'
    rw [List.map_append, List.sum_append] at h
    have := habs l'
    omega
  · intro i hi
    have hle : i.toInt.natAbs ≤ (l.map (·.toInt.natAbs)).sum :=
      List.le_sum_of_mem (List.mem_map_of_mem hi)
    exact representable_small (by omega)

/-- `SELECT a, SUM(a) FROM t GROUP BY a`. -/
def sumEach : Select :=
  selectGroups [.ident "a", .function "SUM" false [.ident "a"]] [.ident "a"]

/-- `SELECT COUNT(a), SUM(a) FROM t`. -/
def totals : Select :=
  selectGroups [.function "COUNT" false [.ident "a"], .function "SUM" false [.ident "a"]] []

/-- Few small integers and NULLs in column `a`. -/
theorem rowsOn_integer [Unicode] {select : Select} {values : List Value} {cols : List ColumnRef}
    {aggs : List (AggFunc × Option ColumnRef)} (hvalues : ∀ v ∈ values, v.IntOrNull)
    (hlen : values.length < 2 ^ 63)
    (hsmall : ∀ e ∈ aggs,
      ((ints e.2 ((rowsOn select values).map (·.tuple))).map (·.toInt.natAbs)).sum < 2 ^ 53) :
    IntegerColumns cols aggs (rowsOn select values) ∧ SumsOfDoubles aggs (rowsOn select values) := by
  have hcell : ∀ r ∈ rowsOn select values, ∀ c : ColumnRef, (c.value r.tuple).IntOrNull := by
    intro r hr c
    obtain ⟨v, hv, rfl⟩ := List.mem_map.mp hr
    match c with
    | ⟨0, 0⟩ => exact hvalues v hv
    | ⟨0, _ + 1⟩ => exact .inl rfl
    | ⟨_ + 1, _⟩ => exact .inl rfl
  refine ⟨⟨fun r hr v hv => ?_, fun e _ c _ t ht => ?_, fun e he _ key => ?_, ?_⟩,
    fun e he _ => (small_sums (hsmall e he)).2⟩
  · obtain ⟨c, -, rfl⟩ := List.mem_map.mp hv
    exact hcell r hr c
  · obtain ⟨r, hr, rfl⟩ := List.mem_map.mp ht
    exact hcell r hr c
  · refine (small_sums (Nat.lt_of_le_of_lt ?_ (hsmall e he))).1
    apply List.Sublist.sum_le_sum
    · exact ((List.filter_sublist.map _).filterMap _).map _
    · exact fun _ _ => Nat.zero_le _
  · rwa [rowsOn, List.length_map]

theorem aggregates_iff_sums : let _ := Unicode.ascii
    RightAggregates sumEach (.table "t" none) (scannedOn sumEach [.integer 2, .null, .integer 2])
      [⟨0, 0⟩] [(.sum, some ⟨0, 0⟩)] (rowsOn sumEach [.integer 2, .null, .integer 2]) ↔
    (([⟨0, 0⟩] : List ColumnRef) = [] → rowsOn sumEach [.integer 2, .null, .integer 2] ≠ [] ∨
        (simpleCountStar sumEach (.table "t" none)).isSome) ∧
      ∀ key, group (·.key [⟨0, 0⟩]) (rowsOn sumEach [.integer 2, .null, .integer 2]) key ≠ [] →
        ∀ e ∈ [(AggFunc.sum, some (⟨0, 0⟩ : ColumnRef))], Faithful e.1 e.2
          (tuplesOf [⟨0, 0⟩] (rowsOn sumEach [.integer 2, .null, .integer 2]) key) := by
  let _ := Unicode.ascii
  have hrows : IntegerColumns [⟨0, 0⟩] [(.sum, some ⟨0, 0⟩)]
        (rowsOn sumEach [.integer 2, .null, .integer 2]) ∧
      SumsOfDoubles [(.sum, some ⟨0, 0⟩)] (rowsOn sumEach [.integer 2, .null, .integer 2]) := by
    refine rowsOn_integer (fun v hv => ?_) (by decide) fun e he => ?_
    · simp only [List.mem_cons, List.not_mem_nil, or_false] at hv
      obtain rfl | rfl | rfl := hv
      · exact .inr ⟨2, rfl⟩
      · exact .inl rfl
      · exact .inr ⟨2, rfl⟩
    · rw [List.mem_singleton.mp he]
      decide +kernel
  have hentries : sumEach.entries oneRowDb.schema [onlyTable "t" none] =
      .ok [.column ⟨0, 0⟩, .agg .sum (some ⟨0, 0⟩)] := by decide +kernel
  exact aggregates_iff
    (compiledOn rfl (by decide +kernel) (by decide +kernel) (by decide +kernel)) (by decide +kernel)
    (by decide +kernel) hentries hrows.1 hrows.2 (scannedOn_done _ _ (by decide +kernel))

/-- Without rows there is no row of totals; over one NULL it says 1 and 0.0. -/
theorem totals_wrong : let _ := Unicode.ascii
    Compiled totals oneRowDb.schema (.table "t" none) [onlyTable "t" none] (planOn totals)
      (programOn totals) ∧
    totals.groupColumns oneRowDb.schema [onlyTable "t" none] = .ok [] ∧
    totals.entries oneRowDb.schema [onlyTable "t" none] =
      .ok [.agg .count (some ⟨0, 0⟩), .agg .sum (some ⟨0, 0⟩)] ∧
    ∀ values ∈ ([[], [.null]] : List (List Value)),
      IntegerColumns [] [(.count, some ⟨0, 0⟩), (.sum, some ⟨0, 0⟩)] (rowsOn totals values) ∧
      Vdbe.ScanDone (programOn totals) ((rowsOn totals values).map (·.values))
        (scannedOn totals values) ∧
      ¬ RightAggregates totals (.table "t" none) (scannedOn totals values) []
        [(.count, some ⟨0, 0⟩), (.sum, some ⟨0, 0⟩)] (rowsOn totals values) := by
  let _ := Unicode.ascii
  have hcompiled : Compiled totals oneRowDb.schema (.table "t" none) [onlyTable "t" none]
      (planOn totals) (programOn totals) :=
    compiledOn rfl (by decide +kernel) (by decide +kernel) (by decide +kernel)
  have hcols : totals.groupColumns oneRowDb.schema [onlyTable "t" none] = .ok [] := by decide +kernel
  have hentries : totals.entries oneRowDb.schema [onlyTable "t" none] =
      .ok [.agg .count (some ⟨0, 0⟩), .agg .sum (some ⟨0, 0⟩)] := by decide +kernel
  refine ⟨hcompiled, hcols, hentries, fun values hvalues => ?_⟩
  have hnulls : ∀ v ∈ values, v = .null := by
    simp only [List.mem_cons, List.not_mem_nil, or_false] at hvalues
    obtain rfl | rfl := hvalues
    · exact fun v hv => by cases hv
    · exact fun v hv => List.mem_singleton.mp hv
  have hrows : IntegerColumns [] [(.count, some ⟨0, 0⟩), (.sum, some ⟨0, 0⟩)] (rowsOn totals values) ∧
      SumsOfDoubles [(.count, some ⟨0, 0⟩), (.sum, some ⟨0, 0⟩)] (rowsOn totals values) := by
    simp only [List.mem_cons, List.not_mem_nil, or_false] at hvalues
    refine rowsOn_integer (fun v hv => .inl (hnulls v hv)) ?_ fun e he => ?_
    · obtain rfl | rfl := hvalues <;> decide
    · simp only [List.mem_cons, List.not_mem_nil, or_false] at he
      obtain rfl | rfl := hvalues <;> obtain rfl | rfl := he <;> decide +kernel
  have hdone := scannedOn_done totals values (by decide +kernel)
  refine ⟨hrows.1, hdone, fun hright => ?_⟩
  obtain ⟨spec, cols, entries, hcols', hentries', hplan⟩ :=
    buildSelectPlan_groups hcompiled.planned (by decide +kernel)
  cases hcols.symm.trans hcols'
  cases hentries.symm.trans hentries'
  obtain ⟨hne, hsound⟩ := right_sound hcompiled rfl hplan hrows.1 hrows.2 hdone hright
  obtain ⟨r, rest, hr⟩ := List.exists_cons_of_ne_nil (hne rfl)
  have hmem : r ∈ rowsOn totals values := hr ▸ List.mem_cons_self
  have hgroup : group (·.key []) (rowsOn totals values) [] = rowsOn totals values :=
    group_eq_self fun _ _ => rfl
  have hcount := hsound [] (by rw [hgroup]; exact hne rfl) _ List.mem_cons_self
  obtain ⟨v, hv, rfl⟩ := List.mem_map.mp hmem
  refine hcount [[v]] ?_ (hnulls v hv)
  rw [tuplesOf, hgroup]
  exact List.mem_map_of_mem hmem

end Sqllite
