import Mathlib.Logic.Basic

/-!
# Three-valued logic

A truth value is `some true`, `some false` or, unknown, `none`. A connective is
known as soon as what is known of its operands decides it.
-/
namespace Lib.Kleene

def not (a : Option Bool) : Option Bool := a.map (!·)

def and : Option Bool → Option Bool → Option Bool
  | some false, _ => some false
  | some true, b => b
  | none, some false => some false
  | none, _ => none

def or : Option Bool → Option Bool → Option Bool
  | some true, _ => some true
  | some false, b => b
  | none, some true => some true
  | none, _ => none

@[simp] theorem not_eq_true {a : Option Bool} : not a = some true ↔ a = some false := by
  rcases a with _ | _ | _ <;> simp [not]

@[simp] theorem and_eq_true {a b : Option Bool} :
    and a b = some true ↔ a = some true ∧ b = some true := by
  rcases a with _ | _ | _ <;> rcases b with _ | _ | _ <;> simp [and]

@[simp] theorem or_eq_true {a b : Option Bool} :
    or a b = some true ↔ a = some true ∨ b = some true := by
  rcases a with _ | _ | _ <;> rcases b with _ | _ | _ <;> simp [or]

end Lib.Kleene
