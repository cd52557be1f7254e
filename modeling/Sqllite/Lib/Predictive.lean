import Mathlib.Data.List.Basic
import Sqllite.Lib.Run

/-!
# Grammars read with one token of lookahead

`Derives g e p` says that the expression `e` of the grammar `g` has the sentence `p`.
`Reads g e w o` is how a recursive descent goes over the tokens `w`: it looks at the
next token only, never goes back, and ends behind a sentence (`.ok`) or is stuck
(`.error`), with the tokens that are left. A choice `alt x y` takes `x` wherever the
next token is a first token of `x`.

* `Reads.sound`, `Reads.viable`: what is read is a sentence; what is read when the
  descent is stuck begins one.
* `Derives.reads`: in a predictive grammar a sentence is read, whatever is behind it,
  unless the next token could go on with it.
* `reads_iff`: the descent returns behind exactly those sentences that the next token
  does not go on with.
* `FollowsIf`: a program over a list of tokens goes as the descent does, without a
  panic; its rules follow the way such programs are written.
-/
namespace Lib.Predictive
open Lib.Run

/-- Expressions over tokens `T` and rules `N`. -/
inductive Ebnf (T N : Type) where
  | empty
  | token (t : T)
  | rule (a : N)
  | seq (x y : Ebnf T N)
  | alt (x y : Ebnf T N)
  | star (x : Ebnf T N)

/-- The rules, with bounds for the tokens that begin a sentence of a rule, and for
those that can go on with a sentence. -/
structure Grammar (T N : Type) where
  body : N → Ebnf T N
  first : N → List T
  more : N → List T

variable {T N : Type}

/-- `x?`. -/
def Ebnf.opt (x : Ebnf T N) : Ebnf T N := .alt x .empty

/-- No rule has the empty sentence. -/
def Ebnf.nullable : Ebnf T N → Bool
  | .empty => true
  | .token _ => false
  | .rule _ => false
  | .seq x y => x.nullable && y.nullable
  | .alt x y => x.nullable || y.nullable
  | .star _ => true

/-- The first tokens show without a look at the rules. -/
def Ebnf.led : Ebnf T N → Bool
  | .empty => true
  | .token _ => true
  | .rule _ => false
  | .seq x y => x.led && (!x.nullable || y.led)
  | .alt x y => !x.nullable && x.led && y.led
  | .star x => x.led

namespace Grammar

variable (g : Grammar T N)

def firsts : Ebnf T N → List T
  | .empty => []
  | .token t => [t]
  | .rule a => g.first a
  | .seq x y => firsts x ++ if x.nullable then firsts y else []
  | .alt x y => firsts x ++ firsts y
  | .star x => firsts x

def mores : Ebnf T N → List T
  | .empty => []
  | .token _ => []
  | .rule a => g.more a
  | .seq x y => mores y ++ if y.nullable then mores x else []
  | .alt x y => mores x ++ mores y ++ if y.nullable then g.firsts x else []
  | .star x => g.firsts x ++ mores x

/-- The next token is a first token of `x`. -/
def Starts (x : Ebnf T N) (w : List T) : Prop := ∃ t ∈ g.firsts x, w.head? = some t

instance [DecidableEq T] (x : Ebnf T N) (w : List T) : Decidable (g.Starts x w) :=
  inferInstanceAs (Decidable (∃ t ∈ g.firsts x, w.head? = some t))

/-- One token of lookahead decides every choice. -/
def predictive [DecidableEq T] : Ebnf T N → Bool
  | .empty => true
  | .token _ => true
  | .rule _ => true
  | .seq x y => predictive x && predictive y && (g.firsts y).all (· ∉ g.mores x)
  | .alt x y => predictive x && predictive y && !x.nullable && x.led
  | .star x => predictive x && !x.nullable && x.led && (g.firsts x).all (· ∉ g.mores x)

/-- The bounds hold, and every rule is predictive. -/
structure LookaheadOne [DecidableEq T] : Prop where
  solid : ∀ a, (g.body a).nullable = false
  first : ∀ a, g.firsts (g.body a) ⊆ g.first a
  more : ∀ a, g.mores (g.body a) ⊆ g.more a
  body : ∀ a, g.predictive (g.body a) = true

end Grammar

/-! ## Sentences -/

/-- The sentences of an expression. -/
inductive Derives (g : Grammar T N) : Ebnf T N → List T → Prop
  | empty : Derives g .empty []
  | token {t} : Derives g (.token t) [t]
  | rule {a p} : Derives g (g.body a) p → Derives g (.rule a) p
  | seq {x y p q} : Derives g x p → Derives g y q → Derives g (.seq x y) (p ++ q)
  | left {x y p} : Derives g x p → Derives g (.alt x y) p
  | right {x y p} : ¬ g.Starts x p → Derives g y p → Derives g (.alt x y) p
  | nil {x} : Derives g (.star x) []
  | cons {x p q} : Derives g x p → Derives g (.star x) q → Derives g (.star x) (p ++ q)

/-- A recursive descent over a list of tokens. -/
inductive Reads (g : Grammar T N) : Ebnf T N → List T → Except (List T) (List T) → Prop
  | empty {w} : Reads g .empty w (.ok w)
  | token {t w} : Reads g (.token t) (t :: w) (.ok w)
  | stuck {t w} : w.head? ≠ some t → Reads g (.token t) w (.error w)
  | rule {a w o} : Reads g (g.body a) w o → Reads g (.rule a) w o
  | seq {x y w w' o} : Reads g x w (.ok w') → Reads g y w' o → Reads g (.seq x y) w o
  | seqStuck {x y w w'} : Reads g x w (.error w') → Reads g (.seq x y) w (.error w')
  | left {x y w o} : g.Starts x w → Reads g x w o → Reads g (.alt x y) w o
  | right {x y w o} : ¬ g.Starts x w → Reads g y w o → Reads g (.alt x y) w o
  | stop {x w} : ¬ g.Starts x w → Reads g (.star x) w (.ok w)
  | more {x w w' o} : g.Starts x w → Reads g x w (.ok w') → Reads g (.star x) w' o →
      Reads g (.star x) w o
  | moreStuck {x w w'} : g.Starts x w → Reads g x w (.error w') → Reads g (.star x) w (.error w')

/-- The tokens that are left. -/
def rest : Except (List T) (List T) → List T
  | .ok w => w
  | .error w => w

variable {g : Grammar T N} {e x y : Ebnf T N} {w w' p q r : List T} {o o' : Except (List T) (List T)}

theorem Grammar.Starts.append (h : g.Starts x w) (w' : List T) : g.Starts x (w ++ w') := by
  obtain ⟨t, ht, hw⟩ := h
  exact ⟨t, ht, by rw [List.head?_append, hw]; rfl⟩

/-- The first token decides. -/
theorem Grammar.starts_behind {t : T} {r' : List T} :
    g.Starts x (p ++ t :: r) ↔ g.Starts x (p ++ t :: r') := by
  cases p <;> exact Iff.rfl

theorem Grammar.not_starts_nil : ¬ g.Starts x [] := fun ⟨_, _, h⟩ => nomatch h

theorem Reads.suffix (h : Reads g e w o) : rest o <:+ w := by
  induction h with
  | empty => exact List.suffix_rfl
  | token => exact List.suffix_cons _ _
  | stuck _ => exact List.suffix_rfl
  | rule _ ih => exact ih
  | seq _ _ ihx ihy => exact ihy.trans ihx
  | seqStuck _ ih => exact ih
  | left _ _ ih => exact ih
  | right _ _ ih => exact ih
  | stop _ => exact List.suffix_rfl
  | more _ _ _ ihx ih => exact ih.trans ihx
  | moreStuck _ _ ih => exact ih

/-- A descent has one way to go. -/
theorem Reads.unique (h : Reads g e w o) : ∀ {o'}, Reads g e w o' → o = o' := by
  induction h with
  | empty => rintro _ ⟨⟩; rfl
  | token =>
    rintro _ (_ | _ | hne)
    · rfl
    · exact absurd rfl hne
  | stuck hne =>
    rintro _ (_ | _ | _)
    · exact absurd rfl hne
    · rfl
  | rule _ ih => rintro _ (_ | _ | _ | h); exact ih h
  | seq _ _ ihx ihy =>
    intro _ h
    cases h with
    | seq hx hy => cases ihx hx; exact ihy hy
    | seqStuck hx => cases ihx hx
  | seqStuck _ ih =>
    intro _ h
    cases h with
    | seq hx _ => cases ih hx
    | seqStuck hx => cases ih hx; rfl
  | left hs _ ih =>
    intro _ h
    cases h with
    | left _ hx => exact ih hx
    | right hn _ => exact absurd hs hn
  | right hn _ ih =>
    intro _ h
    cases h with
    | left hs _ => exact absurd hs hn
    | right _ hy => exact ih hy
  | stop hn =>
    intro _ h
    cases h with
    | stop _ => rfl
    | more hs _ _ => exact absurd hs hn
    | moreStuck hs _ => exact absurd hs hn
  | more hs _ _ ihx ih =>
    intro _ h
    cases h with
    | stop hn => exact absurd hs hn
    | more _ hx h => cases ihx hx; exact ih h
    | moreStuck _ hx => cases ihx hx
  | moreStuck hs _ ih =>
    intro _ h
    cases h with
    | stop hn => exact absurd hs hn
    | more _ hx _ => cases ih hx
    | moreStuck _ hx => cases ih hx; rfl

/-! ## What is read -/

theorem Derives.first (h : Derives g e p) (hg : ∀ a, g.firsts (g.body a) ⊆ g.first a)
    (hsolid : ∀ a, (g.body a).nullable = false) :
    p = [] ∧ e.nullable = true ∨ g.Starts e p := by
  induction h with
  | empty => exact .inl ⟨rfl, rfl⟩
  | token => exact .inr ⟨_, List.mem_singleton_self _, rfl⟩
  | @rule a p _ ih =>
    rcases ih with ⟨-, hnull⟩ | ⟨t, ht, hp⟩
    · rw [hsolid] at hnull
      cases hnull
    · exact .inr ⟨t, hg a ht, hp⟩
  | @seq x y p q _ _ ihx ihy =>
    rcases ihx with ⟨rfl, hx⟩ | ⟨t, ht, hp⟩
    · rcases ihy with ⟨rfl, hy⟩ | ⟨t, ht, hq⟩
      · exact .inl ⟨rfl, by rw [Ebnf.nullable, hx, hy]; rfl⟩
      · refine .inr ⟨t, ?_, hq⟩
        rw [Grammar.firsts, if_pos hx]
        exact List.mem_append_right _ ht
    · exact .inr ⟨t, List.mem_append_left _ ht, by rw [List.head?_append, hp]; rfl⟩
  | left _ ih =>
    rcases ih with ⟨rfl, hx⟩ | ⟨t, ht, hp⟩
    · exact .inl ⟨rfl, by rw [Ebnf.nullable, hx]; rfl⟩
    · exact .inr ⟨t, List.mem_append_left _ ht, hp⟩
  | right _ _ ih =>
    rcases ih with ⟨rfl, hy⟩ | ⟨t, ht, hp⟩
    · exact .inl ⟨rfl, by rw [Ebnf.nullable, hy, Bool.or_true]⟩
    · exact .inr ⟨t, List.mem_append_right _ ht, hp⟩
  | nil => exact .inl ⟨rfl, rfl⟩
  | @cons x p q _ _ ihx ih =>
    rcases ihx with ⟨rfl, -⟩ | ⟨t, ht, hp⟩
    · rcases ih with ⟨rfl, -⟩ | hs
      · exact .inl ⟨rfl, rfl⟩
      · exact .inr hs
    · exact .inr ⟨t, ht, by rw [List.head?_append, hp]; rfl⟩

/-- What is read is a sentence. -/
theorem Reads.sound (h : Reads g e w o) : ∀ {r}, o = .ok r → ∃ p, w = p ++ r ∧ Derives g e p := by
  induction h with
  | empty => rintro _ ⟨⟩; exact ⟨[], rfl, .empty⟩
  | @token t w => rintro _ ⟨⟩; exact ⟨[t], rfl, .token⟩
  | stuck _ => rintro _ ⟨⟩
  | rule _ ih =>
    intro r hr
    obtain ⟨p, hp, hd⟩ := ih hr
    exact ⟨p, hp, .rule hd⟩
  | seq _ _ ihx ihy =>
    intro r hr
    obtain ⟨p, rfl, hp⟩ := ihx rfl
    obtain ⟨q, rfl, hq⟩ := ihy hr
    exact ⟨p ++ q, (List.append_assoc p q r).symm, .seq hp hq⟩
  | seqStuck _ _ => rintro _ ⟨⟩
  | left _ _ ih =>
    intro r hr
    obtain ⟨p, hp, hd⟩ := ih hr
    exact ⟨p, hp, .left hd⟩
  | right hn _ ih =>
    intro r hr
    obtain ⟨p, rfl, hd⟩ := ih hr
    exact ⟨p, rfl, .right (fun hs => hn (hs.append r)) hd⟩
  | stop _ => rintro _ ⟨⟩; exact ⟨[], rfl, .nil⟩
  | more _ _ _ ihx ih =>
    intro r hr
    obtain ⟨p, rfl, hp⟩ := ihx rfl
    obtain ⟨q, rfl, hq⟩ := ih hr
    exact ⟨p ++ q, (List.append_assoc p q r).symm, .cons hp hq⟩
  | moreStuck _ _ _ => rintro _ ⟨⟩

theorem exists_derives (hrule : ∀ a, ∃ p, Derives g (.rule a) p) : ∀ e, ∃ p, Derives g e p
  | .empty => ⟨[], .empty⟩
  | .token t => ⟨[t], .token⟩
  | .rule a => hrule a
  | .seq x y => by
    obtain ⟨p, hp⟩ := exists_derives hrule x
    obtain ⟨q, hq⟩ := exists_derives hrule y
    exact ⟨p ++ q, .seq hp hq⟩
  | .alt x _ => by
    obtain ⟨p, hp⟩ := exists_derives hrule x
    exact ⟨p, .left hp⟩
  | .star _ => ⟨[], .nil⟩

/-- What is read when the descent is stuck begins a sentence. -/
theorem Reads.viable (hrule : ∀ a, ∃ p, Derives g (.rule a) p) (h : Reads g e w o) :
    ∀ {r}, o = .error r → ∃ p q, w = p ++ r ∧ Derives g e (p ++ q) := by
  induction h with
  | empty => rintro _ ⟨⟩
  | token => rintro _ ⟨⟩
  | @stuck t w _ => rintro _ ⟨⟩; exact ⟨[], [t], rfl, .token⟩
  | rule _ ih =>
    intro r hr
    obtain ⟨p, q, hp, hd⟩ := ih hr
    exact ⟨p, q, hp, .rule hd⟩
  | seq hx _ _ ihy =>
    intro r hr
    obtain ⟨p', rfl, hp'⟩ := hx.sound rfl
    obtain ⟨p, q, rfl, hd⟩ := ihy hr
    refine ⟨p' ++ p, q, (List.append_assoc p' p r).symm, ?_⟩
    rw [List.append_assoc]
    exact .seq hp' hd
  | @seqStuck x y _ _ _ ih =>
    intro r hr
    cases hr
    obtain ⟨p, q, hp, hd⟩ := ih rfl
    obtain ⟨q', hq'⟩ := exists_derives hrule y
    refine ⟨p, q ++ q', hp, ?_⟩
    rw [← List.append_assoc]
    exact .seq hd hq'
  | left _ _ ih =>
    intro r hr
    obtain ⟨p, q, hp, hd⟩ := ih hr
    exact ⟨p, q, hp, .left hd⟩
  | @right x _ _ _ hn _ ih =>
    intro r hr
    obtain ⟨p, q, rfl, hd⟩ := ih hr
    cases p with
    | nil =>
      -- nothing is read yet: the other side has a sentence too
      obtain ⟨q', hq'⟩ := exists_derives hrule x
      exact ⟨[], q', rfl, .left hq'⟩
    | cons t p => exact ⟨t :: p, q, rfl, .right hn hd⟩
  | stop _ => rintro _ ⟨⟩
  | more _ hx _ _ ih =>
    intro r hr
    obtain ⟨p', rfl, hp'⟩ := hx.sound rfl
    obtain ⟨p, q, rfl, hd⟩ := ih hr
    refine ⟨p' ++ p, q, (List.append_assoc p' p r).symm, ?_⟩
    rw [List.append_assoc]
    exact .cons hp' hd
  | moreStuck _ _ ih =>
    intro r hr
    cases hr
    obtain ⟨p, q, hp, hd⟩ := ih rfl
    refine ⟨p, q, hp, ?_⟩
    rw [← List.append_nil (p ++ q)]
    exact .cons hd .nil

/-! ## What is behind -/

/-- What is behind the next token does not matter. -/
theorem Reads.local (h : Reads g e w o) : ∀ {p t r}, w = p ++ t :: r → o = .ok (t :: r) → ∀ r',
    Reads g e (p ++ t :: r') (.ok (t :: r')) := by
  induction h with
  | empty =>
    intro p t r hw ho r'
    cases ho
    obtain rfl : p = [] := List.self_eq_append_left.mp hw
    exact .empty
  | @token s w =>
    intro p t r hw ho r'
    cases ho
    obtain rfl : p = [s] := (List.append_cancel_right hw).symm
    exact .token
  | stuck _ => rintro _ _ _ _ ⟨⟩
  | rule _ ih => intro p t r hw ho r'; exact .rule (ih hw ho r')
  | @seq x y w w₁ o hx hy ihx ihy =>
    rintro p t r rfl rfl r'
    obtain ⟨p₁, hp₁⟩ := hx.suffix
    obtain ⟨p₂, rfl⟩ := hy.suffix
    obtain rfl : p₁ ++ p₂ = p := List.append_cancel_right ((List.append_assoc _ _ _).trans hp₁)
    rw [List.append_assoc]
    refine .seq ?_ (ihy rfl rfl r')
    cases p₂ with
    | nil => exact ihx hp₁.symm rfl r'
    | cons s p₂ => exact ihx hp₁.symm rfl (p₂ ++ t :: r')
  | seqStuck _ _ => rintro _ _ _ _ ⟨⟩
  | left hs _ ih =>
    rintro p t r rfl ho r'
    exact .left (Grammar.starts_behind.mp hs) (ih rfl ho r')
  | right hn _ ih =>
    rintro p t r rfl ho r'
    exact .right (fun hs => hn (Grammar.starts_behind.mp hs)) (ih rfl ho r')
  | stop hn =>
    intro p t r hw ho r'
    cases ho
    obtain rfl : p = [] := List.self_eq_append_left.mp hw
    exact .stop fun hs => hn (Grammar.starts_behind (p := []) |>.mp hs)
  | @more x w w₁ o hs hx hy ihx ih =>
    rintro p t r rfl rfl r'
    obtain ⟨p₁, hp₁⟩ := hx.suffix
    obtain ⟨p₂, rfl⟩ := hy.suffix
    obtain rfl : p₁ ++ p₂ = p := List.append_cancel_right ((List.append_assoc _ _ _).trans hp₁)
    have hs' : g.Starts x ((p₁ ++ p₂) ++ t :: r') := Grammar.starts_behind.mp hs
    rw [List.append_assoc] at hs' ⊢
    refine .more hs' ?_ (ih rfl rfl r')
    cases p₂ with
    | nil => exact ihx hp₁.symm rfl r'
    | cons s p₂ => exact ihx hp₁.symm rfl (p₂ ++ t :: r')
  | moreStuck _ _ _ => rintro _ _ _ _ ⟨⟩

/-- A led expression with the empty sentence leaves a token it does not start with. -/
theorem Reads.skips : ∀ {e : Ebnf T N}, e.led = true → e.nullable = true → ∀ {t w o},
    ¬ g.Starts e (t :: w) → Reads g e (t :: w) o → o = .ok (t :: w) := by
  intro e
  induction e with
  | empty => rintro - - t w o - ⟨⟩; rfl
  | token s => intro _ h; cases h
  | rule a => intro h; cases h
  | seq x y ihx ihy =>
    intro hled hnull t w o hn h
    simp only [Ebnf.led, Bool.and_eq_true, Bool.or_eq_true, Bool.not_eq_true'] at hled
    rw [Ebnf.nullable, Bool.and_eq_true] at hnull
    have hx : ¬ g.Starts x (t :: w) := fun ⟨s, hs, ht⟩ => hn ⟨s, List.mem_append_left _ hs, ht⟩
    have hy : ¬ g.Starts y (t :: w) := fun ⟨s, hs, ht⟩ => hn ⟨s, by
      rw [Grammar.firsts, if_pos hnull.1]
      exact List.mem_append_right _ hs, ht⟩
    cases h with
    | seq h1 h2 =>
      cases ihx hled.1 hnull.1 hx h1
      exact ihy (hled.2.resolve_left (by rw [hnull.1]; decide)) hnull.2 hy h2
    | seqStuck h1 => cases ihx hled.1 hnull.1 hx h1
  | alt x y ihx ihy =>
    intro hled hnull t w o hn h
    simp only [Ebnf.led, Bool.and_eq_true, Bool.not_eq_true'] at hled
    rw [Ebnf.nullable, hled.1.1, Bool.false_or] at hnull
    cases h with
    | left hs _ =>
      obtain ⟨s, hmem, ht⟩ := hs
      exact absurd ⟨s, List.mem_append_left _ hmem, ht⟩ hn
    | right _ hy =>
      exact ihy hled.2 hnull (fun ⟨s, hmem, ht⟩ => hn ⟨s, List.mem_append_right _ hmem, ht⟩) hy
  | star x _ =>
    intro _ _ t w o hn h
    cases h with
    | stop _ => rfl
    | more hs _ _ => exact absurd hs hn
    | moreStuck hs _ => exact absurd hs hn

/-- A led expression takes a token it starts with. -/
theorem Reads.takes : ∀ {e : Ebnf T N}, e.led = true → ∀ {t w o}, g.Starts e (t :: w) →
    Reads g e (t :: w) o → rest o <:+ w := by
  intro e
  induction e with
  | empty => rintro - t w o ⟨_, h, -⟩; cases h
  | token s =>
    rintro - t w o ⟨_, hs, ht⟩ h
    obtain rfl := List.mem_singleton.mp hs
    cases ht
    cases h with
    | token => exact List.suffix_rfl
    | stuck hne => exact absurd rfl hne
  | rule a => intro h; cases h
  | seq x y ihx ihy =>
    intro hled t w o hs h
    simp only [Ebnf.led, Bool.and_eq_true, Bool.or_eq_true, Bool.not_eq_true'] at hled
    by_cases hx : g.Starts x (t :: w)
    · cases h with
      | seq h1 h2 => exact h2.suffix.trans (ihx hled.1 hx h1)
      | seqStuck h1 => exact ihx hled.1 hx h1
    · obtain ⟨s, hmem, hhead⟩ := hs
      rw [Grammar.firsts, List.mem_append] at hmem
      rcases hmem with hmem | hmem
      · exact absurd ⟨s, hmem, hhead⟩ hx
      · split at hmem
        · have hnull : x.nullable = true := ‹_›
          cases h with
          | seq h1 h2 =>
            cases h1.skips hled.1 hnull hx
            exact ihy (hled.2.resolve_left (by rw [hnull]; decide)) ⟨s, hmem, hhead⟩ h2
          | seqStuck h1 => cases h1.skips hled.1 hnull hx
        · cases hmem
  | alt x y ihx ihy =>
    intro hled t w o hs h
    simp only [Ebnf.led, Bool.and_eq_true] at hled
    cases h with
    | left hsx hx => exact ihx hled.1.2 hsx hx
    | right hn hy =>
      refine ihy hled.2 ?_ hy
      obtain ⟨s, hmem, hhead⟩ := hs
      rcases List.mem_append.mp hmem with hmem | hmem
      · exact absurd ⟨s, hmem, hhead⟩ hn
      · exact ⟨s, hmem, hhead⟩
  | star x ih =>
    intro hled t w o hs h
    cases h with
    | stop hn => exact absurd hs hn
    | more _ hx hy => exact hy.suffix.trans (ih hled hs hx)
    | moreStuck _ hx => exact ih hled hs hx

/-- One token more behind the tokens of a first part. -/
theorem Reads.goes {p₁ : List T} (hx : Reads g x p (.ok p₁)) {t : T}
    (hend : Except.ok (ε := List T) p₁ = .ok [] → ∀ {t w o'}, Reads g x (p ++ t :: w) o' →
      o' = .ok (t :: w) ∨ rest o' <:+ w) (h : Reads g x (p ++ t :: w) o) :
    o = .ok (p₁ ++ t :: w) ∨ rest o <:+ w := by
  cases p₁ with
  | nil => exact hend rfl h
  | cons s p₁ =>
    obtain ⟨q, rfl⟩ := hx.suffix
    have hsame := hx.local rfl rfl (p₁ ++ t :: w)
    rw [List.append_assoc] at h
    exact .inl (h.unique hsame)

section
variable [DecidableEq T]

/-- A sentence is read, whatever is behind it, unless the next token could go on with
the sentence. -/
theorem Derives.reads (hg : g.LookaheadOne) (h : Derives g e p) : g.predictive e = true →
    ∀ r, (∀ t ∈ g.mores e, r.head? ≠ some t) → Reads g e (p ++ r) (.ok r) := by
  induction h with
  | empty => intro _ r _; exact .empty
  | token => intro _ r _; exact .token
  | @rule a p _ ih =>
    intro _ r hr
    exact .rule (ih (hg.body a) r fun t ht => hr t (hg.more a ht))
  | @seq x y p q hp hq ihx ihy =>
    intro hpred r hr
    simp only [Grammar.predictive, Bool.and_eq_true, List.all_eq_true, decide_eq_true_eq] at hpred
    rw [List.append_assoc]
    refine .seq (ihx hpred.1.1 _ fun t ht => ?_)
      (ihy hpred.1.2 r fun t ht => hr t (List.mem_append_left _ ht))
    rcases hq.first hg.first hg.solid with ⟨rfl, hnull⟩ | ⟨s, hs, hhead⟩
    · refine hr t ?_
      rw [Grammar.mores, if_pos hnull]
      exact List.mem_append_right _ ht
    · rw [List.head?_append, hhead]
      rintro ⟨⟩
      exact hpred.2 t hs ht
  | @left x y p hp ih =>
    intro hpred r hr
    simp only [Grammar.predictive, Bool.and_eq_true, Bool.not_eq_true'] at hpred
    refine .left ?_ (ih hpred.1.1.1 r fun t ht =>
      hr t (List.mem_append_left _ (List.mem_append_left _ ht)))
    rcases hp.first hg.first hg.solid with ⟨-, hnull⟩ | hs
    · rw [hpred.1.2] at hnull
      cases hnull
    · exact hs.append r
  | @right x y p hn hp ih =>
    intro hpred r hr
    simp only [Grammar.predictive, Bool.and_eq_true, Bool.not_eq_true'] at hpred
    refine .right ?_ (ih hpred.1.1.2 r fun t ht =>
      hr t (List.mem_append_left _ (List.mem_append_right _ ht)))
    cases p with
    | cons t p => exact hn
    | nil =>
      rintro ⟨t, ht, hhead⟩
      rcases hp.first hg.first hg.solid with ⟨-, hnull⟩ | hs
      · refine hr t ?_ hhead
        rw [Grammar.mores, if_pos hnull]
        exact List.mem_append_right _ ht
      · exact Grammar.not_starts_nil hs
  | @nil x =>
    intro _ r hr
    exact .stop fun ⟨t, ht, hhead⟩ => hr t (List.mem_append_left _ ht) hhead
  | @cons x p q hp hq ihx ih =>
    intro hpred r hr
    have hall := hpred
    simp only [Grammar.predictive, Bool.and_eq_true, Bool.not_eq_true', List.all_eq_true,
      decide_eq_true_eq] at hpred
    have hs : g.Starts x p := (hp.first hg.first hg.solid).resolve_left fun h => by
      rw [hpred.1.1.2] at h
      cases h.2
    rw [List.append_assoc]
    refine .more (hs.append _) (ihx hpred.1.1.1 _ fun t ht => ?_) (ih hall r hr)
    rcases hq.first hg.first hg.solid with ⟨rfl, -⟩ | ⟨s, hmem, hhead⟩
    · exact hr t (List.mem_append_right _ ht)
    · rw [List.head?_append, hhead]
      rintro ⟨⟩
      exact hpred.2 t hmem ht

/-- Behind a sentence that ends the tokens, one token more is left, or it is taken. -/
theorem Reads.extend (hg : g.LookaheadOne) (h : Reads g e p o) : o = .ok [] →
    g.predictive e = true → ∀ {t w o'}, Reads g e (p ++ t :: w) o' →
      o' = .ok (t :: w) ∨ rest o' <:+ w := by
  induction h with
  | empty =>
    intro ho _ t w o' h'
    cases ho
    cases h'
    exact .inl rfl
  | token =>
    intro ho _ t w o' h'
    cases ho
    cases h' with
    | token => exact .inl rfl
    | stuck hne => exact absurd rfl hne
  | stuck _ => rintro ⟨⟩
  | @rule a _ _ _ ih =>
    intro ho _ t w o' h'
    cases h' with
    | rule h' => exact ih ho (hg.body a) h'
  | @seq x y p p₁ o hx hy ihx ihy =>
    rintro rfl hpred t w o' h'
    simp only [Grammar.predictive, Bool.and_eq_true] at hpred
    cases h' with
    | seq h1 h2 =>
      rcases hx.goes (fun h => ihx h hpred.1.1) h1 with h | h
      · cases h
        exact ihy rfl hpred.1.2 h2
      · exact .inr (h2.suffix.trans h)
    | seqStuck h1 =>
      rcases hx.goes (fun h => ihx h hpred.1.1) h1 with h | h
      · cases h
      · exact .inr h
  | seqStuck _ _ => rintro ⟨⟩
  | left hs _ ih =>
    intro ho hpred t w o' h'
    simp only [Grammar.predictive, Bool.and_eq_true] at hpred
    cases h' with
    | left _ h' => exact ih ho hpred.1.1.1 h'
    | right hn _ => exact absurd (hs.append _) hn
  | @right x y p o hn _ ih =>
    intro ho hpred t w o' h'
    simp only [Grammar.predictive, Bool.and_eq_true] at hpred
    cases h' with
    | left hs h' =>
      cases p with
      | nil => exact .inr (h'.takes hpred.2 hs)
      | cons s p => exact absurd hs hn
    | right _ h' => exact ih ho hpred.1.1.2 h'
  | @stop x p hn =>
    intro ho hpred t w o' h'
    cases ho
    simp only [Grammar.predictive, Bool.and_eq_true] at hpred
    cases h' with
    | stop _ => exact .inl rfl
    | more hs h1 h2 => exact .inr (h2.suffix.trans (h1.takes hpred.1.2 hs))
    | moreStuck hs h1 => exact .inr (h1.takes hpred.1.2 hs)
  | @more x p p₁ o hs hx hy ihx ih =>
    rintro rfl hpred t w o' h'
    have hall := hpred
    simp only [Grammar.predictive, Bool.and_eq_true] at hpred
    cases h' with
    | stop hn => exact absurd (hs.append _) hn
    | more _ h1 h2 =>
      rcases hx.goes (fun h => ihx h hpred.1.1.1) h1 with h | h
      · cases h
        exact ih rfl hall h2
      · exact .inr (h2.suffix.trans h)
    | moreStuck _ h1 =>
      rcases hx.goes (fun h => ihx h hpred.1.1.1) h1 with h | h
      · cases h
      · exact .inr h
  | moreStuck _ _ _ => rintro ⟨⟩

/-- The descent returns behind exactly those sentences that the next token does not go
on with. -/
theorem reads_iff (hg : g.LookaheadOne) (hrule : ∀ a, ∃ p, Derives g (.rule a) p)
    (he : g.predictive e = true) (h : Reads g e w o) : o = .ok r ↔
      ∃ p, w = p ++ r ∧ Derives g e p ∧ ∀ t, r.head? = some t → ¬ ∃ q, Derives g e (p ++ t :: q) := by
  constructor
  · rintro rfl
    obtain ⟨p, rfl, hp⟩ := h.sound rfl
    refine ⟨p, rfl, hp, fun t hr => ?_⟩
    obtain ⟨r, rfl⟩ : ∃ r', r = t :: r' := List.head?_eq_some_iff.mp hr
    rintro ⟨q, hq⟩
    have hall := hq.reads hg he [] fun _ _ => nofun
    rw [List.append_nil] at hall
    cases hall.unique (h.local rfl rfl q)
  · rintro ⟨p, rfl, hp, hstop⟩
    have hend := hp.reads hg he [] fun _ _ => nofun
    cases r with
    | nil => exact h.unique hend
    | cons t r =>
      rw [List.append_nil] at hend
      refine (hend.extend hg rfl he h).resolve_right fun hsuffix => ?_
      -- the descent took `t`, and so the sentence goes on with it
      obtain ⟨u, hu⟩ := hsuffix
      have hgo : ∀ {p'}, p ++ t :: r = p' ++ rest o → p' = p ++ t :: u := fun hp' => by
        refine List.append_cancel_right (hp'.symm.trans ?_)
        rw [List.append_assoc, List.cons_append, hu]
      cases o with
      | ok r' =>
        obtain ⟨p', hp', hd⟩ := h.sound rfl
        exact hstop t rfl ⟨u, hgo hp' ▸ hd⟩
      | error r' =>
        obtain ⟨p', q, hp', hd⟩ := h.viable hrule rfl
        refine hstop t rfl ⟨u ++ q, ?_⟩
        rw [hgo hp', List.append_assoc] at hd
        exact hd

end

/-! ## Programs -/

section
variable {ε σ α β : Type} {view : σ → List T} {P Q : List T → Prop} {k : Nat} {t : T}
  {X Y : Prog ε σ α}

/-- The run from the tokens `w` is the descent over `e`. -/
def Lands (g : Grammar T N) (view : σ → List T) (e : Ebnf T N) (w : List T) :
    EStateM.Result (Fault ε) σ α → Prop
  | .ok _ s => Reads g e w (.ok (view s))
  | .error (.err _) s => Reads g e w (.error (view s))
  | .error .panic _ => False

/-- On fewer than `k` tokens of `P`, the program goes as a descent over `e` does, and
does not panic. -/
def FollowsIf (g : Grammar T N) (view : σ → List T) (P : List T → Prop) (k : Nat)
    (m : Prog ε σ α) (e : Ebnf T N) : Prop :=
  ∀ s, (view s).length < k → P (view s) → Lands g view e (view s) (m s)

/-- `FollowsIf` without a condition. -/
abbrev Follows (g : Grammar T N) (view : σ → List T) (k : Nat) (m : Prog ε σ α) (e : Ebnf T N) :
    Prop := FollowsIf g view (fun _ => True) k m e

theorem FollowsIf.mono {m : Prog ε σ α} (h : FollowsIf g view Q k m e) {j : Nat} (hj : j ≤ k)
    (hP : ∀ w, P w → Q w) : FollowsIf g view P j m e :=
  fun s hlen hs => h s (Nat.lt_of_lt_of_le hlen hj) (hP _ hs)

theorem Follows.less {m : Prog ε σ α} (h : Follows g view k m e) {j : Nat} (hj : j ≤ k) :
    FollowsIf g view P j m e := FollowsIf.mono h hj fun _ _ => trivial

theorem FollowsIf.pure {a : α} : FollowsIf g view P k (Pure.pure a : Prog ε σ α) .empty :=
  fun _ _ _ => .empty

theorem FollowsIf.bind {m : Prog ε σ α} {f : α → Prog ε σ β} (h : FollowsIf g view P k m x)
    (hQ : ∀ {s a s'}, m s = .ok a s' → Q (view s')) (hf : ∀ a, FollowsIf g view Q k (f a) y) :
    FollowsIf g view P k (m >>= f) (.seq x y) := by
  intro s hlen hP
  have hm := h s hlen hP
  rw [bind_apply]
  cases hms : m s with
  | error e s' =>
    rw [hms] at hm
    cases e with
    | err e => exact .seqStuck hm
    | panic => exact hm
  | ok a s' =>
    rw [hms] at hm
    have hrest := hf a s' (Nat.lt_of_le_of_lt hm.suffix.length_le hlen) (hQ hms)
    dsimp only
    cases hfs : f a s' with
    | error e s'' =>
      rw [hfs] at hrest
      cases e with
      | err e => exact .seq hm hrest
      | panic => exact hrest
    | ok b s'' =>
      rw [hfs] at hrest
      exact .seq hm hrest

theorem FollowsIf.then {m : Prog ε σ α} {f : α → Prog ε σ β} (h : FollowsIf g view P k m x)
    (hf : ∀ a, Follows g view k (f a) y) : FollowsIf g view P k (m >>= f) (.seq x y) :=
  h.bind (fun _ => trivial) hf

theorem FollowsIf.map {m : Prog ε σ α} (h : FollowsIf g view P k m e) (f : α → β) :
    FollowsIf g view P k (m >>= fun a => Pure.pure (f a)) e := by
  intro s hlen hP
  have hm := h s hlen hP
  rw [bind_apply]
  cases hms : m s with
  | error e s' =>
    rw [hms] at hm
    cases e <;> exact hm
  | ok a s' =>
    rw [hms] at hm
    exact hm

theorem FollowsIf.last {m : Prog ε σ α} (h : FollowsIf g view P k m e) :
    FollowsIf g view P k m (.seq e .empty) := by
  intro s hlen hP
  have hm := h s hlen hP
  cases hms : m s with
  | error e s' =>
    rw [hms] at hm
    cases e with
    | err e => exact .seqStuck hm
    | panic => exact hm
  | ok a s' =>
    rw [hms] at hm
    exact .seq hm .empty

/-- Parts with more behind them. -/
theorem Reads.parts {z : Ebnf T N} : ∀ {xs : List (Ebnf T N)} {w o},
    Reads g (xs.foldr .seq z) w o →
    (∃ w', Reads g (xs.foldr .seq .empty) w (.ok w') ∧ Reads g z w' o) ∨
      (∃ w', o = .error w' ∧ Reads g (xs.foldr .seq .empty) w (.error w'))
  | [], w, _, h => .inl ⟨w, .empty, h⟩
  | x :: xs, _, _, h => by
    cases h with
    | seq h1 h2 =>
      rcases h2.parts with ⟨w', hw, hz⟩ | ⟨w', ho, hw⟩
      · exact .inl ⟨w', .seq h1 hw, hz⟩
      · exact .inr ⟨w', ho, .seq h1 hw⟩
    | seqStuck h1 => exact .inr ⟨_, rfl, .seqStuck h1⟩

/-- A round of a loop. -/
theorem Reads.round {xs : List (Ebnf T N)} (hs : g.Starts (xs.foldr .seq .empty) w)
    (h : Reads g (xs.foldr .seq (.star (xs.foldr .seq .empty))) w o) :
    Reads g (.star (xs.foldr .seq .empty)) w o := by
  rcases h.parts with ⟨w', hw, hz⟩ | ⟨w', rfl, hw⟩
  · exact .more hs hw hz
  · exact .moreStuck hs hw

/-- A program that takes the next token if it is `t`. -/
def Tests (view : σ → List T) (m : Prog ε σ Bool) (t : T) : Prop :=
  ∀ s, (∃ s', m s = .ok true s' ∧ view s = t :: view s') ∨
    (m s = .ok false s ∧ (view s).head? ≠ some t)

theorem starts_seq {w : List T} (h : x.nullable = false) : g.Starts (.seq x y) w ↔ g.Starts x w := by
  unfold Grammar.Starts
  rw [Grammar.firsts, h, if_neg Bool.false_ne_true, List.append_nil]

theorem starts_token {w : List T} : g.Starts (.seq (.token t) x) w ↔ w.head? = some t := by
  rw [starts_seq rfl]
  constructor
  · rintro ⟨s, hs, hw⟩
    rwa [List.mem_singleton.mp hs] at hw
  · exact fun hw => ⟨t, List.mem_singleton_self t, hw⟩

/-- A choice by the next token. -/
theorem FollowsIf.branch {m : Prog ε σ Bool} (ht : Tests view m t)
    (hX : ∀ j < k, Follows g view j X x) (hY : FollowsIf g view P k Y y) :
    FollowsIf g view P k (m >>= fun b => if b = true then X else Y)
      (.alt (.seq (.token t) x) y) := by
  intro s hlen hP
  rcases ht s with ⟨s', hm, hview⟩ | ⟨hm, hview⟩
  · rw [bind_ok hm, if_pos rfl]
    rw [hview] at hlen ⊢
    have hstart : g.Starts (.seq (.token t) x) (t :: view s') := starts_token.mpr rfl
    have hrest := hX _ hlen s' (Nat.lt_succ_self _) trivial
    cases hs : X s' with
    | error e s'' =>
      rw [hs] at hrest
      cases e with
      | err e => exact .left hstart (.seq .token hrest)
      | panic => exact hrest
    | ok a s'' =>
      rw [hs] at hrest
      exact .left hstart (.seq .token hrest)
  · rw [bind_ok hm, if_neg Bool.false_ne_true]
    have hn : ¬ g.Starts (.seq (.token t) x) (view s) := fun h => hview (starts_token.mp h)
    have hrest := hY s hlen hP
    cases hs : Y s with
    | error e s'' =>
      rw [hs] at hrest
      cases e with
      | err e => exact .right hn hrest
      | panic => exact hrest
    | ok a s'' =>
      rw [hs] at hrest
      exact .right hn hrest

/-- A choice whose other side is an error. -/
theorem FollowsIf.demand {m : Prog ε σ Bool} (ht : Tests view m t)
    (hX : ∀ j < k, Follows g view j X x) (hY : ∀ s, ∃ e, Y s = .error (.err e) s) :
    FollowsIf g view P k (m >>= fun b => if b = true then X else Y) (.seq (.token t) x) := by
  intro s hlen _
  rcases ht s with ⟨s', hm, hview⟩ | ⟨hm, hview⟩
  · rw [bind_ok hm, if_pos rfl]
    rw [hview] at hlen ⊢
    have hrest := hX _ hlen s' (Nat.lt_succ_self _) trivial
    cases hs : X s' with
    | error e s'' =>
      rw [hs] at hrest
      cases e with
      | err e => exact .seq .token hrest
      | panic => exact hrest
    | ok a s'' =>
      rw [hs] at hrest
      exact .seq .token hrest
  · obtain ⟨e, he⟩ := hY s
    rw [bind_ok hm, if_neg Bool.false_ne_true, he]
    exact .seqStuck (.stuck hview)

/-- A choice with more behind it. -/
theorem FollowsIf.branch_bind {m : Prog ε σ Bool} {f : α → Prog ε σ β} {y₁ : Ebnf T N}
    (ht : Tests view m t) (hX : ∀ j < k, Follows g view j X x)
    (hQ : ∀ {s a s'}, X s = .ok a s' → Q (view s')) (hf : ∀ a, FollowsIf g view Q k (f a) y₁)
    (hY : FollowsIf g view P k (Y >>= f) y) :
    FollowsIf g view P k ((m >>= fun b => if b = true then X else Y) >>= f)
      (.alt (.seq (.token t) (.seq x y₁)) y) := by
  have hassoc : ((m >>= fun b => if b = true then X else Y) >>= f) =
      m >>= fun b => if b = true then X >>= f else Y >>= f := by
    rw [bind_assoc]
    congr 1
    funext b
    cases b <;> rfl
  rw [hassoc]
  exact .branch ht (fun j hj => (hX j hj).bind hQ fun a => (hf a).mono (Nat.le_of_lt hj) fun _ h => h) hY

theorem Tests.follows {m : Prog ε σ Bool} (ht : Tests view m t) :
    FollowsIf g view P k m (.alt (.seq (.token t) .empty) .empty) := by
  intro s _ _
  rcases ht s with ⟨s', hm, hview⟩ | ⟨hm, hview⟩
  · rw [hm, hview]
    exact .left (starts_token.mpr rfl) (.seq .token .empty)
  · rw [hm]
    exact .right (fun h => hview (starts_token.mp h)) .empty

/-- A program that always finds something. -/
def Finds (g : Grammar T N) (view : σ → List T) (m : Prog ε σ (Option α)) (e : Ebnf T N) : Prop :=
  ∀ s, ∃ a s', m s = .ok (some a) s' ∧ Reads g e (view s) (.ok (view s'))

/-- A program that finds something exactly where `e` starts. -/
def Picks (g : Grammar T N) (view : σ → List T) (m : Prog ε σ (Option α)) (e : Ebnf T N) : Prop :=
  ∀ s, (g.Starts e (view s) ∧
      ∃ a s', m s = .ok (some a) s' ∧ Reads g e (view s) (.ok (view s'))) ∨
    (¬ g.Starts e (view s) ∧ m s = .ok none s)

section
variable {X Y : Prog ε σ (Option α)} {m : Prog ε σ Bool}

theorem Finds.pure {a : α} : Finds g view (Pure.pure (some a) : Prog ε σ (Option α)) .empty :=
  fun s => ⟨a, s, rfl, .empty⟩

theorem Finds.branch (ht : Tests view m t) (hX : Finds g view X x) (hY : Finds g view Y y) :
    Finds g view (m >>= fun b => if b = true then X else Y) (.alt (.seq (.token t) x) y) := by
  intro s
  rcases ht s with ⟨s', hm, hview⟩ | ⟨hm, hview⟩
  · obtain ⟨a, s'', hs, hr⟩ := hX s'
    refine ⟨a, s'', ?_, ?_⟩
    · rw [bind_ok hm, if_pos rfl, hs]
    · rw [hview]
      exact .left (starts_token.mpr rfl) (.seq .token hr)
  · obtain ⟨a, s'', hs, hr⟩ := hY s
    refine ⟨a, s'', ?_, .right (fun h => hview (starts_token.mp h)) hr⟩
    rw [bind_ok hm, if_neg Bool.false_ne_true, hs]

theorem Picks.single (ht : Tests view m t) (hX : Finds g view X x) :
    Picks g view (m >>= fun b => if b = true then X else Pure.pure none) (.seq (.token t) x) := by
  intro s
  rcases ht s with ⟨s', hm, hview⟩ | ⟨hm, hview⟩
  · obtain ⟨a, s'', hs, hr⟩ := hX s'
    refine .inl ⟨starts_token.mpr (by rw [hview]; rfl), a, s'', ?_, ?_⟩
    · rw [bind_ok hm, if_pos rfl, hs]
    · rw [hview]
      exact .seq .token hr
  · refine .inr ⟨fun h => hview (starts_token.mp h), ?_⟩
    rw [bind_ok hm, if_neg Bool.false_ne_true]
    rfl

theorem Picks.branch (ht : Tests view m t) (hX : Finds g view X x) (hY : Picks g view Y y) :
    Picks g view (m >>= fun b => if b = true then X else Y) (.alt (.seq (.token t) x) y) := by
  intro s
  rcases ht s with ⟨s', hm, hview⟩ | ⟨hm, hview⟩
  · obtain ⟨a, s'', hs, hr⟩ := hX s'
    have hstart : g.Starts (.seq (.token t) x) (view s) := starts_token.mpr (by rw [hview]; rfl)
    obtain ⟨u, hu, hw⟩ := hstart
    refine .inl ⟨⟨u, List.mem_append_left _ hu, hw⟩, a, s'', ?_, .left ⟨u, hu, hw⟩ ?_⟩
    · rw [bind_ok hm, if_pos rfl, hs]
    · rw [hview]
      exact .seq .token hr
  · have hn : ¬ g.Starts (.seq (.token t) x) (view s) := fun h => hview (starts_token.mp h)
    have hrun : (m >>= fun b => if b = true then X else Y) s = Y s := by
      rw [bind_ok hm, if_neg Bool.false_ne_true]
    rw [hrun]
    rcases hY s with ⟨⟨u, hu, hw⟩, a, s'', hs, hr⟩ | ⟨hno, hs⟩
    · exact .inl ⟨⟨u, List.mem_append_right _ hu, hw⟩, a, s'', hs, .right hn hr⟩
    · refine .inr ⟨?_, hs⟩
      rintro ⟨u, hu, hw⟩
      rcases List.mem_append.mp hu with hu | hu
      · exact hn ⟨u, hu, hw⟩
      · exact hno ⟨u, hu, hw⟩

end

end

end Lib.Predictive
