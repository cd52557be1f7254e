import Mathlib.Logic.Function.Iterate
import Sqllite.Lib.Run

/-!
# Loops with fuel, and code in a program

`loop body n` runs `body` until it answers, at most `n` times; a run that needs
more is a `panic`. `Reaches body s t` says that from `s` the loop comes to `t`
without an answer, whatever fuel is left then; `Ends body s r` that it answers
with `r`, given enough fuel. A run is put together from the steps by
transitivity, and no lemma about it mentions fuel. The body may have a parameter
that the run does not depend on (the fuel of loops inside it, say).

`Placed code i seg` says that the segment `seg` stands in `code` at address `i`.
-/
namespace Lib.Machine
open Lib.Run

variable {ε σ ρ κ ι : Type}

/-- `while let None = body() {}`, for `n` rounds at most. -/
def loop (body : Prog ε σ (Option ρ)) : Nat → Prog ε σ ρ
  | 0 => throw .panic
  | n + 1 => do
    match ← body with
    | some r => pure r
    | none => loop body n

theorem loop_succ (body : Prog ε σ (Option ρ)) (s : σ) (n : Nat) :
    loop body (n + 1) s = match body s with
      | .ok (some r) t => .ok r t
      | .ok none t => loop body n t
      | .error e t => .error e t := by
  rw [loop, bind_apply]
  cases body s with
  | ok a t => cases a <;> rfl
  | error e t => rfl

/-- The loop leaves the state behind some of its rounds. -/
theorem post_loop (body : Prog ε σ (Option ρ)) (n : Nat) : ∀ s, ∃ k, post (loop body n) s = (post body)^[k] s := by
  induction n with
  | zero => exact fun s => ⟨0, rfl⟩
  | succ n ih =>
    intro s
    cases hbody : body s with
    | error e t =>
      refine ⟨1, ?_⟩
      rw [post_error ((loop_succ body s n).trans (by rw [hbody])), Function.iterate_one, post_error hbody]
    | ok answer t =>
      cases answer with
      | some r =>
        refine ⟨1, ?_⟩
        rw [post_ok ((loop_succ body s n).trans (by rw [hbody])), Function.iterate_one, post_ok hbody]
      | none =>
        obtain ⟨k, hk⟩ := ih t
        refine ⟨k + 1, ?_⟩
        rw [Function.iterate_succ_apply, post_ok hbody, ← hk]
        unfold post
        rw [loop_succ, hbody]

/-- What a round keeps, the loop keeps. -/
theorem Keeps.loop {body : Prog ε σ (Option ρ)} {I : σ → Prop} (h : Keeps I body) :
    ∀ n, Keeps I (loop body n)
  | 0 => Keeps.throw
  | n + 1 => Keeps.bind h fun a => by
    cases a with
    | some r => exact Keeps.pure
    | none => exact Keeps.loop h n

/-- A loop that returns has come to a round that answers; there holds what the rounds before
have kept. -/
theorem loop_answer {body : Prog ε σ (Option ρ)} {I : σ → Prop} (h : ∀ s t, I s → body s = .ok none t → I t) {a : ρ} {t : σ}
    {n : Nat} : ∀ {s : σ}, I s → loop body n s = .ok a t → ∃ u, I u ∧ body u = .ok (some a) t := by
  induction n with
  | zero =>
    intro s _ hloop
    cases hloop
  | succ n ih =>
    intro s hs hloop
    rw [loop_succ] at hloop
    cases hround : body s with
    | error e u =>
      rw [hround] at hloop
      cases hloop
    | ok answer u =>
      rw [hround] at hloop
      cases answer with
      | some r =>
        cases hloop
        exact ⟨s, hs, hround⟩
      | none => exact ih (h s u hs hround) hloop

section
variable {body : κ → Prog ε σ (Option ρ)} {s t u : σ} {r : EStateM.Result (Fault ε) σ ρ}

/-- From `s` the loop comes to `t`. -/
def Reaches (body : κ → Prog ε σ (Option ρ)) (s t : σ) : Prop :=
  ∃ k, ∀ x n, loop (body x) (n + k) s = loop (body x) n t

/-- From `s` the loop ends with `r`. -/
def Ends (body : κ → Prog ε σ (Option ρ)) (s : σ) (r : EStateM.Result (Fault ε) σ ρ) : Prop :=
  ∃ k, ∀ x n, k ≤ n → loop (body x) n s = r

theorem Reaches.refl : Reaches body s s := ⟨0, fun _ _ => rfl⟩

theorem Reaches.trans (h : Reaches body s t) (g : Reaches body t u) : Reaches body s u := by
  obtain ⟨k, hk⟩ := h
  obtain ⟨l, hl⟩ := g
  exact ⟨l + k, fun x n => by rw [← Nat.add_assoc, hk, hl]⟩

theorem Reaches.step (h : ∀ x, body x s = .ok none t) : Reaches body s t :=
  ⟨1, fun x n => by rw [loop_succ, h]⟩

theorem Reaches.ends (h : Reaches body s t) (g : Ends body t r) : Ends body s r := by
  obtain ⟨k, hk⟩ := h
  obtain ⟨l, hl⟩ := g
  refine ⟨l + k, fun x n hn => ?_⟩
  obtain ⟨m, rfl⟩ := Nat.exists_eq_add_of_le' (Nat.le_trans (Nat.le_add_left k l) hn)
  rw [hk]
  exact hl x m (by omega)

theorem Ends.answer {a : ρ} (h : ∀ x, body x s = .ok (some a) t) : Ends body s (.ok a t) := by
  refine ⟨1, fun x n hn => ?_⟩
  obtain ⟨m, rfl⟩ := Nat.exists_eq_add_of_le' hn
  rw [loop_succ, h]

theorem Ends.fail {e : Fault ε} (h : ∀ x, body x s = .error e t) : Ends body s (.error e t) := by
  refine ⟨1, fun x n hn => ?_⟩
  obtain ⟨m, rfl⟩ := Nat.exists_eq_add_of_le' hn
  rw [loop_succ, h]

/-- `n` rounds lead from `s` to `t`. -/
def Rounds (body : κ → Prog ε σ (Option ρ)) : Nat → σ → σ → Prop
  | 0, s, t => s = t
  | n + 1, s, t => ∃ x u, body x s = .ok none u ∧ Rounds body n u t

theorem Rounds.split {n : Nat} : ∀ {m : Nat} {s : σ}, Rounds body (m + n) s t →
    ∃ u, Rounds body m s u ∧ Rounds body n u t
  | 0, s, h => ⟨s, rfl, by rwa [Nat.zero_add] at h⟩
  | m + 1, s, h => by
    rw [Nat.add_right_comm] at h
    obtain ⟨x, v, hround, h⟩ := h
    obtain ⟨u, hleft, hright⟩ := Rounds.split h
    exact ⟨u, ⟨x, v, hround, hleft⟩, hright⟩

/-- The state behind `n` rounds. -/
def after (body : Prog ε σ (Option ρ)) : Nat → σ → Option σ
  | 0, s => some s
  | n + 1, s =>
    match body s with
    | .ok none t => after body n t
    | _ => none

theorem rounds_of_after {x : κ} : ∀ {n : Nat} {s : σ}, after (body x) n s = some t → Rounds body n s t
  | 0, s, h => Option.some.inj h
  | n + 1, s, h => by
    rw [after] at h
    cases hround : body x s with
    | error e u =>
      rw [hround] at h
      cases h
    | ok a u =>
      rw [hround] at h
      cases a with
      | some r => cases h
      | none => exact ⟨x, u, hround, rounds_of_after h⟩

/-- The run from `s` answers; its rounds are in front of these states. -/
inductive Answered (body : κ → Prog ε σ (Option ρ)) : σ → List σ → Prop
  | last {s t : σ} {x : κ} {a : ρ} : body x s = .ok (some a) t → Answered body s [s]
  | round {s t : σ} {x : κ} {hist : List σ} : body x s = .ok none t → Answered body t hist →
      Answered body s (s :: hist)

/-- Where every round goes on, the run does. -/
theorem Answered.next {R : σ → Prop} {hist : List σ} (h : Answered body s hist)
    (hbody : ∀ x a t, body x s = .ok a t → a = none ∧ R t) :
    ∃ t hist', R t ∧ Answered body t hist' ∧ hist = s :: hist' := by
  cases h with
  | last hlast => cases (hbody _ _ _ hlast).1
  | round hround hrest => exact ⟨_, _, (hbody _ _ _ hround).2, hrest, rfl⟩

/-- A loop that returns has answered. -/
theorem answered_of_loop {x : κ} {a : ρ} : ∀ {n : Nat} {s : σ}, loop (body x) n s = .ok a t →
    ∃ hist, Answered body s hist
  | 0, _, h => by cases h
  | n + 1, s, h => by
    rw [loop_succ] at h
    cases hround : body x s with
    | error e u =>
      rw [hround] at h
      cases h
    | ok b u =>
      rw [hround] at h
      cases b with
      | some r => exact ⟨[s], .last hround⟩
      | none =>
        obtain ⟨hist, hrest⟩ := answered_of_loop h
        exact ⟨s :: hist, .round hround hrest⟩

end

/-! ## Code -/

/-- `seg` stands in `code` at address `i`. -/
def Placed (code : List ι) (i : Nat) (seg : List ι) : Prop := ∃ pre post, code = pre ++ seg ++ post ∧
  pre.length = i

section
variable {code seg seg' : List ι} {i : Nat} {a : ι}

theorem Placed.head (h : Placed code i (a :: seg)) : code[i]? = some a := by
  obtain ⟨pre, post, rfl, rfl⟩ := h
  simp

theorem Placed.tail (h : Placed code i (a :: seg)) : Placed code (i + 1) seg := by
  obtain ⟨pre, post, rfl, rfl⟩ := h
  exact ⟨pre ++ [a], post, by simp, by simp⟩

theorem Placed.left (h : Placed code i (seg ++ seg')) : Placed code i seg := by
  obtain ⟨pre, post, rfl, rfl⟩ := h
  exact ⟨pre, seg' ++ post, by simp, rfl⟩

theorem Placed.right (h : Placed code i (seg ++ seg')) : Placed code (i + seg.length) seg' := by
  obtain ⟨pre, post, rfl, rfl⟩ := h
  exact ⟨pre ++ seg, post, by simp, by simp⟩

theorem Placed.whole : Placed code 0 code := ⟨[], [], by simp, rfl⟩

end

end Lib.Machine
