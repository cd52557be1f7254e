import Sqllite.Lib.Machine

/-!
# Two runs alike

Two programs run alike from two states when both return the same value, or both fail the
same way, in states that are related again (`Matches`). The rules follow the way programs
are built, as those of `Hoare` do.
-/
namespace Lib.Run

variable {ε σ τ α β : Type}

/-- The same value or the same failure, in related states. -/
def Matches (R : σ → τ → Prop) : EStateM.Result (Fault ε) σ α → EStateM.Result (Fault ε) τ α → Prop
  | .ok a s, .ok b t => a = b ∧ R s t
  | .error e s, .error f t => e = f ∧ R s t
  | _, _ => False

section
variable {R : σ → τ → Prop} {s : σ} {t : τ} {m : Prog ε σ α} {m' : Prog ε τ α}

theorem Matches.post (h : Matches R (m s) (m' t)) : R (post m s) (post m' t) := by
  unfold Run.post
  cases hm : m s <;> cases hm' : m' t <;> rw [hm, hm'] at h
  · exact h.2
  · exact h.elim
  · exact h.elim
  · exact h.2

theorem Matches.outcome (h : Matches R (m s) (m' t)) : outcome m s = outcome m' t := by
  unfold Run.outcome
  cases hm : m s <;> cases hm' : m' t <;> rw [hm, hm'] at h
  · exact congrArg Except.ok h.1
  · exact h.elim
  · exact h.elim
  · exact congrArg Except.error h.1

theorem Matches.pure {a : α} (h : R s t) : Matches R ((Pure.pure a : Prog ε σ α) s) ((Pure.pure a : Prog ε τ α) t) :=
  ⟨rfl, h⟩

theorem Matches.bind {f : α → Prog ε σ β} {f' : α → Prog ε τ β} (h : Matches R (m s) (m' t))
    (hf : ∀ a s' t', R s' t' → Matches R (f a s') (f' a t')) : Matches R ((m >>= f) s) ((m' >>= f') t) := by
  rw [bind_apply, bind_apply]
  cases hm : m s with
  | ok a s' =>
    cases hm' : m' t with
    | ok b t' =>
      rw [hm, hm'] at h
      obtain ⟨rfl, hR⟩ := h
      exact hf a s' t' hR
    | error e t' =>
      rw [hm, hm'] at h
      exact h.elim
  | error e s' =>
    cases hm' : m' t with
    | ok b t' =>
      rw [hm, hm'] at h
      exact h.elim
    | error f t' =>
      rw [hm, hm'] at h
      exact h

theorem Matches.lift {x : Res ε α} (h : R s t) : Matches R ((lift x : Prog ε σ α) s) ((lift x : Prog ε τ α) t) := by
  cases x with
  | ok a => exact ⟨rfl, h⟩
  | error e => exact ⟨rfl, h⟩

theorem Matches.get {f : σ → Prog ε σ β} {f' : τ → Prog ε τ β} (h : Matches R (f s s) (f' t t)) :
    Matches R ((get >>= f) s) ((get >>= f') t) := by
  rw [bind_ok (get_apply s), bind_ok (get_apply t)]
  exact h

theorem Matches.modify {f : σ → σ} {g : τ → τ} (h : R (f s) (g t)) :
    Matches R ((modify f : Prog ε σ PUnit) s) ((modify g : Prog ε τ PUnit) t) := ⟨rfl, h⟩

theorem Matches.set {s' : σ} {t' : τ} (h : R s' t') :
    Matches R ((set s' : Prog ε σ PUnit) s) ((set t' : Prog ε τ PUnit) t) := ⟨rfl, h⟩

/-- The same program on the same part of both states. -/
theorem Matches.zoom {υ : Type} {get : σ → υ} {get' : τ → υ} {put : υ → σ → σ} {put' : υ → τ → τ} (n : Prog ε υ α)
    (hget : get s = get' t) (hput : ∀ u, R (put u s) (put' u t)) :
    Matches R (zoom get put n s) (zoom get' put' n t) := by
  unfold Run.zoom
  rw [hget]
  cases n (get' t) with
  | ok a u => exact ⟨rfl, hput u⟩
  | error e u => exact ⟨rfl, hput u⟩

/-- Programs that run alike on parts of both states. -/
theorem Matches.parts {υ ω : Type} {Q : υ → ω → Prop} {get : σ → υ} {get' : τ → ω} {put : υ → σ → σ} {put' : ω → τ → τ}
    {n : Prog ε υ α} {n' : Prog ε ω α} (h : Matches Q (n (get s)) (n' (get' t)))
    (hput : ∀ u w, Q u w → R (put u s) (put' w t)) : Matches R (Run.zoom get put n s) (Run.zoom get' put' n' t) := by
  unfold Run.zoom
  cases hn : n (get s) <;> cases hn' : n' (get' t) <;> rw [hn, hn'] at h
  · exact ⟨h.1, hput _ _ h.2⟩
  · exact h.elim
  · exact h.elim
  · exact ⟨h.1, hput _ _ h.2⟩

/-- What the first program keeps besides. -/
theorem Matches.keeping {I : σ → Prop} (h : Matches R (m s) (m' t)) (hm : Keeps I m) (hs : I s) :
    Matches (fun s t => R s t ∧ I s) (m s) (m' t) := by
  have hkept := hm s hs
  cases hrun : m s <;> cases hrun' : m' t <;> rw [hrun] at hkept <;> rw [hrun, hrun'] at h
  · exact ⟨h.1, h.2, hkept⟩
  · exact h.elim
  · exact h.elim
  · exact ⟨h.1, h.2, hkept⟩

end

open Lib.Machine in
/-- Rounds that run alike make loops that run alike. -/
theorem Matches.loop {ρ : Type} {R : σ → τ → Prop} {body : Prog ε σ (Option ρ)} {body' : Prog ε τ (Option ρ)}
    (h : ∀ s t, R s t → Matches R (body s) (body' t)) (n : Nat) :
    ∀ s t, R s t → Matches R (loop body n s) (loop body' n t) := by
  induction n with
  | zero => exact fun s t hR => ⟨rfl, hR⟩
  | succ n ih =>
    intro s t hR
    refine Matches.bind (h s t hR) fun answer s' t' hR' => ?_
    cases answer with
    | some r => exact .pure hR'
    | none => exact ih s' t' hR'

end Lib.Run
