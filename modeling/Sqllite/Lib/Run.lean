import Mathlib.Data.List.Forall2
import Mathlib.Logic.Basic
import Mathlib.Order.Defs.PartialOrder

/-!
# Fallible programs over a state

A run of a program that can fail ends in one of three ways: a value, an error
value that the caller sees, or a panic. The state survives all three: what a
failing call had already changed stays changed. `Res ε` is the stateless case,
`Prog ε σ` the stateful one.

`Hoare P m Q E` is the triple with a postcondition for the value (`Q`) and one
for the state a failure leaves behind (`E`); its rules follow the way programs
are built (`pure`, `bind`, `lift`, `get`, `modify`).
-/
namespace Lib.Run

/-- How a call fails: an error value, or a panic. -/
inductive Fault (ε : Type) where
  | err (e : ε)
  | panic
  deriving DecidableEq, Repr

abbrev Res (ε α : Type) := Except (Fault ε) α

abbrev Prog (ε σ α : Type) := EStateM (Fault ε) σ α

variable {ε σ α β : Type}

instance decEqExcept [DecidableEq ε] [DecidableEq α] : DecidableEq (Except ε α)
  | .ok a, .ok b => decidable_of_iff (a = b) (by simp)
  | .error e, .error f => decidable_of_iff (e = f) (by simp)
  | .ok _, .error _ => .isFalse (by simp)
  | .error _, .ok _ => .isFalse (by simp)

instance decEqResult [DecidableEq ε] [DecidableEq σ] [DecidableEq α] : DecidableEq (EStateM.Result ε σ α)
  | .ok a s, .ok b t => decidable_of_iff (a = b ∧ s = t) (by simp)
  | .error e s, .error f t => decidable_of_iff (e = f ∧ s = t) (by simp)
  | .ok _ _, .error _ _ => .isFalse (by simp)
  | .error _ _, .ok _ _ => .isFalse (by simp)

/-! ## Stateless results -/

theorem Res.bind_eq_ok {x : Res ε α} {f : α → Res ε β} {b : β} :
    (x >>= f) = .ok b ↔ ∃ a, x = .ok a ∧ f a = .ok b := by
  cases x <;> simp [bind, Except.bind]

@[simp] theorem Res.ok_bind (a : α) (f : α → Res ε β) :
    ((.ok a : Res ε α) >>= f) = f a := rfl

@[simp] theorem Res.error_bind (e : Fault ε) (f : α → Res ε β) :
    ((.error e : Res ε α) >>= f) = .error e := rfl

@[simp] theorem Res.pure_eq (a : α) : (pure a : Res ε α) = .ok a := rfl

/-- A call that never fails, on every element. -/
theorem Res.mapM_ok {f : α → Res ε β} {g : α → β} : ∀ {l : List α}, (∀ a ∈ l, f a = .ok (g a)) →
    l.mapM f = .ok (l.map g)
  | [], _ => rfl
  | a :: l, h => by
    rw [List.mapM_cons, h a List.mem_cons_self, Res.ok_bind,
      Res.mapM_ok fun b hb => h b (List.mem_cons_of_mem _ hb)]
    rfl

/-- Calls on every element that all succeed. -/
theorem Res.mapM_eq_ok {f : α → Res ε β} : ∀ {l : List α} {bs : List β},
    l.mapM f = .ok bs ↔ List.Forall₂ (fun a b => f a = .ok b) l bs
  | [], bs => by
    constructor
    · intro h
      cases h
      exact .nil
    · intro h
      cases h
      rfl
  | a :: l, bs => by
    rw [List.mapM_cons, Res.bind_eq_ok]
    constructor
    · intro h
      obtain ⟨b, hb, h⟩ := h
      obtain ⟨rest, hrest, h⟩ := Res.bind_eq_ok.mp h
      cases h
      exact .cons hb (Res.mapM_eq_ok.mp hrest)
    · intro h
      cases h with
      | cons hb hrest =>
        refine ⟨_, hb, ?_⟩
        rw [Res.mapM_eq_ok.mpr hrest]
        rfl

/-! ## Stateful programs -/

/-- A stateless call inside a stateful program. -/
def lift (x : Res ε α) : Prog ε σ α := fun s =>
  match x with
  | .ok a => .ok a s
  | .error e => .error e s

instance : MonadLift (Res ε) (Prog ε σ) := ⟨lift⟩

/-- The state a run ends in, however it ends. -/
def post (m : Prog ε σ α) (s : σ) : σ :=
  match m s with
  | .ok _ s' => s'
  | .error _ s' => s'

theorem post_ok {m : Prog ε σ α} {s s' : σ} {a : α} (h : m s = .ok a s') : post m s = s' := by
  rw [post, h]

theorem post_error {m : Prog ε σ α} {s s' : σ} {e : Fault ε} (h : m s = .error e s') :
    post m s = s' := by
  rw [post, h]

@[simp] theorem lift_ok (a : α) (s : σ) : (lift (.ok a) : Prog ε σ α) s = .ok a s := rfl

@[simp] theorem lift_error (e : Fault ε) (s : σ) :
    (lift (.error e) : Prog ε σ α) s = .error e s := rfl

@[simp] theorem monadLift_eq (x : Res ε α) :
    (liftM x : Prog ε σ α) = lift x := rfl

theorem bind_apply (m : Prog ε σ α) (f : α → Prog ε σ β) (s : σ) :
    (m >>= f) s = match m s with
      | .ok a s' => f a s'
      | .error e s' => .error e s' := by
  show EStateM.bind m f s = _
  unfold EStateM.bind
  cases m s <;> rfl

theorem bind_ok {m : Prog ε σ α} {s s' : σ} {a : α} (h : m s = .ok a s') (f : α → Prog ε σ β) :
    (m >>= f) s = f a s' := by
  rw [bind_apply, h]

theorem bind_error {m : Prog ε σ α} {s s' : σ} {e : Fault ε} (h : m s = .error e s')
    (f : α → Prog ε σ β) : (m >>= f) s = .error e s' := by
  rw [bind_apply, h]

theorem post_bind_ok {m : Prog ε σ α} {s s' : σ} {a : α} (h : m s = .ok a s') (f : α → Prog ε σ β) :
    post (m >>= f) s = post (f a) s' := by
  unfold post
  rw [bind_ok h]

theorem post_bind_error {m : Prog ε σ α} {s s' : σ} {e : Fault ε} (h : m s = .error e s')
    (f : α → Prog ε σ β) : post (m >>= f) s = s' := by
  unfold post
  rw [bind_error h]

theorem post_bind_pure (m : Prog ε σ α) (f : α → β) (s : σ) :
    post (m >>= fun a => pure (f a)) s = post m s := by
  cases h : m s with
  | ok a t =>
    rw [post_bind_ok h, post_ok h]
    rfl
  | error e t => rw [post_bind_error h, post_error h]

theorem bind_eq_ok {m : Prog ε σ α} {f : α → Prog ε σ β} {s s' : σ} {b : β} :
    (m >>= f) s = .ok b s' ↔ ∃ a t, m s = .ok a t ∧ f a t = .ok b s' := by
  rw [bind_apply]
  cases m s with
  | ok a t => exact ⟨fun h => ⟨a, t, rfl, h⟩, by rintro ⟨_, _, h, hf⟩; cases h; exact hf⟩
  | error e t => simp

theorem lift_bind_eq_ok {x : Res ε α} {f : α → Prog ε σ β} {s s' : σ} {b : β} :
    (lift x >>= f) s = .ok b s' ↔ ∃ a, x = .ok a ∧ f a s = .ok b s' := by
  cases x with
  | ok a =>
    rw [bind_ok (lift_ok a s)]
    constructor
    · intro h
      exact ⟨a, rfl, h⟩
    · intro h
      obtain ⟨a', ha, h⟩ := h
      cases ha
      exact h
  | error e =>
    rw [bind_error (lift_error e s)]
    simp

@[simp] theorem pure_apply (a : α) (s : σ) : (pure a : Prog ε σ α) s = .ok a s := rfl

@[simp] theorem get_apply (s : σ) : (get : Prog ε σ σ) s = .ok s s := rfl

@[simp] theorem set_apply (s t : σ) : (set t : Prog ε σ PUnit) s = .ok ⟨⟩ t := rfl

@[simp] theorem modify_apply (f : σ → σ) (s : σ) :
    (modify f : Prog ε σ PUnit) s = .ok ⟨⟩ (f s) := rfl

@[simp] theorem throw_apply (e : Fault ε) (s : σ) :
    (throw e : Prog ε σ α) s = .error e s := rfl

/-- A program on a part of the state. -/
def zoom {τ : Type} (get : σ → τ) (put : τ → σ → σ) (m : Prog ε τ α) : Prog ε σ α := fun s =>
  match m (get s) with
  | .ok a t => .ok a (put t s)
  | .error e t => .error e (put t s)

theorem zoom_ok {τ : Type} {get : σ → τ} {put : τ → σ → σ} {m : Prog ε τ α} {s : σ} {a : α} {t : τ}
    (h : m (get s) = .ok a t) : zoom get put m s = .ok a (put t s) := by
  rw [zoom, h]

theorem of_zoom_ok {τ : Type} {get : σ → τ} {put : τ → σ → σ} {m : Prog ε τ α} {s s' : σ} {a : α}
    (h : zoom get put m s = .ok a s') : ∃ t, m (get s) = .ok a t ∧ s' = put t s := by
  rw [zoom] at h
  cases hm : m (get s) with
  | ok b t =>
    rw [hm] at h
    cases h
    exact ⟨t, rfl, rfl⟩
  | error e t =>
    rw [hm] at h
    cases h

theorem zoom_bind_eq_ok {τ : Type} {get : σ → τ} {put : τ → σ → σ} {m : Prog ε τ α}
    {f : α → Prog ε σ β} {s s' : σ} {b : β} (h : (zoom get put m >>= f) s = .ok b s') :
    ∃ a t, m (get s) = .ok a t ∧ f a (put t s) = .ok b s' := by
  rw [bind_apply, zoom] at h
  cases hm : m (get s) with
  | ok a t =>
    rw [hm] at h
    exact ⟨a, t, rfl, h⟩
  | error e t =>
    rw [hm] at h
    cases h

theorem zoom_error {τ : Type} {get : σ → τ} {put : τ → σ → σ} {m : Prog ε τ α} {s : σ}
    {e : Fault ε} {t : τ} (h : m (get s) = .error e t) : zoom get put m s = .error e (put t s) := by
  rw [zoom, h]

theorem post_zoom {τ : Type} (get : σ → τ) (put : τ → σ → σ) (m : Prog ε τ α) (s : σ) :
    post (zoom get put m) s = put (post m (get s)) s := by
  unfold post zoom
  cases m (get s) <;> rfl

/-- `for a in l { f(a)?; }`. -/
def forEach (f : α → Prog ε σ Unit) : List α → Prog ε σ Unit
  | [] => pure ()
  | a :: l => do
    f a
    forEach f l

theorem forEach_cons (f : α → Prog ε σ Unit) (a : α) (l : List α) (s : σ) :
    forEach f (a :: l) s = match f a s with
      | .ok _ s' => forEach f l s'
      | .error e s' => .error e s' := by
  rw [forEach, bind_apply]
  cases f a s <;> rfl

theorem forEach_singleton (f : α → Prog ε σ Unit) (a : α) (s : σ) : forEach f [a] s = f a s := by
  rw [forEach_cons]
  cases f a s <;> rfl

theorem forEach_map (f : β → Prog ε σ Unit) (g : α → β) (l : List α) (s : σ) :
    forEach f (l.map g) s = forEach (fun a => f (g a)) l s := by
  induction l generalizing s with
  | nil => rfl
  | cons a l ih =>
    rw [List.map_cons, forEach_cons, forEach_cons]
    cases f (g a) s with
    | ok _ s' => exact ih s'
    | error e s' => rfl

theorem forEach_append (f : α → Prog ε σ Unit) (l l' : List α) (s : σ) :
    forEach f (l ++ l') s = match forEach f l s with
      | .ok _ s' => forEach f l' s'
      | .error e s' => .error e s' := by
  induction l generalizing s with
  | nil => rfl
  | cons a l ih =>
    rw [List.cons_append, forEach_cons, forEach_cons]
    cases f a s with
    | ok _ s' => exact ih s'
    | error e s' => rfl

/-- A call whose error value the caller drops. -/
def attempt (m : Prog ε σ Unit) : Prog ε σ Unit := fun s =>
  match m s with
  | .error (.err _) s' => .ok () s'
  | r => r

theorem attempt_ok {m : Prog ε σ Unit} {s s' : σ} (h : m s = .ok () s') :
    attempt m s = .ok () s' := by
  rw [attempt, h]

theorem attempt_err {m : Prog ε σ Unit} {s s' : σ} {e : ε} (h : m s = .error (.err e) s') :
    attempt m s = .ok () s' := by
  rw [attempt, h]

theorem attempt_panic {m : Prog ε σ Unit} {s s' : σ} (h : m s = .error .panic s') :
    attempt m s = .error .panic s' := by
  rw [attempt, h]

theorem post_attempt (m : Prog ε σ Unit) (s : σ) : post (attempt m) s = post m s := by
  unfold post attempt
  rcases m s with ⟨a, t⟩ | ⟨e | _, t⟩ <;> rfl

/-- How a run fails, if it fails. -/
def fault (m : Prog ε σ α) (s : σ) : Option (Fault ε) :=
  match m s with
  | .ok _ _ => none
  | .error e _ => some e

theorem eq_error_post {m : Prog ε σ α} {s : σ} {e : Fault ε} (h : fault m s = some e) :
    m s = .error e (post m s) := by
  unfold fault at h
  unfold post
  cases hm : m s <;> rw [hm] at h <;> cases h
  rfl

theorem eq_ok_post {m : Prog ε σ Unit} {s : σ} (h : fault m s = none) :
    m s = .ok () (post m s) := by
  unfold fault at h
  unfold post
  cases hm : m s with
  | ok a s' => rfl
  | error e s' =>
    rw [hm] at h
    cases h

/-- What a run answers, without the state it ends in. -/
def outcome (m : Prog ε σ α) (s : σ) : Res ε α :=
  match m s with
  | .ok a _ => .ok a
  | .error e _ => .error e

theorem outcome_ok {m : Prog ε σ α} {s s' : σ} {a : α} (h : m s = .ok a s') :
    outcome m s = .ok a := by
  rw [outcome, h]

theorem outcome_eq_ok {m : Prog ε σ α} {s : σ} {a : α} (h : outcome m s = .ok a) : ∃ s', m s = .ok a s' := by
  rw [outcome] at h
  split at h
  · rename_i b s' hrun
    cases h
    exact ⟨s', hrun⟩
  · cases h

theorem outcome_eq_post {m : Prog ε σ α} {s : σ} {a : α} (h : outcome m s = .ok a) : m s = .ok a (post m s) := by
  obtain ⟨s', hrun⟩ := outcome_eq_ok h
  rw [hrun, post_ok hrun]

theorem outcome_lift_bind (x : Res ε α) (f : α → Prog ε σ β) (s : σ) :
    outcome (lift x >>= f) s = x >>= fun a => outcome (f a) s := by
  cases x <;> rfl

theorem Res.eq_ok_getD {x : Res ε α} {d : α} (h : x.toOption.isSome) :
    x = .ok (x.toOption.getD d) := by
  cases x
  · cases h
  · rfl

/-! ## Triples -/

/-- From every state with `P`, a value `a` is returned in a state with `Q a`, a
failure leaves a state with `E`. -/
def Hoare (P : σ → Prop) (m : Prog ε σ α) (Q : α → σ → Prop) (E : σ → Prop) : Prop :=
  ∀ s, P s → match m s with
    | .ok a s' => Q a s'
    | .error _ s' => E s'

section
variable {P P' : σ → Prop} {Q Q' : α → σ → Prop} {E E' : σ → Prop} {m : Prog ε σ α}

theorem Hoare.of_ok (h : Hoare P m Q E) {s s' : σ} {a : α} (hs : P s) (hm : m s = .ok a s') :
    Q a s' := by
  have := h s hs; rwa [hm] at this

theorem Hoare.of_error (h : Hoare P m Q E) {s s' : σ} {e : Fault ε} (hs : P s)
    (hm : m s = .error e s') : E s' := by
  have := h s hs; rwa [hm] at this

theorem Hoare.weaken (h : Hoare P m Q E) (hP : ∀ s, P' s → P s) (hQ : ∀ a s, Q a s → Q' a s)
    (hE : ∀ s, E s → E' s) : Hoare P' m Q' E' := by
  intro s hs
  have := h s (hP s hs)
  cases hm : m s <;> rw [hm] at this
  · exact hQ _ _ this
  · exact hE _ this

theorem Hoare.pure {a : α} : Hoare (Q a) (Pure.pure a : Prog ε σ α) Q E := fun _ h => h

theorem Hoare.bind {R : β → σ → Prop} {f : α → Prog ε σ β} (h : Hoare P m Q E)
    (hf : ∀ a, Hoare (Q a) (f a) R E) : Hoare P (m >>= f) R E := by
  intro s hs
  have := h s hs
  rw [bind_apply]
  cases hm : m s <;> rw [hm] at this
  · exact hf _ _ this
  · exact this

theorem Hoare.lift {x : Res ε α} (h : ∀ a, x = .ok a → ∀ s, P s → Q a s)
    (hE : ∀ s, P s → E s) : Hoare P (lift x : Prog ε σ α) Q E := by
  intro s hs
  cases x
  · exact hE s hs
  · exact h _ rfl s hs

/-- What is known of the value alone may be used as a fact. -/
theorem Hoare.bind_fact {S : σ → Prop} {φ : α → Prop} {R : β → σ → Prop} {f : α → Prog ε σ β}
    (h : Hoare P m (fun a s => S s ∧ φ a) E) (hf : ∀ a, φ a → Hoare S (f a) R E) :
    Hoare P (m >>= f) R E :=
  Hoare.bind h fun a s hs => hf a hs.2 s hs.1

/-- A stateless call in front. -/
theorem Hoare.lift_bind {x : Res ε β} {f : β → Prog ε σ α}
    (hf : ∀ b, x = .ok b → Hoare P (f b) Q E) (hE : ∀ s, P s → E s) :
    Hoare P (Run.lift x >>= f) Q E := by
  intro s hs
  cases x with
  | ok b =>
    rw [bind_ok (lift_ok b s)]
    exact hf b rfl s hs
  | error e =>
    rw [bind_error (lift_error e s)]
    exact hE s hs

theorem Hoare.get_bind {f : σ → Prog ε σ α} (hf : ∀ s, P s → Hoare (fun t => t = s) (f s) Q E) :
    Hoare P (MonadState.get >>= f) Q E := by
  intro s hs
  rw [bind_ok (get_apply s)]
  exact hf s hs s rfl

/-- What every value that is returned satisfies. -/
theorem Hoare.with_value {S : σ → Prop} {φ : α → Prop} (h : Hoare P m (fun _ => S) E)
    (hφ : ∀ s a t, m s = .ok a t → φ a) : Hoare P m (fun a s => S s ∧ φ a) E := by
  intro s hs
  have hrun := h s hs
  cases hm : m s <;> rw [hm] at hrun
  · exact ⟨hrun, hφ _ _ _ hm⟩
  · exact hrun

theorem Hoare.get : Hoare P (get : Prog ε σ σ) (fun a s => a = s ∧ P s) E :=
  fun _ h => ⟨rfl, h⟩

theorem Hoare.modify {f : σ → σ} {R : PUnit → σ → Prop} (h : ∀ s, P s → R ⟨⟩ (f s)) :
    Hoare P (modify f : Prog ε σ PUnit) R E := fun s hs => h s hs

/-- What holds of the state before the call may be used as a fact. -/
theorem Hoare.fix (h : ∀ s, P s → Hoare (fun t => t = s) m Q E) : Hoare P m Q E :=
  fun s hs => h s hs s rfl

theorem Hoare.and (h : Hoare P m Q E) (g : Hoare P' m Q' E') :
    Hoare (fun s => P s ∧ P' s) m (fun a s => Q a s ∧ Q' a s) (fun s => E s ∧ E' s) := by
  intro s hs
  have h1 := h s hs.1
  have h2 := g s hs.2
  cases hm : m s <;> rw [hm] at h1 h2
  · exact ⟨h1, h2⟩
  · exact ⟨h1, h2⟩

/-- A program on a part of the state. -/
theorem Hoare.zoom {τ : Type} {get : σ → τ} {put : τ → σ → σ} {m : Prog ε τ α}
    {P : σ → Prop} {Q : α → σ → Prop} {E : σ → Prop}
    (h : ∀ s, P s → Hoare (fun t => t = get s) m (fun a t => Q a (put t s)) fun t => E (put t s)) :
    Hoare P (Run.zoom get put m) Q E := by
  intro s hs
  have := h s hs (get s) rfl
  unfold Run.zoom
  cases hm : m (get s) <;> rw [hm] at this <;> exact this

theorem Hoare.throw {e : Fault ε} (h : ∀ s, P s → E s) :
    Hoare P (throw e : Prog ε σ α) Q E := fun s hs => h s hs

end

/-! ## Answers -/

/-- The run answers `r`; where it returns, its last state is one of `R`. -/
def Yields (R : σ → σ → Prop) (m : Prog ε σ α) (s : σ) : Res ε α → Prop
  | .ok a => ∃ s', R s s' ∧ m s = .ok a s'
  | .error e => ∃ s', m s = .error e s'

section
variable {R : σ → σ → Prop} {m : Prog ε σ α} {s : σ} {x : Res ε α}

theorem Yields.outcome (h : Yields R m s x) : outcome m s = x := by
  cases x with
  | ok a =>
    obtain ⟨s', -, hm⟩ := h
    rw [Run.outcome, hm]
  | error e =>
    obtain ⟨s', hm⟩ := h
    rw [Run.outcome, hm]

/-- The answer alone says nothing of the last state. -/
theorem Yields.of_outcome (h : Run.outcome m s = x) : Yields (fun _ _ => True) m s x := by
  unfold Run.outcome at h
  cases hm : m s with
  | ok a s' =>
    rw [hm] at h
    exact h ▸ ⟨s', trivial, hm⟩
  | error e s' =>
    rw [hm] at h
    exact h ▸ ⟨s', hm⟩

theorem Yields.ok {a : α} (hR : R s s) : Yields R (Pure.pure a : Prog ε σ α) s (.ok a) := ⟨s, hR, rfl⟩

theorem Yields.bind {f : α → Prog ε σ β} {g : α → Res ε β}
    (hR : ∀ {s t u}, R s t → R t u → R s u) (h : Yields R m s x)
    (hf : ∀ a s', x = .ok a → R s s' → Yields R (f a) s' (g a)) : Yields R (m >>= f) s (x >>= g) := by
  cases x with
  | error e =>
    obtain ⟨s', hm⟩ := h
    exact ⟨s', bind_error hm f⟩
  | ok a =>
    obtain ⟨s', hs, hm⟩ := h
    have hrest := hf a s' rfl hs
    rw [Res.ok_bind]
    cases hg : g a with
    | ok b =>
      rw [hg] at hrest
      obtain ⟨s'', hs', hm'⟩ := hrest
      exact ⟨s'', hR hs hs', (bind_ok hm f).trans hm'⟩
    | error e =>
      rw [hg] at hrest
      obtain ⟨s'', hm'⟩ := hrest
      exact ⟨s'', (bind_ok hm f).trans hm'⟩

/-- A stateless call in front. -/
theorem Yields.lift_bind {f : α → Prog ε σ β} {g : α → Res ε β}
    (hf : ∀ a, x = .ok a → Yields R (f a) s (g a)) : Yields R (Run.lift x >>= f) s (x >>= g) := by
  cases x with
  | error e => exact ⟨s, bind_error (lift_error e s) f⟩
  | ok a =>
    have hrest := hf a rfl
    rw [Res.ok_bind]
    cases hg : g a with
    | ok b =>
      rw [hg] at hrest
      obtain ⟨s', hs, hm⟩ := hrest
      exact ⟨s', hs, (bind_ok (lift_ok a s) f).trans hm⟩
    | error e =>
      rw [hg] at hrest
      obtain ⟨s', hm⟩ := hrest
      exact ⟨s', (bind_ok (lift_ok a s) f).trans hm⟩

/-- The answer of what comes behind. -/
theorem Yields.outcome_bind {f : α → Prog ε σ β} {g : α → Res ε β} (h : Yields R m s x)
    (hf : ∀ a s', x = .ok a → R s s' → Run.outcome (f a) s' = g a) :
    Run.outcome (m >>= f) s = x >>= g := by
  cases x with
  | error e =>
    obtain ⟨s', hm⟩ := h
    rw [Run.outcome, bind_error hm]
    rfl
  | ok a =>
    obtain ⟨s', hs, hm⟩ := h
    rw [Run.outcome, bind_ok hm]
    exact hf a s' rfl hs

/-- A change of the state in front. -/
theorem Yields.modify_bind {f : σ → σ} {g : PUnit → Prog ε σ α}
    (hR : ∀ {s t u}, R s t → R t u → R s u) (hf : R s (f s)) (h : Yields R (g ⟨⟩) (f s) x) :
    Yields R (modify f >>= g) s x := by
  have hrun : (modify f >>= g) s = g ⟨⟩ (f s) := bind_ok (modify_apply f s) g
  cases x with
  | ok a =>
    obtain ⟨s', hs, hm⟩ := h
    exact ⟨s', hR hf hs, hrun.trans hm⟩
  | error e =>
    obtain ⟨s', hm⟩ := h
    exact ⟨s', hrun.trans hm⟩

end

/-- `I` holds after every run from a state with `I`, whether it returns or fails. -/
def Keeps (I : σ → Prop) (m : Prog ε σ α) : Prop := Hoare I m (fun _ => I) I

section
variable {I : σ → Prop} {m : Prog ε σ α}

theorem Keeps.pure {a : α} : Keeps I (Pure.pure a : Prog ε σ α) := fun _ h => h

theorem Keeps.bind {f : α → Prog ε σ β} (h : Keeps I m) (hf : ∀ a, Keeps I (f a)) :
    Keeps I (m >>= f) := Hoare.bind h hf

theorem Keeps.lift {x : Res ε α} : Keeps I (lift x : Prog ε σ α) :=
  Hoare.lift (fun _ _ _ h => h) fun _ h => h

theorem Keeps.throw {e : Fault ε} : Keeps I (throw e : Prog ε σ α) :=
  Hoare.throw fun _ h => h

theorem Keeps.get : Keeps I (get : Prog ε σ σ) := fun _ h => h

theorem Keeps.modify {f : σ → σ} (h : ∀ s, I s → I (f s)) :
    Keeps I (modify f : Prog ε σ PUnit) := fun s hs => h s hs

theorem Keeps.and {J : σ → Prop} (h : Keeps I m) (g : Keeps J m) :
    Keeps (fun s => I s ∧ J s) m := Hoare.and h g

/-- What a part of the state keeps. -/
theorem Keeps.zoom {τ : Type} {J : τ → Prop} {get : σ → τ} {put : τ → σ → σ} {m : Prog ε τ α}
    (h : Keeps J m) (hget : ∀ s, I s → J (get s)) (hput : ∀ s t, I s → J t → I (put t s)) :
    Keeps I (Run.zoom get put m) :=
  Hoare.zoom fun s hs => h.weaken (fun _ ht => ht ▸ hget s hs) (fun _ t ht => hput s t hs ht)
    fun t ht => hput s t hs ht

theorem Keeps.forEach {β : Type} {f : β → Prog ε σ Unit} (h : ∀ b, Keeps I (f b)) :
    ∀ l, Keeps I (forEach f l)
  | [] => Keeps.pure
  | b :: l => Keeps.bind (h b) fun _ => Keeps.forEach h l

theorem Keeps.attempt {m : Prog ε σ Unit} (h : Keeps I m) : Keeps I (attempt m) := by
  intro s hs
  have := h s hs
  unfold Run.attempt
  cases hm : m s with
  | ok a t => rw [hm] at this; exact this
  | error e t =>
    rw [hm] at this
    cases e <;> exact this

theorem Keeps.post (h : Keeps I m) {s : σ} (hs : I s) : I (post m s) := by
  have := h s hs
  unfold Lib.Run.post
  cases hm : m s <;> rw [hm] at this <;> exact this

end

section
variable {I : σ → Prop} {m : Prog ε σ α}

/-- `I` holds after every run from a state with `I` that does not panic. -/
structure Carries (I : σ → Prop) (m : Prog ε σ α) : Prop where
  ok : ∀ {s a t}, I s → m s = .ok a t → I t
  err : ∀ {s e t}, I s → m s = .error (.err e) t → I t

theorem Keeps.carries (h : Keeps I m) : Carries I m := ⟨h.of_ok, h.of_error⟩

/-- What is known of the value may be used behind it. -/
theorem Carries.bind_fact {φ : α → Prop} {f : α → Prog ε σ β} (h : Carries I m)
    (hφ : ∀ s a t, I s → m s = .ok a t → φ a) (hf : ∀ a, φ a → Carries I (f a)) : Carries I (m >>= f) := by
  constructor
  · intro s b t hs hrun
    obtain ⟨a, u, hm, hfu⟩ := bind_eq_ok.mp hrun
    exact (hf a (hφ s a u hs hm)).ok (h.ok hs hm) hfu
  · intro s e t hs hrun
    rw [bind_apply] at hrun
    cases hm : m s with
    | ok a u =>
      rw [hm] at hrun
      exact (hf a (hφ s a u hs hm)).err (h.ok hs hm) hrun
    | error e' u =>
      rw [hm] at hrun
      cases hrun
      exact h.err hs hm

theorem Carries.bind {f : α → Prog ε σ β} (h : Carries I m) (hf : ∀ a, Carries I (f a)) : Carries I (m >>= f) :=
  h.bind_fact (fun _ _ _ _ _ => trivial) fun a _ => hf a

theorem Carries.pure {a : α} : Carries I (Pure.pure a : Prog ε σ α) := Keeps.pure.carries

theorem Carries.lift {x : Res ε α} : Carries I (lift x : Prog ε σ α) := Keeps.lift.carries

theorem Carries.throw {e : Fault ε} : Carries I (throw e : Prog ε σ α) := Keeps.throw.carries

theorem Carries.modify {f : σ → σ} (h : ∀ s, I s → I (f s)) : Carries I (modify f : Prog ε σ PUnit) :=
  (Keeps.modify h).carries

theorem Carries.set {s : σ} (h : I s) : Carries I (set s : Prog ε σ PUnit) :=
  ⟨fun _ hrun => by cases hrun; exact h, fun _ hrun => by cases hrun⟩

/-- The state that is read has `I`. -/
theorem Carries.get_bind {f : σ → Prog ε σ α} (hf : ∀ s, I s → Carries I (f s)) : Carries I (MonadState.get >>= f) :=
  Carries.bind_fact Keeps.get.carries (φ := I) (fun s a t hs hrun => by cases hrun; exact hs) hf

/-- A call without state, whose value is known. -/
theorem Carries.lift_bind {x : Res ε α} {f : α → Prog ε σ β} (hf : ∀ a, x = .ok a → Carries I (f a)) :
    Carries I (Run.lift x >>= f) :=
  Carries.bind_fact Carries.lift (φ := fun a => x = .ok a) (fun s a t _ hrun => by
    cases x with
    | ok b =>
      cases hrun
      rfl
    | error e => cases hrun) hf

theorem Carries.ite {c : Prop} [Decidable c] {m' : Prog ε σ α} (h : c → Carries I m) (h' : ¬ c → Carries I m') :
    Carries I (if c then m else m') := by
  by_cases hc : c
  · rw [if_pos hc]
    exact h hc
  · rw [if_neg hc]
    exact h' hc

theorem Carries.forEach {f : β → Prog ε σ Unit} {l : List β} (h : ∀ b ∈ l, Carries I (f b)) : Carries I (forEach f l) := by
  induction l with
  | nil => exact Carries.pure
  | cons b l ih => exact (h b List.mem_cons_self).bind fun _ => ih fun c hc => h c (List.mem_cons_of_mem b hc)

end

end Lib.Run
