import Mathlib.Tactic.Common

/-!
# `Lib.Hoare` — pre- and postconditions for programs that can stop

A program of `EStateM ε σ` either returns a value or stops with an `ε`, and in both cases leaves a state
behind: what was done before the stop is not undone. A triple therefore carries two postconditions, one for
a return and one for a stop.

* `Triple` with its rules for `bind`, reading the state, and consequence;
* `Reads` — a program that leaves one component of the state as it is, with what it returns. Most of a
  program that checks before it acts is of this kind, and `Reads.bind` composes such checks without
  mentioning the state again;
* `Moves` — a program that moves the state along a relation, whether it returns or stops;
* `Returns` — a program that does return, with what; its rules are equivalences.
-/

namespace Lib

variable {ε σ α β γ : Type} {x : EStateM ε σ α} {f : β → EStateM ε σ α} {s' s : σ} {a : α} {Q : α → σ → Prop}
  {e : ε}

/-- From a state with `P`, the program returns a value with `Q`, or stops with `R`. -/
def Triple (P : σ → Prop) (x : EStateM ε σ α) (Q : α → σ → Prop) (R : ε → σ → Prop) : Prop :=
  ∀ s, P s →
    match x s with
    | .ok a s' => Q a s'
    | .error e s' => R e s'

namespace Triple

variable {P P' : σ → Prop} {Q' : α → σ → Prop} {R R' : ε → σ → Prop}

theorem bind {M : β → σ → Prop} {x : EStateM ε σ β} (hx : Triple P x M R)
    (hf : ∀ b, Triple (M b) (f b) Q R) : Triple P (x >>= f) Q R := by
  intro s hs
  have hxs := hx s hs
  show match EStateM.bind x f s with | .ok a s' => Q a s' | .error e s' => R e s'
  unfold EStateM.bind
  cases h : x s with
  | ok b s' =>
    rw [h] at hxs
    exact hf b s' hxs
  | error e s' =>
    rw [h] at hxs
    exact hxs

/-- The rest of a program that begins by reading the state knows it. -/
theorem get_bind {f : σ → EStateM ε σ α} (h : ∀ s, P s → Triple (fun t => t = s) (f s) Q R) :
    Triple P (get >>= f) Q R := fun s hs => h s hs s rfl

section

variable (h : Triple P x Q R)
include h

theorem consequence (hP : ∀ s, P' s → P s) (hQ : ∀ a s, Q a s → Q' a s)
    (hR : ∀ e s, R e s → R' e s) : Triple P' x Q' R' := by
  intro s hs
  have hxs := h s (hP s hs)
  cases hx : x s with
  | ok a s' =>
    rw [hx] at hxs
    exact hQ a s' hxs
  | error e s' =>
    rw [hx] at hxs
    exact hR e s' hxs

theorem post (hQ : ∀ a s, Q a s → Q' a s) (hR : ∀ e s, R e s → R' e s) : Triple P x Q' R' :=
  h.consequence (fun _ hs => hs) hQ hR

theorem of_ok (hs : P s) (hx : x s = .ok a s') : Q a s' := by
  have hxs := h s hs
  rwa [hx] at hxs

theorem of_error (hs : P s) (hx : x s = .error e s') : R e s' := by
  have hxs := h s hs
  rwa [hx] at hxs

end

end Triple

/-! ## Programs that leave a component as it is -/

/-- Started with the component `view` at `v`, the program leaves it there; what it returns meets `φ`, and if
    it stops, `χ` says why. -/
def Reads (view : σ → γ) (v : γ) (x : EStateM ε σ α) (φ : α → Prop) (χ : ε → Prop) : Prop :=
  Triple (fun s => view s = v) x (fun a s => view s = v ∧ φ a) (fun e s => view s = v ∧ χ e)

namespace Reads

variable {view : σ → γ} {v : γ} {φ : α → Prop} {ψ : β → Prop} {χ : ε → Prop} {f : α → EStateM ε σ β}

theorem pure (h : φ a) : Reads view v (Pure.pure a : EStateM ε σ α) φ χ := fun _ hs => ⟨hs, h⟩

theorem throw (h : χ e) : Reads view v (throw e : EStateM ε σ α) φ χ := fun _ hs => ⟨hs, h⟩

theorem bind (hx : Reads view v x φ χ) (hf : ∀ a, φ a → Reads view v (f a) ψ χ) : Reads view v (x >>= f) ψ χ :=
  Triple.bind hx fun a s hs => hf a hs.2 s hs.1

theorem mono {φ' : α → Prop} {χ' : ε → Prop} (h : Reads view v x φ χ) (hφ : ∀ a, φ a → φ' a)
    (hχ : ∀ e, χ e → χ' e) : Reads view v x φ' χ' :=
  .post h (fun a _ hs => ⟨hs.1, hφ a hs.2⟩) (fun e _ hs => ⟨hs.1, hχ e hs.2⟩)

theorem weaken {χ' : ε → Prop} (h : Reads view v x φ χ) (hχ : ∀ e, χ e → χ' e) :
    Reads view v x φ χ' := h.mono (fun _ h => h) hχ

/-- What leaves a component alone leaves alone what is read off it. -/
theorem through {δ : Type} {g : γ → δ} {u : δ} (h : ∀ v, g v = u → Reads view v x φ χ) :
    Reads (fun s => g (view s)) u x φ χ := by
  intro s hs
  have hx := h (view s) hs s rfl
  cases hres : x s with
  | ok | error =>
    rw [hres] at hx
    exact ⟨(congrArg g hx.1).trans hs, hx.2⟩

/-- After a reading program, the rest of the program starts from the same component. -/
theorem andThen {Q : β → σ → Prop} {R : ε → σ → Prop} (hx : Reads view v x φ χ)
    (hR : ∀ e s, view s = v → χ e → R e s) (hf : ∀ a, φ a → Triple (fun s => view s = v) (f a) Q R) :
    Triple (fun s => view s = v) (x >>= f) Q R :=
  .bind (M := fun a s => view s = v ∧ φ a)
    (.consequence hx (fun _ h => h) (fun _ _ h => h) (fun e s h => hR e s h.1 h.2))
    (fun a s hs => hf a hs.2 s hs.1)

end Reads

/-! ## Programs that move the state along a relation -/

/-- The state a program leaves behind, returned or stopped. -/
def final : EStateM.Result ε σ α → σ
  | .ok _ s => s
  | .error _ s => s

/-- Wherever the program starts, it leaves a state that the start is related to. -/
def Moves (R : σ → σ → Prop) (x : EStateM ε σ α) : Prop := ∀ s, R s (final (x s))

namespace Moves

variable {R R' : σ → σ → Prop}

theorem pure [Std.Refl R] (a : α) : Moves R (Pure.pure a : EStateM ε σ α) := fun s => Std.Refl.refl s

theorem throw [Std.Refl R] (e : ε) : Moves R (MonadExcept.throw e : EStateM ε σ α) := fun s => Std.Refl.refl s

theorem bind [IsTrans σ R] {x : EStateM ε σ β} (hx : Moves R x) (hf : ∀ b, Moves R (f b)) :
    Moves R (x >>= f) := by
  intro s
  have hxs := hx s
  show R s (final (EStateM.bind x f s))
  unfold EStateM.bind
  cases h : x s with
  | ok b s' =>
    rw [h] at hxs
    exact IsTrans.trans _ _ _ hxs (hf b s')
  | error e s' =>
    rw [h] at hxs
    exact hxs

theorem of_ok (h : Moves R x) (hx : x s = .ok a s') : R s s' := by
  have hxs := h s
  rwa [hx] at hxs

theorem of_error (h : Moves R x) (hx : x s = .error e s') : R s s' := by
  have hxs := h s
  rwa [hx] at hxs

theorem triple {P Q Q' : σ → Prop} (h : Moves R x) (hok : ∀ s s', P s → R s s' → Q s')
    (herr : ∀ s s', P s → R s s' → Q' s') : Triple P x (fun _ => Q) fun _ => Q' := by
  intro s hs
  cases hx : x s with
  | ok a s' => exact hok s s' hs (h.of_ok hx)
  | error e s' => exact herr s s' hs (h.of_error hx)

theorem mono (h : Moves R x) (himp : ∀ s s', R s s' → R' s s') : Moves R' x :=
  fun s => himp _ _ (h s)

end Moves

/-! ## Programs that return -/

/-- From `s` the program returns, and what it returns and leaves behind meets `Q`. -/
def Returns (x : EStateM ε σ α) (s : σ) (Q : α → σ → Prop) : Prop := ∃ a s', x s = .ok a s' ∧ Q a s'

section Returns

theorem returns_of_ok (h : x s = .ok a s') :
    Returns x s fun b t => b = a ∧ t = s' := ⟨a, s', h, rfl, rfl⟩

theorem returns_iff (h : x s = .ok a s') : Returns x s Q ↔ Q a s' := by
  constructor
  · rintro ⟨_, _, h', hQ⟩
    cases h.symm.trans h'
    exact hQ
  · exact fun hQ => ⟨a, s', h, hQ⟩

@[simp] theorem returns_pure : Returns (pure a : EStateM ε σ α) s Q ↔ Q a s := returns_iff rfl

@[simp] theorem returns_throw : Returns (throw e : EStateM ε σ α) s Q ↔ False := by
  constructor
  · rintro ⟨_, _, h, -⟩
    cases h
  · exact False.elim

@[simp] theorem returns_get {Q : σ → σ → Prop} : Returns (get : EStateM ε σ σ) s Q ↔ Q s s :=
  returns_iff rfl

@[simp] theorem returns_set {t : σ} {Q : PUnit → σ → Prop} : Returns (set t : EStateM ε σ PUnit) s Q ↔ Q .unit t :=
  returns_iff rfl

@[simp] theorem returns_modify {f : σ → σ} {Q : PUnit → σ → Prop} :
    Returns (modify f : EStateM ε σ PUnit) s Q ↔ Q .unit (f s) := returns_iff rfl

@[simp] theorem returns_bind {x : EStateM ε σ β} :
    Returns (x >>= f) s Q ↔ Returns x s fun b s' => Returns (f b) s' Q := by
  constructor
  · rintro ⟨a, s'', h, hQ⟩
    change EStateM.bind x f s = .ok a s'' at h
    unfold EStateM.bind at h
    split at h
    swap
    · cases h
    next b s' hx =>
    exact ⟨b, s', hx, a, s'', h, hQ⟩
  · rintro ⟨b, s', hx, a, s'', h, hQ⟩
    refine ⟨a, s'', ?_, hQ⟩
    show EStateM.bind x f s = .ok a s''
    unfold EStateM.bind
    rw [hx]
    exact h

/-- A program goes on from where its first part returned. -/
theorem bind_of_ok {x : EStateM ε σ β} {b : β} (h : x s = .ok b s') : (x >>= f) s = f b s' := by
  show EStateM.bind x f s = _
  unfold EStateM.bind
  rw [h]

end Returns
end Lib
