import Mathlib.Order.Defs.Unbundled
import Mathlib.Tactic.SplitIfs

/-!
# Support — Hoare

Pre- and postconditions for programs in `EStateM ε σ`: a state that survives an error.  `wp m s Q E`
says that `m`, run from `s`, ends in `Q` when it returns and in `E` when it throws.  The rules
compute `wp` of a program from its parts; `wp_mono` weakens a proved one, which is how a program
cites the specification of what it calls.

`zoom` runs a program on one component of a larger state, and `wp_zoom` is its rule.  `Keeps f m` is
the frame of a program that does not touch what `f` reads, and `Moves R m` that of one that moves
the state along a preorder `R`.  `Triple P m Q E` is for a program that goes from `P` to `Q`
whatever it returns, and whose errors alone are of interest.
-/

namespace Hoare

variable {ε ε' σ τ α β : Type}

/-- `m` run from `s` returns in `Q` or throws in `E`. -/
def wp (m : EStateM ε σ α) (s : σ) (Q : α → σ → Prop) (E : ε → σ → Prop) : Prop :=
  match m s with
  | .ok a s' => Q a s'
  | .error e s' => E e s'

/-- What holds of every result holds of the one there is. -/
theorem wp_of_ok {m : EStateM ε σ α} {s s' : σ} {a : α} {Q : α → σ → Prop} {E : ε → σ → Prop}
    (h : wp m s Q E) (he : m s = .ok a s') : Q a s' := by
  rwa [wp, he] at h

/-- What holds of every error holds of the one there is. -/
theorem wp_of_error {m : EStateM ε σ α} {s s' : σ} {e : ε} {Q : α → σ → Prop} {E : ε → σ → Prop}
    (h : wp m s Q E) (he : m s = .error e s') : E e s' := by
  rwa [wp, he] at h

/-- The rule of consequence. -/
theorem wp_mono {m : EStateM ε σ α} {s : σ} {Q Q' : α → σ → Prop} {E E' : ε → σ → Prop}
    (h : wp m s Q E) (hQ : ∀ a s', Q a s' → Q' a s') (hE : ∀ e s', E e s' → E' e s') :
    wp m s Q' E' := by
  cases hm : m s with
  | ok a s' => simp only [wp, hm] at h ⊢; exact hQ a s' h
  | error e s' => simp only [wp, hm] at h ⊢; exact hE e s' h

/-- The rule of conjunction. -/
theorem wp_and {m : EStateM ε σ α} {s : σ} {Q Q' : α → σ → Prop} {E E' : ε → σ → Prop}
    (h : wp m s Q E) (h' : wp m s Q' E') :
    wp m s (fun a s' => Q a s' ∧ Q' a s') (fun e s' => E e s' ∧ E' e s') := by
  cases hm : m s with
  | ok a s' => simp only [wp, hm] at h h' ⊢; exact ⟨h, h'⟩
  | error e s' => simp only [wp, hm] at h h' ⊢; exact ⟨h, h'⟩

/-- How the program ended is known after it has. -/
theorem wp_self (m : EStateM ε σ α) (s : σ) :
    wp m s (fun a s' => m s = .ok a s') (fun e s' => m s = .error e s') := by
  cases hm : m s <;> simp only [wp, hm]

/-- Every program ends one way or the other. -/
theorem wp_true (m : EStateM ε σ α) (s : σ) : wp m s (fun _ _ => True) (fun _ _ => True) := by
  unfold wp
  cases m s <;> trivial

@[simp] theorem wp_pure {a : α} {s : σ} {Q : α → σ → Prop} {E : ε → σ → Prop} :
    wp (pure a : EStateM ε σ α) s Q E ↔ Q a s := Iff.rfl

@[simp] theorem wp_throw {e : ε} {s : σ} {Q : α → σ → Prop} {E : ε → σ → Prop} :
    wp (throw e : EStateM ε σ α) s Q E ↔ E e s := Iff.rfl

/-- The rule of sequence. -/
@[simp] theorem wp_bind {m : EStateM ε σ α} {f : α → EStateM ε σ β} {s : σ} {Q : β → σ → Prop}
    {E : ε → σ → Prop} : wp (m >>= f) s Q E ↔ wp m s (fun a s' => wp (f a) s' Q E) E := by
  show wp (EStateM.bind m f) s Q E ↔ _
  unfold wp EStateM.bind
  cases m s <;> rfl

/-- What is proved of the first part is all that the second is told. -/
theorem wp_seq {m : EStateM ε σ α} {f : α → EStateM ε σ β} {s : σ} {Q₁ : α → σ → Prop}
    {Q : β → σ → Prop} {E : ε → σ → Prop} (h : wp m s Q₁ E)
    (hf : ∀ a s', Q₁ a s' → wp (f a) s' Q E) : wp (m >>= f) s Q E :=
  wp_bind.mpr (wp_mono h hf fun _ _ => id)

/-- A part about which nothing is known. -/
theorem wp_bind_of_forall {m : EStateM ε σ α} {f : α → EStateM ε σ β} {s : σ} {Q : β → σ → Prop}
    {E : ε → σ → Prop} (hQ : ∀ a s', wp (f a) s' Q E) (hE : ∀ e s', E e s') :
    wp (m >>= f) s Q E :=
  wp_bind.mpr (wp_mono (wp_true m s) (fun a s' _ => hQ a s') fun e s' _ => hE e s')

@[simp] theorem wp_map {m : EStateM ε σ α} {f : α → β} {s : σ} {Q : β → σ → Prop}
    {E : ε → σ → Prop} : wp (f <$> m) s Q E ↔ wp m s (fun a s' => Q (f a) s') E := by
  show wp (EStateM.map f m) s Q E ↔ _
  unfold wp EStateM.map
  cases m s <;> rfl

@[simp] theorem wp_get {s : σ} {Q : σ → σ → Prop} {E : ε → σ → Prop} :
    wp (get : EStateM ε σ σ) s Q E ↔ Q s s := Iff.rfl

@[simp] theorem wp_set {s s' : σ} {Q : PUnit → σ → Prop} {E : ε → σ → Prop} :
    wp (set s' : EStateM ε σ PUnit) s Q E ↔ Q ⟨⟩ s' := Iff.rfl

@[simp] theorem wp_modify {f : σ → σ} {s : σ} {Q : PUnit → σ → Prop} {E : ε → σ → Prop} :
    wp (modify f : EStateM ε σ PUnit) s Q E ↔ Q ⟨⟩ (f s) := Iff.rfl

/-- The rule of the conditional. -/
theorem wp_ite {c : Prop} [Decidable c] {m m' : EStateM ε σ α} {s : σ} {Q : α → σ → Prop}
    {E : ε → σ → Prop} :
    wp (if c then m else m') s Q E ↔ (c → wp m s Q E) ∧ (¬ c → wp m' s Q E) := by
  split_ifs with h <;> simp [h]

/-- A pure result with an error, as a program that leaves the state alone. -/
def lift (f : ε → ε') : Except ε α → EStateM ε' σ α
  | .ok a => pure a
  | .error e => throw (f e)

@[simp] theorem wp_lift_ok {f : ε → ε'} {a : α} {s : σ} {Q : α → σ → Prop} {E : ε' → σ → Prop} :
    wp (lift f (.ok a) : EStateM ε' σ α) s Q E ↔ Q a s := Iff.rfl

@[simp] theorem wp_lift_error {f : ε → ε'} {e : ε} {s : σ} {Q : α → σ → Prop}
    {E : ε' → σ → Prop} : wp (lift f (.error e) : EStateM ε' σ α) s Q E ↔ E (f e) s := Iff.rfl

/-- A computation that does not touch the state. -/
theorem wp_lift {f : ε → ε'} {r : Except ε α} {s : σ} {Q : α → σ → Prop} {E : ε' → σ → Prop} :
    wp (lift f r : EStateM ε' σ α) s Q E ↔
      (∀ a, r = .ok a → Q a s) ∧ ∀ e, r = .error e → E (f e) s := by
  cases r <;> simp

/-- `m`, whose error is a value: what it changed stays changed. -/
def attempt (m : EStateM ε σ α) : EStateM ε' σ (Except ε α) := fun s =>
  match m s with
  | .ok a s' => .ok (.ok a) s'
  | .error e s' => .ok (.error e) s'

/-- An error that is caught is a result. -/
@[simp] theorem wp_attempt {m : EStateM ε σ α} {s : σ} {Q : Except ε α → σ → Prop}
    {E : ε' → σ → Prop} :
    wp (attempt m) s Q E ↔ wp m s (fun a => Q (.ok a)) (fun e => Q (.error e)) := by
  unfold wp attempt
  cases m s <;> rfl

/-- `m` on the component `view s` of the state, put back with `put`. -/
def zoom (view : σ → τ) (put : σ → τ → σ) (f : ε → ε') (m : EStateM ε τ α) : EStateM ε' σ α :=
  fun s =>
    match m (view s) with
    | .ok a t => .ok a (put s t)
    | .error e t => .error (f e) (put s t)

/-- A computation on a part of the state. -/
@[simp] theorem wp_zoom {view : σ → τ} {put : σ → τ → σ} {f : ε → ε'} {m : EStateM ε τ α} {s : σ}
    {Q : α → σ → Prop} {E : ε' → σ → Prop} :
    wp (zoom view put f m) s Q E ↔
      wp m (view s) (fun a t => Q a (put s t)) (fun e t => E (f e) (put s t)) := by
  unfold wp zoom
  cases m (view s) <;> rfl

/-! ### Frames -/

/-- `m` leaves `f` of the state as it is, however it ends. -/
def Keeps (f : σ → τ) (m : EStateM ε σ α) : Prop :=
  ∀ s, wp m s (fun _ s' => f s' = f s) (fun _ s' => f s' = f s)

namespace Keeps

variable {f : σ → τ}

/-- What is kept is the same in the final state. -/
theorem of_ok {m : EStateM ε σ α} (h : Keeps f m) {s s' : σ} {a : α} (hm : m s = .ok a s') :
    f s' = f s := by
  simpa only [wp, hm] using h s

/-- What is kept is the same in the state of an error. -/
theorem of_error {m : EStateM ε σ α} (h : Keeps f m) {s s' : σ} {e : ε} (hm : m s = .error e s') :
    f s' = f s := by
  simpa only [wp, hm] using h s

theorem pure (a : α) : Keeps f (Pure.pure a : EStateM ε σ α) := fun _ => rfl

theorem throw (e : ε) : Keeps f (MonadExcept.throw e : EStateM ε σ α) := fun _ => rfl

theorem lift {h : ε' → ε} (r : Except ε' α) : Keeps f (Hoare.lift h r) := fun _ =>
  wp_lift.mpr ⟨fun _ _ => rfl, fun _ _ => rfl⟩

theorem get : Keeps f (MonadState.get : EStateM ε σ σ) := fun _ => rfl

theorem modify {g : σ → σ} (h : ∀ s, f (g s) = f s) : Keeps f (modify g : EStateM ε σ PUnit) := h

/-- What both parts keep is kept. -/
theorem bind {m : EStateM ε σ α} {k : α → EStateM ε σ β} (hm : Keeps f m)
    (hk : ∀ a, Keeps f (k a)) : Keeps f (m >>= k) := by
  intro s
  rw [wp_bind]
  refine wp_mono (hm s) (fun a s' h => ?_) fun _ _ h => h
  exact wp_mono (hk a s') (fun _ _ h' => h'.trans h) fun _ _ h' => h'.trans h

/-- A part of what is kept is kept. -/
theorem comp {υ : Type} (g : τ → υ) {m : EStateM ε σ α} (hm : Keeps f m) :
    Keeps (fun s => g (f s)) m := fun s =>
  wp_mono (hm s) (fun _ _ h => congrArg g h) fun _ _ h => congrArg g h

/-- The second part runs only on results of the first. -/
theorem lift_bind {h : ε' → ε} {r : Except ε' α} {k : α → EStateM ε σ β}
    (hk : ∀ a, r = .ok a → Keeps f (k a)) : Keeps f (Hoare.lift h r >>= k) := by
  cases r with
  | ok a => exact hk a rfl
  | error e => exact throw _

theorem attempt {m : EStateM ε σ α} (hm : Keeps f m) :
    Keeps f (Hoare.attempt m : EStateM ε' σ _) := by
  intro s
  rw [wp_attempt]
  exact hm s

/-- A computation on a part of the state keeps what it keeps there. -/
theorem zoom {τ' υ : Type} {g : τ' → υ} {view : σ → τ'} {put : σ → τ' → σ} {h : ε → ε'} {f : σ → υ}
    (hview : ∀ s, f s = g (view s)) (hput : ∀ s t, f (put s t) = g t) {m : EStateM ε τ' α}
    (hm : Keeps g m) : Keeps f (Hoare.zoom view put h m) := by
  intro s
  rw [wp_zoom]
  exact wp_mono (hm (view s)) (fun _ t ht => (hput s t).trans (ht.trans (hview s).symm))
    fun _ t ht => (hput s t).trans (ht.trans (hview s).symm)

theorem ite {c : Prop} [Decidable c] {m m' : EStateM ε σ α} (hm : Keeps f m) (hm' : Keeps f m') :
    Keeps f (if c then m else m') := by
  split_ifs
  · exact hm
  · exact hm'

end Keeps

/-- `m` takes the state to one that `R` relates it to, however it ends. -/
def Moves (R : σ → σ → Prop) (m : EStateM ε σ α) : Prop :=
  ∀ s, wp m s (fun _ s' => R s s') (fun _ s' => R s s')

namespace Moves

variable {R : σ → σ → Prop}

/-- Who keeps enough moves as the relation allows. -/
theorem of_keeps {f : σ → τ} {m : EStateM ε σ α} (h : Keeps f m)
    (hR : ∀ s s', f s' = f s → R s s') :
    Moves R m := fun s => wp_mono (h s) (fun _ s' => hR s s') fun _ s' => hR s s'

theorem modify {g : σ → σ} (h : ∀ s, R s (g s)) : Moves R (modify g : EStateM ε σ PUnit) := h

/-- The rest of the program knows the state it starts in. -/
theorem get_bind {k : σ → EStateM ε σ α} (h : ∀ s, wp (k s) s (fun _ => R s) (fun _ => R s)) :
    Moves R (MonadState.get >>= k) := h

/-- A computation on a part of the state moves as it does there. -/
theorem zoom {S : τ → τ → Prop} {view : σ → τ} {put : σ → τ → σ} {h : ε → ε'}
    (hput : ∀ s t, S (view s) t → R s (put s t)) {m : EStateM ε τ α} (hm : Moves S m) :
    Moves R (Hoare.zoom view put h m) := by
  intro s
  rw [wp_zoom]
  exact wp_mono (hm (view s)) (fun _ t => hput s t) fun _ t => hput s t

theorem ite {c : Prop} [Decidable c] {m m' : EStateM ε σ α} (hm : Moves R m) (hm' : Moves R m') :
    Moves R (if c then m else m') := by
  split_ifs
  · exact hm
  · exact hm'

variable [IsPreorder σ R]

theorem pure (a : α) : Moves R (Pure.pure a : EStateM ε σ α) := fun s => refl_of R s

theorem lift {h : ε' → ε} (r : Except ε' α) : Moves R (Hoare.lift h r) := fun s =>
  wp_lift.mpr ⟨fun _ _ => refl_of R s, fun _ _ => refl_of R s⟩

/-- A program after others. -/
theorem after {m : EStateM ε σ α} (hm : Moves R m) {s₀ s : σ} (h : R s₀ s) :
    wp m s (fun _ => R s₀) (fun _ => R s₀) :=
  wp_mono (hm s) (fun _ _ h' => trans_of R h h') fun _ _ h' => trans_of R h h'

/-- Moves may follow each other. -/
theorem bind {m : EStateM ε σ α} {k : α → EStateM ε σ β} (hm : Moves R m)
    (hk : ∀ a, Moves R (k a)) : Moves R (m >>= k) := fun s =>
  wp_bind.mpr (wp_mono (hm s) (fun a _ h => (hk a).after h) fun _ _ h => h)

end Moves

/-- From a state in `P`, `m` returns in one in `Q` or throws an error in `E`. -/
def Triple (P : σ → Prop) (m : EStateM ε σ α) (Q : σ → Prop) (E : ε → Prop) : Prop :=
  ∀ s, P s → wp m s (fun _ => Q) (fun e _ => E e)

namespace Triple

variable {P P' Q Q' : σ → Prop} {E : ε → Prop}

/-- The rule of consequence. -/
theorem mono {m : EStateM ε σ α} (h : Triple P m Q E) (hP : ∀ s, P' s → P s)
    (hQ : ∀ s, Q s → Q' s) : Triple P' m Q' E := fun s hs =>
  wp_mono (h s (hP s hs)) (fun _ => hQ) fun _ _ => id

theorem pure (a : α) : Triple P (Pure.pure a : EStateM ε σ α) P E := fun _ => id

/-- The rule of sequence. -/
theorem bind {m : EStateM ε σ α} {k : α → EStateM ε σ β} (hm : Triple P m P' E)
    (hk : ∀ a, Triple P' (k a) Q E) : Triple P (m >>= k) Q E := fun s hs =>
  wp_seq (hm s hs) fun a s' hs' => hk a s' hs'

/-- The rest of the program knows the state it starts in. -/
theorem get_bind {k : σ → EStateM ε σ α} (h : ∀ s, P s → wp (k s) s (fun _ => Q) (fun e _ => E e)) :
    Triple P (MonadState.get >>= k) Q E := h

theorem modify {f : σ → σ} (h : ∀ s, P s → Q (f s)) :
    Triple P (modify f : EStateM ε σ PUnit) Q E := h

/-- The rule of the conditional. -/
theorem ite {c : Prop} [Decidable c] {m m' : EStateM ε σ α} (h : c → Triple P m Q E)
    (h' : ¬ c → Triple P m' Q E) : Triple P (if c then m else m') Q E := fun s hs =>
  wp_ite.mpr ⟨fun hc => h hc s hs, fun hc => h' hc s hs⟩

end Triple

end Hoare
