import Mathlib.Data.List.Basic

namespace VllmEngine.Lib

variable {ε α β : Type} {x : Except ε α} {f : α → Except ε β}

theorem of_bind_eq_ok {b : β} (h : x >>= f = .ok b) : ∃ a, x = .ok a ∧ f a = .ok b := by
  cases x with
  | error e => cases h
  | ok a => exact ⟨a, rfl, h⟩

theorem of_toOption_eq_some {a : α} (h : x.toOption = some a) : x = .ok a := by
  cases x with
  | error e => cases h
  | ok a' => rw [Option.some.inj h]

theorem of_map_eq_ok {f} {b : β} (h : x.map f = .ok b) : ∃ a, x = .ok a ∧ f a = b := by
  cases x with
  | error e => cases h
  | ok a => exact ⟨a, rfl, Except.ok.inj h⟩

theorem of_map_eq_error {f : α → β} {e : ε} (h : x.map f = .error e) : x = .error e := by
  cases x with
  | error e' => rw [Except.error.inj h]
  | ok a => cases h

theorem of_mapM_eq_ok {l l'}
    (h : l.mapM f = .ok l') : List.Forall₂ (fun a b ↦ f a = .ok b) l l' := by
  induction l generalizing l' with
  | nil =>
    cases h
    exact .nil
  | cons a l ih =>
    rw [List.mapM_cons] at h
    obtain ⟨b, hb, h⟩ := of_bind_eq_ok h
    obtain ⟨bs, hbs, h⟩ := of_bind_eq_ok h
    cases h
    exact .cons hb (ih hbs)

theorem of_forM_eq_ok {f : α → Except ε Unit} {l : List α} (h : l.forM f = .ok ()) :
    ∀ a ∈ l, f a = .ok () := by
  induction l with
  | nil => simp
  | cons a l ih =>
    obtain ⟨_, ha, h⟩ := of_bind_eq_ok h
    intro b hb
    rcases List.mem_cons.mp hb with rfl | hb
    · exact ha
    · exact ih h b hb

def ErrorsIn {ε α : Type} (E : ε → Prop) (x : Except ε α) : Prop := ∀ e, x = .error e → E e

namespace ErrorsIn

variable {ε α β : Type} {E : ε → Prop}

theorem ok (a : α) : ErrorsIn E (.ok a : Except ε α) := fun _ h ↦ by cases h

theorem error {e : ε} (h : E e) : ErrorsIn E (.error e : Except ε α) :=
  fun _ he ↦ Except.error.inj he ▸ h

theorem bind {x : Except ε α} {f : α → Except ε β} (hx : ErrorsIn E x)
    (hf : ∀ a, x = .ok a → ErrorsIn E (f a)) : ErrorsIn E (x >>= f) := by
  intro e he
  cases x with
  | error e' =>
    obtain rfl := Except.error.inj he
    exact hx e' rfl
  | ok a => exact hf a rfl e he

end ErrorsIn

namespace EState

variable {ε σ α β : Type}

@[simp] theorem pure_apply (a : α) (s : σ) : (pure a : EStateM ε σ α) s = .ok a s := rfl

@[simp] theorem throw_apply (e : ε) (s : σ) : (throw e : EStateM ε σ α) s = .error e s := rfl

@[simp] theorem get_apply (s : σ) : (get : EStateM ε σ σ) s = .ok s s := rfl

@[simp] theorem modify_apply (f : σ → σ) (s : σ) :
    (modify f : EStateM ε σ PUnit) s = .ok ⟨⟩ (f s) := rfl

@[simp] theorem bind_apply (m : EStateM ε σ β) (f : β → EStateM ε σ α) (s : σ) :
    (m >>= f) s = match m s with
      | .ok b t => f b t
      | .error e t => .error e t := rfl

@[simp] theorem map_apply (g : β → α) (m : EStateM ε σ β) (s : σ) :
    (g <$> m) s = match m s with
      | .ok b t => .ok (g b) t
      | .error e t => .error e t := rfl

end EState

/-- What a call started in `s` does: `Q` holds of what it returns, `E` of what it raises, with the
state it leaves. -/
def Ensures {ε σ α : Type} (m : EStateM ε σ α) (s : σ) (Q : α → σ → Prop)
    (E : ε → σ → Prop := fun _ _ ↦ True) : Prop :=
  match m s with
  | .ok a t => Q a t
  | .error e t => E e t

/-- A condition on errors that follows from another one without an argument. -/
class Weaker {ε σ : Type} (E E' : ε → σ → Prop) : Prop where
  weaker : ∀ e t, E e t → E' e t

instance {ε σ : Type} (E : ε → σ → Prop) : Weaker E E := ⟨fun _ _ h ↦ h⟩

instance {ε σ : Type} (E : ε → σ → Prop) : Weaker E fun _ _ ↦ True := ⟨fun _ _ _ ↦ trivial⟩

instance {ε σ : Type} (E : ε → σ → Prop) : Weaker (fun _ _ ↦ False) E := ⟨fun _ _ h ↦ h.elim⟩

/-- The program returns, with what `Q` says. -/
abbrev Succeeds {ε σ α : Type} (m : EStateM ε σ α) (s : σ) (Q : α → σ → Prop) : Prop :=
  Ensures m s Q fun _ _ ↦ False

namespace Ensures

variable {ε σ α β γ : Type} {s : σ} {Q : α → σ → Prop} {E : ε → σ → Prop}

theorem pure {a : α} (h : Q a s) : Ensures (pure a : EStateM ε σ α) s Q E := h

theorem throw {e : ε} (h : E e s) : Ensures (throw e : EStateM ε σ α) s Q E := h

theorem any (m : EStateM ε σ α) (s : σ) : Ensures m s (fun _ _ ↦ True) := by
  unfold Ensures
  cases m s <;> trivial

theorem modify {f Q} (h : Q () (f s)) : Ensures (modify f : EStateM ε σ Unit) s Q E := h

variable {f : β → EStateM ε σ α} {m : EStateM ε σ α} {Q' : α → σ → Prop} {E' : ε → σ → Prop}
  {R : β → σ → Prop}

theorem bind {m} (h : Ensures m s (fun b t ↦ Ensures (f b) t Q E) E) : Ensures (m >>= f) s Q E := by
  change match EStateM.bind m f s with | .ok a t => Q a t | .error e t => E e t
  unfold Ensures at h
  unfold EStateM.bind
  cases hm : m s with
  | ok b t => simpa only [hm] using h
  | error e t => simpa only [hm] using h

theorem get_bind {f} (h : Ensures (f s) s Q E) : Ensures (get >>= f) s Q E := h

theorem modify_bind {g : σ → σ} {f} (h : Ensures (f ()) (g s) Q E) :
    Ensures (MonadState.modifyGet (fun s ↦ ((), g s)) >>= f) s Q E := h

theorem ite {c} [Decidable c] {m'} (h : c → Ensures m s Q E)
    (h' : ¬ c → Ensures m' s Q E) : Ensures (if c then m else m') s Q E := by
  split
  next hc => exact h hc
  next hc => exact h' hc

theorem weaken (h : Ensures m s Q E) (hQ : ∀ a t, Q a t → Q' a t) (hE : ∀ e t, E e t → E' e t) :
    Ensures m s Q' E' := by
  unfold Ensures at h ⊢
  cases hm : m s with
  | ok a t => exact hQ a t (by simpa only [hm] using h)
  | error e t => exact hE e t (by simpa only [hm] using h)

theorem imp (h : Ensures m s Q E) (hQ : ∀ a t, Q a t → Q' a t) : Ensures m s Q' E :=
  weaken h hQ fun _ _ he ↦ he

theorem andThen {m}
    (h : Ensures m s R E) (hf : ∀ b t, R b t → Ensures (f b) t Q E) : Ensures (m >>= f) s Q E :=
  bind (imp h hf)

theorem mono [Weaker E E'] (h : Ensures m s Q E) (hQ : ∀ a t, Q a t → Q' a t) : Ensures m s Q' E' :=
  weaken h hQ Weaker.weaker

theorem seq {m} [Weaker E' E] (h : Ensures m s R E') (hf : ∀ b t, R b t → Ensures (f b) t Q E) :
    Ensures (m >>= f) s Q E :=
  bind (mono h hf)

theorem of_ok {a : α} {t : σ} (hm : m s = .ok a t) (h : Q a t) : Ensures m s Q E := by
  unfold Ensures
  simpa only [hm] using h

theorem intro (h : ∀ a t, m s = .ok a t → Q a t) : Ensures m s Q := by
  unfold Ensures
  cases hm : m s with
  | ok a t => exact h a t hm
  | error e t => trivial

theorem ok {a : α} {t : σ} (h : Ensures m s Q E) (hm : m s = .ok a t) : Q a t := by
  unfold Ensures at h
  simpa only [hm] using h

theorem error {e : ε} {t : σ} (h : Ensures m s Q E) (hm : m s = .error e t) : E e t := by
  unfold Ensures at h
  simpa only [hm] using h

theorem and (h : Ensures m s Q E) (h' : Ensures m s Q' E') :
    Ensures m s (fun a t ↦ Q a t ∧ Q' a t) (fun e t ↦ E e t ∧ E' e t) := by
  unfold Ensures at *
  cases hm : m s with
  | ok a t | error e t => simp only [hm] at h h' ⊢; exact ⟨h, h'⟩

theorem exists_ok (h : Succeeds m s Q) : ∃ a t, m s = .ok a t ∧ Q a t := by
  unfold Succeeds Ensures at h
  cases hm : m s with
  | ok a t => exact ⟨a, t, rfl, by simpa only [hm] using h⟩
  | error e t => simp only [hm] at h

theorem forM {f} (I : List γ → σ → Prop)
    (step : ∀ x l t, I (x :: l) t → Ensures (f x) t (fun _ u ↦ I l u) E)
    (l : List γ) (h : I l s) : Ensures (l.forM f) s (fun _ t ↦ I [] t) E := by
  induction l generalizing s with
  | nil => exact h
  | cons x l ih => exact bind (weaken (step x l s h) (fun _ _ hu ↦ ih hu) (fun _ _ he ↦ he))

end Ensures

def after {ε σ α : Type} (m : EStateM ε σ α) (s : σ) : σ :=
  match m s with
  | .ok _ t => t
  | .error _ t => t

theorem Ensures.after {σ : Type} {m : EStateM ε σ α} {s : σ} {P : σ → Prop}
    (h : Ensures m s (fun _ t ↦ P t) (fun _ t ↦ P t)) : P (after m s) := by
  unfold Ensures at h
  unfold Lib.after
  cases hm : m s with
  | ok a t => simpa only [hm] using h
  | error e t => simpa only [hm] using h

/-- Whether it returns or raises, the call leaves the part `view` of the state as it was, and raises
only errors of `E`. -/
def Preserves {ε σ α β : Type} (E : ε → Prop) (view : σ → β) (m : EStateM ε σ α) : Prop :=
  ∀ s, Ensures m s (fun _ t ↦ view t = view s) (fun e t ↦ view t = view s ∧ E e)

namespace Preserves

variable {ε σ α β γ : Type} {E : ε → Prop} {view : σ → γ} {m : EStateM ε σ α}

theorem of_returns (h : ∀ s, Succeeds m s (fun _ t ↦ view t = view s)) : Preserves E view m :=
  fun s ↦ (h s).weaken (fun _ _ ht ↦ ht) (fun _ _ he ↦ he.elim)

theorem weaken (h : Preserves E view m) : Preserves (fun _ ↦ True) view m :=
  fun s ↦ (h s).weaken (fun _ _ ht ↦ ht) (fun _ _ he ↦ ⟨he.1, trivial⟩)

theorem pure (a : α) : Preserves E view (pure a : EStateM ε σ α) := fun _ ↦ rfl

theorem throw {e : ε} (he : E e) : Preserves E view (throw e : EStateM ε σ α) :=
  fun _ ↦ ⟨rfl, he⟩

theorem get : Preserves E view (get : EStateM ε σ σ) := fun _ ↦ rfl

theorem modify {f} (h : ∀ s, view (f s) = view s) :
    Preserves E view (modify f : EStateM ε σ PUnit) := h

theorem bind {m : EStateM ε σ β} {f : β → EStateM ε σ α} (hm : Preserves E view m)
    (hf : ∀ b, Preserves E view (f b)) : Preserves E view (m >>= f) := fun s ↦
  Ensures.bind ((hm s).mono
    (fun b t ht ↦ (hf b t).weaken (fun _ _ hu ↦ hu.trans ht) (fun _ _ hu ↦ ⟨hu.1.trans ht, hu.2⟩)))

theorem forM {f : β → EStateM ε σ PUnit} (hf : ∀ b, Preserves E view (f b)) (l : List β) :
    Preserves E view (l.forM f) := by
  induction l with
  | nil => exact pure _
  | cons b l ih => exact bind (hf b) (fun _ ↦ ih)

end Preserves

end VllmEngine.Lib
