import Mathlib
import Plainsong.Datum
/- Outcomes of acts. An act works on a state and may fail, and what it did before
   the failure stays done. `Gives x s a s'` says that from `s` the act succeeds
   with `a` and leaves `s'`, and `Fails x s e` that it fails; `Ends x s Q E` says how it ends either way, `Q` of a
   success and `E` of a failure. Both are carried through an act one step at a
   time by the rules below, so no proof has to open the layers an act is made of. -/
namespace Plainsong

variable {ε σ α β : Type}

/-- The act succeeds with `a` and leaves the state `s'`. -/
def Gives (x : ExceptT ε (StateM σ) α) (s : σ) (a : α) (s' : σ) : Prop := x.run.run s = (.ok a, s')

/-- The act ends in a success of which `Q` holds or in a failure of which `E` does. -/
def Ends (x : ExceptT ε (StateM σ) α) (s : σ) (Q : α → σ → Prop) (E : ε → σ → Prop) : Prop :=
  match x.run.run s with
  | (.ok a, s') => Q a s'
  | (.error f, s') => E f s'

theorem run_bind (x : ExceptT ε (StateM σ) α) (f : α → ExceptT ε (StateM σ) β) (s : σ) :
    (x >>= f).run.run s =
      match x.run.run s with
      | (.ok a, s') => (f a).run.run s'
      | (.error e, s') => (.error e, s') := by
  rw [ExceptT.run_bind, StateT.run_bind]
  rcases x.run.run s with ⟨r, s'⟩
  cases r <;> rfl

theorem run_tryCatch (x : ExceptT ε (StateM σ) α) (f : ε → ExceptT ε (StateM σ) α) (s : σ) :
    (tryCatch x f).run.run s =
      match x.run.run s with
      | (.ok a, s') => (.ok a, s')
      | (.error e, s') => (f e).run.run s' := by
  have h : (tryCatch x f).run = x.run >>= fun r => match r with
      | .ok a => pure (.ok a)
      | .error e => (f e).run := rfl
  rw [h, StateT.run_bind]
  rcases x.run.run s with ⟨r, s'⟩
  cases r <;> rfl

theorem bind_eq_ok {x : Except ε α} {f : α → Except ε β} {b : β} :
    (x >>= f) = .ok b ↔ ∃ a, x = .ok a ∧ f a = .ok b := by
  cases x with
  | error e =>
    constructor
    · intro h
      cases h
    · rintro ⟨_, h, -⟩
      cases h
  | ok a =>
    constructor
    · exact fun h => ⟨a, rfl, h⟩
    · rintro ⟨_, ⟨⟩, h⟩
      exact h

/-! ## Success -/

namespace Gives

theorem of_pure (a : α) (s : σ) : Gives (pure a : ExceptT ε (StateM σ) α) s a s := rfl

variable {x : ExceptT ε (StateM σ) α} {a : α} {s s' : σ}

theorem run_bind (hx : Gives x s a s') (f : α → ExceptT ε (StateM σ) β) : (x >>= f).run.run s = (f a).run.run s' := by
  rw [Plainsong.run_bind, hx]

theorem of_bind {f : α → ExceptT ε (StateM σ) β} {s'' : σ} {b : β}
    (hx : Gives x s a s') (hf : Gives (f a) s' b s'') : Gives (x >>= f) s b s'' := by
  rw [Gives, hx.run_bind]
  exact hf

theorem of_get (s : σ) : Gives (get : ExceptT ε (StateM σ) σ) s s s := rfl

theorem of_set (s s' : σ) : Gives (set s' : ExceptT ε (StateM σ) PUnit) s ⟨⟩ s' := rfl

theorem of_modify (f : σ → σ) (s : σ) : Gives (modify f : ExceptT ε (StateM σ) PUnit) s ⟨⟩ (f s) := rfl

theorem of_except {e : Except ε α} (h : e = .ok a) (s : σ) : Gives (liftM e : ExceptT ε (StateM σ) α) s a s := by
  subst h
  rfl

theorem of_toOption (h : (x.run.run s).1.toOption = some a) : Gives x s a (x.run.run s).2 := by
  rcases hx : x.run.run s with ⟨r, s'⟩
  rw [hx] at h
  cases r with
  | error e => cases h
  | ok b =>
    cases h
    exact hx

theorem of_ite {c : Prop} [Decidable c] (h : c) {y : ExceptT ε (StateM σ) α} (hx : Gives x s a s') : Gives (if c then x else y) s a s' := by
  rwa [if_pos h]

theorem of_discard (h : Gives x s a s') : Gives (discard x) s ⟨⟩ s' := by
  rw [Functor.discard, map_const, Function.comp_apply, map_eq_pure_bind]
  exact of_bind h (of_pure _ _)

theorem of_forM {l : List α} {f : α → ExceptT ε (StateM σ) PUnit} (h : ∀ a ∈ l, Gives (f a) s ⟨⟩ s) : Gives (l.forM f) s ⟨⟩ s := by
  induction l with
  | nil => exact of_pure _ _
  | cons a l ih => exact of_bind (h a (by simp)) (ih fun b hb => h b (by simp [hb]))

end Gives

def Fails (x : ExceptT ε (StateM σ) α) (s : σ) (e : ε) : Prop := ∃ s', x.run.run s = (.error e, s')

namespace Fails

theorem of_throw (e : ε) (s : σ) : Fails (throw e : ExceptT ε (StateM σ) α) s e := ⟨s, rfl⟩

theorem of_first {x : ExceptT ε (StateM σ) α} {f : α → ExceptT ε (StateM σ) β} {s : σ} {e : ε} (hx : Fails x s e) :
    Fails (x >>= f) s e := by
  obtain ⟨s', hx⟩ := hx
  exact ⟨s', by rw [run_bind, hx]⟩

theorem of_bind {x : ExceptT ε (StateM σ) α} {f : α → ExceptT ε (StateM σ) β} {s s' : σ} {a : α} {e : ε}
    (hx : Gives x s a s') (hf : Fails (f a) s' e) : Fails (x >>= f) s e := by
  obtain ⟨s'', hf⟩ := hf
  exact ⟨s'', by rw [hx.run_bind]; exact hf⟩

end Fails

/-! ## Either way -/

section Ends

variable {s : σ} {Q : α → σ → Prop} {E : ε → σ → Prop}

theorem ends_pure (a : α) : Ends (pure a : ExceptT ε (StateM σ) α) s Q E ↔ Q a s := Iff.rfl

theorem ends_get {Q : σ → σ → Prop} : Ends (get : ExceptT ε (StateM σ) σ) s Q E ↔ Q s s := Iff.rfl

theorem ends_set {Q : PUnit → σ → Prop} (s' : σ) :
    Ends (set s' : ExceptT ε (StateM σ) PUnit) s Q E ↔ Q ⟨⟩ s' := Iff.rfl

theorem ends_modify {Q : PUnit → σ → Prop} (f : σ → σ) :
    Ends (modify f : ExceptT ε (StateM σ) PUnit) s Q E ↔ Q ⟨⟩ (f s) := Iff.rfl

theorem ends_modifyGet (f : σ → α × σ) :
    Ends (modifyGet f : ExceptT ε (StateM σ) α) s Q E ↔ Q (f s).1 (f s).2 := Iff.rfl

theorem ends_except (e : Except ε α) :
    Ends (liftM e : ExceptT ε (StateM σ) α) s Q E ↔ (∀ a, e = .ok a → Q a s) ∧ ∀ f, e = .error f → E f s := by
  cases e with
  | error f => exact ⟨fun h => ⟨fun _ ha => (by cases ha), fun _ hf => Except.error.inj hf ▸ h⟩, fun h => h.2 f rfl⟩
  | ok a => exact ⟨fun h => ⟨fun _ ha => Except.ok.inj ha ▸ h, fun _ hf => (by cases hf)⟩, fun h => h.1 a rfl⟩

theorem ends_bind {Q : β → σ → Prop} (x : ExceptT ε (StateM σ) α) (f : α → ExceptT ε (StateM σ) β) :
    Ends (x >>= f) s Q E ↔ Ends x s (fun a s' => Ends (f a) s' Q E) E := by
  rw [Ends, run_bind, Ends]
  rcases x.run.run s with ⟨r, s'⟩
  cases r <;> rfl

theorem ends_discard {Q : Unit → σ → Prop} (x : ExceptT ε (StateM σ) α) :
    Ends (discard x) s Q E ↔ Ends x s (fun _ => Q ⟨⟩) E := by
  rw [Functor.discard, map_const, Function.comp_apply, map_eq_pure_bind, ends_bind]
  exact Iff.rfl

theorem ends_tryCatch (x : ExceptT ε (StateM σ) α) (f : ε → ExceptT ε (StateM σ) α) :
    Ends (tryCatch x f) s Q E ↔ Ends x s Q fun e s' => Ends (f e) s' Q E := by
  rw [Ends, run_tryCatch, Ends]
  rcases x.run.run s with ⟨r, s'⟩
  cases r <;> rfl

variable {x : ExceptT ε (StateM σ) α}

theorem Ends.mono {Q' : α → σ → Prop} {E' : ε → σ → Prop} (h : Ends x s Q E)
    (hQ : ∀ a s', Q a s' → Q' a s') (hE : ∀ e s', E e s' → E' e s') : Ends x s Q' E' := by
  rw [Ends] at h ⊢
  generalize x.run.run s = r at h ⊢
  obtain ⟨r, s'⟩ := r
  cases r with
  | ok a => exact hQ a s' h
  | error e => exact hE e s' h

theorem Ends.andThen {P : β → σ → Prop} {E' : ε → σ → Prop} {f : α → ExceptT ε (StateM σ) β} (h : Ends x s Q E)
    (hf : ∀ a s', Q a s' → Ends (f a) s' P E') (hE : ∀ e s', E e s' → E' e s') : Ends (x >>= f) s P E' :=
  (ends_bind x f).mpr (h.mono hf hE)

theorem Ends.seq {P : β → σ → Prop} {f : α → ExceptT ε (StateM σ) β} (h : Ends x s Q E)
    (hf : ∀ a s', Q a s' → Ends (f a) s' P E) : Ends (x >>= f) s P E := h.andThen hf fun _ _ => id

theorem Gives.ends {a : α} {s' : σ} (h : Gives x s a s') : Ends x s Q E ↔ Q a s' := by
  rw [Ends, h]

theorem Ends.of_gives {a : α} {s' : σ} (h : Ends x s Q E) (hx : Gives x s a s') : Q a s' := hx.ends.mp h

theorem Ends.exists_gives (h : Ends x s Q fun _ _ => False) : ∃ a s', Gives x s a s' ∧ Q a s' := by
  rw [Ends] at h
  rcases hx : x.run.run s with ⟨r, s'⟩
  rw [hx] at h
  cases r with
  | ok a => exact ⟨a, s', hx, h⟩
  | error e => exact h.elim

theorem Ends.and {Q' : α → σ → Prop} {E' : ε → σ → Prop} (h : Ends x s Q E)
    (h' : Ends x s Q' E') : Ends x s (fun a s' => Q a s' ∧ Q' a s') fun e s' => E e s' ∧ E' e s' := by
  rw [Ends] at h h' ⊢
  generalize x.run.run s = r at h h' ⊢
  obtain ⟨r, s'⟩ := r
  cases r <;> exact ⟨h, h'⟩

theorem Ends.exists_error (h : Ends x s (fun _ _ => False) E) : ∃ e s', x.run.run s = (.error e, s') ∧ E e s' := by
  rw [Ends] at h
  rcases hx : x.run.run s with ⟨r, s'⟩
  rw [hx] at h
  cases r with
  | ok a => exact h.elim
  | error e => exact ⟨e, s', rfl, h⟩

theorem Ends.fails {e : ε} (h : Ends x s (fun _ _ => False) fun f _ => f = e) : Fails x s e := by
  obtain ⟨f, s', hx, rfl⟩ := h.exists_error
  exact ⟨s', hx⟩

abbrev Succeeds (x : ExceptT ε (StateM σ) α) (s : σ) : Prop := Ends x s (fun _ _ => True) fun _ _ => False

/-- If the act succeeds, `Q` holds. -/
abbrev Upon (x : ExceptT ε (StateM σ) α) (s : σ) (Q : α → σ → Prop) : Prop := Ends x s Q fun _ _ => True

theorem Upon.of_prop {P : Prop} (h : P) : Upon x s fun _ _ => P := by
  rw [Upon, Ends]
  split
  · exact h
  · trivial

theorem Upon.first {f : α → ExceptT ε (StateM σ) β} {P : Prop}
    (h : Upon x s fun _ _ => P) : Upon (x >>= f) s fun _ _ => P := by
  rw [Upon, ends_bind]
  exact h.mono (fun _ _ => Upon.of_prop) fun _ _ => id

theorem Ends.forM {l : List α} {f : α → ExceptT ε (StateM σ) PUnit} {I : σ → Prop}
    (h : ∀ a ∈ l, ∀ s, I s → Ends (f a) s (fun _ => I) E) (hs : I s) : Ends (l.forM f) s (fun _ => I) E := by
  induction l generalizing s with
  | nil => exact hs
  | cons a l ih =>
    show Ends (f a >>= fun _ => l.forM f) s _ _
    rw [ends_bind]
    exact (h a (by simp) s hs).mono (fun _ s' hs' => ih (fun b hb => h b (by simp [hb])) hs') fun _ _ he => he

end Ends

/-! ## Relations between states -/

/-- However the act ends, it leaves a state that `R` holds of. -/
def Within (R : σ → σ → Prop) (x : ExceptT ε (StateM σ) α) (s : σ) : Prop :=
  Ends x s (fun _ => R s) (fun _ => R s)

section Within

variable {R S : σ → σ → Prop} {s : σ}

theorem Within.bind (htrans : ∀ a b c, R a b → S b c → R a c) {x : ExceptT ε (StateM σ) α}
    {f : α → ExceptT ε (StateM σ) β} (hx : Within R x s) (hf : ∀ a s', R s s' → Within S (f a) s') :
    Within R (x >>= f) s := by
  rw [Within, ends_bind]
  exact hx.mono (fun a s' h => (hf a s' h).mono (fun _ _ => htrans _ _ _ h) fun _ _ => htrans _ _ _ h) fun _ _ h => h

end Within

/-- Wherever the act starts and however it ends, `R` holds of the two states; and if it fails, `E`
    holds of the fault. -/
abbrev Always (R : σ → σ → Prop) (E : ε → Prop) (x : ExceptT ε (StateM σ) α) : Prop :=
  ∀ s, Ends x s (fun _ => R s) fun e s' => R s s' ∧ E e

namespace Always

variable {x : ExceptT ε (StateM σ) α} {R R' : σ → σ → Prop} {E E' : ε → Prop}

theorem imp (hx : Always R E x) (h : ∀ s s', R s s' → R' s s') : Always R' E x :=
  fun s => (hx s).mono (fun _ => h s) fun _ s' => And.imp_left (h s s')

theorem any (hx : Always R E x) : Always R (fun _ => True) x := fun s => (hx s).mono (fun _ _ => id) fun _ _ he => ⟨he.1, trivial⟩

theorem within (hx : Always R E x) (s : σ) : Within R x s := (hx s).mono (fun _ _ => id) fun _ _ => And.left

variable [IsPreorder σ R]

theorem pure (a : α) : Always R E (Pure.pure a : ExceptT ε (StateM σ) α) := fun s => refl_of R s

theorem get : Always R E (MonadState.get : ExceptT ε (StateM σ) σ) := fun s => refl_of R s

theorem throw {e : ε} (he : E e) : Always R E (MonadExcept.throw e : ExceptT ε (StateM σ) α) := fun s => ⟨refl_of R s, he⟩

theorem bind {f : α → ExceptT ε (StateM σ) β} (hx : Always R E x) (hf : ∀ a, Always R E (f a)) : Always R E (x >>= f) :=
  fun s => (hx s).seq fun a s' hs => (hf a s').mono (fun _ _ => trans_of R hs) fun _ _ => And.imp_left (trans_of R hs)

theorem tryCatch {f : ε → ExceptT ε (StateM σ) α} (hx : Always R E' x) (hf : ∀ e, E' e → Always R E (f e)) :
    Always R E (MonadExcept.tryCatch x f) := fun s =>
  (ends_tryCatch x f).mpr ((hx s).mono (fun _ _ => id) fun e s' hs =>
    (hf e hs.2 s').mono (fun _ _ => trans_of R hs.1) fun _ _ => And.imp_left (trans_of R hs.1))

end Always

end Plainsong
