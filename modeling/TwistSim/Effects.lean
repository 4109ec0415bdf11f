/-
Imperative programs over an environment: a state, exceptions that keep the
state, and questions.  Their weakest preconditions follow the structure of the
program.
-/
import TwistSim.Interaction

namespace TwistSim

/-- A program with state `S` and exceptions `E` that asks questions `Q`. -/
def Effect (Q : Type) (R : Q → Type) (S E α : Type) : Type :=
  S → Interaction Q R (Except E α × S)

namespace Effect

open Interaction

variable {Q : Type} {R : Q → Type} {S E α β : Type}

instance : Monad (Effect Q R S E) where
  pure x := fun s => .ret (.ok x, s)
  bind m f := fun s => (m s).bind fun
    | (.ok x, s) => f x s
    | (.error e, s) => .ret (.error e, s)

def get : Effect Q R S E S := fun s => .ret (.ok s, s)

def modify (f : S → S) : Effect Q R S E Unit := fun s => .ret (.ok (), f s)

def raise (e : E) : Effect Q R S E α := fun s => .ret (.error e, s)

def ask (q : Q) : Effect Q R S E (R q) := fun s =>
  .ask q fun r => .ret (.ok r, s)

def lift (x : Except E α) : Effect Q R S E α := fun s => .ret (x, s)

/-- Run `m`; on an exception continue with `handler` from the state it left. -/
def handle (m : Effect Q R S E α) (handler : E → Effect Q R S E α) :
    Effect Q R S E α := fun s =>
  (m s).bind fun
    | (.ok x, s) => .ret (.ok x, s)
    | (.error e, s) => handler e s

/-- A sequence that returns: both of its parts do. -/
theorem interp_bind_ok {σ ε : Type} {h : (q : Q) → σ → Except ε (R q × σ)}
    {m : Effect Q R S E α} {f : α → Effect Q R S E β} {s s' : S} {a a' : σ} {y : β}
    (hrun : ((m >>= f) s).interp h a = .ok ((.ok y, s'), a')) :
    ∃ x s₁ a₁, (m s).interp h a = .ok ((.ok x, s₁), a₁) ∧
      (f x s₁).interp h a₁ = .ok ((.ok y, s'), a') := by
  have hbind : (m >>= f) s = (m s).bind fun r =>
      match r with
      | (.ok x, s) => f x s
      | (.error e, s) => .ret (.error e, s) := rfl
  rw [hbind, interp_bind] at hrun
  cases hm : (m s).interp h a with
  | error e =>
      rw [hm] at hrun
      cases hrun
  | ok result =>
      rw [hm] at hrun
      obtain ⟨⟨x | x, s₁⟩, a₁⟩ := result
      · cases hrun
      · exact ⟨x, s₁, a₁, rfl, hrun⟩

/-- A handled program that returns: it did without the handler, or the handler
does. -/
theorem interp_handle_ok {σ ε : Type} {h : (q : Q) → σ → Except ε (R q × σ)}
    {m : Effect Q R S E α} {handler : E → Effect Q R S E α} {s s' : S} {a a' : σ} {y : α}
    (hrun : ((m.handle handler) s).interp h a = .ok ((.ok y, s'), a')) :
    (m s).interp h a = .ok ((.ok y, s'), a') ∨
      ∃ e s₁ a₁, (m s).interp h a = .ok ((.error e, s₁), a₁) ∧
        (handler e s₁).interp h a₁ = .ok ((.ok y, s'), a') := by
  rw [handle, interp_bind] at hrun
  cases hm : (m s).interp h a with
  | error e =>
      rw [hm] at hrun
      cases hrun
  | ok result =>
      rw [hm] at hrun
      obtain ⟨⟨x | x, s₁⟩, a₁⟩ := result
      · exact Or.inr ⟨x, s₁, a₁, rfl, hrun⟩
      · cases hrun
        exact Or.inl rfl

section WeakestPreconditions

variable {A : Type} (Φ : Spec Q R A) (crash : Prop)

/-- `post` holds where the program returns, `exc` where it raises. -/
def wp (m : Effect Q R S E α) (post : α → S → A → Prop)
    (exc : E → S → A → Prop) (s : S) (a : A) : Prop :=
  (m s).wp Φ crash a fun r a' =>
    match r with
    | (.ok x, s') => post x s' a'
    | (.error e, s') => exc e s' a'

variable {Φ crash} {post : α → S → A → Prop} {exc : E → S → A → Prop} {s : S}
  {a : A}

@[simp] theorem wp_pure (x : α) :
    (pure x : Effect Q R S E α).wp Φ crash post exc s a ↔ post x s a := Iff.rfl

@[simp] theorem wp_get {post : S → S → A → Prop} :
    (get : Effect Q R S E S).wp Φ crash post exc s a ↔ post s s a := Iff.rfl

@[simp] theorem wp_modify {post : Unit → S → A → Prop} (f : S → S) :
    (modify f : Effect Q R S E Unit).wp Φ crash post exc s a ↔ post () (f s) a :=
  Iff.rfl

@[simp] theorem wp_raise (e : E) :
    (raise e : Effect Q R S E α).wp Φ crash post exc s a ↔ exc e s a := Iff.rfl

theorem wp_ask {q : Q} {post : R q → S → A → Prop} :
    (ask q : Effect Q R S E (R q)).wp Φ crash post exc s a ↔
      (Φ.assume a q → Φ.pre a q ∧ (Φ.mayCrash a q → crash) ∧
        ∀ r a', Φ.post a q r a' → post r s a') := Iff.rfl

@[simp] theorem wp_lift_ok (x : α) :
    (lift (.ok x) : Effect Q R S E α).wp Φ crash post exc s a ↔ post x s a := Iff.rfl

@[simp] theorem wp_lift_error (e : E) :
    (lift (.error e) : Effect Q R S E α).wp Φ crash post exc s a ↔ exc e s a := Iff.rfl

@[simp] theorem wp_bind {m : Effect Q R S E α} {f : α → Effect Q R S E β}
    {post : β → S → A → Prop} :
    (m >>= f).wp Φ crash post exc s a ↔
      m.wp Φ crash (fun x s' a' => (f x).wp Φ crash post exc s' a') exc s a := by
  have hbind : (m >>= f) s = (m s).bind fun r =>
      match r with
      | (.ok x, s) => f x s
      | (.error e, s) => .ret (.error e, s) := rfl
  rw [wp, hbind, Interaction.wp_bind]
  refine iff_of_eq (congrArg _ (funext fun r => funext fun a' => ?_))
  obtain ⟨x | e, s'⟩ := r <;> rfl

theorem wp_handle {m : Effect Q R S E α} {handler : E → Effect Q R S E α} :
    (m.handle handler).wp Φ crash post exc s a ↔
      m.wp Φ crash post (fun e s' a' => (handler e).wp Φ crash post exc s' a') s a := by
  rw [wp, handle, Interaction.wp_bind]
  refine iff_of_eq (congrArg _ (funext fun r => funext fun a' => ?_))
  obtain ⟨x | e, s'⟩ := r <;> rfl

theorem wp_mono {m : Effect Q R S E α} {post' : α → S → A → Prop}
    {exc' : E → S → A → Prop} (h : m.wp Φ crash post exc s a)
    (hpost : ∀ x s' a', post x s' a' → post' x s' a')
    (hexc : ∀ e s' a', exc e s' a' → exc' e s' a') :
    m.wp Φ crash post' exc' s a := by
  refine Interaction.wp_mono (fun r a' hr => ?_) h
  obtain ⟨x | e, s'⟩ := r
  · exact hexc x s' a' hr
  · exact hpost e s' a' hr

theorem wp_refines {Φ' : Spec Q R A} (href : Φ'.Refines Φ) {m : Effect Q R S E α}
    (h : m.wp Φ crash post exc s a) : m.wp Φ' True post exc s a :=
  Interaction.wp_refines href h

/-- What holds of all answers holds besides. -/
theorem wp_frame {m : Effect Q R S E α} {F : α → S → A → Prop}
    (h : m.wp Φ crash post exc s a)
    (hframe : m.wp Φ.lenient True F (fun _ _ _ => True) s a) :
    m.wp Φ crash (fun x s' a' => post x s' a' ∧ F x s' a') exc s a := by
  refine Interaction.wp_mono (fun r a' hr => ?_) (Interaction.wp_frame h hframe)
  obtain ⟨x | e, s'⟩ := r
  · exact hr.1
  · exact hr

/-- A program that never returns here. -/
theorem wp_raises {ε : Type} {handle : (q : Q) → A → Except ε (R q × A)}
    {m : Effect Q R S E β} {f : β → Effect Q R S E α}
    (h : ∀ x s a, (f x).wp (graphSpec handle) True post (fun _ _ _ => True) s a) :
    (m >>= f).wp (graphSpec handle) True post (fun _ _ _ => True) s a := by
  rw [wp_bind]
  refine Interaction.wp_mono (fun r a' _ => ?_) Interaction.wp_trivial
  obtain ⟨x | e, s'⟩ := r
  · trivial
  · exact h e s' a'

/-- What is proved of the answers of a handler holds where the program returns. -/
theorem returns_of_wp {ε : Type} {handle : (q : Q) → A → Except ε (R q × A)}
    {m : Effect Q R S E α} {x : α} {s' : S} {a' : A}
    (h : m.wp (graphSpec handle) True post (fun _ _ _ => True) s a)
    (hrun : (m s).interp handle a = .ok ((.ok x, s'), a')) : post x s' a' := by
  have hpost := Interaction.wp_graph h hrun
  exact hpost

end WeakestPreconditions

end Effect

end TwistSim
