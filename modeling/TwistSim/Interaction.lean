/-
Programs that ask questions of an environment, as data.  One program can then be
run by any handler, reasoned about against an abstract specification of the
environment, and compared under two handlers in lockstep.
-/
import Mathlib.Logic.Basic

namespace TwistSim

universe u v w

/-- A program that asks questions `q : Q`, each answered in `R q`. -/
inductive Interaction (Q : Type u) (R : Q → Type u) (α : Type v) where
  | ret (value : α) : Interaction Q R α
  | ask (q : Q) (next : R q → Interaction Q R α) : Interaction Q R α

namespace Interaction

variable {Q : Type u} {R : Q → Type u} {α : Type v} {β : Type v} {γ : Type v}

def bind : Interaction Q R α → (α → Interaction Q R β) → Interaction Q R β
  | ret value, f => f value
  | ask q next, f => ask q (fun r => (next r).bind f)

@[simp] theorem ret_bind (value : α) (f : α → Interaction Q R β) :
    (ret value : Interaction Q R α).bind f = f value := rfl

@[simp] theorem ask_bind (q : Q) (next : R q → Interaction Q R α)
    (f : α → Interaction Q R β) :
    (ask q next).bind f = ask q (fun r => (next r).bind f) := rfl

theorem bind_assoc (t : Interaction Q R α) (f : α → Interaction Q R β)
    (g : β → Interaction Q R γ) :
    (t.bind f).bind g = t.bind (fun x => (f x).bind g) := by
  induction t with
  | ret value => rfl
  | ask q next ih => simp only [ask_bind, ih]

/-- The program may end with the value, whatever answers that takes. -/
def Returns : Interaction Q R α → α → Prop
  | ret value, x => x = value
  | ask _ next, x => ∃ r, Returns (next r) x

@[simp] theorem returns_ret {value x : α} :
    (ret value : Interaction Q R α).Returns x ↔ x = value := Iff.rfl

@[simp] theorem returns_ask {q : Q} {next : R q → Interaction Q R α} {x : α} :
    (ask q next).Returns x ↔ ∃ r, (next r).Returns x := Iff.rfl

@[simp] theorem returns_bind {t : Interaction Q R α} {f : α → Interaction Q R β}
    {y : β} : (t.bind f).Returns y ↔ ∃ x, t.Returns x ∧ (f x).Returns y := by
  induction t with
  | ret value => simp
  | ask q next ih =>
      simp only [ask_bind, returns_ask, ih]
      constructor
      · intro ⟨r, x, hx, hy⟩
        exact ⟨x, ⟨r, hx⟩, hy⟩
      · intro ⟨x, ⟨r, hx⟩, hy⟩
        exact ⟨r, x, hx, hy⟩

/-- Every question the program can ask satisfies `C`. -/
def Asks (C : Q → Prop) : Interaction Q R α → Prop
  | ret _ => True
  | ask q next => C q ∧ ∀ r, Asks C (next r)

section Handlers

variable {σ : Type w} {ε : Type w}

/-- Run a program under a handler that may crash with an error. -/
def interp (handle : (q : Q) → σ → Except ε (R q × σ)) :
    Interaction Q R α → σ → Except ε (α × σ)
  | ret value, s => .ok (value, s)
  | ask q next, s =>
      match handle q s with
      | .error e => .error e
      | .ok (r, s') => interp handle (next r) s'

@[simp] theorem interp_ret (handle : (q : Q) → σ → Except ε (R q × σ))
    (value : α) (s : σ) :
    interp handle (ret value : Interaction Q R α) s = .ok (value, s) := rfl

theorem interp_ask (handle : (q : Q) → σ → Except ε (R q × σ)) (q : Q)
    (next : R q → Interaction Q R α) (s : σ) :
    interp handle (ask q next) s =
      match handle q s with
      | .error e => .error e
      | .ok (r, s') => interp handle (next r) s' := by
  rw [interp]

theorem interp_bind (handle : (q : Q) → σ → Except ε (R q × σ))
    (t : Interaction Q R α) (f : α → Interaction Q R β) (s : σ) :
    interp handle (t.bind f) s =
      match interp handle t s with
      | .error e => .error e
      | .ok (value, s') => interp handle (f value) s' := by
  induction t generalizing s with
  | ret value => rfl
  | ask q next ih =>
      simp only [ask_bind, interp_ask]
      cases handle q s with
      | error e => rfl
      | ok reply => exact ih reply.1 reply.2

theorem interp_returns {handle : (q : Q) → σ → Except ε (R q × σ)}
    {t : Interaction Q R α} {s s' : σ} {value : α}
    (h : t.interp handle s = .ok (value, s')) : t.Returns value := by
  induction t generalizing s with
  | ret x =>
      simp only [interp_ret, Except.ok.injEq, Prod.mk.injEq] at h
      exact h.1.symm
  | ask q next ih =>
      rw [interp_ask] at h
      cases hreply : handle q s with
      | error e =>
          rw [hreply] at h
          cases h
      | ok reply =>
          rw [hreply] at h
          exact ⟨reply.1, ih reply.1 h⟩

/-- The questions of a run, with the answers it gets. -/
def transcript (handle : (q : Q) → σ → Except ε (R q × σ)) :
    Interaction Q R α → σ → List (Sigma R)
  | ret _, _ => []
  | ask q next, s =>
      match handle q s with
      | .error _ => []
      | .ok (r, s') => ⟨q, r⟩ :: transcript handle (next r) s'

theorem transcript_ask (handle : (q : Q) → σ → Except ε (R q × σ)) (q : Q)
    (next : R q → Interaction Q R α) (s : σ) :
    transcript handle (ask q next) s =
      match handle q s with
      | .error _ => []
      | .ok (r, s') => ⟨q, r⟩ :: transcript handle (next r) s' := by
  rw [transcript]

/-- Every question asked while `handle` runs the program satisfies `C`. -/
def Along (handle : (q : Q) → σ → Except ε (R q × σ)) (C : σ → Q → Prop) :
    Interaction Q R α → σ → Prop
  | ret _, _ => True
  | ask q next, s =>
      C s q ∧ ∀ r s', handle q s = .ok (r, s') → Along handle C (next r) s'

theorem Along.mono {handle : (q : Q) → σ → Except ε (R q × σ)}
    {C D : σ → Q → Prop} (hCD : ∀ s q, C s q → D s q)
    {t : Interaction Q R α} {s : σ} (h : t.Along handle C s) :
    t.Along handle D s := by
  induction t generalizing s with
  | ret value => trivial
  | ask q next ih =>
      exact ⟨hCD s q h.1, fun r s' hr => ih r (h.2 r s' hr)⟩

theorem Along.of_forall {handle : (q : Q) → σ → Except ε (R q × σ)}
    {C : σ → Q → Prop} (h : ∀ s q, C s q) {t : Interaction Q R α} {s : σ} :
    t.Along handle C s := by
  induction t generalizing s with
  | ret value => trivial
  | ask q next ih => exact ⟨h s q, fun r s' _ => ih r⟩

theorem Along.of_bind {handle : (q : Q) → σ → Except ε (R q × σ)}
    {C : σ → Q → Prop} {t : Interaction Q R α} {f : α → Interaction Q R β} {s : σ}
    (h : (t.bind f).Along handle C s) : t.Along handle C s := by
  induction t generalizing s with
  | ret value => trivial
  | ask q next ih => exact ⟨h.1, fun r s' hr => ih r (h.2 r s' hr)⟩

/-- `Along`, evaluated. -/
def holdsAlong (handle : (q : Q) → σ → Except ε (R q × σ)) (C : σ → Q → Bool) :
    Interaction Q R α → σ → Bool
  | ret _, _ => true
  | ask q next, s =>
      C s q &&
        match handle q s with
        | .error _ => true
        | .ok (r, s') => holdsAlong handle C (next r) s'

theorem Along.of_holds {handle : (q : Q) → σ → Except ε (R q × σ)}
    {C : σ → Q → Bool} {D : σ → Q → Prop} (hCD : ∀ s q, C s q = true → D s q)
    {t : Interaction Q R α} {s : σ} (h : t.holdsAlong handle C s = true) :
    t.Along handle D s := by
  induction t generalizing s with
  | ret value => trivial
  | ask q next ih =>
      rw [holdsAlong, Bool.and_eq_true] at h
      refine ⟨hCD s q h.1, fun r s' hreply => ih r ?_⟩
      have hrest := h.2
      rw [hreply] at hrest
      exact hrest

/-- A condition on the questions alone passes on to a run that is asked the
same. -/
theorem Along.of_transcript {C : Q → Prop}
    {handle : (q : Q) → σ → Except ε (R q × σ)} {τ : Type w}
    {handle' : (q : Q) → τ → Except ε (R q × τ)} {t : Interaction Q R α} {s : σ}
    {s' : τ} (h : t.Along handle (fun _ q => C q) s)
    (hasked : t.transcript handle' s' = t.transcript handle s) :
    t.Along handle' (fun _ q => C q) s' := by
  induction t generalizing s s' with
  | ret value => trivial
  | ask q next ih =>
      refine ⟨h.1, fun r u' hr => ?_⟩
      rw [transcript_ask, transcript_ask, hr] at hasked
      cases hreply : handle q s with
      | error e =>
          rw [hreply] at hasked
          cases hasked
      | ok reply =>
          rw [hreply] at hasked
          obtain ⟨hhead, htail⟩ := List.cons.inj hasked
          obtain rfl := eq_of_heq (Sigma.mk.inj hhead).2
          exact ih reply.1 (h.2 reply.1 reply.2 hreply) htail

/-- What every question of `C` keeps is kept by the run. -/
theorem Along.interp_keeps {handle : (q : Q) → σ → Except ε (R q × σ)}
    {C : σ → Q → Prop} {I : σ → Prop}
    (hkeep : ∀ q s r s', C s q → I s → handle q s = .ok (r, s') → I s')
    {t : Interaction Q R α} {s s' : σ} {value : α} (h : t.Along handle C s)
    (hI : I s) (hrun : t.interp handle s = .ok (value, s')) : I s' := by
  induction t generalizing s with
  | ret x =>
      simp only [interp_ret, Except.ok.injEq, Prod.mk.injEq] at hrun
      exact hrun.2 ▸ hI
  | ask q next ih =>
      rw [interp_ask] at hrun
      cases hreply : handle q s with
      | error e =>
          rw [hreply] at hrun
          cases hrun
      | ok reply =>
          rw [hreply] at hrun
          exact ih reply.1 (h.2 reply.1 reply.2 hreply)
            (hkeep q s reply.1 reply.2 h.1 hI hreply) hrun

end Handlers

/-! ### Abstract environments -/

/-- What a program may assume of its environment, over an abstract state `A`.
`assume` restricts the runs considered, `pre` is owed by the program, `post` is
granted by the environment, and `mayCrash` marks questions that can end a run. -/
structure Spec (Q : Type u) (R : Q → Type u) (A : Type w) where
  assume : A → Q → Prop
  pre : A → Q → Prop
  mayCrash : A → Q → Prop
  post : (a : A) → (q : Q) → R q → A → Prop

section Specifications

variable {A : Type w}

/-- Weakest precondition against a specification.  `crash` states what has to
hold where a question may end the run. -/
def wp (Φ : Spec Q R A) (crash : Prop) :
    Interaction Q R α → A → (α → A → Prop) → Prop
  | ret value, a, post => post value a
  | ask q next, a, post =>
      Φ.assume a q → Φ.pre a q ∧ (Φ.mayCrash a q → crash) ∧
        ∀ r a', Φ.post a q r a' → wp Φ crash (next r) a' post

@[simp] theorem wp_ret (Φ : Spec Q R A) (crash : Prop) (value : α) (a : A)
    (post : α → A → Prop) :
    wp Φ crash (ret value : Interaction Q R α) a post = post value a := rfl

theorem wp_ask (Φ : Spec Q R A) (crash : Prop) (q : Q)
    (next : R q → Interaction Q R α) (a : A) (post : α → A → Prop) :
    wp Φ crash (ask q next) a post =
      (Φ.assume a q → Φ.pre a q ∧ (Φ.mayCrash a q → crash) ∧
        ∀ r a', Φ.post a q r a' → wp Φ crash (next r) a' post) := rfl

theorem wp_mono {Φ : Spec Q R A} {crash : Prop} {t : Interaction Q R α}
    {a : A} {P P' : α → A → Prop} (hP : ∀ x a', P x a' → P' x a')
    (h : t.wp Φ crash a P) : t.wp Φ crash a P' := by
  induction t generalizing a with
  | ret value => exact hP _ _ h
  | ask q next ih =>
      intro hassume
      obtain ⟨hpre, hcrash, hnext⟩ := h hassume
      exact ⟨hpre, hcrash, fun r a' hr => ih r (hnext r a' hr)⟩

theorem wp_bind {Φ : Spec Q R A} {crash : Prop} {t : Interaction Q R α}
    {f : α → Interaction Q R β} {a : A} {P : β → A → Prop} :
    (t.bind f).wp Φ crash a P ↔
      t.wp Φ crash a (fun x a' => (f x).wp Φ crash a' P) := by
  induction t generalizing a with
  | ret value => exact Iff.rfl
  | ask q next ih => simp only [ask_bind, wp_ask, ih]

/-- Another specification that asks less and grants as much. -/
def Spec.Refines (Φ' Φ : Spec Q R A) : Prop :=
  ∀ a q, Φ'.assume a q → Φ.assume a q ∧
    (Φ.pre a q → Φ'.pre a q ∧ ∀ r a', Φ'.post a q r a' → Φ.post a q r a')

theorem wp_refines {Φ Φ' : Spec Q R A} {crash : Prop} (href : Φ'.Refines Φ)
    {t : Interaction Q R α} {a : A} {P : α → A → Prop} (h : t.wp Φ crash a P) :
    t.wp Φ' True a P := by
  induction t generalizing a with
  | ret value => exact h
  | ask q next ih =>
      intro hassume
      obtain ⟨hassume', hask⟩ := href a q hassume
      obtain ⟨hpre, -, hnext⟩ := h hassume'
      obtain ⟨hpre', hpost⟩ := hask hpre
      exact ⟨hpre', fun _ => trivial, fun r a' hr => ih r (hnext r a' (hpost r a' hr))⟩

/-- The same answers, to questions that need not be allowed. -/
def Spec.lenient (Φ : Spec Q R A) : Spec Q R A where
  assume := Φ.assume
  pre _ _ := True
  mayCrash _ _ := True
  post := Φ.post

/-- What holds of all answers holds besides. -/
theorem wp_frame {Φ : Spec Q R A} {crash : Prop} {t : Interaction Q R α} {a : A}
    {P F : α → A → Prop} (h : t.wp Φ crash a P) (hframe : t.wp Φ.lenient True a F) :
    t.wp Φ crash a fun x a' => P x a' ∧ F x a' := by
  induction t generalizing a with
  | ret value => exact ⟨h, hframe⟩
  | ask q next ih =>
      intro hassume
      obtain ⟨hpre, hcrash, hnext⟩ := h hassume
      obtain ⟨-, -, hframe⟩ := hframe hassume
      exact ⟨hpre, hcrash, fun r a' hr => ih r (hnext r a' hr) (hframe r a' hr)⟩

/-- A concrete handler implements a specification through `view`. -/
def Implements {σ ε : Type w} (handle : (q : Q) → σ → Except ε (R q × σ))
    (WF : σ → Prop) (view : σ → A) (Φ : Spec Q R A) : Prop :=
  ∀ q s, WF s → Φ.assume (view s) q → Φ.pre (view s) q →
    match handle q s with
    | .error _ => Φ.mayCrash (view s) q
    | .ok (r, s') => WF s' ∧ Φ.post (view s) q r (view s')

variable {σ ε : Type w} {handle : (q : Q) → σ → Except ε (R q × σ)}
  {WF : σ → Prop} {view : σ → A} {Φ : Spec Q R A}

/-- What is proved against the specification holds of every run of a handler
that implements it. -/
theorem wp_sound (himp : Implements handle WF view Φ) {crash : Prop}
    {t : Interaction Q R α} {s : σ} {P : α → A → Prop} (hWF : WF s)
    (hassume : t.Along handle (fun s q => Φ.assume (view s) q) s)
    (h : t.wp Φ crash (view s) P) :
    match t.interp handle s with
    | .error _ => crash
    | .ok (value, s') => WF s' ∧ P value (view s') := by
  induction t generalizing s with
  | ret value => exact ⟨hWF, h⟩
  | ask q next ih =>
      obtain ⟨hpre, hcrash, hnext⟩ := h hassume.1
      have hstep := himp q s hWF hassume.1 hpre
      rw [interp_ask]
      cases hreply : handle q s with
      | error e =>
          rw [hreply] at hstep
          exact hcrash hstep
      | ok reply =>
          rw [hreply] at hstep
          exact ih reply.1 hstep.1 (hassume.2 reply.1 reply.2 hreply)
            (hnext reply.1 (view reply.2) hstep.2)

/-- The questions a verified program asks meet their preconditions. -/
theorem wp_along_pre (himp : Implements handle WF view Φ) {crash : Prop}
    {t : Interaction Q R α} {s : σ} {P : α → A → Prop} (hWF : WF s)
    (hassume : t.Along handle (fun s q => Φ.assume (view s) q) s)
    (h : t.wp Φ crash (view s) P) :
    t.Along handle (fun s q => WF s ∧ Φ.pre (view s) q) s := by
  induction t generalizing s with
  | ret value => trivial
  | ask q next ih =>
      obtain ⟨hpre, hcrash, hnext⟩ := h hassume.1
      refine ⟨⟨hWF, hpre⟩, fun r s' hreply => ?_⟩
      have hstep := himp q s hWF hassume.1 hpre
      rw [hreply] at hstep
      exact ih r hstep.1 (hassume.2 r s' hreply) (hnext r (view s') hstep.2)

/-- The exact answers of a handler. -/
def graphSpec (handle : (q : Q) → σ → Except ε (R q × σ)) : Spec Q R σ where
  assume _ _ := True
  pre _ _ := True
  mayCrash _ _ := True
  post s q r s' := handle q s = .ok (r, s')

/-- What is proved of the answers holds where the program returns. -/
theorem wp_graph {t : Interaction Q R α} {s s' : σ} {x : α} {P : α → σ → Prop}
    (h : t.wp (graphSpec handle) True s P) (hrun : t.interp handle s = .ok (x, s')) :
    P x s' := by
  induction t generalizing s with
  | ret value =>
      cases hrun
      exact h
  | ask q next ih =>
      rw [interp_ask] at hrun
      cases hreply : handle q s with
      | error e =>
          rw [hreply] at hrun
          cases hrun
      | ok reply =>
          rw [hreply] at hrun
          exact ih reply.1 ((h trivial).2.2 reply.1 reply.2 hreply) hrun

theorem wp_trivial {t : Interaction Q R α} {s : σ} :
    t.wp (graphSpec handle) True s fun _ _ => True := by
  induction t generalizing s with
  | ret value => trivial
  | ask q next ih => exact fun _ => ⟨trivial, fun _ => trivial, fun r s' _ => ih r⟩

end Specifications

/-! ### Two handlers in lockstep -/

section Lockstep

variable {σ₁ : Type w} {σ₂ : Type w} {ε : Type w}

/-- On the questions in `C`, whenever the first handler answers and reaches a
`Good` state, the second gives the same answer and the states stay related. -/
def LockstepOn (handle₁ : (q : Q) → σ₁ → Except ε (R q × σ₁))
    (handle₂ : (q : Q) → σ₂ → Except ε (R q × σ₂))
    (C : σ₁ → Q → Prop) (Good : σ₁ → Prop) (Rel : σ₁ → σ₂ → Prop) : Prop :=
  ∀ q s₁ s₂ r s₁', C s₁ q → Rel s₁ s₂ → handle₁ q s₁ = .ok (r, s₁') →
    Good s₁' → ∃ s₂', handle₂ q s₂ = .ok (r, s₂') ∧ Rel s₁' s₂'

/-- `Good` held before whenever it holds after an answer. -/
def ReflectedBy (handle : (q : Q) → σ₁ → Except ε (R q × σ₁))
    (Good : σ₁ → Prop) : Prop :=
  ∀ q s r s', handle q s = .ok (r, s') → Good s' → Good s

variable {handle₁ : (q : Q) → σ₁ → Except ε (R q × σ₁)}
  {handle₂ : (q : Q) → σ₂ → Except ε (R q × σ₂)}
  {C : σ₁ → Q → Prop} {Good : σ₁ → Prop} {Rel : σ₁ → σ₂ → Prop}

theorem ReflectedBy.interp (href : ReflectedBy handle₁ Good)
    {t : Interaction Q R α} {s s' : σ₁} {value : α}
    (h : t.interp handle₁ s = .ok (value, s')) (hgood : Good s') : Good s := by
  induction t generalizing s with
  | ret x =>
      simp only [interp_ret, Except.ok.injEq, Prod.mk.injEq] at h
      exact h.2 ▸ hgood
  | ask q next ih =>
      rw [interp_ask] at h
      cases hreply : handle₁ q s with
      | error e =>
          rw [hreply] at h
          cases h
      | ok reply =>
          rw [hreply] at h
          exact href q s reply.1 reply.2 hreply (ih reply.1 h)

/-- Lockstep of single answers extends to whole programs. -/
theorem LockstepOn.interp (hlock : LockstepOn handle₁ handle₂ C Good Rel)
    (href : ReflectedBy handle₁ Good) {t : Interaction Q R α} {s₁ s₁' : σ₁}
    {s₂ : σ₂} {value : α} (hC : t.Along handle₁ C s₁) (hrel : Rel s₁ s₂)
    (h : t.interp handle₁ s₁ = .ok (value, s₁')) (hgood : Good s₁') :
    ∃ s₂', t.interp handle₂ s₂ = .ok (value, s₂') ∧ Rel s₁' s₂' := by
  induction t generalizing s₁ s₂ with
  | ret x =>
      simp only [interp_ret, Except.ok.injEq, Prod.mk.injEq] at h
      exact ⟨s₂, by rw [interp_ret, h.1], h.2 ▸ hrel⟩
  | ask q next ih =>
      rw [interp_ask] at h
      cases hreply : handle₁ q s₁ with
      | error e =>
          rw [hreply] at h
          cases h
      | ok reply =>
          rw [hreply] at h
          have hgood' : Good reply.2 := href.interp h hgood
          obtain ⟨s₂', hanswer, hrel'⟩ :=
            hlock q s₁ s₂ reply.1 reply.2 hC.1 hrel hreply hgood'
          obtain ⟨s₂'', hrest, hrel''⟩ :=
            ih reply.1 (hC.2 reply.1 reply.2 hreply) hrel' h
          refine ⟨s₂'', ?_, hrel''⟩
          rw [interp_ask, hanswer]
          exact hrest

/-- The two runs are asked the same and get the same answers. -/
theorem LockstepOn.transcript (hlock : LockstepOn handle₁ handle₂ C Good Rel)
    (href : ReflectedBy handle₁ Good) {t : Interaction Q R α} {s₁ s₁' : σ₁}
    {s₂ : σ₂} {value : α} (hC : t.Along handle₁ C s₁) (hrel : Rel s₁ s₂)
    (h : t.interp handle₁ s₁ = .ok (value, s₁')) (hgood : Good s₁') :
    t.transcript handle₂ s₂ = t.transcript handle₁ s₁ := by
  induction t generalizing s₁ s₂ with
  | ret x => rfl
  | ask q next ih =>
      rw [interp_ask] at h
      cases hreply : handle₁ q s₁ with
      | error e =>
          rw [hreply] at h
          cases h
      | ok reply =>
          rw [hreply] at h
          have hgood' : Good reply.2 := href.interp h hgood
          obtain ⟨s₂', hanswer, hrel'⟩ :=
            hlock q s₁ s₂ reply.1 reply.2 hC.1 hrel hreply hgood'
          have hrest := ih reply.1 (hC.2 reply.1 reply.2 hreply) hrel' h
          simp only [transcript_ask, hreply, hanswer, hrest]

end Lockstep

end Interaction

end TwistSim
