import Mathlib.Tactic

namespace Kobox

/-- Stateful code with early error returns; the state reached is kept in both outcomes. -/
def Prog (σ ε α : Type) := σ → Except ε α × σ

namespace Prog

variable {σ τ ε α β : Type}

instance : Monad (Prog σ ε) where
  pure a := fun s => (.ok a,s)
  bind x f := fun s =>
    match x s with
    | (.ok a,t) => f a t
    | (.error e,t) => (.error e,t)

def get : Prog σ ε σ := fun s => (.ok s,s)

def modify (f : σ → σ) : Prog σ ε Unit := fun s => (.ok (),f s)

def fail (e : ε) : Prog σ ε α := fun s => (.error e,s)

def ofExcept (x : Except ε α) : Prog σ ε α := fun s => (x,s)

/-- The n turns i,i+1,… of a counting loop. -/
def loopFrom (body : Nat → Prog σ ε Unit) (i : Nat) : Nat → Prog σ ε Unit
  | 0 => pure ()
  | n+1 => do
    body i
    loopFrom body (i+1) n

@[simp] theorem pure_run (a : α) (s : σ) : (pure a : Prog σ ε α) s=(.ok a,s) := rfl
@[simp] theorem get_run {s : σ} : (get : Prog σ ε σ) s=(.ok s,s) := rfl
@[simp] theorem modify_run (f : σ → σ) (s : σ) : (modify f : Prog σ ε Unit) s=(.ok (),f s) := rfl
@[simp] theorem ofExcept_run {x : Except ε α} {s : σ} : (ofExcept x : Prog σ ε α) s=(x,s) := rfl

theorem mem_toOption {x : Except ε α} {a : α} : a∈x.toOption ↔ x=.ok a := by
  cases x <;> simp [Except.toOption]

variable {s t : σ}

theorem ofExcept_eq_ok {x : Except ε α} {a : α} :
    (ofExcept x : Prog σ ε α) s=(.ok a,t) ↔ x=.ok a ∧ s=t := by
  rw [ofExcept_run,Prod.mk.injEq]

variable {e : ε}

theorem ofExcept_eq_error {x : Except ε α} :
    (ofExcept x : Prog σ ε α) s=(.error e,t) ↔ x=.error e ∧ s=t := by
  rw [ofExcept_run,Prod.mk.injEq]

variable {x : Prog σ ε α}

theorem bind_ok {a : α} {f : α → Prog σ ε β} (h : x s=(.ok a,t)) : (x >>= f) s=f a t := by
  change (match x s with | (.ok a,t) => f a t | (.error e,t) => (.error e,t))=_
  rw [h]

theorem bind_error {f : α → Prog σ ε β} (h : x s=(.error e,t)) : (x >>= f) s=(.error e,t) := by
  change (match x s with | (.ok a,t) => f a t | (.error e,t) => (.error e,t))=_
  rw [h]

variable {f : α → Prog σ ε β}

theorem bind_eq_ok {u : σ} {b : β} :
    (x >>= f) s=(.ok b,u) ↔ ∃ a t,x s=(.ok a,t) ∧ f a t=(.ok b,u) := by
  rcases h : x s with ⟨r,t⟩
  cases r with
  | error e =>
    rw [bind_error h]
    simp
  | ok a =>
    rw [bind_ok h]
    simp

theorem bind_eq_error {u : σ} : (x >>= f) s=(.error e,u) ↔
      x s=(.error e,u) ∨ ∃ a t,x s=(.ok a,t) ∧ f a t=(.error e,u) := by
  rcases h : x s with ⟨r,t⟩
  cases r with
  | error d =>
    rw [bind_error h]
    simp
  | ok a =>
    rw [bind_ok h]
    simp

/-- Whatever the outcome, the state moves along R. -/
def Moves (R : σ → σ → Prop) (x : Prog σ ε α) : Prop := ∀ s,R s (x s).2

section Rules

variable {R : σ → σ → Prop}

variable {x : Prog σ ε α}

theorem Moves.pure (hr : ∀ s,R s s) (a : α) : Moves R (pure a : Prog σ ε α) := hr

theorem Moves.fail (hr : ∀ s,R s s) (e : ε) : Moves R (fail e : Prog σ ε α) := hr

theorem Moves.ofExcept (hr : ∀ s,R s s) (x : Except ε α) : Moves R (ofExcept x : Prog σ ε α) := hr

theorem Moves.modify {f : σ → σ} (h : ∀ s,R s (f s)) : Moves R (modify f : Prog σ ε Unit) := h

theorem Moves.bind (ht : ∀ a b c,R a b → R b c → R a c) (hx : Moves R x) (hf : ∀ a,Moves R (f a)) :
    Moves R (x >>= f) := by
  intro s
  have h1 := hx s
  rcases h : x s with ⟨r,t⟩
  rw [h] at h1
  cases r with
  | error e =>
    rw [bind_error h]
    exact h1
  | ok a =>
    rw [bind_ok h]
    exact ht s t _ h1 (hf a t)

theorem Moves.get_bind {f : σ → Prog σ ε β} (h : ∀ s,R s (f s s).2) : Moves R (Prog.get >>= f) := h

theorem Moves.check_bind {s : σ} (hr : R s s) {x : Except ε α} (h : ∀ a,x=.ok a → R s (f a s).2) :
    R s ((Prog.ofExcept x >>= f) s).2 := by
  cases x with
  | error e => exact hr
  | ok a => exact h a rfl

theorem Moves.stages {S : σ → σ → Prop} (hs : ∀ s,S s s) (hx : Moves R x) (hf : ∀ a,Moves S (f a)) :
    Moves (fun s t => ∃ u,R s u ∧ S u t) (x >>= f) := by
  intro s
  have h1 := hx s
  rcases h : x s with ⟨r,t⟩
  rw [h] at h1
  refine ⟨t,h1,?_⟩
  cases r with
  | error e =>
    rw [bind_error h]
    exact hs t
  | ok a =>
    rw [bind_ok h]
    exact hf a t

theorem Moves.ite {c : Prop} [Decidable c] {y : Prog σ ε α} (hx : c → Moves R x)
    (hy : ¬c → Moves R y) : Moves R (if c then x else y) := by
  split
  · next h => exact hx h
  · next h => exact hy h

theorem Moves.mono {S : σ → σ → Prop} (hx : Moves R x) (h : ∀ s t,R s t → S s t) :
    Moves S x := fun s => h _ _ (hx s)

/-- A loop in states where Q holds, for a Q that moving along R keeps. -/
theorem Moves.loopFrom_within (hr : ∀ s,R s s) (ht : ∀ a b c,R a b → R b c → R a c) {Q : σ → Prop}
    (hq : ∀ a b,R a b → Q a → Q b) {body : Nat → Prog σ ε Unit} (h : ∀ j s,Q s → R s (body j s).2)
    (i n : Nat) {s : σ} (hs : Q s) : R s (Prog.loopFrom body i n s).2 := by
  induction n generalizing i s with
  | zero => exact hr s
  | succ n ih =>
    have h1 := h i s hs
    rcases hb : body i s with ⟨r,t⟩
    rw [hb] at h1
    cases r with
    | error e =>
      have he : Prog.loopFrom body i (n+1) s=(.error e,t) := bind_error hb
      rw [he]
      exact h1
    | ok _ =>
      have he : Prog.loopFrom body i (n+1) s=Prog.loopFrom body (i+1) n t := bind_ok hb
      rw [he]
      exact ht s t _ h1 (ih (i+1) (hq s t h1 hs))

theorem Moves.loopFrom (hr : ∀ s,R s s) (ht : ∀ a b c,R a b → R b c → R a c)
    {body : Nat → Prog σ ε Unit} (h : ∀ j,Moves R (body j)) (i n : Nat) :
    Moves R (loopFrom body i n) := fun _ =>
  Moves.loopFrom_within (Q := fun _ => True) hr ht (fun _ _ _ _ => trivial)
    (fun j s _ => h j s) i n trivial

end Rules

/-- A finished loop carries an invariant indexed by the turn from its start to its end. -/
theorem loopFrom_ok {body : Nat → Prog σ ε Unit} {I : Nat → σ → Prop} (i n : Nat)
    (hstep : ∀ j s t,i≤j → j < i+n → I j s → body j s=(.ok (),t) → I (j+1) t) (hs : I i s)
    (h : loopFrom body i n s=(.ok (),t)) : I (i+n) t := by
  induction n generalizing i s with
  | zero =>
    cases h
    exact hs
  | succ n ih =>
    obtain ⟨_,u,hb,hrest⟩ := bind_eq_ok.mp h
    have hu := hstep i s u le_rfl (by omega) hs hb
    have hn := ih (i+1) (fun j s t hl hu => hstep j s t (by omega) (by omega)) hu hrest
    have he : i+1+n=i+(n+1) := by omega
    exact he ▸ hn

/-- A failing loop stops in the turn that failed, with the invariant up to there. -/
theorem loopFrom_error {body : Nat → Prog σ ε Unit} {I : Nat → σ → Prop} (i n : Nat)
    (hstep : ∀ j s t,i≤j → j < i+n → I j s → body j s=(.ok (),t) → I (j+1) t) (hs : I i s)
    (h : loopFrom body i n s=(.error e,t)) :
    ∃ j u,i≤j ∧ j < i+n ∧ I j u ∧ body j u=(.error e,t) := by
  induction n generalizing i s with
  | zero => cases h
  | succ n ih =>
    rcases bind_eq_error.mp h with hb|⟨_,u,hb,hrest⟩
    · exact ⟨i,s,le_rfl,by omega,hs,hb⟩
    · have hu := hstep i s u le_rfl (by omega) hs hb
      obtain ⟨j,v,hl,hlt,hi,hj⟩ :=
        ih (i+1) (fun j s t hl hu => hstep j s t (by omega) (by omega)) hu hrest
      exact ⟨j,v,by omega,by omega,hi,hj⟩

end Prog

end Kobox
