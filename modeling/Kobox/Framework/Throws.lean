import Kobox.Framework.Prog

namespace Kobox.Prog

variable {σ ε α β : Type} {P : ε → Prop}

/-- Every error that the code returns satisfies P. -/
structure Throws (P : ε → Prop) (x : Prog σ ε α) : Prop where
  error : ∀ s e t,x s=(.error e,t) → P e

theorem Throws.total {x : Prog σ ε α} (h : ∀ s,∃ a t,x s=(.ok a,t)) : Throws P x := by
  constructor
  intro s e t he
  obtain ⟨a,u,hu⟩ := h s
  rw [hu] at he
  cases he

theorem Throws.pure (a : α) : Throws P (pure a : Prog σ ε α) := Throws.total fun s => ⟨a,s,rfl⟩

theorem Throws.get : Throws P (Prog.get : Prog σ ε σ) := Throws.total fun s => ⟨s,s,rfl⟩

theorem Throws.modify (f : σ → σ) : Throws P (Prog.modify f : Prog σ ε Unit) :=
  Throws.total fun s => ⟨(),f s,rfl⟩

theorem Throws.fail {e : ε} (he : P e) : Throws P (Prog.fail e : Prog σ ε α) := by
  constructor
  intro s d t h
  cases h
  exact he

theorem Throws.bind {x : Prog σ ε α} {f : α → Prog σ ε β} (hx : Throws P x)
    (hf : ∀ a,Throws P (f a)) : Throws P (x >>= f) := by
  constructor
  intro s e t h
  rcases bind_eq_error.mp h with hb|⟨a,u,_,hb⟩
  · exact hx.error s e t hb
  · exact (hf a).error u e t hb

end Kobox.Prog
