import Kobox.Framework.Prog

namespace Kobox

/-! Code that does not depend on a part of the state, and runs in states that differ only there. -/

variable {σ ε α β : Type} {erase : σ → σ}

/-- f does not look at what is erased. -/
def Blind (erase : σ → σ) (f : σ → σ) : Prop := ∀ s,erase (f (erase s))=erase (f s)

variable {f : σ → σ}

theorem Blind.congr (hf : Blind erase f) {s t : σ} (h : erase s=erase t) :
    erase (f s)=erase (f t) := by
  rw [← hf s,h,hf t]

theorem Blind.comp {g : σ → σ} (hg : Blind erase g) (hf : Blind erase f) :
    Blind erase fun s => g (f s) := fun s => hg.congr (hf s)

theorem Blind.ite {c : σ → Prop} [DecidablePred c] {g : σ → σ} (hc : ∀ s,c (erase s) ↔ c s)
    (hf : Blind erase f) (hg : Blind erase g) : Blind erase fun s => if c s then f s else g s := by
  intro s
  dsimp only
  by_cases h : c s
  · rw [if_pos h,if_pos ((hc s).mpr h)]
    exact hf s
  · rw [if_neg h,if_neg fun he => h ((hc s).mp he)]
    exact hg s

theorem Blind.foldl {f : σ → α → σ} (hf : ∀ a,Blind erase fun s => f s a) (as : List α) {s t : σ}
    (h : erase s=erase t) : erase (as.foldl f s)=erase (as.foldl f t) := by
  induction as generalizing s t with
  | nil => exact h
  | cons a as ih => exact ih ((hf a).congr h)

theorem Blind.of_hidden (hidem : ∀ s,erase (erase s)=erase s) (h : ∀ s,erase (f s)=erase s) :
    Blind erase f := fun s => by rw [h,h,hidem]

namespace Prog

/-- Neither the outcome nor the rest of the state depends on what is erased. -/
def Blind (erase : σ → σ) (x : Prog σ ε α) : Prop :=
  ∀ s,(x (erase s)).1=(x s).1 ∧ erase (x (erase s)).2=erase (x s).2

variable {x : Prog σ ε α}

theorem Blind.congr (hx : Blind erase x) {s t : σ} (h : erase s=erase t) :
    (x s).1=(x t).1 ∧ erase (x s).2=erase (x t).2 := by
  rw [← (hx s).1,← (hx s).2,h,(hx t).1,(hx t).2]
  exact ⟨rfl,rfl⟩

section

variable (hidem : ∀ s,erase (erase s)=erase s)

include hidem

theorem Blind.still {r : Except ε α} (h : ∀ s,x s=(r,s)) : Blind erase x := by
  intro s
  rw [h,h]
  exact ⟨rfl,hidem s⟩

theorem Blind.pure (a : α) : Blind erase (pure a : Prog σ ε α) := Blind.still hidem fun _ => rfl

theorem Blind.fail (e : ε) : Blind erase (fail e : Prog σ ε α) := Blind.still hidem fun _ => rfl

end

theorem Blind.modify {f : σ → σ} (hf : Kobox.Blind erase f) :
    Blind erase (modify f : Prog σ ε Unit) := fun s => ⟨rfl,hf s⟩

theorem Blind.bind {f : α → Prog σ ε β} (hx : Blind erase x) (hf : ∀ a,Blind erase (f a)) :
    Blind erase (x >>= f) := by
  intro s
  obtain ⟨h1,h2⟩ := hx s
  rcases he : x (erase s) with ⟨r,t⟩
  rcases hs : x s with ⟨q,u⟩
  rw [he,hs] at h1 h2
  obtain rfl : r=q := h1
  cases r with
  | error e =>
    rw [bind_error he,bind_error hs]
    exact ⟨rfl,h2⟩
  | ok a =>
    rw [bind_ok he,bind_ok hs]
    exact (hf a).congr h2

theorem Blind.get_bind {f : σ → Prog σ ε β} (hsame : ∀ s,f (erase s)=f s)
    (hf : ∀ s,Blind erase (f s)) : Blind erase (Prog.get >>= f) := by
  intro s
  change (f (erase s) (erase s)).1=(f s s).1 ∧ erase (f (erase s) (erase s)).2=erase (f s s).2
  rw [hsame s]
  exact hf s s

end Prog

end Kobox
