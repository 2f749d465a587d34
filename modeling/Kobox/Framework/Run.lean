import Mathlib.Tactic

namespace Kobox

/-- Runs of a machine that reads one command at a time. -/
def runAll {σ ι : Type} (step : σ → ι → σ) : σ → List ι → σ
  | s,[] => s
  | s,a::as => runAll step (step s a) as

/-- Every command of the run is issued in a state where it is allowed. -/
def Meets {σ ι : Type} (step : σ → ι → σ) (ok : σ → ι → Prop) : σ → List ι → Prop
  | _,[] => True
  | s,a::as => ok s a ∧ Meets step ok (step s a) as

variable {σ ι : Type} {step : σ → ι → σ}

@[simp] theorem runAll_nil (s : σ) : runAll step s []=s := rfl
@[simp] theorem runAll_cons (s : σ) (a : ι) (as : List ι) :
    runAll step s (a::as)=runAll step (step s a) as := rfl

theorem runAll_append (s : σ) (as bs : List ι) :
    runAll step s (as++bs)=runAll step (runAll step s as) bs := by
  induction as generalizing s with
  | nil => rfl
  | cons a as ih => exact ih (step s a)

instance Meets.decidable {ok : σ → ι → Prop} [∀ s a,Decidable (ok s a)] :
    (s : σ) → (as : List ι) → Decidable (Meets step ok s as)
  | _,[] => isTrue trivial
  | s,a::as => @instDecidableAnd _ _ _ (Meets.decidable (step s a) as)

variable {ok : σ → ι → Prop} {s : σ} {as : List ι}

theorem Meets.take (h : Meets step ok s as) (k : Nat) : Meets step ok s (as.take k) := by
  induction as generalizing s k with
  | nil => simpa using h
  | cons a as ih =>
    cases k with
    | zero => trivial
    | succ k => exact ⟨h.1,ih h.2 k⟩

theorem Meets.get (h : Meets step ok s as) {n : Nat} {a : ι} (ha : as[n]?=some a) :
    ok (runAll step s (as.take n)) a := by
  induction as generalizing s n with
  | nil => simp at ha
  | cons b as ih =>
    cases n with
    | zero =>
      obtain rfl : b=a := by simpa using ha
      exact h.1
    | succ n => exact ih h.2 (by simpa using ha)

/-- What the start state has and every allowed command keeps, the end state has. -/
theorem runAll_invariant {I : σ → Prop} (hstep : ∀ s a,I s → ok s a → I (step s a)) (hs : I s)
    (h : Meets step ok s as) : I (runAll step s as) := by
  induction as generalizing s with
  | nil => exact hs
  | cons a as ih => exact ih (hstep s a hs h.1) h.2

theorem runAll_keeps {I : σ → Prop} (hstep : ∀ s a,I s → I (step s a)) (hs : I s) :
    I (runAll step s as) := by
  induction as generalizing s with
  | nil => exact hs
  | cons a as ih => exact ih (hstep s a hs)

end Kobox
