import Mathlib.Tactic

namespace Kobox

/-- A result together with the events its computation produced, in order. -/
structure Traced (ε : Type) (α : Type) where
  val : α
  log : List ε

namespace Traced

variable {ε α β : Type}

instance : Monad (Traced ε) where
  pure a := ⟨a,[]⟩
  bind x f := ⟨(f x.val).val,x.log++(f x.val).log⟩

def emit (e : ε) (a : α) : Traced ε α := ⟨a,[e]⟩

@[simp] theorem val_pure (a : α) : (pure a : Traced ε α).val=a := rfl
@[simp] theorem val_bind (x : Traced ε α) (f : α → Traced ε β) : (x >>= f).val=(f x.val).val := rfl
@[simp] theorem val_emit (e : ε) (a : α) : (emit e a).val=a := rfl

/-- Every event of the computation satisfies P. -/
def All (P : ε → Prop) (x : Traced ε α) : Prop := ∀ e∈x.log,P e

@[simp] theorem all_pure (P : ε → Prop) (a : α) : All P (pure a : Traced ε α) := by
  intro e he
  cases he

variable {P : ε → Prop}

@[simp] theorem all_emit {e : ε} (a : α) : All P (emit e a) ↔ P e := by
  simp [All,emit]

@[simp] theorem all_bind {x : Traced ε α} {f : α → Traced ε β} :
    All P (x >>= f) ↔ All P x ∧ All P (f x.val) := List.forall_mem_append

@[simp] theorem all_ite {c : Prop} [Decidable c] {x y : Traced ε α} :
    All P (if c then x else y) ↔ (c → All P x) ∧ (¬c → All P y) := by
  split <;> simp [*]

@[simp] theorem val_ite {c : Prop} [Decidable c] (x y : Traced ε α) :
    (if c then x else y).val=if c then x.val else y.val := apply_ite ..

end Traced

@[simp] theorem ite_error_eq_ok {ε α : Type} {c : Prop} [Decidable c] {e : ε} {x : Except ε α}
    {a : α} : (if c then .error e else x)=.ok a ↔ ¬c ∧ x=.ok a := by
  split <;> simp [*]

end Kobox
