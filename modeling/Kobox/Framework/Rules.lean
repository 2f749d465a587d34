import Kobox.Framework.Blind
import Kobox.Framework.Throws

namespace Kobox.Prog

variable {σ ε : Type}

/-- A property of code that composes, for errors in E and reads of the state that do not see what is
erased. -/
structure Rules (erase : σ → σ) (E : ε → Prop) (P : ∀ {α : Type},Prog σ ε α → Prop) : Prop where
  pure : ∀ {α : Type} (a : α),P (pure a)
  fail : ∀ {α : Type} {e : ε},E e → P (Prog.fail e : Prog σ ε α)
  bind : ∀ {α β : Type} {x : Prog σ ε α} {f : α → Prog σ ε β},P x → (∀ a,P (f a)) → P (x >>= f)
  get : ∀ {β : Type} {f : σ → Prog σ ε β},(∀ s,f (erase s)=f s) → (∀ s,P (f s)) → P (Prog.get >>= f)

variable {erase : σ → σ} {E : ε → Prop}

theorem Moves.rules {R : σ → σ → Prop} (hr : ∀ s,R s s) (ht : ∀ a b c,R a b → R b c → R a c) :
    Rules erase E (Moves R) where
  pure := Moves.pure hr
  fail := fun _ => Moves.fail hr _
  bind := Moves.bind ht
  get := fun _ h s => h s s

theorem Blind.rules (hidem : ∀ s,erase (erase s)=erase s) : Rules erase E (Blind erase) where
  pure := Blind.pure hidem
  fail := fun _ => Blind.fail hidem _
  bind := Blind.bind
  get := Blind.get_bind

theorem Throws.rules {Q : ε → Prop} (h : ∀ e,E e → Q e) : Rules erase E (Throws Q) where
  pure := pure
  fail := fun he => fail (h _ he)
  bind := bind
  get := fun _ hf => bind get hf

variable {P : ∀ {α : Type},Prog σ ε α → Prop} (C : Rules erase E @P)

include C

theorem Rules.check {α β : Type} {x : Except ε α} {f : α → Prog σ ε β}
    (he : ∀ e,x=.error e → E e) (hf : ∀ a,x=.ok a → P (f a)) : P (ofExcept x >>= f) := by
  cases x with
  | error e => exact C.fail (he e rfl)
  | ok a => exact hf a rfl

theorem Rules.loopFrom {body : Nat → Prog σ ε Unit} (h : ∀ j,P (body j)) (i n : Nat) :
    P (loopFrom body i n) := by
  induction n generalizing i with
  | zero => exact C.pure ()
  | succ n ih => exact C.bind (h i) fun _ => ih (i+1)

end Kobox.Prog
