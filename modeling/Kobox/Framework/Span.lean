import Mathlib.Tactic

namespace Kobox

/-- A half-open range of addresses. -/
structure Span where
  start : Nat
  size : Nat
  deriving DecidableEq

namespace Span

def stop (a : Span) : Nat := a.start+a.size

/-- The two ranges have no address in common, whatever their sizes. -/
def Apart (a b : Span) : Prop := a.stop≤b.start ∨ b.stop≤a.start

def Within (a b : Span) : Prop := b.start≤a.start ∧ a.stop≤b.stop

instance (a b : Span) : Decidable (a.Apart b) := inferInstanceAs (Decidable (_ ∨ _))

variable {a b c : Span}

theorem Apart.symm (h : a.Apart b) : b.Apart a := Or.symm h

theorem Apart.within (h : b.Apart c) (hw : a.Within b) : a.Apart c := by
  rcases h with h | h
  · exact Or.inl (hw.2.trans h)
  · exact Or.inr (h.trans hw.1)

end Span

end Kobox
