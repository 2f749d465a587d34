import Mathlib.Tactic

namespace Kobox

/-- First of the slots i,…,i+n-1 that passes the test. -/
def firstSlot (p : Nat → Bool) (i : Nat) : Nat → Option Nat
  | 0 => none
  | n+1 => if p i then some i else firstSlot p (i+1) n

variable {p : Nat → Bool}

theorem firstSlot_some {i n k : Nat} (h : firstSlot p i n=some k) :
    i≤k ∧ k < i+n ∧ p k=true ∧ ∀ j,i≤j → j<k → p j=false := by
  induction n generalizing i with
  | zero => cases h
  | succ n ih =>
    rw [firstSlot] at h
    split at h
    · next hp =>
      cases h
      exact ⟨le_rfl,by omega,hp,fun j hl hu => by omega⟩
    next hp =>
    obtain ⟨hl,hu,hk,hlt⟩ := ih h
    refine ⟨by omega,by omega,hk,?_⟩
    intro j hj hjk
    by_cases he : j=i
    · simpa [he] using hp
    · exact hlt j (by omega) hjk

theorem firstSlot_none {i n : Nat} : firstSlot p i n=none ↔ ∀ j,i≤j → j < i+n → p j=false := by
  induction n generalizing i with
  | zero =>
    simp only [firstSlot,true_iff]
    intro j hl hu
    omega
  | succ n ih =>
    rw [firstSlot]
    split
    · next hp =>
      simp only [reduceCtorEq,false_iff]
      intro hall
      have hi := hall i le_rfl (by omega)
      rw [hp] at hi
      cases hi
    · next hp =>
      rw [ih]
      constructor
      · intro hall j hl hu
        by_cases he : j=i
        · simpa [he] using hp
        · exact hall j (by omega) (by omega)
      · intro hall j hl hu
        exact hall j (by omega) (by omega)

theorem firstSlot_isSome {i n k : Nat} (hl : i≤k) (hu : k < i+n) (hk : p k=true) :
    ∃ j,firstSlot p i n=some j := by
  cases h : firstSlot p i n with
  | some j => exact ⟨j,rfl⟩
  | none =>
    have hf := firstSlot_none.mp h k hl hu
    rw [hk] at hf
    cases hf

/-- A loop over different slots, with an invariant that knows the slots behind it. -/
theorem foldl_visited {α β : Type} {P : List α → β → Prop} {f : β → α → β} {b : β} {n : Nat}
    (hstep : ∀ visited i b,i∉visited → visited.length<n → P visited b → P (visited++[i]) (f b i))
    (h0 : P [] b) {slots : List α} (hn : slots.Nodup) (hlen : slots.length≤n) :
    P slots (slots.foldl f b) := by
  induction slots using List.reverseRecOn with
  | nil => exact h0
  | append_singleton l i ih =>
    obtain ⟨hl,-,hd⟩ := List.nodup_append.mp hn
    have hlt : l.length<n := by simpa using hlen
    rw [List.foldl_append]
    exact hstep l i _ (fun hi => hd i hi i (List.mem_singleton_self i) rfl) hlt (ih hl hlt.le)

end Kobox
