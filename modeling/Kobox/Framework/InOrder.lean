import Mathlib.Tactic

namespace Kobox

open List

section

variable {α σ : Type} (perform : α → σ → Int × σ)

/-- Performs a list one after another and stops at the first that fails. -/
def inOrder : List α → σ → Int × σ
  | [],s => (0,s)
  | a::as,s => if (perform a s).1=0 then inOrder as (perform a s).2 else perform a s

variable {perform} {a : α} {as bs : List α} {s : σ}

theorem inOrder_cons_ok (h : (perform a s).1=0) :
    inOrder perform (a::as) s=inOrder perform as (perform a s).2 := by
  simp [inOrder,h]

theorem inOrder_cons_fail (h : (perform a s).1≠0) : inOrder perform (a::as) s=perform a s := by
  simp [inOrder,h]

theorem inOrder_append_ok (h : (inOrder perform as s).1=0) :
    inOrder perform (as++bs) s=inOrder perform bs (inOrder perform as s).2 := by
  induction as generalizing s with
  | nil => rfl
  | cons a as ih =>
    by_cases ha : (perform a s).1=0
    · rw [inOrder_cons_ok ha] at h ⊢
      rw [cons_append,inOrder_cons_ok ha]
      exact ih h
    · rw [inOrder_cons_fail ha] at h
      exact absurd h ha

theorem inOrder_append_fail (h : (inOrder perform as s).1≠0) :
    inOrder perform (as++bs) s=inOrder perform as s := by
  induction as generalizing s with
  | nil => exact absurd rfl h
  | cons a as ih =>
    by_cases ha : (perform a s).1=0
    · rw [inOrder_cons_ok ha] at h ⊢
      rw [cons_append,inOrder_cons_ok ha]
      exact ih h
    · rw [cons_append,inOrder_cons_fail ha,inOrder_cons_fail ha]

end

/-- Two ways to perform a list that answer alike, in states that one relation keeps together. -/
theorem inOrder_simulates {α σ τ : Type} {p : α → σ → Int × σ} {q : α → τ → Int × τ}
    {R : σ → τ → Prop} {as : List α}
    (hstep : ∀ a∈as,∀ s t,R s t → (p a s).1=(q a t).1 ∧ R (p a s).2 (q a t).2) {s : σ} {t : τ}
    (h : R s t) : (inOrder p as s).1=(inOrder q as t).1 ∧
      R (inOrder p as s).2 (inOrder q as t).2 := by
  induction as generalizing s t with
  | nil => exact ⟨rfl,h⟩
  | cons a as ih =>
    obtain ⟨hcode,hkept⟩ := hstep a mem_cons_self s t h
    by_cases ha : (p a s).1=0
    · rw [inOrder_cons_ok ha,inOrder_cons_ok (hcode ▸ ha)]
      exact ih (fun b hb => hstep b (mem_cons_of_mem _ hb)) hkept
    · rw [inOrder_cons_fail ha,inOrder_cons_fail (hcode ▸ ha)]
      exact ⟨hcode,hkept⟩

end Kobox
