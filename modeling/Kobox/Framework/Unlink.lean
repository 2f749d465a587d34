import Mathlib.Tactic

namespace Kobox

open List

/-! Linked lists from which the first element that meets a test is taken. -/

section

variable {α : Type} {p q : α → Bool} {as : List α} {a : α}

theorem unlink_split (h : as.find? p=some a) :
    ∃ bs cs,as=bs++a::cs ∧ as.eraseP p=bs++cs ∧ p a=true ∧ ∀ b∈bs,p b=false := by
  obtain ⟨hp,bs,cs,has,hno⟩ := find?_eq_some_iff_append.mp h
  have hno' : ∀ b∈bs,p b=false := fun b hb => by simpa using hno b hb
  refine ⟨bs,cs,has,?_,hp,hno'⟩
  rw [has,eraseP_append_right _ (by simpa using hno'),eraseP_cons_of_pos hp]

theorem unlink_perm (h : as.find? p=some a) : as.Perm (a::as.eraseP p) := by
  obtain ⟨bs,cs,has,herase,-⟩ := unlink_split h
  rw [herase]
  nth_rewrite 1 [has]
  exact perm_middle

theorem unlink_none (h : as.find? p=none) : as.eraseP p=as :=
  eraseP_of_forall_not (by simpa using find?_eq_none.mp h)

/-- Where the first element that meets p meets q, which is stronger, both tests take it. -/
theorem eraseP_eq_of_find (hqp : ∀ a∈as,q a=true → p a=true)
    (hfind : ∀ a,as.find? p=some a → q a=true) : as.eraseP p=as.eraseP q := by
  induction as with
  | nil => rfl
  | cons a as ih =>
    by_cases hp : p a=true
    · have hq : q a=true := hfind a (by simp [hp])
      rw [eraseP_cons_of_pos hp,eraseP_cons_of_pos hq]
    · have hq : ¬q a=true := fun h => hp (hqp a mem_cons_self h)
      rw [eraseP_cons_of_neg hp,eraseP_cons_of_neg hq, ih (fun b hb => hqp b (mem_cons_of_mem _ hb))
          fun b hb => hfind b (by simpa [hp] using hb)]

end

/-- One element is replaced: its own part changes, the rest stays. -/
theorem flatMap_set_perm {α β : Type} (f : α → List β) {as : List α} {i : Nat} {a : α}
    (h : as[i]?=some a) :
    ∃ rest,(as.flatMap f).Perm (f a++rest) ∧ ∀ b,((as.set i b).flatMap f).Perm (f b++rest) := by
  induction as generalizing i with
  | nil => simp at h
  | cons c as ih =>
    cases i with
    | zero =>
      obtain rfl : c=a := by simpa using h
      exact ⟨as.flatMap f,by simp,by simp⟩
    | succ i =>
      obtain ⟨rest,hold,hnew⟩ := ih (by simpa using h)
      have hswap : ∀ xs,(f c++(xs++rest)).Perm (xs++(f c++rest)) := fun xs => by
        have h : (f c++xs).Perm (xs++f c) := perm_append_comm
        simpa using h.append_right rest
      refine ⟨f c++rest,?_,fun b => ?_⟩
      · simpa using (hold.append_left (f c)).trans (hswap (f a))
      · simpa using ((hnew b).append_left (f c)).trans (hswap (f b))

end Kobox
