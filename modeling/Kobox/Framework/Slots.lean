import Mathlib.Tactic

namespace Kobox

/-! Tables of slots that are in use or not. -/

variable {α : Type}

/-- What the slots in use hold, in order. -/
def inUse (slots : List (Option α)) : List α := slots.reduceOption

/-- The first slot that is not in use is taken. -/
def claimSlot (a : α) : List (Option α) → Option (List (Option α))
  | [] => none
  | none::slots => some (some a::slots)
  | some b::slots => (claimSlot a slots).map (some b::·)

/-- The first slot in use that meets a test is changed, or given up. -/
def changeSlot (p : α → Bool) (f : α → Option α) : List (Option α) → List (Option α)
  | [] => []
  | none::slots => none::changeSlot p f slots
  | some a::slots => if p a then f a::slots else some a::changeSlot p f slots

@[simp] theorem inUse_nil : inUse ([] : List (Option α))=[] := rfl
@[simp] theorem inUse_none (slots : List (Option α)) : inUse (none::slots)=inUse slots := rfl
@[simp] theorem inUse_some (a : α) (slots : List (Option α)) :
    inUse (some a::slots)=a::inUse slots := rfl

theorem inUse_cons (o : Option α) (slots : List (Option α)) :
    inUse (o::slots)=o.toList++inUse slots := by
  cases o <;> simp

@[simp] theorem inUse_replicate {n : Nat} : inUse (List.replicate n (none : Option α))=[] := by
  induction n with
  | zero => rfl
  | succ n ih => simpa [List.replicate_succ] using ih

theorem claimSlot_perm {a : α} {slots taken : List (Option α)} (h : claimSlot a slots=some taken) :
    (inUse taken).Perm (a::inUse slots) := by
  induction slots generalizing taken with
  | nil => cases h
  | cons o slots ih =>
    cases o with
    | none =>
      obtain rfl : some a::slots=taken := by simpa [claimSlot] using h
      simp
    | some b =>
      obtain ⟨rest,hrest,rfl⟩ := Option.map_eq_some_iff.mp h
      exact ((ih hrest).cons b).trans (List.Perm.swap a b _)

theorem changeSlot_perm {p : α → Bool} {a : α} {slots : List (Option α)}
    (h : (inUse slots).find? p=some a) :
    ∃ rest,(inUse slots).Perm (a::rest) ∧
      ∀ f,(inUse (changeSlot p f slots)).Perm ((f a).toList++rest) := by
  induction slots with
  | nil => simp at h
  | cons o slots ih =>
    cases o with
    | none => simpa [changeSlot] using ih (by simpa using h)
    | some b =>
      by_cases hb : p b=true
      · obtain rfl : b=a := by simpa [hb] using h
        refine ⟨inUse slots,by simp,fun f => ?_⟩
        simp [changeSlot,hb,inUse_cons]
      obtain ⟨rest,hold,hnew⟩ := ih (by simpa [hb] using h)
      refine ⟨b::rest,?_,fun f => ?_⟩
      · exact (hold.cons b).trans (List.Perm.swap a b rest)
      · rw [changeSlot,if_neg hb,inUse_some]
        exact ((hnew f).cons b).trans List.perm_middle.symm

end Kobox
