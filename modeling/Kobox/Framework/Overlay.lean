import Mathlib.Tactic

namespace Kobox

variable {α β : Type}

/-- Partial functions laid over a function one after another. -/
def overlay (ps : List (α → Option β)) (f : α → β) : α → β :=
  ps.foldl (fun g p a => (p a).getD (g a)) f

def lastOf (ps : List (α → Option β)) (a : α) : Option β := (ps.filterMap fun p => p a).getLast?

variable (f : α → β)

@[simp] theorem overlay_nil : overlay [] f=f := rfl

variable (p : α → Option β) (ps : List (α → Option β)) (a : α)

@[simp] theorem overlay_cons : overlay (p::ps) f=overlay ps fun a => (p a).getD (f a) := rfl

theorem overlay_append (qs : List (α → Option β)) (f : α → β) :
    overlay (ps++qs) f=overlay qs (overlay ps f) := by
  simp [overlay]

@[simp] theorem lastOf_nil : lastOf ([] : List (α → Option β)) a=none := rfl

theorem lastOf_append (qs : List (α → Option β)) (a : α) :
    lastOf (ps++qs) a=(lastOf qs a).or (lastOf ps a) := by
  simp [lastOf,List.getLast?_append]

@[simp] theorem lastOf_singleton : lastOf [p] a=p a := by
  cases hp : p a <;> simp [lastOf,hp]

theorem lastOf_cons : lastOf (p::ps) a=(lastOf ps a).or (p a) := by
  rw [← List.singleton_append,lastOf_append,lastOf_singleton]

variable {a : α} {ps : List (α → Option β)}

theorem lastOf_eq_none : lastOf ps a=none ↔ ∀ p∈ps,p a=none := by
  simp [lastOf]

/-- Laying over is a matter of the last value alone. -/
theorem overlay_apply (a : α) : overlay ps f a=(lastOf ps a).getD (f a) := by
  induction ps generalizing f with
  | nil => rfl
  | cons p ps ih =>
    rw [overlay_cons,ih,lastOf_cons]
    cases lastOf ps a <;> rfl

/-- No two of them say different things about an argument. -/
def AgreeAt (ps : List (α → Option β)) (a : α) : Prop :=
  ∀ p∈ps,∀ p'∈ps,∀ v v',p a=some v → p' a=some v' → v=v'

theorem lastOf_mem {v : β} (h : lastOf ps a=some v) : ∃ p∈ps,p a=some v := by
  have hv := List.mem_of_getLast? h
  simpa using hv

theorem AgreeAt.lastOf_eq (h : AgreeAt ps a) {p : α → Option β} {v : β} (hp : p∈ps)
    (hv : p a=some v) : lastOf ps a=some v := by
  cases hlast : lastOf ps a with
  | none => rw [lastOf_eq_none.mp hlast p hp] at hv; cases hv
  | some w =>
    obtain ⟨q,hq,hw⟩ := lastOf_mem hlast
    rw [h q hq p hp w v hw hv]

theorem AgreeAt.lastOf_perm {qs : List (α → Option β)} (h : AgreeAt qs a) (hperm : ps.Perm qs) :
    lastOf ps a=lastOf qs a := by
  cases hlast : lastOf ps a with
  | none =>
    have hnone := lastOf_eq_none.mp hlast
    exact (lastOf_eq_none.mpr fun p hp => hnone p (hperm.mem_iff.mpr hp)).symm
  | some v =>
    obtain ⟨p,hp,hv⟩ := lastOf_mem hlast
    exact (h.lastOf_eq (hperm.mem_iff.mp hp) hv).symm

/-- Groups of which the last one to say anything about an argument is of one mind. -/
def SettledAt (a : α) : List (List (α → Option β)) → Prop
  | [] => True
  | g::gs => SettledAt a gs ∧ (lastOf gs.flatten a=none → AgreeAt g a)

theorem SettledAt.lastOf_flatten {gs xss : List (List (α → Option β))} (h : SettledAt a gs)
    (hperm : List.Forall₂ List.Perm xss gs) : lastOf xss.flatten a=lastOf gs.flatten a := by
  induction hperm with
  | nil => rfl
  | cons hx _ ih =>
    obtain ⟨hrest,hagree⟩ := h
    have hsame := ih hrest
    simp only [List.flatten_cons,lastOf_append,hsame]
    cases hlast : lastOf _ a with
    | some v => rfl
    | none => rw [(hagree hlast).lastOf_perm hx]

theorem not_settledAt {gs : List (List (α → Option β))} (h : ¬SettledAt a gs) :
    ∃ front g rest,gs=front++g::rest ∧ lastOf rest.flatten a=none ∧
      ∃ p∈g,∃ v,p a=some v ∧ lastOf g a≠some v := by
  induction gs with
  | nil => exact absurd trivial h
  | cons g gs ih =>
    by_cases hrest : SettledAt a gs
    · have hdiffer : lastOf gs.flatten a=none ∧ ¬AgreeAt g a := by
        by_contra hcon
        refine h ⟨hrest,fun hnone => ?_⟩
        by_contra hne
        exact hcon ⟨hnone,hne⟩
      refine ⟨[],g,gs,rfl,hdiffer.1,?_⟩
      by_contra hall
      refine hdiffer.2 fun p hp p' hp' v v' hv hv' => ?_
      have hp1 : lastOf g a=some v := by
        by_contra hne
        exact hall ⟨p,hp,v,hv,hne⟩
      have hp2 : lastOf g a=some v' := by
        by_contra hne
        exact hall ⟨p',hp',v',hv',hne⟩
      rw [hp1] at hp2
      exact Option.some.inj hp2
    · obtain ⟨front,g',rest,rfl,hlast,hp⟩ := ih hrest
      exact ⟨g::front,g',rest,rfl,hlast,hp⟩

end Kobox
