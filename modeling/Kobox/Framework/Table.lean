import Mathlib.Tactic

namespace Kobox

open List Function

variable {α : Type} (p : α → Bool) (key : α → Nat)

def slotCount (t : Nat → α) (n : Nat) : Nat := (List.range n).countP fun i => p (t i)

def anySlot (t : Nat → α) (n : Nat) : Bool := (List.range n).any fun i => p (t i)

/-- One turn of the search for the entry with the least key; the first of them wins. -/
def lesserSlot (t : Nat → α) (best : Option Nat) (i : Nat) : Option Nat :=
  if !p (t i) then best
  else
    match best with
    | none => some i
    | some j => if key (t i)<key (t j) then some i else some j

/-- The entry with the least key among the first n that pass a test. -/
def leastSlot (t : Nat → α) (n : Nat) : Option Nat := (List.range n).foldl (lesserSlot p key t) none

variable {p key} {t : Nat → α} {n : Nat}

theorem slotCount_zero (h : ∀ i<n,p (t i)=false) : slotCount p t n=0 := by
  unfold slotCount
  rw [countP_eq_zero]
  intro i hi
  simp [h i (mem_range.mp hi)]

theorem slotCount_update {i : Nat} (hi : i<n) (a : α) :
    slotCount p (update t i a) n+(if p (t i) then 1 else 0)=
      slotCount p t n+(if p a then 1 else 0) := by
  unfold slotCount
  induction n with
  | zero => cases hi
  | succ n ih =>
    rw [range_succ,countP_append,countP_append]
    by_cases he : i=n
    · subst he
      have hsame : (range i).countP (fun j => p (update t i a j))=
          (range i).countP fun j => p (t j) := by
        apply countP_congr
        intro j hj
        have hne : j≠i := (mem_range.mp hj).ne
        simp [hne]
      simp [countP_cons]
      omega
    · have hne : n≠i := fun h => he h.symm
      simp only [countP_cons,countP_nil,update_of_ne hne]
      omega

theorem slotCount_le : slotCount p t n≤n := by
  have h := countP_le_length (p := fun i => p (t i)) (l := range n)
  rw [length_range] at h
  exact h

theorem slotCount_congr {u : Nat → α} (h : ∀ i<n,p (u i)=p (t i)) :
    slotCount p u n=slotCount p t n := by
  apply countP_congr
  intro i hi
  simp [h i (mem_range.mp hi)]

theorem anySlot_iff : anySlot p t n=true ↔ ∃ i<n,p (t i)=true := by
  simp [anySlot]

theorem find?_range_some {q : Nat → Bool} {n i : Nat} (h : (range n).find? q=some i) :
    i<n ∧ q i=true :=
  ⟨mem_range.mp (mem_of_find?_eq_some h),find?_some h⟩

theorem find?_range_none {q : Nat → Bool} {n : Nat} (h : (range n).find? q=none) {i : Nat}
    (hi : i<n) : q i=false := by
  rw [find?_eq_none] at h
  simpa using h i (mem_range.mpr hi)

theorem leastSlot_spec (p : α → Bool) (key : α → Nat) (t : Nat → α) (n : Nat) :
    (∀ i,leastSlot p key t n=some i → i<n ∧ p (t i)=true ∧
      ∀ j<n,p (t j)=true → key (t i)≤key (t j)) ∧
    (leastSlot p key t n=none → ∀ j<n,p (t j)=false) := by
  unfold leastSlot
  induction n with
  | zero =>
    refine ⟨?_,fun _ j hj => absurd hj (Nat.not_lt_zero j)⟩
    rintro i ⟨⟩
  | succ n ih =>
    rw [range_succ,foldl_append,foldl_cons,foldl_nil]
    obtain ⟨h1,h2⟩ := ih
    have hpick : ∀ b<n+1,p (t b)=true → (∀ j<n,p (t j)=true → key (t b)≤key (t j)) →
        (p (t n)=true → key (t b)≤key (t n)) → ∀ i,some b=some i → i<n+1 ∧ p (t i)=true ∧
          ∀ j<n+1,p (t j)=true → key (t i)≤key (t j) := by
      rintro b hb hpb hless hlast _ ⟨⟩
      refine ⟨hb,hpb,fun j hj hpj => ?_⟩
      rcases Nat.lt_succ_iff_lt_or_eq.mp hj with h|rfl
      · exact hless j h hpj
      · exact hlast hpj
    generalize (range n).foldl (lesserSlot p key t) none=best at h1 h2
    cases hp : p (t n) with
    | false =>
      have he : lesserSlot p key t best n=best := by simp [lesserSlot,hp]
      rw [he]
      refine ⟨fun i hi => ?_,fun hn j hj => ?_⟩
      · obtain ⟨ha,hb,hc⟩ := h1 i hi
        exact hpick i (by omega) hb hc (by simp [hp]) i rfl
      · rcases Nat.lt_succ_iff_lt_or_eq.mp hj with h|rfl
        · exact h2 hn j h
        · exact hp
    | true =>
      cases best with
      | none =>
        have he : lesserSlot p key t none n=some n := by simp [lesserSlot,hp]
        rw [he]
        refine ⟨hpick n (by omega) hp (fun j h hpj => ?_) fun _ => le_rfl,nofun⟩
        rw [h2 rfl j h] at hpj
        cases hpj
      | some b =>
        obtain ⟨ha,hb,hc⟩ := h1 b rfl
        by_cases hlt : key (t n)<key (t b)
        · have he : lesserSlot p key t (some b) n=some n := by simp [lesserSlot,hp,hlt]
          rw [he]
          exact ⟨hpick n (by omega) hp (fun j h hpj => hlt.le.trans (hc j h hpj)) fun _ => le_rfl,
            nofun⟩
        · have he : lesserSlot p key t (some b) n=some b := by simp [lesserSlot,hp,hlt]
          rw [he]
          exact ⟨hpick b (by omega) hb hc fun _ => by omega,nofun⟩

theorem leastSlot_congr (p : α → Bool) (key : α → Nat) {t u : Nat → α} {n : Nat}
    (h : ∀ i<n,p (u i)=p (t i) ∧ (p (t i)=true → key (u i)=key (t i))) :
    leastSlot p key u n=leastSlot p key t n := by
  induction n with
  | zero => rfl
  | succ n ih =>
    have hsame := ih fun i hi => h i (by omega)
    have hspec := (leastSlot_spec p key t n).1
    unfold leastSlot at hsame hspec ⊢
    rw [range_succ,foldl_append,foldl_append,hsame]
    generalize (range n).foldl (lesserSlot p key t) none=best at hspec
    obtain ⟨hp,hk⟩ := h n (by omega)
    cases hpn : p (t n) with
    | false => simp [lesserSlot,hp,hpn]
    | true =>
      cases best with
      | none => simp [lesserSlot,hp,hpn]
      | some b =>
        -- the best entry so far is one that passes, so its key is the same in both tables
        obtain ⟨hb,hpb,-⟩ := hspec b rfl
        simp [lesserSlot,hp,hpn,hk hpn,(h b (by omega)).2 hpb]

end Kobox
