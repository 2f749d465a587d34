import Mathlib.Tactic

namespace Kobox

open List

/-- A ring whose producer and consumer share no counter: a bit of each cell tells the laps apart. -/
structure PhaseRing (α : Type) where
  depth : Nat
  cells : Nat → α × Bool
  head : Nat
  phase : Bool
  tail : Nat
  tailPhase : Bool

/-- The next position; behind the last cell the lap changes. -/
def ringNext (depth i : Nat) (phase : Bool) : Nat × Bool :=
  if i+1=depth then (0,!phase) else (i+1,phase)

/-- The bit of the cells written at a position counted without wrapping. -/
def ringLap (depth i : Nat) : Bool := i/depth%2==0

namespace PhaseRing

variable {α : Type}

def visible (r : PhaseRing α) : Bool := (r.cells r.head).2==r.phase

def front (r : PhaseRing α) : α := (r.cells r.head).1

def post (r : PhaseRing α) (a : α) : PhaseRing α :=
  let next := ringNext r.depth r.tail r.tailPhase
  { r with cells := Function.update r.cells r.tail (a,r.tailPhase)
           tail := next.1
           tailPhase := next.2 }

def consume (r : PhaseRing α) : PhaseRing α :=
  let next := ringNext r.depth r.head r.phase
  { r with head := next.1
           phase := next.2 }

/-- The cells from the head on hold these values, and no others look new. -/
structure Holds (r : PhaseRing α) (n : Nat) (q : List α) : Prop where
  head : r.head=n%r.depth
  phase : r.phase=ringLap r.depth n
  tail : r.tail=(n+q.length)%r.depth
  tailPhase : r.tailPhase=ringLap r.depth (n+q.length)
  fits : q.length ≤ r.depth
  new : ∀ i a,q[i]?=some a → r.cells ((n+i)%r.depth)=(a,ringLap r.depth (n+i))
  old : ∀ i,q.length ≤ i → i < r.depth → (r.cells ((n+i)%r.depth)).2≠ringLap r.depth (n+i)

end PhaseRing

theorem ringNext_lap {depth : Nat} (hd : 0<depth) (i : Nat) :
    ringNext depth (i%depth) (ringLap depth i)=((i+1)%depth,ringLap depth (i+1)) := by
  have hlt := Nat.mod_lt i hd
  have hdiv := Nat.div_add_mod i depth
  by_cases hlast : i%depth+1=depth
  · have hsucc : i+1=depth*(i/depth+1) := by
      rw [Nat.mul_add]
      omega
    have hmod : (i+1)%depth=0 := by rw [hsucc,Nat.mul_mod_right]
    have hquot : (i+1)/depth=i/depth+1 := by rw [hsucc,Nat.mul_div_cancel_left _ hd]
    simp only [ringNext,ringLap,if_pos hlast,hmod,hquot]
    rcases Nat.mod_two_eq_zero_or_one (i/depth) with h|h <;> simp [Nat.add_mod,h]
  · have hquot : (i+1)/depth=i/depth := by
      rw [Nat.div_eq_of_lt_le]
      · rw [Nat.mul_comm]; omega
      · rw [Nat.add_mul,Nat.mul_comm]; omega
    have hmod : (i+1)%depth=i%depth+1 := by
      have h := Nat.div_add_mod (i+1) depth
      rw [hquot] at h
      omega
    simp [ringNext,ringLap,if_neg hlast,hmod,hquot]

theorem ringLap_add {depth : Nat} (hd : 0<depth) (i : Nat) :
    ringLap depth (i+depth)≠ringLap depth i := by
  simp only [ringLap,Nat.add_div_right _ hd]
  rcases Nat.mod_two_eq_zero_or_one (i/depth) with h|h <;> simp [Nat.add_mod,h]

theorem ring_apart {depth n i j : Nat} (hi : i<depth) (hj : j<depth)
    (h : (n+i)%depth=(n+j)%depth) : i=j := by
  have hij : i%depth=j%depth := Nat.ModEq.add_left_cancel' n h
  rwa [Nat.mod_eq_of_lt hi,Nat.mod_eq_of_lt hj] at hij

namespace PhaseRing

variable {α : Type} {r : PhaseRing α} {n : Nat} {q : List α}

theorem Holds.empty {r : PhaseRing α} (hh : r.head=0) (hp : r.phase=true) (ht : r.tail=0)
    (htp : r.tailPhase=true) (hc : ∀ i,(r.cells i).2=false) : r.Holds 0 [] where
  head := by simp [hh]
  phase := by simp [hp,ringLap]
  tail := by simp [ht]
  tailPhase := by simp [htp,ringLap]
  fits := Nat.zero_le _
  new i a h := by simp at h
  old i _ hi := by
    simp [hc,ringLap,Nat.div_eq_of_lt hi]

theorem Holds.visible_iff (h : r.Holds n q) (hd : 0 < r.depth) : r.visible=true ↔ q≠[] := by
  cases q with
  | nil =>
    have hold := h.old 0 le_rfl hd
    simp only [Nat.add_zero] at hold
    simp [visible,h.head,h.phase,hold]
  | cons a q =>
    have hnew := h.new 0 a rfl
    simp only [Nat.add_zero] at hnew
    simp [visible,h.head,h.phase,hnew]

theorem Holds.front {a : α} (h : r.Holds n (a::q)) : r.front=a := by
  have hnew := h.new 0 a rfl
  simp only [Nat.add_zero] at hnew
  simp [PhaseRing.front,h.head,hnew]

theorem Holds.post (h : r.Holds n q) (hlt : q.length < r.depth) (a : α) :
    (r.post a).Holds n (q++[a]) := by
  have hd : 0 < r.depth := by omega
  have hnext := ringNext_lap hd (n+q.length)
  rw [← h.tail,← h.tailPhase] at hnext
  constructor
  · exact h.head
  · exact h.phase
  · simp only [PhaseRing.post,hnext,length_append]
    rfl
  · simp only [PhaseRing.post,hnext,length_append]
    rfl
  · simpa [PhaseRing.post] using hlt
  · intro i b hi
    simp only [PhaseRing.post,h.tail,h.tailPhase]
    rcases Nat.lt_or_ge i q.length with hlti|hge
    · rw [getElem?_append_left hlti] at hi
      have hne : (n+i)%r.depth≠(n+q.length)%r.depth := fun he => by
        have := ring_apart (by omega) hlt he
        omega
      rw [Function.update_of_ne hne]
      exact h.new i b hi
    · have hi' : i=q.length := by
        by_contra hne
        have : q.length+1 ≤ i := by omega
        rw [getElem?_eq_none (by simpa using this)] at hi
        cases hi
      subst hi'
      simp at hi
      simp [hi]
  · intro i hge hlt'
    simp only [length_append,length_singleton] at hge
    simp only [PhaseRing.post,h.tail] at hlt' ⊢
    have hne : (n+i)%r.depth≠(n+q.length)%r.depth := fun he => by
      have := ring_apart hlt' hlt he
      omega
    rw [Function.update_of_ne hne]
    exact h.old i (by omega) hlt'

theorem Holds.consume {a : α} (h : r.Holds n (a::q)) : r.consume.Holds (n+1) q := by
  have hfits := h.fits
  simp only [length_cons] at hfits
  have hd : 0 < r.depth := by omega
  have hnext := ringNext_lap hd n
  rw [← h.head,← h.phase] at hnext
  have hcells : r.consume.cells=r.cells := rfl
  have hdepth : r.consume.depth=r.depth := rfl
  constructor
  · simp [PhaseRing.consume,hnext]
  · simp [PhaseRing.consume,hnext]
  · have := h.tail
    rw [show n+1+q.length=n+(q.length+1) by omega]
    exact this
  · have := h.tailPhase
    rw [show n+1+q.length=n+(q.length+1) by omega]
    exact this
  · omega
  · intro i b hi
    have := h.new (i+1) b (by simpa using hi)
    rw [show n+1+i=n+(i+1) by omega]
    exact this
  · intro i hge hlt
    rw [hcells,hdepth]
    by_cases hlast : i+1 < r.depth
    · have := h.old (i+1) (by simpa using hge) hlast
      rw [show n+1+i=n+(i+1) by omega]
      exact this
    · have he : n+1+i=n+r.depth := by omega
      have hnew := h.new 0 a rfl
      simp only [Nat.add_zero] at hnew
      rw [he,Nat.add_mod_right,hnew]
      exact (ringLap_add hd n).symm

end PhaseRing

end Kobox
