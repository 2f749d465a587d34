import Kobox.Framework.Run

namespace Kobox.Sync

open List

/-- What `kb_complete_all` stores: UINT32_MAX/2. -/
def completeAllDone : Nat := (2^32-1)/2

/-- Before the next look, between it and the store of the lower count, or back at the caller. -/
inductive WaitPhase
  | polling
  | taking (seen : Nat)
  | returned (value : Nat)
  deriving DecidableEq

def WaitPhase.isTaking : WaitPhase → Bool
  | .taking _ => true
  | _ => false

/-- A call of `kb_wait_for_completion` or, with a timeout, the other; round counts its looks. -/
structure Waiter where
  timeout : Option Nat
  round : Nat
  phase : WaitPhase
  deriving DecidableEq

def Waiter.loops (w : Waiter) : Nat :=
  match w.timeout with
  | none => 10000
  | some timeout => if timeout=0 then 20 else if 10000<timeout then 10000 else timeout

def Waiter.success (w : Waiter) : Nat :=
  match w.timeout with
  | none => 1
  | some timeout => if timeout=0 then 1 else timeout-w.round

/-- The word and the waits; since it was initialised, complete calls, waits satisfied,
complete_all. -/
structure Completion where
  done : Nat
  waiters : List Waiter
  completes : Nat
  satisfied : Nat
  all : Bool
  deriving DecidableEq

def freshCompletion : Completion := ⟨0,[],0,0,false⟩

/-- The steps of callers: each touches the word at most once. -/
inductive SyncStep
  | complete
  | completeAll
  | init
  | startWait (timeout : Option Nat)
  | look (waiter : Nat)
  | store (waiter : Nat)
  deriving DecidableEq

/-- One look: the loop goes on while the counter is 0 and gives up at its end. -/
def Waiter.look (w : Waiter) (done : Nat) : Waiter :=
  if done≠0 then {w with phase := .taking done}
  else if w.round+1<w.loops then {w with round := w.round+1}
  else {w with round := w.round+1,phase := .returned 0}

def syncStep (s : Completion) : SyncStep → Completion
  | .complete => {s with done := 1,completes := s.completes+1}
  | .completeAll => {s with done := completeAllDone,all := true}
  | .init => {s with done := 0,completes := 0,satisfied := 0,all := false}
  | .startWait timeout => {s with waiters := s.waiters++[⟨timeout,0,.polling⟩]}
  | .look i =>
    match s.waiters[i]? with
    | some w =>
      if w.phase=.polling then {s with waiters := s.waiters.set i (w.look s.done)} else s
    | none => s
  | .store i =>
    match s.waiters[i]? with
    | some w =>
      match w.phase with
      | .taking seen =>
        {s with
          done := seen-1,satisfied := s.satisfied+1,
          waiters := s.waiters.set i {w with phase := .returned w.success}}
      | _ => s
    | none => s

/-- A look succeeds if fewer waits were satisfied than complete calls made, or after complete_all. -/
structure Counts (s : Completion) : Prop where
  ready : s.done≠0 ↔ s.all=true ∨ s.satisfied<s.completes
  bounded : s.all=false → s.satisfied ≤ s.completes

def Completion.settled (s : Completion) : Bool := s.waiters.all fun w => !w.phase.isTaking

/-- Looks and stores are not torn apart, complete comes when nothing is left, complete_all is not
used up. -/
def Paired (s : Completion) : SyncStep → Prop
  | .complete => s.settled=true ∧ s.done=0
  | .store _ => s.all=true → s.done≠1
  | _ => s.settled=true

instance (s : Completion) (a : SyncStep) : Decidable (Paired s a) := by
  cases a <;> (simp only [Paired]; infer_instance)

structure Tally (s : Completion) : Prop where
  law : s.all=false → s.done+s.satisfied=s.completes
  low : s.all=false → s.done≤1
  left : s.all=true → s.done≠0
  seen : ∀ w∈s.waiters,∀ v,w.phase=.taking v → v=s.done ∧ v≠0
  one : ∀ (i j : Nat) (w x : Waiter),s.waiters[i]?=some w → s.waiters[j]?=some x → w.phase.isTaking=true →
    x.phase.isTaking=true → i=j

variable {s : Completion}

theorem Tally.counts (h : Tally s) : Counts s where
  ready := by
    cases hall : s.all with
    | true => simp [h.left hall]
    | false =>
      have := h.law hall
      simp only [Bool.false_eq_true,false_or]
      omega
  bounded := by
    intro hall
    have := h.law hall
    omega

theorem fresh_tally : Tally freshCompletion where
  law := by simp [freshCompletion]
  low := by simp [freshCompletion]
  left := by simp [freshCompletion]
  seen := by simp [freshCompletion]
  one := by simp [freshCompletion]

theorem settled_iff : s.settled=true ↔ ∀ w∈s.waiters,w.phase.isTaking=false := by
  simp [Completion.settled]

theorem settled_not_taking (h : s.settled=true) {w : Waiter} (hw : w∈s.waiters) {v : Nat} :
    w.phase≠.taking v := by
  intro hp
  have := settled_iff.mp h w hw
  rw [hp] at this
  cases this

theorem Tally.rewrite (h : Tally s) (hq : s.settled=true) {done c n : Nat} {all : Bool}
    (hlaw : all=false → done+n=c) (hlow : all=false → done≤1) (hleft : all=true → done≠0) :
    Tally {s with done := done,completes := c,satisfied := n,all := all} where
  law := hlaw
  low := hlow
  left := hleft
  seen := fun _ hw _ hp => absurd hp (settled_not_taking hq hw)
  one := h.one

theorem mem_set_cases {w x : Waiter} {ws : List Waiter} {i : Nat} (h : x∈ws.set i w) :
    x=w ∨ x∈ws := by
  rcases mem_or_eq_of_mem_set h with hx | hx
  · exact Or.inr hx
  · exact Or.inl hx

theorem look_tally (h : Tally s) {i : Nat} (hq : s.settled=true) :
    Tally (syncStep s (.look i)) := by
  simp only [syncStep]
  split
  swap
  · exact h
  next w hw =>
  split
  swap
  · exact h
  refine ⟨h.law,h.low,h.left,?_,?_⟩
  · intro x hx v hp
    rcases mem_set_cases hx with rfl | hx
    · simp only [Waiter.look] at hp
      split at hp
      · next hne =>
        cases hp
        exact ⟨rfl,hne⟩
      · split at hp
        · exact absurd hp (settled_not_taking hq (mem_of_getElem? hw))
        · cases hp
    · exact absurd hp (settled_not_taking hq hx)
  · have honly : ∀ (k : Nat) (x : Waiter),(s.waiters.set i (w.look s.done))[k]?=some x → x.phase.isTaking=true →
        k=i := by
      intro k x hk ht
      by_contra hne
      rw [getElem?_set_ne (Ne.symm hne)] at hk
      have := settled_iff.mp hq x (mem_of_getElem? hk)
      rw [ht] at this
      cases this
    intro k j x y hk hj hx hy
    rw [honly k x hk hx,honly j y hj hy]

theorem store_tally (h : Tally s) {i : Nat} (hok : s.all=true → s.done≠1) :
    Tally (syncStep s (.store i)) := by
  simp only [syncStep]
  split
  swap
  · exact h
  next w hw =>
  split
  swap
  · exact h
  next v hp =>
  obtain ⟨rfl,hne⟩ := h.seen w (mem_of_getElem? hw) v hp
  have hnone : ∀ (k : Nat) (x : Waiter),(s.waiters.set i {w with phase := .returned w.success})[k]?=some x →
      x.phase.isTaking=false := by
    intro k x hk
    by_cases hki : k=i
    · subst hki
      rw [getElem?_set_self (List.getElem?_eq_some_iff.mp hw).1] at hk
      cases hk
      rfl
    · rw [getElem?_set_ne (Ne.symm hki)] at hk
      by_contra ht
      exact hki (h.one k i x w hk hw (by simpa using ht) (by rw [hp]; rfl))
  refine ⟨?_,?_,?_,?_,?_⟩
  · intro hall
    have := h.law hall
    simp only
    omega
  · intro hall
    have := h.low hall
    simp only
    omega
  · intro hall
    have := hok hall
    simp only
    omega
  · intro x hx u hu
    obtain ⟨k,hk⟩ := getElem?_of_mem hx
    have := hnone k x hk
    rw [hu] at this
    cases this
  · intro k j x y hk hj hx _
    rw [hnone k x hk] at hx
    cases hx

theorem syncStep_tally (h : Tally s) {a : SyncStep} (hok : Paired s a) : Tally (syncStep s a) := by
  cases a with
  | complete =>
    obtain ⟨hq,hz⟩ := hok
    have hall : s.all=false := by
      by_contra hne
      exact h.left (by simpa using hne) hz
    refine h.rewrite hq ?_ (fun _ => le_rfl) (by simp)
    have := h.law hall
    omega
  | completeAll => exact h.rewrite hok (by simp) (by simp) (fun _ => by decide)
  | init => exact h.rewrite hok (fun _ => rfl) (by simp) (by simp)
  | startWait timeout =>
    refine ⟨h.law,h.low,h.left,?_,?_⟩
    · intro w hw v hp
      rcases mem_append.mp hw with hw | hw
      · exact h.seen w hw v hp
      · rw [mem_singleton.mp hw] at hp
        cases hp
    · intro i j w x hi hj hw _
      have hmem := mem_of_getElem? hi
      rcases mem_append.mp hmem with hmem | hmem
      · rw [settled_iff.mp hok w hmem] at hw
        cases hw
      · rw [mem_singleton.mp hmem] at hw
        cases hw
  | look i => exact look_tally h hok
  | store i => exact store_tally h hok

/-- If calls do not overlap and complete is called once a wait, both are counted off against each
other; after complete_all every look succeeds. -/
theorem completions_count (steps : List SyncStep)
    (h : Meets syncStep Paired freshCompletion steps) (n : Nat) :
    Counts (runAll syncStep freshCompletion (steps.take n)) := by
  have hstep : ∀ s a,Tally s → Paired s a → Tally (syncStep s a) :=
    fun s a hs hok => syncStep_tally hs hok
  exact (runAll_invariant hstep fresh_tally (h.take n)).counts

def handOffs : List SyncStep :=
  [.startWait none,.look 0,.complete,.look 0,.store 0,.complete,.startWait (some 3),.look 1,.store 1,
    .completeAll,.startWait none,.look 2,.store 2,.init]

theorem completions_count_hand_offs : Meets syncStep Paired freshCompletion handOffs ∧
      Counts (runAll syncStep freshCompletion (handOffs.take 9)) :=
  ⟨by decide +kernel,completions_count handOffs (by decide +kernel) 9⟩

/-- Two complete calls satisfy one wait; one after complete_all takes its grants away. -/
theorem second_complete_lost :
    let s := runAll syncStep freshCompletion
      [.complete,.complete,.startWait none,.look 0,.store 0,.startWait none]
    let t := runAll syncStep freshCompletion
      [.completeAll,.complete,.startWait none,.look 0,.store 0,.startWait none]
    s.completes=2 ∧ s.satisfied=1 ∧ s.done=0 ∧ ¬Counts s ∧ t.all=true ∧ t.done=0 ∧ ¬Counts t := by
  refine ⟨by decide +kernel,by decide +kernel,by decide +kernel,?_,by decide +kernel,
    by decide +kernel,?_⟩
  · intro h
    have hready := h.ready
    revert hready
    decide +kernel
  · intro h
    have hready := h.ready
    revert hready
    decide +kernel

end Kobox.Sync
