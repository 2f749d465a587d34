import Kobox.Work.Runs

namespace Kobox.Work

open List Function DeferredItem Deferred

/-- The deferred items and the link words of the timers, which modules test as `timer_pending`. -/
structure TimerLinks where
  state : Deferred
  link : Nat → Bool

/-- `kb_init_timer_key` leaves the link word as the timer's memory has it. -/
inductive TimerMove
  | setup (timer : Nat) (word : Bool)
  | move (m : WorkMove)

def writeLink (timer : Nat) (value : Bool) (link : Nat → Bool) : Nat → Bool :=
  if timer=0 then link else update link timer value

def written (link : Nat → Bool) : WorkMove → Nat → Bool
  | .modTimer timer _ _ | .addTimer timer _ _ => writeLink timer true link
  | .timerDelete timer => writeLink timer false link
  | _ => link

def TimerLinks.step (s : TimerLinks) : TimerMove → TimerLinks
  | .setup timer word => {s with link := writeLink timer word s.link}
  | .move m => ⟨s.state.step m,if s.state.frames.head?=some .body then written s.link m else s.link⟩

/-- A link word is set exactly if its timer is queued. -/
def Linked (link : Nat → Bool) (s : Deferred) : Prop :=
  ∀ timer,timer≠0 → (link timer=true ↔ s.Holds .timer timer)

/-- There is an item for a timer that is not queued. -/
def Armable (s : Deferred) : WorkMove → Prop
  | .modTimer timer _ room | .addTimer timer _ room =>
    room=true ∨ s.free≠[] ∨ s.Holds .timer timer
  | _ => True

/-- Timers are set up in memory with the right word, arming them gets an item, and no loop takes
one. -/
def Unfired (s : TimerLinks) : TimerMove → Prop
  | .setup timer word => word=true ↔ s.state.Holds .timer timer
  | .move m => WithinWalk s.state m ∧ Armable s.state m ∧
      ∀ item∈nextItem s.state m,item.kind≠.timer

instance (s : Deferred) (kind : DeferredKind) (object : Nat) : Decidable (s.Holds kind object) :=
  inferInstanceAs (Decidable (∃ item∈_,_))

instance (s : TimerLinks) (m : TimerMove) : Decidable (Unfired s m) := by
  cases m with
  | setup timer word => exact inferInstanceAs (Decidable (_ ↔ _))
  | move m =>
    apply @WorkMove.casesOn (fun m => Decidable (Unfired s (.move m))) m <;> intros <;>
      dsimp only [Unfired,Armable] <;> infer_instance

section

variable {s t : Deferred} {link : Nat → Bool}

theorem Linked.same (hx : Linked link s) (h : ∀ timer,t.Holds .timer timer ↔ s.Holds .timer timer) :
    Linked link t := fun timer h0 => (hx timer h0).trans (h timer).symm

theorem Linked.write (hx : Linked link s) {timer : Nat} {value : Bool}
    (hnew : timer≠0 → (value=true ↔ t.Holds .timer timer))
    (hother : ∀ other,other≠timer → (t.Holds .timer other ↔ s.Holds .timer other)) :
    Linked (writeLink timer value link) t := by
  intro other h0
  unfold writeLink
  by_cases he : other=timer
  · subst he
    rw [if_neg h0,update_self]
    exact hnew h0
  · rw [hother other he,← hx other h0]
    split
    · rfl
    · rw [update_of_ne he]

variable (h : s.list.length≤deferredListWalkLimit)

include h

theorem addTimer_linked (hx : Linked link s) {timer expires : Nat} {room : Bool}
    (hr : room=true ∨ s.free≠[] ∨ s.Holds .timer timer) :
    Linked (writeLink timer true link) (s.addTimer timer expires room) := by
  unfold addTimer
  rcases queue_cases h .timer timer 0 (jiffiesToNs expires) room with ⟨he,hc⟩ | ⟨t,he,ha⟩ <;> rw [he]
  · refine hx.write (fun h0 => iff_of_true rfl ?_) fun _ _ => Iff.rfl
    rcases hc with h1 | hfound | ⟨hroom,hfree⟩
    · exact absurd h1 h0
    · exact hfound
    · simpa [hroom,hfree] using hr
  · refine hx.write (fun _ => iff_of_true rfl ((ha.holds .timer timer).mpr (.inr ⟨rfl,rfl⟩))) ?_
    exact fun other hne => (ha.holds .timer other).trans (by simp [Ne.symm hne])

/-- Whether the item is there or not, both calls leave the same timers queued. -/
theorem modTimer_holds (timer expires : Nat) (room : Bool) (kind : DeferredKind) (object : Nat) :
    (s.modTimer timer expires room).Holds kind object ↔
      (s.addTimer timer expires room).Holds kind object := by
  unfold modTimer addTimer
  rw [find_within h]
  cases hf : s.list.find? (is .timer timer) with
  | none => rfl
  | some item =>
    have hrefused : (s.queue .timer timer 0 (jiffiesToNs expires) room).2=s := by
      rw [Deferred.queue,contains_within h,hf]
      split <;> rfl
    rw [hrefused]
    simp [Holds,redue_same]

variable (hok : WorkOk s)

include hok

theorem Turn.timer {rest : List Frame} {P : DeferredItem → Prop} (hturn : Turn s rest P t)
    (hrest : running rest=running s.frames) (hp : ∀ item,P item → item.kind≠.timer) (timer : Nat) :
    t.Holds .timer timer ↔ s.Holds .timer timer := by
  rcases hturn.moved hok h hrest with ⟨hl,-⟩ | ⟨item,list,hi,hperm,⟨hl,-⟩ | ⟨hl,-⟩⟩
  · simp [Holds,hl]
  · simp [Holds,hl,hperm.mem_iff]
  · simp [Holds,hl,hperm.mem_iff,hp item hi]

theorem bodyStep_linked (hx : Linked link s) {m : WorkMove} (hm : Armable s m)
    (hnext : ∀ item∈nextItem s m,item.kind≠.timer) : Linked (written link m) (s.bodyStep m) := by
  have hqueue : ∀ {u : Deferred} {workqueue work due : Nat} {room : Bool},
      u.list.length≤deferredListWalkLimit → BitsOk u → (∀ timer,u.Holds .timer timer ↔ s.Holds .timer timer) →
      Linked link (queueWork workqueue work due room u).2 := by
    intro u workqueue work due room hu hb hsame
    obtain ⟨-,p,he | ⟨t,he,ha⟩⟩ := queueWork_cases hb hu workqueue work due room <;> rw [he]
    · exact hx.same hsame
    · exact hx.same fun timer => (ha.holds .timer timer).trans (by simpa [Holds] using hsame timer)
  have hremove := fun kind object => remove_holds h kind object .timer
  have hcleared : ∀ work,((s.remove .work work).2.clearPending work).list=(s.remove .work work).2.list := by
    intro work
    unfold clearPending
    split <;> rfl
  have hcancel : ∀ work timer,
      ((s.remove .work work).2.clearPending work).Holds .timer timer ↔ s.Holds .timer timer := by
    intro work timer
    rw [Holds,hcleared]
    exact (hremove .work work timer).trans (by simp)
  cases m with
  | queueWork workqueue work room => exact hqueue h hok.bits fun _ => Iff.rfl
  | queueDelayedWork workqueue work delay now room => exact hqueue h hok.bits fun _ => Iff.rfl
  | modDelayedWork workqueue work delay now room =>
    refine hqueue ?_ (removed_bits hok.bits h) (hcancel work)
    rw [hcleared,remove_spec h]
    exact (length_filter_le _ _).trans h
  | cancelWork work => exact hx.same (hcancel work)
  | taskletSchedule tasklet room =>
    simp only [bodyStep,taskletSchedule]
    rcases queue_cases h .tasklet tasklet 0 0 room with ⟨he,-⟩ | ⟨t,he,ha⟩ <;> rw [he]
    · exact hx
    · exact hx.same fun timer => (ha.holds .timer timer).trans (by simp)
  | modTimer timer expires room =>
    exact (addTimer_linked h hx hm).same (modTimer_holds h timer expires room .timer)
  | addTimer timer expires room => exact addTimer_linked h hx hm
  | timerDelete timer =>
    refine hx.write (fun _ => iff_of_false Bool.false_ne_true fun hc => ?_) fun other hne => ?_
    · exact ((hremove .timer timer timer).mp hc).2 ⟨rfl,rfl⟩
    · exact (hremove .timer timer other).trans (by simp [Ne.symm hne])
  | flushWork work requireDue now i =>
    exact hx.same ((flushWork_turn).timer h hok rfl fun item hi => hnext item hi.1)
  | flushWorkqueue workqueue | runDeferred includeWork =>
    simp only [bodyStep,enter]
    split <;> exact hx
  | _ => exact hx

end

theorem step_linked {s : TimerLinks} {m : TimerMove} (hok : WorkOk s.state)
    (hx : Linked s.link s.state) (h : Unfired s m) : Linked (s.step m).link (s.step m).state := by
  cases m with
  | setup timer word => exact hx.write (fun _ => h) fun _ _ => Iff.rfl
  | move m =>
    obtain ⟨hwalk,harm,hnext⟩ := h
    have hs := step_stepped s.state m
    simp only [TimerLinks.step]
    generalize s.state.step m=t at hs ⊢
    cases hs with
    | none hf =>
      rw [if_neg hf]
      exact hx
    | body hf =>
      rw [if_pos hf]
      exact bodyStep_linked hwalk hok hx harm hnext
    | returns hf hm =>
      rw [hm,if_pos (by rw [hf]; rfl)]
      refine hx.same fun timer => ?_
      unfold returnStep
      split <;> rfl
    | turn hf _ ht =>
      rw [if_neg (by simp [hf])]
      exact hx.same (ht.timer hwalk hok (by rw [hf]; rfl) fun item hi => hnext item hi.1)

/-- The link words are right in every run in which no timer fires. -/
theorem timer_pending_exact (usable : Nat → Bool) (moves : List TimerMove)
    (h : Meets TimerLinks.step Unfired ⟨start usable,fun _ => false⟩ moves) (n : Nat) :
    let s := runAll TimerLinks.step ⟨start usable,fun _ => false⟩ (moves.take n)
    Linked s.link s.state := by
  have hstep : ∀ (s : TimerLinks) m,WorkOk s.state ∧ Linked s.link s.state → Unfired s m →
      WorkOk (s.step m).state ∧ Linked (s.step m).link (s.step m).state := by
    intro s m hs hm
    refine ⟨?_,step_linked hs.1 hs.2 hm⟩
    cases m with
    | setup timer word => exact hs.1
    | move m => exact step_ok hs.1 hm.1
  refine (runAll_invariant hstep ⟨start_ok usable,fun timer _ => ?_⟩ (h.take n)).2
  simp [start,Holds]

/-- A timer is armed twice, the second time without memory to be had, and deleted. -/
def armMoves : List TimerMove :=
  [.setup 5 false,.move (.addTimer 5 7 true),.move (.modTimer 5 8 false),.move (.timerDelete 5)]

theorem timer_pending_exact_armMoves :
    (runAll TimerLinks.step ⟨start fun _ => true,fun _ => false⟩ (armMoves.take 3)).link 5=true ∧
      ∀ n,let s := runAll TimerLinks.step ⟨start fun _ => true,fun _ => false⟩ (armMoves.take n)
        Linked s.link s.state :=
  ⟨by decide +kernel,fun n => timer_pending_exact (fun _ => true) armMoves (by decide +kernel) n⟩

/-- A timer has fired and its link word is still set. -/
theorem fired_timer_pending :
    let s := runAll TimerLinks.step ⟨start fun _ => true,fun _ => false⟩
      [.setup 5 false,.move (.addTimer 5 0 true),.move (.runDeferred true),
        .move (.turn 0 ⟨true,false,false,true,true⟩),.move (.returns false)]
    s.link 5=true ∧ ¬s.state.Holds .timer 5 := by
  decide +kernel

end Kobox.Work
