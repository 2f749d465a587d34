import Kobox.Work.Runs

namespace Kobox.Work

open List Function DeferredItem Deferred

/-- `elapsed_jiffies` at a time since the start, and Linux's `time_after_eq`. -/
def elapsedJiffies (now : Nat) : Nat := now*linuxHz%wordSize/nsecPerSec

def timeAfterEq (a b : Nat) : Prop := (a+wordSize-b)%wordSize<2^63

/-- What a call asks for: the expiry of a timer in jiffies, the time when a delay has elapsed. -/
def goal : WorkMove → Nat
  | .queueDelayedWork _ _ delay now _ | .modDelayedWork _ _ delay now _ =>
    if delay=0 then 0 else now+delay*(nsecPerSec/linuxHz)
  | .modTimer _ expires _ | .addTimer _ expires _ => expires
  | _ => 0

def armed (s : Deferred) : WorkMove → Nat
  | .modTimer timer _ _ => ((s.list.find? (is .timer timer)).map token).getD s.queued
  | _ => s.queued

/-- The deferred items, and by its token what was asked for each. -/
structure Promised where
  state : Deferred
  goals : Nat → Nat

def Promised.step (w : Promised) (m : WorkMove) : Promised :=
  ⟨w.state.step m,
    if w.state.frames.head?=some .body then update w.goals (armed w.state m) (goal m) else w.goals⟩

def clock : WorkMove → Nat
  | .turn now _ | .flushWork _ _ now _ => now
  | _ => 0

def RunsItem (s : Deferred) (m : WorkMove) (item : DeferredItem) : Prop :=
  .ran item∈(s.step m).gone ∧ .ran item∉s.gone

def Reached (goals : Nat → Nat) (now : Nat) (item : DeferredItem) : Prop :=
  if item.kind=.timer then timeAfterEq (elapsedJiffies now) (goals item.token)
  else goals item.token≤now

def flushes (s : Deferred) : WorkMove → Bool
  | .flushWork _ requireDue _ _ => !requireDue
  | .turn _ _ =>
    match s.frames with
    | .loop (.flushQueue _ _ _)::_ => true
    | _ => false
  | _ => false

/-- Times stay within 64 bits when converted. -/
def Converts : WorkMove → Prop
  | .queueDelayedWork _ _ delay now _ | .modDelayedWork _ _ delay now _ =>
    delay*nsecPerSec<wordSize ∧ now+delay*(nsecPerSec/linuxHz)<wordSize
  | .modTimer _ expires _ | .addTimer _ expires _ => expires*nsecPerSec<wordSize
  | _ => True

/-- Times can be converted, and a flush takes nothing before it is due. -/
def InTime (w : Promised) (m : WorkMove) : Prop :=
  WithinWalk w.state m ∧ Converts m ∧ clock m*linuxHz<wordSize ∧
    (flushes w.state m=true → ∀ item∈nextItem w.state m,item.due ≤ clock m)

instance (s : Deferred) (m : WorkMove) (item : DeferredItem) : Decidable (RunsItem s m item) :=
  inferInstanceAs (Decidable (_ ∧ _))

instance (w : Promised) (m : WorkMove) : Decidable (InTime w m) := by
  cases m <;> dsimp only [InTime,Converts] <;> infer_instance

instance (goals : Nat → Nat) (now : Nat) (item : DeferredItem) : Decidable (Reached goals now item) := by
  unfold Reached timeAfterEq
  infer_instance

/-- An item is not due before what was asked for it. -/
def Keeps (goal : Nat) (item : DeferredItem) : Prop :=
  (if item.kind=.timer then goal*(nsecPerSec/linuxHz) else goal) ≤ item.due

theorem Keeps.reached {goals : Nat → Nat} {now : Nat} {item : DeferredItem}
    (hk : Keeps (goals item.token) item) (hdue : item.due≤now) (hnow : now*linuxHz<wordSize) :
    Reached goals now item := by
  unfold Keeps at hk
  unfold Reached timeAfterEq elapsedJiffies
  rw [Nat.mod_eq_of_lt hnow]
  simp only [nsecPerSec,linuxHz,wordSize] at hk hnow ⊢
  split at hk
  · next hkind =>
    rw [if_pos hkind]
    omega
  · next hkind =>
    rw [if_neg hkind]
    omega

theorem jiffiesToNs_eq {j : Nat} (h : j*nsecPerSec<wordSize) : jiffiesToNs j=j*(nsecPerSec/linuxHz) := by
  rw [jiffiesToNs,Nat.mod_eq_of_lt h]
  simp only [nsecPerSec,linuxHz]
  omega

/-- The item is what the move takes, and due unless the move is a flush. -/
def TakesDue (s : Deferred) (m : WorkMove) (item : DeferredItem) : Prop :=
  item∈s.list ∧ nextItem s m=some item ∧ (flushes s m=false → item.due ≤ clock m)

/-- What a step can do: items stay or are armed by the call, and only what is due is run. -/
structure Arms (s : Deferred) (m : WorkMove) (t : Deferred) : Prop where
  items : ∀ item∈t.list,item∈s.list ∧ item.token≠armed s m ∨
    item.token=armed s m ∧ Keeps (goal m) item
  ran : ∀ item,.ran item∈t.gone → .ran item∈s.gone ∨ TakesDue s m item

section

variable {s t u : Deferred} {m : WorkMove} {kind : DeferredKind} {object due : Nat}

theorem Turn.ran {rest : List Frame} {P : DeferredItem → Prop} (ht : Turn s rest P t) (hok : WorkOk s)
    (h : s.list.length≤deferredListWalkLimit) (hrest : running rest=running s.frames) :
    (∀ item∈t.list,item∈s.list) ∧ ∀ item,.ran item∈t.gone → .ran item∈s.gone ∨ item∈s.list ∧ P item := by
  rcases ht.moved hok h hrest with ⟨hl,hg⟩ | ⟨item,list,hp,hperm,⟨hl,hg⟩ | ⟨hl,hg⟩⟩
  · simp +contextual [hl,hg]
  · simp +contextual [hl,hg,hperm.mem_iff]
  · simp +contextual [hl,hg,hperm.mem_iff,hp]

variable (hok : WorkOk s) (hnew : armed s m=s.queued)

include hok hnew

theorem arms_none (hlist : ∀ item∈t.list,item∈s.list)
    (hran : ∀ item,.ran item∈t.gone → .ran item∈s.gone ∨ TakesDue s m item) :
    Arms s m t := by
  refine ⟨fun item hi => .inl ⟨hlist item hi,?_⟩,hran⟩
  have hlt := hok.list.accounted.mem_iff.mp (mem_append_left _ (mem_map_of_mem (hlist item hi)))
  rw [mem_range] at hlt
  omega

theorem Appends.arms (ha : Appends kind object due u t) (hsub : ∀ item∈u.list,item∈s.list)
    (hqueued : u.queued=s.queued) (hgone : u.gone=s.gone)
    (hkeeps : (if kind=.timer then goal m*(nsecPerSec/linuxHz) else goal m) ≤ due) : Arms s m t := by
  have hold : Arms s m u := arms_none hok hnew hsub fun item hi => .inl (hgone ▸ hi)
  cases ha with
  | intro item _ _ _ hk _ ht hd =>
    refine ⟨fun i hi => ?_,hold.ran⟩
    rcases mem_append.mp hi with hi | hi
    · exact hold.items i hi
    · obtain rfl := mem_singleton.mp hi
      refine .inr ⟨ht.trans (hqueued.trans hnew.symm),?_⟩
      rwa [Keeps,hk,hd]

variable (h : s.list.length≤deferredListWalkLimit)

include h

theorem queue_arms (workqueue : Nat) (room : Bool)
    (hkeeps : (if kind=.timer then goal m*(nsecPerSec/linuxHz) else goal m) ≤ due) :
    Arms s m (s.queue kind object workqueue due room).2 := by
  rcases queue_cases h kind object workqueue due room with ⟨he,-⟩ | ⟨t,he,ha⟩ <;> rw [he]
  · exact arms_none hok hnew (fun _ hi => hi) fun _ hi => .inl hi
  · exact ha.arms hok hnew (fun _ hi => hi) rfl rfl hkeeps

omit h in
theorem queueWork_arms (hbits : BitsOk u) (hu : u.list.length≤deferredListWalkLimit)
    (hsub : ∀ item∈u.list,item∈s.list) (hqueued : u.queued=s.queued) (hgone : u.gone=s.gone)
    (workqueue work : Nat) (room : Bool) (hkeeps : goal m≤due) :
    Arms s m (queueWork workqueue work due room u).2 := by
  obtain ⟨-,p,he | ⟨t,he,ha⟩⟩ := queueWork_cases hbits hu workqueue work due room <;> rw [he]
  · exact arms_none hok hnew hsub fun _ hi => .inl (hgone ▸ hi)
  · exact ha.arms hok hnew hsub hqueued hgone hkeeps

end

section

variable {s t : Deferred} {m : WorkMove} {goals : Nat → Nat}

theorem Arms.keeps (ha : Arms s m t) (hk : ∀ item∈s.list,Keeps (goals item.token) item) :
    ∀ item∈t.list,Keeps (update goals (armed s m) (goal m) item.token) item := by
  intro item hi
  rcases ha.items item hi with ⟨hi,hne⟩ | ⟨he,hnew⟩
  · rw [update_of_ne hne]
    exact hk item hi
  · rwa [he,update_self]

theorem clearPending_frame (s : Deferred) (work : Nat) : (s.clearPending work).list=s.list ∧
    (s.clearPending work).queued=s.queued ∧ (s.clearPending work).gone=s.gone := by
  unfold clearPending
  split <;> exact ⟨rfl,rfl,rfl⟩

variable (hok : WorkOk s) (h : s.list.length≤deferredListWalkLimit)

include hok h

theorem modTimer_arms {timer expires : Nat} {room : Bool} (hc : expires*nsecPerSec<wordSize) :
    Arms s (.modTimer timer expires room) (s.modTimer timer expires room) := by
  unfold modTimer
  rw [find_within h]
  cases hf : s.list.find? (is .timer timer) with
  | none =>
    exact queue_arms hok (by simp [armed,hf]) h 0 room (jiffiesToNs_eq hc).ge
  | some found =>
    have hfound := mem_of_find?_eq_some hf
    have harm : armed s (.modTimer timer expires room)=found.token := by simp [armed,hf]
    have hrecords := (nodup_append.mp (hok.list.placed.nodup_iff.mpr nodup_range)).1
    have htokens := (nodup_append.mp (hok.list.accounted.nodup_iff.mpr nodup_range)).1
    refine ⟨fun item hi => ?_,fun item hi => .inl hi⟩
    obtain ⟨i,hin,rfl⟩ := mem_map.mp hi
    by_cases he : i=found
    · subst he
      rw [if_pos rfl]
      refine .inr ⟨harm.symm,?_⟩
      rw [Keeps,if_pos (is_iff.mp (find?_some hf)).1]
      exact (jiffiesToNs_eq hc).ge
    · rw [if_neg fun hr => he (inj_on_of_nodup_map hrecords hin hfound hr)]
      exact .inl ⟨hin,fun ht => he (inj_on_of_nodup_map htokens hin hfound (ht.trans harm))⟩

theorem bodyStep_arms (hc : Converts m) : Arms s m (s.bodyStep m) := by
  have hsame : armed s m=s.queued → Arms s m s := fun hnew =>
    arms_none hok hnew (fun _ hi => hi) fun _ hi => .inl hi
  have hremove : ∀ kind object,∀ item∈(s.remove kind object).2.list,item∈s.list := by
    intro kind object item hi
    rw [remove_spec h] at hi
    exact mem_of_mem_filter hi
  have hdelay : ∀ {delay now},
      delay*nsecPerSec<wordSize ∧ now+delay*(nsecPerSec/linuxHz)<wordSize →
      (if delay=0 then 0 else now+delay*(nsecPerSec/linuxHz)) ≤ delayedDue now delay := by
    rintro delay now ⟨h1,h2⟩
    rw [delayedDue,jiffiesToNs_eq h1,Nat.mod_eq_of_lt h2]
  cases m with
  | queueWork workqueue work room =>
    exact queueWork_arms hok rfl hok.bits h (fun _ hi => hi) rfl rfl workqueue work room le_rfl
  | queueDelayedWork workqueue work delay now room =>
    exact queueWork_arms hok rfl hok.bits h (fun _ hi => hi) rfl rfl workqueue work room (hdelay hc)
  | modDelayedWork workqueue work delay now room =>
    obtain ⟨hl,hq,hg⟩ := clearPending_frame (s.remove .work work).2 work
    have hlen : ((s.remove .work work).2.clearPending work).list.length≤deferredListWalkLimit := by
      rw [hl,remove_spec h]
      exact (length_filter_le _ _).trans h
    have hx : Arms s (.modDelayedWork workqueue work delay now room) _ :=
      queueWork_arms hok rfl (removed_bits hok.bits h) hlen (hl ▸ hremove .work work) hq hg
        workqueue work room (hdelay hc)
    refine ⟨hx.items,fun item hi => hx.ran item ?_⟩
    rcases mem_append.mp hi with hi | hi
    · obtain ⟨_,-,he⟩ := mem_map.mp hi
      split at he <;> cases he
    · exact hi
  | cancelWork work =>
    obtain ⟨hl,-⟩ := clearPending_frame (s.remove .work work).2 work
    exact arms_none hok rfl (hl ▸ hremove .work work) fun item hi =>
      .inl (by simpa [bodyStep,cancelWorkSync] using hi)
  | taskletSchedule tasklet room => exact queue_arms hok rfl h 0 room le_rfl
  | modTimer timer expires room => exact modTimer_arms hok h hc
  | addTimer timer expires room => exact queue_arms hok rfl h 0 room (jiffiesToNs_eq hc).ge
  | timerDelete timer =>
    exact arms_none hok rfl (hremove .timer timer) fun item hi =>
      .inl (by simpa [bodyStep,timerDelete] using hi)
  | flushWork work requireDue now i =>
    obtain ⟨hlist,hran⟩ := (flushWork_turn).ran hok h rfl
    refine arms_none hok rfl hlist fun item hi => (hran item hi).imp_right fun hi =>
      ⟨hi.1,hi.2.1,fun hf => ?_⟩
    exact hi.2.2 (by simpa [flushes] using hf)
  | flushWorkqueue workqueue | runDeferred includeWork =>
    simp only [bodyStep,enter]
    split <;> exact {hsame rfl with}
  | _ => exact {hsame rfl with}

end

/-- Every item keeps what was asked for it, and a step that is no flush runs only what is due. -/
theorem step_keeps {w : Promised} {m : WorkMove} (hok : WorkOk w.state)
    (hk : ∀ item∈w.state.list,Keeps (w.goals item.token) item) (h : WithinWalk w.state m)
    (hc : Converts m) : (∀ item∈(w.step m).state.list,Keeps ((w.step m).goals item.token) item) ∧
      ∀ item,.ran item∈(w.step m).state.gone → .ran item∈w.state.gone ∨ TakesDue w.state m item := by
  have hs := step_stepped w.state m
  simp only [Promised.step]
  generalize w.state.step m=t at hs ⊢
  cases hs with
  | none hf =>
    rw [if_neg hf]
    exact ⟨hk,fun _ hi => .inl hi⟩
  | body hf =>
    rw [if_pos hf]
    have ha := bodyStep_arms hok h hc
    exact ⟨ha.keeps hk,ha.ran⟩
  | returns hf hm =>
    subst hm
    rw [if_pos (by rw [hf]; rfl)]
    have ha := bodyStep_arms hok h hc
    unfold returnStep
    split <;> exact ⟨ha.keeps hk,ha.ran⟩
  | turn hf hm ht =>
    subst hm
    rw [if_neg (by simp [hf])]
    obtain ⟨hlist,hran⟩ := ht.ran hok h (by rw [hf]; rfl)
    refine ⟨fun item hi => hk item (hlist item hi),fun item hi => (hran item hi).imp_right ?_⟩
    refine fun hi => ⟨hi.1,hi.2.1,fun hfl => hi.2.2 ?_⟩
    rintro _ _ _ rfl
    simp [flushes,hf] at hfl

/-- Nothing fires early in a run in which times can be converted and no flush takes what is not due. -/
theorem nothing_fires_early {usable : Nat → Bool} {moves : List WorkMove}
    (h : Meets Promised.step InTime ⟨start usable,fun _ => 0⟩ moves) {n : Nat} {m : WorkMove}
    (hm : moves[n]?=some m) :
    let w := runAll Promised.step ⟨start usable,fun _ => 0⟩ (moves.take n)
    ∀ item,RunsItem w.state m item → Reached w.goals (clock m) item := by
  intro w item hrun
  have hstep : ∀ (w : Promised) m,
      WorkOk w.state ∧ (∀ item∈w.state.list,Keeps (w.goals item.token) item) → InTime w m →
      WorkOk (w.step m).state ∧ ∀ item∈(w.step m).state.list,Keeps ((w.step m).goals item.token) item :=
    fun w m hw hm => ⟨step_ok hw.1 hm.1,(step_keeps hw.1 hw.2 hm.1 hm.2.1).1⟩
  obtain ⟨hok,hk⟩ := runAll_invariant hstep ⟨start_ok usable,by simp [start]⟩ (h.take n)
  obtain ⟨hwalk,hc,hnow,hflush⟩ := h.get hm
  rcases (step_keeps hok hk hwalk hc).2 item hrun.1 with hold | ⟨hi,hnext,hdue⟩
  · exact absurd hold hrun.2
  have hdue : item.due ≤ clock m := by
    cases hfl : flushes w.state m with
    | false => exact hdue hfl
    | true => exact hflush hfl item hnext
  exact (hk item hi).reached hdue hnow

/-- A timer armed twice and a delayed work fire. -/
def dueMoves : List WorkMove :=
  [.modTimer 11 7 true,.queueDelayedWork 0 6 10 0 true,.modTimer 11 8 true,.runDeferred true,
    .turn 8000000 ⟨true,false,false,true,true⟩,.returns false,
    .turn 10000000 ⟨true,false,false,true,true⟩,.returns false]

theorem nothing_fires_early_dueMoves :
    (runAll Promised.step ⟨start fun _ => true,fun _ => 0⟩ dueMoves).state.gone.length=2 ∧
      ∀ n m,dueMoves[n]?=some m →
        let w := runAll Promised.step ⟨start fun _ => true,fun _ => 0⟩ (dueMoves.take n)
        ∀ item,RunsItem w.state m item → Reached w.goals (clock m) item :=
  ⟨by decide +kernel,
    fun n m hm => nothing_fires_early (by decide +kernel) hm⟩

/-- A timer for in 213 days fires in the first jiffy, and a flushed queue runs a work before its delay. -/
theorem fired_early :
    (let w := runAll Promised.step ⟨start fun _ => true,fun _ => 0⟩
      [.modTimer 11 18446744074 true,.runDeferred true]
    ∃ item∈w.state.list,RunsItem w.state (.turn 290448 ⟨true,false,false,true,true⟩) item ∧
      ¬Reached w.goals 290448 item) ∧
    let w := runAll Promised.step ⟨start fun _ => true,fun _ => 0⟩
      [.queueDelayedWork 0 6 10 0 true,.flushWorkqueue 0]
    ∃ item∈w.state.list,RunsItem w.state (.turn 0 ⟨true,false,false,true,true⟩) item ∧
      ¬Reached w.goals 0 item := by
  decide +kernel

end Kobox.Work
