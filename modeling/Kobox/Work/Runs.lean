import Kobox.Work.Pending

namespace Kobox.Work

open List Function DeferredItem Deferred

/-- What the start of a run does to the bit of the work it is about to call. -/
structure Begun (s t : Deferred) (item : DeferredItem) (res : RunResult) : Prop where
  kept : t={s with pending := t.pending,active := t.active,poisoned := t.poisoned}
  others : ∀ w,¬(item.kind=.work ∧ item.object=w) → t.pending w=s.pending w
  retried : res=.retry → item.kind=.work → s.pending item.object=true → t.pending item.object=true
  cleared : res≠.retry → item.kind=.work → item.object≠0 → t.pending item.object=false

variable {i : RunInput}

theorem beginWork_begun {item : DeferredItem} (hk : item.kind=.work) {s : Deferred} :
    Begun s (s.beginWork i item.object).2 item (s.beginWork i item.object).1 := by
  have hsame : Begun s s item .retry := ⟨rfl,fun _ _ => rfl,fun _ _ h => h,fun h => absurd rfl h⟩
  have hclear : ∀ res active,item.object≠0 → res≠.retry →
      Begun s {s with pending := update s.pending item.object false,active := active} item res := by
    intro res active h0 hres
    refine ⟨rfl,fun w hw => update_of_ne ?_ _ _,fun h => absurd h hres,
      fun _ _ _ => update_self _ _ _⟩
    rintro rfl
    exact hw ⟨hk,rfl⟩
  unfold beginWork
  dsimp only
  split
  · next h0 => exact ⟨rfl,fun _ _ => rfl,fun _ _ h => h,fun _ _ h => absurd h0 h⟩
  next h0 =>
  rw [clearPending_eq h0]
  split
  · exact hclear .finished s.active h0 (by decide)
  split
  · exact hsame
  split
  · exact hsame
  split
  · exact hsame
  split
  · exact hsame
  split
  · exact ⟨rfl,fun _ _ => rfl,fun _ _ h => h,fun h => absurd rfl h⟩
  split
  · exact hclear .finished s.active h0 (by decide)
  split
  · rw [setPending_eq h0]
    simp only [update_idem]
    refine ⟨rfl,fun w hw => update_of_ne ?_ _ _,fun _ _ _ => update_self _ _ _,
      fun h => absurd rfl h⟩
    rintro rfl
    exact hw ⟨hk,rfl⟩
  · exact hclear .called _ h0 (by decide)

theorem beginItem_begun (i : RunInput) (item : DeferredItem) (s : Deferred) :
    Begun s (s.beginItem i item).2 item (s.beginItem i item).1 := by
  have hother : ∀ res,item.kind≠.work → Begun s s item res := fun res hk =>
    ⟨rfl,fun _ _ => rfl,fun _ h => absurd h hk,fun _ h => absurd h hk⟩
  unfold beginItem
  split
  · next hk => exact beginWork_begun hk
  · next hk => exact hother _ hk

section

variable {s t v : Deferred} {item : DeferredItem}

theorem taken_queued (hok : ListOk s) (hperm : s.list.Perm (item::t.list)) (work : Nat) :
    t.Queued work ↔ s.Queued work ∧ ¬(item.kind=.work ∧ item.object=work) := by
  have hnodup := (hperm.map fun i => (i.kind,i.object)).nodup_iff.mp hok.unique
  simp only [map_cons,nodup_cons,mem_map,not_exists,not_and] at hnodup
  constructor
  · rintro ⟨i,hi,hw⟩
    refine ⟨⟨i,hperm.mem_iff.mpr (mem_cons_of_mem _ hi),hw⟩,fun hitem => hnodup.1 i hi ?_⟩
    rw [hw.1,hw.2,hitem.1,hitem.2]
  · rintro ⟨⟨i,hi,hw⟩,hne⟩
    rcases mem_cons.mp (hperm.mem_iff.mp hi) with rfl | hi
    · exact absurd hw hne
    · exact ⟨i,hi,hw⟩

/-- An item taken is put back at the head, or its record goes elsewhere and it is noted as run. -/
inductive Placed (s t v : Deferred) (item : DeferredItem) : Prop
  | back (list : v.list=item::t.list)
      (tail : v.tail=if t.tail=none then some item.record else t.tail) (free : v.free=s.free)
      (frames : running v.frames=running s.frames) (gone : v.gone=s.gone)
  | ran (list : v.list=t.list) (tail : v.tail=t.tail)
      (records : (v.free++running v.frames).Perm (item.record::(s.free++running s.frames)))
      (gone : v.gone=.ran item::s.gone)

theorem Placed.listOk (hok : ListOk s) (hperm : s.list.Perm (item::t.list))
    (htail : t.tail=t.list.getLast?.map DeferredItem.record) (hp : Placed s t v item)
    (hmade : v.made=s.made) (hqueued : v.queued=s.queued) : ListOk v := by
  have hkeys := (hperm.map fun i => (i.kind,i.object)).nodup_iff.mp hok.unique
  have hrecords := hperm.map record
  have htokens := hperm.map token
  have hmem : ∀ i∈item::t.list,i.object≠0 := fun i hi => hok.objects i (hperm.mem_iff.mpr hi)
  cases hp with
  | back hlist hvtail hfree hframes hgone =>
    refine ⟨hlist ▸ hkeys,?_,?_,?_,hlist ▸ hmem⟩
    · rw [hlist,hfree,hframes,hmade]
      exact (hrecords.symm.append_right _).trans hok.placed
    · rw [hvtail,htail,hlist]
      cases t.list with
      | nil => rfl
      | cons j js => simp
    · rw [hlist,hgone,hqueued]
      exact (htokens.symm.append_right _).trans hok.accounted
  | ran hlist hvtail hplaces hgone =>
    refine ⟨hlist ▸ (nodup_cons.mp hkeys).2,?_,?_,?_,
      fun i hi => hmem i (mem_cons_of_mem _ (hlist ▸ hi))⟩
    · rw [hlist,hmade]
      apply perm_iff_count.mpr
      intro r
      have h1 := hrecords.count_eq r
      have h2 := hok.placed.count_eq r
      have h3 := hplaces.count_eq r
      simp only [map_cons,count_append,count_cons] at h1 h2 h3 ⊢
      omega
    · rw [hvtail,htail,hlist]
    · rw [hlist,hgone,hqueued]
      apply perm_iff_count.mpr
      intro n
      have h1 := htokens.count_eq n
      have h2 := hok.accounted.count_eq n
      simp only [map_cons,count_append,count_cons,Departure.item] at h1 h2 ⊢
      omega

variable {r : Resume}

theorem running_again {rest : List Frame} : running (again r rest)=running rest := by
  cases r <;> rfl

theorem Placed.bits (hok : ListOk s) (hbits : BitsOk s) (hperm : s.list.Perm (item::t.list))
    (hp : Placed s t v item) {res : RunResult} {u : Deferred} (hb : Begun t u item res)
    (hpending : t.pending=s.pending) (hv : v.pending=u.pending) (hspoiled : v.spoiled=s.spoiled)
    (husable : v.usable=s.usable) (hres : res=.retry ↔ v.list=item::t.list) : BitsOk v := by
  have h0 := hok.objects item (hperm.mem_iff.mpr mem_cons_self)
  have hqueued := taken_queued hok hperm
  have hback : v.list=item::t.list → ∀ w,v.Queued w ↔ s.Queued w := by
    intro hlist w
    unfold Queued
    rw [hlist]
    exact exists_congr fun i => and_congr_left fun _ => hperm.mem_iff.symm
  have hran : v.list=t.list → ∀ w,v.Queued w ↔ t.Queued w := by
    intro hlist w
    unfold Queued
    rw [hlist]
  have hlist : v.list=item::t.list ∨ v.list=t.list := by
    cases hp with
    | back hlist => exact .inl hlist
    | ran hlist => exact .inr hlist
  refine ⟨fun w hw hs => ?_,fun w hs => by rw [husable]; exact hbits.2 w (hspoiled ▸ hs)⟩
  rw [hspoiled] at hs
  have hwas := hbits.1 w hw hs
  rw [hv]
  by_cases hitem : item.kind=.work ∧ item.object=w
  · obtain ⟨hk,rfl⟩ := hitem
    have hon : s.Queued item.object := ⟨item,hperm.mem_iff.mpr mem_cons_self,hk,rfl⟩
    rcases hlist with hlist | hlist
    · rw [hback hlist]
      exact iff_of_true (hb.retried (hres.mpr hlist) hk (hpending ▸ hwas.mpr hon)) hon
    have hne : res≠.retry := fun hr => by
      have hlen := congrArg length (hlist.symm.trans (hres.mp hr))
      simp at hlen
    rw [hran hlist,hqueued item.object,hb.cleared hne hk h0]
    simp [hk]
  · rw [hb.others w hitem,hpending,hwas]
    rcases hlist with hlist | hlist
    · exact (hback hlist w).symm
    · rw [hran hlist,hqueued w]
      simp [hitem]

variable {rest : List Frame} {m : WorkMove}

/-- A turn does nothing, leaves the loop, or takes an item of this kind and runs it. -/
inductive Turn (s : Deferred) (rest : List Frame) (P : DeferredItem → Prop) : Deferred → Prop
  | none : Turn s rest P s
  | leave : Turn s rest P (s.leave rest)
  | run {p : DeferredItem → Bool} {item : DeferredItem} {t : Deferred} (i : RunInput) (r : Resume)
      (ht : s.take p=some (item,t)) (hp : P item) : Turn s rest P (t.runItem i item r rest)

variable {p : DeferredItem → Bool}

theorem take_test (ht : s.take p=some (item,t)) : p item=true := by
  obtain ⟨i,hi,he⟩ := Option.map_eq_some_iff.mp ht
  cases he
  exact find?_some hi

/-- The item that a move takes off the list. -/
def nextItem (s : Deferred) : WorkMove → Option DeferredItem
  | .flushWork work requireDue now _ => (s.takeDeferredWork work requireDue now).map Prod.fst
  | .turn now _ =>
    match s.frames with
    | .loop (.drain includeWork (_+1))::_ => s.list.find? (s.dueItem includeWork now)
    | .loop (.flushQueue workqueue through (_+1))::_ => s.list.find? (s.queueItem workqueue through)
    | _ => none
  | _ => none

theorem take_next (ht : s.take p=some (item,t)) : s.list.find? p=some item := by
  obtain ⟨x,hx,he⟩ := Option.map_eq_some_iff.mp ht
  cases he
  exact hx

/-- Only a flush takes what is not due. -/
theorem loopStep_turn {s : Deferred} {rest : List Frame} {now : Nat} (hf : s.frames=.loop r::rest) :
    Turn s rest (fun item => nextItem s (.turn now i)=some item ∧
      ((∀ workqueue through left,r≠.flushQueue workqueue through left) → item.due≤now))
      (s.loopStep rest now i r) := by
  rcases r with ⟨includeWork,_|left⟩|⟨workqueue,through,_|left⟩|_
  · exact .leave
  · simp only [loopStep]
    split
    · exact .leave
    · next ht =>
      refine .run i _ ht ⟨by simpa only [nextItem,hf] using take_next ht,fun _ => ?_⟩
      have hp := take_test ht
      simp only [dueItem,Bool.and_eq_true,Bool.or_eq_true,decide_eq_true_eq] at hp
      omega
  · exact .leave
  · simp only [loopStep]
    split
    · exact .leave
    · next ht =>
      refine .run i _ ht ⟨by simpa only [nextItem,hf] using take_next ht,?_⟩
      exact fun hr => absurd rfl (hr _ _ _)
  · exact .none

theorem flushWork_turn {s : Deferred} {work : Nat} {requireDue : Bool} {now : Nat} {i : RunInput} :
    Turn s s.frames (fun item => nextItem s (.flushWork work requireDue now i)=some item ∧
      (requireDue=true → item.due≤now)) (s.bodyStep (.flushWork work requireDue now i)) := by
  simp only [bodyStep]
  cases ht : s.takeDeferredWork work requireDue now with
  | none => exact .none
  | some taken =>
    have hnext : nextItem s (.flushWork work requireDue now i)=some taken.1 := by simp [nextItem,ht]
    unfold takeDeferredWork at ht
    split at ht
    · cases ht
    · refine .run i .once ht ⟨hnext,fun hdue => ?_⟩
      have hp := take_test ht
      simp only [workItem,hdue,Bool.not_true,Bool.false_or,Bool.and_eq_true,Bool.or_eq_true,decide_eq_true_eq] at hp
      omega

inductive Stepped (s : Deferred) (m : WorkMove) : Deferred → Prop
  | none (hf : s.frames.head?≠some .body) : Stepped s m s
  | body (hf : s.frames.head?=some .body) : Stepped s m (s.bodyStep m)
  | returns {item : DeferredItem} {r : Resume} {rest : List Frame} {dirty : Bool}
      (hf : s.frames=.body::.running item r::rest) (hm : m=.returns dirty) :
    Stepped s m (s.returnStep item r rest dirty)
  | turn {r : Resume} {rest : List Frame} {t : Deferred} {now : Nat} {i : RunInput}
      (hf : s.frames=.loop r::rest) (hm : m=.turn now i)
      (ht : Turn s rest (fun item => nextItem s m=some item ∧
        ((∀ workqueue through left,r≠.flushQueue workqueue through left) → item.due≤now)) t) :
    Stepped s m t

theorem step_stepped (s : Deferred) (m : WorkMove) : Stepped s m (s.step m) := by
  unfold Deferred.step
  split
  · next hf => exact .returns hf rfl
  · next hf _ => exact .body (by rw [hf]; rfl)
  · next hf => exact .turn hf rfl (loopStep_turn hf)
  · next hbody _ _ =>
    refine .none fun hb => ?_
    obtain ⟨rest,hf⟩ := head?_eq_some_iff.mp hb
    exact hbody _ hf

section

variable (hok : WorkOk s) (h : s.list.length≤deferredListWalkLimit)
  (hrest : running rest=running s.frames)

include hok h hrest

theorem runItem_placed (ht : s.take p=some (item,t)) : let v := t.runItem i item r rest
    Placed s t v item ∧ ∃ res u,Begun t u item res ∧ v.made=s.made ∧ v.queued=s.queued ∧
      v.pending=u.pending ∧ v.spoiled=s.spoiled ∧ v.usable=s.usable ∧
      (res=.retry ↔ v.list=item::t.list) := by
  obtain ⟨-,-,ht⟩ := take_spec hok.list h ht
  have hb := beginItem_begun i item t
  unfold runItem
  generalize t.beginItem i item=b at hb ⊢
  obtain ⟨res,u⟩ := b
  have hu : u={s with
      list := t.list,
      tail := t.tail,
      pending := u.pending,
      active := u.active,
      poisoned := u.poisoned} := hb.kept.trans (by rw [ht])
  cases res with
  | retry =>
    dsimp only
    split
    · refine ⟨.back ?_ ?_ ?_ hrest ?_,_,u,hb,?_,?_,rfl,?_,?_,?_⟩ <;> rw [hu] <;> simp [prepend]
    · refine ⟨.back ?_ ?_ ?_ hrest ?_,_,u,hb,?_,?_,rfl,?_,?_,?_⟩ <;> rw [hu] <;>
        simp [prepend,leave]
  | finished =>
    have hrecords : running (again r rest)=running s.frames := (running_again).trans hrest
    refine ⟨.ran ?_ ?_ ?_ ?_,_,u,hb,?_,?_,rfl,?_,?_,?_⟩ <;> rw [hu] <;> simp [release,hrecords]
  | called =>
    have hrecords : running (.body::.running item r::rest)=item.record::running s.frames := by
      rw [← hrest]
      rfl
    refine ⟨.ran ?_ ?_ ?_ ?_,_,u,hb,?_,?_,rfl,?_,?_,?_⟩ <;> rw [hu] <;> simp [hrecords]

theorem runItem_ok (ht : s.take p=some (item,t)) : WorkOk (t.runItem i item r rest) := by
  obtain ⟨hperm,htail,hs⟩ := take_spec hok.list h ht
  obtain ⟨hp,res,u,hb,hmade,htok,hv,hsp,hus,hres⟩ := runItem_placed hok h hrest ht
  exact ⟨hp.listOk hok.list hperm htail hmade htok,
    hp.bits hok.list hok.bits hperm hb (by rw [hs]) hv hsp hus hres⟩

theorem Turn.moved {P : DeferredItem → Prop} (ht : Turn s rest P t) : t.list=s.list ∧ t.gone=s.gone ∨
    ∃ item list,P item ∧ s.list.Perm (item::list) ∧
      (t.list=item::list ∧ t.gone=s.gone ∨ t.list=list ∧ t.gone=.ran item::s.gone) := by
  cases ht with
  | none | leave => exact .inl ⟨rfl,rfl⟩
  | run i r ht hp =>
    obtain ⟨hperm,-,-⟩ := take_spec hok.list h ht
    refine .inr ⟨_,_,hp,hperm,?_⟩
    cases (runItem_placed hok h hrest ht).1 with
    | back list _ _ _ gone => exact .inl ⟨list,gone⟩
    | ran list _ _ gone => exact .inr ⟨list,gone⟩

end

variable (hok : WorkOk s)

include hok

/-- A loop is entered or left: no item moves. -/
theorem frames_ok {frames : List Frame} {depth : Nat} (h : running frames=running s.frames) :
    WorkOk {s with drainDepth := depth,frames := frames} := by
  refine ⟨{hok.list with placed := ?_},hok.bits⟩
  simpa only [h] using hok.list.placed

theorem enter_ok : WorkOk (s.enter r) := by
  unfold enter
  split
  · exact hok
  · exact frames_ok hok rfl

theorem setUsable_ok {work : Nat} {usable : Bool} : WorkOk (s.bodyStep (.setUsable work usable)) := by
  have hspoiled : ∀ w,update s.spoiled work (s.spoiled work || !usable) w=false →
      s.spoiled w=false ∧ (w=work → usable=true) := by
    intro w hw
    by_cases he : w=work
    · subst he
      simpa using hw
    · rw [update_of_ne he] at hw
      exact ⟨hw,fun h => absurd h he⟩
  refine ⟨{hok.list with},fun w h0 hs => hok.bits.1 w h0 (hspoiled w hs).1,fun w hs => ?_⟩
  obtain ⟨hold,hnew⟩ := hspoiled w hs
  by_cases he : w=work
  · subst he
    exact (update_self _ _ _).trans (hnew rfl)
  · exact (update_of_ne he _ _).trans (hok.bits.2 w hold)

theorem Turn.ok {P : DeferredItem → Prop} (ht : Turn s rest P t) (h : s.list.length≤deferredListWalkLimit)
    (hrest : running rest=running s.frames) : WorkOk t := by
  cases ht with
  | none => exact hok
  | leave => exact frames_ok hok hrest
  | run i r ht => exact runItem_ok hok h hrest ht

theorem bodyStep_ok (h : s.list.length≤deferredListWalkLimit) {m : WorkMove} :
    WorkOk (s.bodyStep m) := by
  cases m with
  | queueWork workqueue work room => exact queueWork_ok hok h
  | queueDelayedWork workqueue work delay now room => exact queueWork_ok hok h
  | modDelayedWork workqueue work delay now room =>
    exact modDelayedWorkOn_ok hok h
  | cancelWork work => exact cancelWorkSync_ok hok h work
  | taskletSchedule tasklet room => exact queueOther_ok hok h (by decide)
  | modTimer timer expires room => exact modTimer_ok hok h
  | addTimer timer expires room => exact queueOther_ok hok h (by decide)
  | timerDelete timer => exact timerDelete_ok hok h
  | flushWork work requireDue now i => exact (flushWork_turn).ok hok h rfl
  | flushWorkqueue workqueue => exact enter_ok hok
  | runDeferred includeWork => exact enter_ok hok
  | turn now i => exact hok
  | returns dirty => exact hok
  | setUsable work usable => exact setUsable_ok hok
  | setDestroying workqueue destroying => exact ⟨{hok.list with},hok.bits⟩

theorem returnStep_ok (hframes : s.frames=.body::.running item r::rest) {dirty : Bool} :
    WorkOk (s.returnStep item r rest dirty) := by
  have hplaced : (s.list.map record++
      (item.record::s.free++running (again r rest))).Perm (range s.made) := by
    have hwas := hok.list.placed
    rw [hframes] at hwas
    rw [running_again]
    exact (Perm.append_left _ perm_middle.symm).trans hwas
  unfold returnStep
  split <;> exact ⟨{hok.list with placed := hplaced},hok.bits⟩

theorem step_ok (h : WithinWalk s m) : WorkOk (s.step m) := by
  have hs := step_stepped s m
  generalize s.step m=t at hs
  cases hs with
  | none => exact hok
  | body => exact bodyStep_ok hok h
  | returns hf => exact returnStep_ok hok hf
  | turn hf _ ht => exact ht.ok hok h (by rw [hf]; rfl)

end

theorem start_ok (usable : Nat → Bool) : WorkOk (start usable) := by
  refine ⟨⟨nodup_nil,Perm.refl _,rfl,Perm.refl _,fun item hi => by cases hi⟩,
    fun work _ _ => ?_,fun work hs => by simpa [start] using hs⟩
  simp [start,Queued]

/-- Nothing queued is lost or doubled in any run with the list within reach of a walk. -/
theorem deferred_work_kept (usable : Nat → Bool) (moves : List WorkMove)
    (h : Meets Deferred.step WithinWalk (start usable) moves) (n : Nat) :
    WorkKept (runAll Deferred.step (start usable) (moves.take n)) := by
  have hstep : ∀ s m,WorkOk s → WithinWalk s m → WorkOk (s.step m) := fun s m hs hm => step_ok hs hm
  obtain ⟨hlist,hbits⟩ := runAll_invariant hstep (start_ok usable) (h.take n)
  exact ⟨hlist.unique,hlist.placed,hlist.tail,hlist.accounted,hbits.1⟩

/-- A work queues itself again and is put back; a delayed one is modified and cancelled; a tasklet
runs. -/
def requeueMoves : List WorkMove :=
  [.queueWork 0 5 true,.queueDelayedWork 0 6 10 0 true,.modDelayedWork 0 6 20 0 true,
    .taskletSchedule 9 true,.addTimer 11 7 true,.runDeferred true,.turn 0 ⟨true,false,false,true,true⟩,
    .queueWork 0 5 true,.cancelWork 6,.returns false,.turn 0 ⟨true,false,false,true,false⟩,
    .turn 0 ⟨true,false,false,false,true⟩,.modTimer 11 8 true]

theorem deferred_work_kept_requeueMoves :
    (runAll Deferred.step (start fun _ => true) requeueMoves).list.map
        (fun item => (item.kind,item.object,item.token))=[(.work,5,5),(.timer,11,4)] ∧
      ∀ n,WorkKept (runAll Deferred.step (start fun _ => true) (requeueMoves.take n)) :=
  ⟨by decide +kernel,
    fun n => deferred_work_kept (fun _ => true) requeueMoves (by decide +kernel) n⟩

end Kobox.Work
