import Kobox.Framework.Unlink
import Kobox.Work.Deferred

namespace Kobox.Work

open List Function DeferredItem Departure

namespace Deferred

def Queued (s : Deferred) (work : Nat) : Prop := ∃ item∈s.list,item.kind=.work ∧ item.object=work

def Holds (s : Deferred) (kind : DeferredKind) (object : Nat) : Prop :=
  ∃ item∈s.list,item.kind=kind ∧ item.object=object

end Deferred

open Deferred

structure ListOk (s : Deferred) : Prop where
  unique : (s.list.map fun item => (item.kind,item.object)).Nodup
  placed : (s.list.map DeferredItem.record++(s.free++running s.frames)).Perm (List.range s.made)
  tail : s.tail=s.list.getLast?.map DeferredItem.record
  accounted : (s.list.map DeferredItem.token++s.gone.map fun d => d.item.token).Perm
    (List.range s.queued)
  objects : ∀ item∈s.list,item.object≠0

def BitsOk (s : Deferred) : Prop :=
  (∀ work,work≠0 → s.spoiled work=false → (s.pending work=true ↔ s.Queued work)) ∧
    ∀ work,s.spoiled work=false → s.usable work=true

structure WorkOk (s : Deferred) : Prop where
  list : ListOk s
  bits : BitsOk s

theorem is_iff {kind : DeferredKind} {object : Nat} {item : DeferredItem} :
    item.is kind object=true ↔ item.kind=kind ∧ item.object=object := by
  simp [is]

variable {s t : Deferred} {kind : DeferredKind} {object : Nat}

section

variable (h : s.list.length≤deferredListWalkLimit)

include h

theorem refreshTail_within :
    s.refreshTail={s with tail := s.list.getLast?.map DeferredItem.record} := by
  simp [refreshTail,take_of_length_le h]

theorem find_within : s.find kind object=(s.list.find? (DeferredItem.is kind object),s) := by
  unfold Deferred.find
  rw [take_of_length_le h,if_neg (by omega)]
  cases s.list.find? (is kind object) <;> rfl

theorem contains_within :
    s.contains kind object=((s.list.find? (DeferredItem.is kind object)).isSome,s) := by
  simp [Deferred.contains,find_within h]

theorem pendingFound_within {work : Nat} :
    (if s.pending work then s.contains .work work else (false,s))=
      ((s.pending work && (s.list.find? (is .work work)).isSome),s) := by
  cases s.pending work with
  | true => simp [contains_within h]
  | false => rfl

omit h in
theorem take_spec {p : DeferredItem → Bool} {item : DeferredItem} (htail : ListOk s)
    (h : s.list.length≤deferredListWalkLimit) (ht : s.take p=some (item,t)) :
    s.list.Perm (item::t.list) ∧ t.tail=t.list.getLast?.map DeferredItem.record ∧
      t={s with list := t.list,tail := t.tail} := by
  obtain ⟨found,hfind,he⟩ := Option.map_eq_some_iff.mp ht
  obtain ⟨rfl,rfl⟩ := Prod.mk.inj he
  obtain ⟨bs,cs,hlist,herase,-,-⟩ := unlink_split hfind
  have hlen : (s.list.eraseP p).length≤deferredListWalkLimit := (length_eraseP_le).trans h
  have hperm := unlink_perm hfind
  by_cases hlast : s.tail=some found.record
  · rw [if_pos hlast,refreshTail_within (s := {s with list := s.list.eraseP p}) hlen]
    exact ⟨hperm,rfl,rfl⟩
  rw [if_neg hlast]
  refine ⟨hperm,?_,rfl⟩
  rw [htail.tail,hlist] at hlast
  rw [htail.tail,herase]
  nth_rewrite 1 [hlist]
  cases cs with
  | nil => simp at hlast
  | cons c cs => simp

theorem remove_spec {kind : DeferredKind} {object : Nat} :
    s.remove kind object=(s.list.filter (DeferredItem.is kind object),
      {s with
        list := s.list.filter fun item => !item.is kind object,
        free := ((s.list.filter (DeferredItem.is kind object)).map DeferredItem.record).reverse++s.free,
        tail := (s.list.filter fun item => !item.is kind object).getLast?.map
          DeferredItem.record}) := by
  have hlen : (s.list.filter fun item => !item.is kind object).length≤deferredListWalkLimit :=
    (length_filter_le _ _).trans h
  simp only [Deferred.remove]
  rw [refreshTail_within hlen]

omit h in
theorem remove_listOk (hok : ListOk s) (h : s.list.length≤deferredListWalkLimit)
    (kind : DeferredKind) (object : Nat) (f : DeferredItem → Departure) (hf : ∀ item,(f item).item=item) :
    ListOk {(s.remove kind object).2 with gone := (s.remove kind object).1.map f++s.gone} := by
  have hsplit : (s.list.filter (is kind object)++
      s.list.filter fun item => !item.is kind object).Perm s.list := filter_append_perm _ _
  rw [remove_spec h]
  refine ⟨?_,?_,rfl,?_,fun item hi => hok.objects item (mem_of_mem_filter hi)⟩
  · exact hok.unique.sublist (filter_sublist.map _)
  · apply perm_iff_count.mpr
    intro r
    have h1 := (hsplit.map record).count_eq r
    have h2 := hok.placed.count_eq r
    simp only [map_append,count_append,count_reverse] at h1 h2 ⊢
    omega
  · apply perm_iff_count.mpr
    intro n
    have h1 := (hsplit.map token).count_eq n
    have h2 := hok.accounted.count_eq n
    have hdep : ((s.list.filter (is kind object)).map f).map (fun d => d.item.token)=
        (s.list.filter (is kind object)).map token := by
      simp only [map_map]
      exact map_congr_left fun item _ => congrArg token (hf item)
    simp only [map_append,count_append,hdep] at h1 h2 ⊢
    omega

theorem remove_holds (kind : DeferredKind) (object : Nat) (k : DeferredKind) (o : Nat) :
    (s.remove kind object).2.Holds k o ↔ s.Holds k o ∧ ¬(kind=k ∧ object=o) := by
  rw [remove_spec h]
  simp only [Holds,mem_filter,Bool.not_eq_true',← Bool.not_eq_true,is_iff]
  constructor
  · rintro ⟨item,⟨hi,hne⟩,hk,ho⟩
    exact ⟨⟨item,hi,hk,ho⟩,fun he => hne ⟨hk.trans he.1.symm,ho.trans he.2.symm⟩⟩
  · rintro ⟨⟨item,hi,hk,ho⟩,hne⟩
    exact ⟨item,⟨hi,fun he => hne ⟨he.1.symm.trans hk,he.2.symm.trans ho⟩⟩,hk,ho⟩

omit h in
/-- Queueing appends an item, in a record that was free or is new. -/
inductive Appends (kind : DeferredKind) (object due : Nat) (s : Deferred) : Deferred → Prop
  | intro (item : DeferredItem) (made : Nat) (free : List Nat) (sequence : Nat)
      (hkind : item.kind=kind) (hobject : item.object=object) (htoken : item.token=s.queued)
      (hdue : item.due=due) (h0 : object≠0) (hnew : ¬s.Holds kind object)
      (hrecord : s.free=item.record::free ∧ made=s.made ∨
        s.free=[] ∧ free=[] ∧ item.record=s.made ∧ made=s.made+1) :
    Appends kind object due s {s with
      list := s.list++[item],
      tail := some item.record,
      free := free,
      made := made,
      sequence := sequence,
      queued := s.queued+1}

theorem queue_cases (kind : DeferredKind) (object workqueue due : Nat) (room : Bool) :
    s.queue kind object workqueue due room=(false,s) ∧
      (object=0 ∨ s.Holds kind object ∨ room=false ∧ s.free=[]) ∨
    ∃ t,s.queue kind object workqueue due room=(true,t) ∧ Appends kind object due s t := by
  unfold Deferred.queue
  by_cases h0 : object=0
  · exact .inl ⟨if_pos h0,.inl h0⟩
  rw [if_neg h0,contains_within h]
  cases hf : s.list.find? (is kind object) with
  | some item =>
    exact .inl ⟨rfl,.inr (.inl ⟨item,mem_of_find?_eq_some hf,is_iff.mp (find?_some hf)⟩)⟩
  | none =>
    have hnew : ¬s.Holds kind object := fun ⟨i,hi,hc⟩ => find?_eq_none.mp hf i hi (is_iff.mpr hc)
    dsimp only [Option.isSome]
    unfold allocateItem
    cases hfree : s.free with
    | cons r rs =>
      right
      dsimp only
      rw [refreshTail_within (s := {s with free := rs}) h]
      exact ⟨_,rfl,.intro _ _ _ _ rfl rfl rfl rfl h0 hnew (.inl ⟨hfree,rfl⟩)⟩
    | nil =>
      cases room with
      | false => exact .inl ⟨rfl,.inr (.inr ⟨rfl,rfl⟩)⟩
      | true =>
        right
        rw [if_pos rfl]
        dsimp only
        rw [refreshTail_within (s := {s with free := [],made := s.made+1}) h]
        exact ⟨_,rfl,.intro _ _ _ _ rfl rfl rfl rfl h0 hnew (.inr ⟨hfree,rfl,rfl,rfl⟩)⟩

end

section

variable {due : Nat} (ha : Appends kind object due s t)

include ha

theorem Appends.frame : t.pending=s.pending ∧ t.usable=s.usable ∧ t.spoiled=s.spoiled ∧ t.gone=s.gone := by
  cases ha
  exact ⟨rfl,rfl,rfl,rfl⟩

theorem Appends.holds (k : DeferredKind) (o : Nat) :
    t.Holds k o ↔ s.Holds k o ∨ kind=k ∧ object=o := by
  cases ha with
  | intro item _ _ _ hk ho =>
    subst hk ho
    simp only [Holds,mem_append,mem_singleton,or_and_right,exists_or,exists_eq_left]

theorem Appends.listOk {g : List Departure} (hok : ListOk {s with gone := g}) :
    ListOk {t with gone := g} := by
  cases ha with
  | intro item made free sequence hk ho htok _ h0 hnew hrec =>
    refine ⟨?_,?_,by simp,?_,?_⟩
    · simp only [map_append,map_cons,map_nil]
      refine nodup_append'.mpr ⟨hok.unique,nodup_singleton _,?_⟩
      intro key hkey hmem
      obtain ⟨i,hi,rfl⟩ := mem_map.mp hkey
      simp only [mem_singleton,Prod.mk.injEq,hk,ho] at hmem
      exact hnew ⟨i,hi,hmem⟩
    · apply perm_iff_count.mpr
      intro r
      have h1 := hok.placed.count_eq r
      rcases hrec with ⟨hfree,rfl⟩ | ⟨hfree,rfl,hr,rfl⟩
      · simp only [hfree,map_append,map_cons,map_nil,count_append, count_cons,count_nil] at h1 ⊢
        omega
      · simp only [hfree,hr,map_append,map_cons,map_nil,count_append,range_succ] at h1 ⊢
        omega
    · apply perm_iff_count.mpr
      intro n
      have h1 := hok.accounted.count_eq n
      simp only [htok,map_append,map_cons,map_nil,count_append,range_succ] at h1 ⊢
      omega
    · intro i hi
      rcases mem_append.mp hi with hi | hi
      · exact hok.objects i hi
      · rw [mem_singleton.mp hi,ho]
        exact h0

theorem Appends.kept (hok : ListOk s) : ListOk t := by
  have hlist := ha.listOk (g := s.gone) hok
  rwa [← ha.frame.2.2.2] at hlist

end

variable {work : Nat}

theorem clearPending_eq (h : work≠0) :
    s.clearPending work={s with pending := update s.pending work false} := if_neg h

theorem setPending_eq (h : work≠0) :
    s.setPending work={s with pending := update s.pending work true} := if_neg h

/-- The bits when only what concerns one work changes. -/
theorem BitsOk.change (h : BitsOk s) (work : Nat) (hspoiled : t.spoiled=s.spoiled)
    (husable : t.usable=s.usable)
    (hother : ∀ w,w≠work → t.pending w=s.pending w ∧ (t.Queued w ↔ s.Queued w))
    (hwork : work≠0 → s.spoiled work=false → (t.pending work=true ↔ t.Queued work)) : BitsOk t := by
  refine ⟨fun w h0 hs => ?_,fun w hs => ?_⟩
  · rw [hspoiled] at hs
    by_cases hw : w=work
    · subst hw
      exact hwork h0 hs
    · rw [(hother w hw).1,(hother w hw).2]
      exact h.1 w h0 hs
  · rw [husable]
    exact h.2 w (hspoiled ▸ hs)

section

variable (hbits : BitsOk s) (h : s.list.length≤deferredListWalkLimit)

include hbits h

/-- A work is appended with its bit set, or only bits change; they are right in the end. -/
theorem queueWork_cases (workqueue work due : Nat) (room : Bool) : BitsOk (queueWork workqueue work due room s).2 ∧ ∃ p,
      queueWork workqueue work due room s=(false,{s with pending := p}) ∨
      ∃ t,queueWork workqueue work due room s=(true,t) ∧ Appends .work work due {s with pending := p} t := by
  have hclear : (s.spoiled work=false → ¬s.Queued work) →
      BitsOk {s with pending := update s.pending work false} := by
    refine fun hno => hbits.change work rfl rfl (fun w hw => ⟨update_of_ne hw _ _,Iff.rfl⟩) fun _ hs => ?_
    simp only [update_self,Bool.false_eq_true,false_iff]
    exact hno hs
  unfold queueWork
  split
  · exact ⟨hbits,s.pending,.inl rfl⟩
  split
  · exact ⟨hbits,s.pending,.inl rfl⟩
  next h0 =>
  split
  · next hus =>
    rw [clearPending_eq h0]
    refine ⟨hclear fun hs => ?_,_,.inl rfl⟩
    simp [hbits.2 work hs] at hus
  rw [pendingFound_within h]
  simp only
  split
  · exact ⟨hbits,s.pending,.inl rfl⟩
  next hnone =>
  have hnew : s.spoiled work=false → ¬s.Queued work := by
    rintro hs ⟨item,hi,hk⟩
    apply hnone
    rw [(hbits.1 work h0 hs).mpr ⟨item,hi,hk⟩,Bool.true_and,find?_isSome]
    exact ⟨item,hi,is_iff.mpr hk⟩
  rw [clearPending_eq h0,setPending_eq h0]
  simp only [update_idem]
  rcases queue_cases (s := {s with pending := update s.pending work true}) h .work work workqueue due
    room with ⟨he,-⟩ | ⟨t,he,ha⟩
  · simp only [he,clearPending_eq h0,update_idem]
    exact ⟨hclear hnew,_,.inl rfl⟩
  · simp only [he]
    obtain ⟨hp,hus,hsp,-⟩ := ha.frame
    refine ⟨hbits.change work hsp hus (fun w hw => ?_) fun _ _ => ?_,_,.inr ⟨t,rfl,ha⟩⟩
    · exact ⟨by rw [hp]; exact update_of_ne hw _ _,(ha.holds .work w).trans (by simp [Ne.symm hw,Holds,Queued])⟩
    · rw [hp]
      exact iff_of_true (update_self _ _ _) ((ha.holds .work work).mpr (.inr ⟨rfl,rfl⟩))

theorem remove_bits {kind : DeferredKind} {object : Nat} (hkind : kind≠.work ∨ object=0) :
    BitsOk (s.remove kind object).2 := by
  have hq (w : Nat) : Queued _ w ↔ Queued _ w ∧ _ := remove_holds h kind object .work w
  have hframe : (s.remove kind object).2.spoiled=s.spoiled ∧
      (s.remove kind object).2.usable=s.usable ∧ (s.remove kind object).2.pending=s.pending := by
    exact ⟨rfl,rfl,rfl⟩
  refine hbits.change 0 hframe.1 hframe.2.1 (fun w hw => ⟨congrFun hframe.2.2 w,?_⟩)
    fun h0 => absurd rfl h0
  rw [hq w,and_iff_left]
  rintro ⟨hk,ho⟩
  rcases hkind with hkind | hkind
  · exact hkind hk
  · exact hw (ho.symm.trans hkind)

theorem removed_bits : BitsOk ((s.remove .work work).2.clearPending work) := by
  by_cases h0 : work=0
  · rw [clearPending,if_pos h0]
    exact remove_bits hbits h (.inr h0)
  have hq (w : Nat) : Queued _ w ↔ Queued _ w ∧ _ := remove_holds h .work work .work w
  rw [clearPending_eq h0]
  refine hbits.change work rfl rfl (fun w hw => ⟨update_of_ne hw _ _,?_⟩) fun _ _ => ?_
  · refine (hq w).trans ?_
    simp [Ne.symm hw]
  · simp only [update_self,Bool.false_eq_true,false_iff]
    intro hc
    exact ((hq work).mp hc).2 ⟨rfl,rfl⟩

end

theorem redue_same {record due : Nat} (i : DeferredItem) :
    let j := if i.record=record then {i with due := due} else i
    j.record=i.record ∧ j.kind=i.kind ∧ j.object=i.object ∧ j.token=i.token := by
  split <;> exact ⟨rfl,rfl,rfl,rfl⟩

variable (hok : WorkOk s) (h : s.list.length≤deferredListWalkLimit)

include hok h

theorem queueWork_ok {workqueue work due : Nat} {room : Bool} :
    WorkOk (queueWork workqueue work due room s).2 := by
  obtain ⟨hb,p,he | ⟨t,he,ha⟩⟩ := queueWork_cases hok.bits h workqueue work due room <;>
    rw [he] at hb ⊢
  · exact ⟨{hok.list with},hb⟩
  · exact ⟨ha.kept {hok.list with},hb⟩

theorem modDelayedWorkOn_ok {workqueue work delay now : Nat} {room : Bool} :
    WorkOk (s.modDelayedWorkOn workqueue work delay now room) := by
  have hbit : BitsOk ((s.remove .work work).2.clearPending work) := removed_bits hok.bits h
  obtain ⟨u,hu⟩ : ∃ u,(s.remove .work work).2.clearPending work=u := ⟨_,rfl⟩
  have hsame : u={(s.remove .work work).2 with pending := u.pending} := by
    rw [← hu,clearPending]
    split <;> rfl
  have hlist : ∀ f,(∀ item,(f item).item=item) → ∀ p,
      ListOk {u with pending := p,gone := (s.remove .work work).1.map f++s.gone} := by
    intro f hf p
    rw [hsame]
    exact {remove_listOk hok.list h .work work f hf with}
  have hlen : u.list.length≤deferredListWalkLimit := by
    rw [hsame,remove_spec h]
    exact (length_filter_le _ _).trans h
  have hgone : u.gone=s.gone := by
    rw [hsame]
    rfl
  rw [hu] at hbit
  simp only [modDelayedWorkOn,queueDelayedWorkOn,hu]
  obtain ⟨hb,p,he | ⟨t,he,ha⟩⟩ := queueWork_cases hbit hlen workqueue work (delayedDue now delay) room <;>
    rw [he] at hb ⊢
  · rw [hgone]
    exact ⟨hlist cancelled (fun _ => rfl) p,hb⟩
  · rw [ha.frame.2.2.2]
    simp only [hgone]
    exact ⟨ha.listOk (hlist replaced (fun _ => rfl) p),hb⟩

theorem cancelWorkSync_ok (work : Nat) : WorkOk (s.cancelWorkSync work) := by
  have hlist := remove_listOk hok.list h .work work .cancelled fun _ => rfl
  refine ⟨?_,removed_bits hok.bits h⟩
  unfold cancelWorkSync clearPending
  split
  · exact hlist
  · exact {hlist with}

theorem timerDelete_ok {timer : Nat} : WorkOk (s.timerDelete timer) :=
  ⟨remove_listOk hok.list h .timer timer .cancelled fun _ => rfl,
    remove_bits hok.bits h (.inl (by decide))⟩

theorem queueOther_ok {kind : DeferredKind} (hkind : kind≠.work) {object workqueue due : Nat}
    {room : Bool} : WorkOk (s.queue kind object workqueue due room).2 := by
  rcases queue_cases h kind object workqueue due room with ⟨he,-⟩ | ⟨t,he,ha⟩ <;> rw [he]
  · exact hok
  obtain ⟨hp,hus,hsp,-⟩ := ha.frame
  refine ⟨ha.kept hok.list,hok.bits.change 0 hsp hus (fun w _ => ⟨congrFun hp w,?_⟩) fun h0 => absurd rfl h0⟩
  exact (ha.holds .work w).trans (by simp [hkind,Holds,Queued])

theorem modTimer_ok {timer expires : Nat} {room : Bool} : WorkOk (s.modTimer timer expires room) := by
  unfold modTimer
  rw [find_within h]
  cases s.list.find? (is .timer timer) with
  | none => exact queueOther_ok hok h (by decide)
  | some item =>
    -- only the due time of an item changes
    obtain ⟨g,hg⟩ : ∃ g : DeferredItem → DeferredItem,
        g=fun i => if i.record=item.record then {i with due := jiffiesToNs expires} else i := ⟨_,rfl⟩
    have hsame : ∀ i,(g i).record=i.record ∧ (g i).kind=i.kind ∧ (g i).object=i.object ∧
        (g i).token=i.token := fun i => hg ▸ redue_same i
    have hrecord : record∘g=record := funext fun i => (hsame i).1
    have htoken : token∘g=token := funext fun i => (hsame i).2.2.2
    have hkey : (fun i : DeferredItem => (i.kind,i.object))∘g=fun i => (i.kind,i.object) :=
      funext fun i => Prod.ext (hsame i).2.1 (hsame i).2.2.1
    simp only [← hg]
    constructor
    · refine ⟨?_,?_,?_,?_,?_⟩
      · simpa only [map_map,hkey] using hok.list.unique
      · simpa only [map_map,hrecord] using hok.list.placed
      · simpa only [getLast?_map,Option.map_map,hrecord] using hok.list.tail
      · simpa only [map_map,htoken] using hok.list.accounted
      · intro i hi
        obtain ⟨j,hj,rfl⟩ := mem_map.mp hi
        rw [(hsame j).2.2.1]
        exact hok.list.objects j hj
    · refine hok.bits.change 0 rfl rfl (fun w _ => ⟨rfl,?_⟩) fun h0 => absurd rfl h0
      simp [Queued,hsame]

end Kobox.Work
