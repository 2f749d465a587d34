import Kobox.Framework.Run
import Kobox.Work.Deferred

namespace Kobox.Workqueue

open List Function

/-- The links of the records, that of 0 being the list head, the records that are not freed, and the
calls of `kb_destroy_workqueue` that flush: whose link they hold, and the record it led to. -/
structure Queues where
  next : Nat → Nat
  live : List Nat
  calls : List (Nat × Nat)
  faulted : Bool

/-- A destroy call is open from its flush, in which other calls are made, to the look for work that
is left, in the deferred items as the flush leaves them. -/
inductive Event
  | alloc (record : Option Nat)
  | destroy (workqueue : Nat)
  | flushed (deferred : Work.Deferred)

def start : Queues := ⟨fun _ => 0,[],[],false⟩

/-- The loop at the head of `kb_destroy_workqueue`, unless it reads a record that is freed. -/
def findLink (s : Queues) (workqueue : Nat) : Nat → Nat → Option Nat
  | 0,_ => none
  | fuel+1,p =>
    let q := s.next p
    if q=0 then some p
    else if q∉s.live then none
    else if q=workqueue then some p else findLink s workqueue fuel q

def kbAllocWorkqueue (s : Queues) (p : Nat) : Queues :=
  { s with next := update (update s.next p (s.next 0)) 0 p,live := p::s.live }

def destroyBegin (s : Queues) (workqueue : Nat) : Queues :=
  match findLink s workqueue (s.live.length+1) 0 with
  | none => { s with faulted := true }
  | some p => if s.next p=0 then s else { s with calls := (p,s.next p)::s.calls }

def workLeft (workqueue : Nat) (deferred : Work.Deferred) : Bool :=
  deferred.list.any fun item => item.kind=.work && item.workqueue=workqueue

def destroyEnd (s : Queues) (deferred : Work.Deferred) : Queues :=
  match s.calls with
  | [] => s
  | (p,r)::calls =>
    if workLeft r deferred then { s with calls := calls,faulted := s.faulted || r∉s.live }
    else
      { next := update s.next p (s.next r)
        live := s.live.erase r
        calls := calls
        faulted := s.faulted || r∉s.live || p∉0::s.live }

def step (s : Queues) : Event → Queues
  | .alloc none => s
  | .alloc (some p) => kbAllocWorkqueue s p
  | .destroy workqueue => destroyBegin s workqueue
  | .flushed deferred => destroyEnd s deferred

/-- The list holds exactly the live records, and none that is freed was touched. -/
structure Intact (s : Queues) : Prop where
  listed : (0::s.live).map s.next=s.live++[0]
  nodup : (0::s.live).Nodup
  sound : s.faulted=false

/-- A step leaves the list intact, and at its end a destroy call without its record. -/
def Leaves (s : Queues) (e : Event) : Prop :=
  Intact (step s e) ∧ ∀ deferred,e=.flushed deferred → ∀ c∈s.calls.head?,c.2∉(step s e).live

/-- Records that are not in use are allocated. After a flush no work is left, and the link that led
to the record still does, and is the head or that of a live record. -/
def Undisturbed (s : Queues) : Event → Prop
  | .alloc (some p) => p∉0::s.live
  | .flushed deferred => ∀ c∈s.calls.head?,
    workLeft c.2 deferred=false ∧ c.2∈s.live ∧ c.1∈0::s.live ∧ s.next c.1=c.2
  | _ => True

section

variable {next : Nat → Nat} {L : List Nat} {p x : Nat}

/-- A list cut at one of its records: what follows is linked, and may be replaced. -/
theorem linked_cut (h : (x::L).map next=L++[0]) (hp : p∈x::L) :
    ∃ as bs,x::L=as++p::bs ∧ (p::bs).map next=bs++[0] ∧ ∀ f cs,(∀ a∈as,f a=next a) →
      (p::cs).map f=cs++[0] → (as++p::cs).map f=(as++p::cs).tail++[0] := by
  induction L generalizing x with
  | nil =>
    obtain rfl := mem_singleton.mp hp
    exact ⟨[],[],rfl,h,fun _ _ _ hcs => hcs⟩
  | cons q L ih =>
    rcases mem_cons.mp hp with rfl|hp
    · exact ⟨[],q::L,rfl,h,fun _ _ _ hcs => hcs⟩
    obtain ⟨hx,hrest⟩ := cons.inj h
    obtain ⟨as,bs,has,hbs,hnew⟩ := ih hrest hp
    refine ⟨x::as,bs,by rw [has,cons_append],hbs,fun f cs hf hcs => ?_⟩
    have hmap := hnew f cs (fun a ha => hf a (mem_cons_of_mem _ ha)) hcs
    have hq : q::(as++p::cs).tail=as++p::cs := by
      cases as <;> simp [(cons.inj has).1]
    simp only [cons_append,map_cons,tail_cons,hf x mem_cons_self,hx,hmap]
    rw [← cons_append,hq]

variable {s : Queues}

theorem findLink_some (workqueue : Nat) {fuel : Nat} (h : (p::L).map s.next=L++[0])
    (hl : L⊆s.live) (hf : L.length<fuel) : findLink s workqueue fuel p≠none := by
  induction L generalizing p fuel with
  | nil =>
    cases fuel with
    | zero => cases hf
    | succ fuel => simp [findLink,(cons.inj h).1]
  | cons q L ih =>
    cases fuel with
    | zero => cases hf
    | succ fuel =>
      obtain ⟨hq,hrest⟩ := cons.inj h
      simp only [findLink,hq]
      split_ifs <;> simp_all

theorem Intact.alloc (h : Intact s) (hp : p∉0::s.live) : Intact (kbAllocWorkqueue s p) := by
  obtain ⟨hp0,hpl⟩ := not_or.mp (mt mem_cons.mpr hp)
  obtain ⟨h0,hn⟩ := nodup_cons.mp h.nodup
  have hsame : s.live.map (update (update s.next p (s.next 0)) 0 p)=s.live.map s.next := by
    apply map_congr_left
    intro a ha
    rw [update_of_ne (ne_of_mem_of_not_mem ha h0),update_of_ne (ne_of_mem_of_not_mem ha hpl)]
  refine ⟨?_,by simp [kbAllocWorkqueue,hn,h0,hpl,Ne.symm hp0],h.sound⟩
  simp only [kbAllocWorkqueue,map_cons,update_self,update_of_ne hp0,hsame,cons_append]
  rw [← map_cons,h.listed]

theorem Intact.begin (h : Intact s) (workqueue : Nat) : Intact (destroyBegin s workqueue) := by
  have hfound := findLink_some workqueue h.listed (Subset.refl _) (Nat.lt_succ_self _)
  unfold destroyBegin
  split
  · next hnone => exact absurd hnone hfound
  · split
    · exact h
    · exact ⟨h.listed,h.nodup,h.sound⟩

theorem Intact.unlink {r : Nat} (h : Intact s) (hr : r∈s.live) (hp : p∈0::s.live)
    (hpr : s.next p=r) :
    (0::s.live.erase r).map (update s.next p (s.next r))=s.live.erase r++[0] := by
  have hr0 : r≠0 := ne_of_mem_of_not_mem hr (nodup_cons.mp h.nodup).1
  obtain ⟨as,bs,has,hbs,hnew⟩ := linked_cut h.listed hp
  obtain ⟨-,hn,hdis⟩ := nodup_append'.mp (has ▸ h.nodup)
  cases bs with
  | nil => exact absurd (hpr.symm.trans (cons.inj hbs).1) hr0
  | cons b cs =>
    obtain ⟨hb,hcs⟩ := cons.inj hbs
    obtain rfl : r=b := hpr.symm.trans hb
    obtain ⟨hpr',hpcs⟩ := not_or.mp (mt mem_cons.mpr (nodup_cons.mp hn).1)
    have herase : 0::s.live.erase r=as++p::cs := by
      have hras : r∉as := fun hin => hdis hin (mem_cons_of_mem _ mem_cons_self)
      rw [← erase_cons_tail (by simpa using hr0.symm),has,erase_append_right _ hras,
        erase_cons_tail (by simpa using hpr'),erase_cons_head]
    have hlinked := hnew (update s.next p (s.next r)) cs ?_ ?_
    · rw [herase,hlinked,← herase,tail_cons]
    · intro a ha
      exact update_of_ne (fun he => hdis ha (by simp [he])) _ _
    · rw [map_cons,update_self,← show map s.next (r::cs)=cs++[0] from hcs,map_cons]
      congr 1
      exact map_congr_left fun a ha => update_of_ne (ne_of_mem_of_not_mem ha hpcs) _ _

theorem step_leaves (h : Intact s) {e : Event} (hu : Undisturbed s e) : Leaves s e := by
  cases e with
  | alloc record =>
    cases record with
    | none => exact ⟨h,nofun⟩
    | some p => exact ⟨h.alloc hu,nofun⟩
  | destroy workqueue => exact ⟨h.begin workqueue,nofun⟩
  | flushed deferred =>
    simp only [Leaves,step,destroyEnd]
    cases hc : s.calls with
    | nil => exact ⟨h,nofun⟩
    | cons c calls =>
      obtain ⟨p,r⟩ := c
      obtain ⟨hleft,hr,hp,hpr⟩ := hu (p,r) (by simp [hc])
      obtain ⟨h0,hn⟩ := nodup_cons.mp h.nodup
      simp only [hleft]
      refine ⟨⟨h.unlink hr hp hpr,?_,?_⟩,?_⟩
      · exact nodup_cons.mpr ⟨mt mem_of_mem_erase h0,hn.erase r⟩
      · simp_all [h.sound]
      · rintro _ _ _ ⟨⟩
        exact hn.not_mem_erase

end

/-- The list stays that of the live queues in every run in which a flush leaves the place of its
queue in the list as it was. -/
theorem destroy_workqueue_intact (es : List Event) (h : Meets step Undisturbed start es) :
    Meets step Leaves start es := by
  have hs : Intact start := ⟨rfl,by simp [start],rfl⟩
  generalize start=s at h hs
  induction es generalizing s with
  | nil => trivial
  | cons e es ih =>
    have hl := step_leaves hs h.1
    exact ⟨hl,ih _ h.2 hl.1⟩

/-- A work of queue 2 is deferred. -/
def otherWork : Work.Deferred := (Work.Deferred.start fun _ => true).bodyStep (.queueWork 2 6 true)

theorem destroy_workqueue_intact_alloc : otherWork.list.length=1 ∧ Meets step Leaves start
    [.alloc (some 1),.alloc (some 2),.destroy 1,.alloc (some 3),.flushed otherWork] := by
  refine ⟨by decide,destroy_workqueue_intact _ ?_⟩
  have hleft : workLeft 1 otherWork=false := by decide
  simp [Meets,Undisturbed,step,start,kbAllocWorkqueue,destroyBegin,findLink,hleft]

/-- The work that is flushed destroys the queue in front. -/
theorem freed_queue_linked :
    let s := runAll step start
      [.alloc (some 1),.alloc (some 2),.destroy 1,.destroy 2,.flushed (Work.Deferred.start fun _ => true),
        .flushed (Work.Deferred.start fun _ => true)]
    s.faulted=true ∧ s.live=[] ∧ s.next 0=1 := by
  decide

end Kobox.Workqueue
