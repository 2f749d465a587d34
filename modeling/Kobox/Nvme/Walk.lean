import Kobox.Nvme.Queue

namespace Kobox.Nvme

open Option

/-- Which doorbells of its completion queue a device has: the head register, the shadow. -/
structure Doorbells where
  mapped : Bool
  shadowed : Bool

/-- A queue and what is seen of its walk: entries posted and consumed, values that the head doorbell
and its shadow were given. -/
structure Walk where
  queue : QueueState
  posted : List Entry
  consumed : List Entry
  headDb : List Nat
  shadow : List Nat

section

variable (d : Doorbells) (q : Nat)

/-- The front entry is consumed, and the new head written to the shadow and the register. -/
def Walk.advance (s : Walk) (t : QueueState) : Walk :=
  { s with
    queue := t
    consumed := s.consumed++[s.queue.cq.front]
    shadow := if d.shadowed then s.shadow++[t.cq.head] else s.shadow
    headDb := if d.mapped then s.headDb++[t.cq.head] else s.headDb }

/-- `nvme_block_drain_io_completion` with its doorbells. -/
def drainAndRing (s : Walk) : Int × Walk :=
  let r := drainIoCompletion q s.queue
  if r.1=1 then (1,s.advance d r.2) else (r.1,s)

def completionMatchesRequest (cq : PhaseRing Entry) (r : Rq) : Bool :=
  cq.visible && commandTag cq.front.commandId==r.tag%4096 &&
    commandGeneration cq.front.commandId==r.generation%16

/-- A look of the admin path at the head of its queue. -/
def adminPoll (addr : Nat) (s : Walk) : Option (Int × Walk) :=
  match s.queue.requests addr with
  | none => none
  | some r =>
    let e := s.queue.cq.front
    if completionMatchesRequest s.queue.cq r then
      some (if e.status=0 then 0 else eio,s.advance d { s.queue with
        requests := Function.update s.queue.requests addr
          (some { r with completed := true
                         endStatus := e.status
                         result := e.result })
        cq := s.queue.cq.consume
        backlog := s.queue.backlog.tail })
    else none

/-- The device posts an entry, unless all cells but one are out. -/
def Walk.post (s : Walk) (e : Entry) : Walk :=
  if s.queue.backlog.length+1<s.queue.cq.depth then
    { s with
      queue := { s.queue with
        cq := s.queue.cq.post e
        backlog := s.queue.backlog++[e] }
      posted := s.posted++[e] }
  else s

def requestResult (addr : Nat) (s : Walk) : Option Int :=
  match s.queue.requests addr with
  | none => none
  | some r => if r.completed then some (if r.endStatus=0 then 0 else eio) else none

/-- The wait for an I/O command until the deadline. Before each look the device posts some entries;
the inner loop, which takes what is visible, does not look at the request. -/
def ioWait (addr : Nat) : List (List Entry) → Bool → Walk → Int × Walk
  | [],_,s => ((requestResult addr s).getD etimedout,s)
  | es::looks,inner,s =>
    let t := es.foldl Walk.post s
    match if inner then none else requestResult addr t with
    | some status => (status,t)
    | none =>
      let r := drainAndRing d q t
      if r.1<0 then r else ioWait addr looks (0 < r.1) r.2

def adminWait (addr : Nat) : List (List Entry) → Walk → Int × Walk
  | [],s => (etimedout,s)
  | es::looks,s =>
    (adminPoll d addr (es.foldl Walk.post s)).getD (adminWait addr looks (es.foldl Walk.post s))

def completeExecute (qid addr : Nat) (looks : List (List Entry)) (s : Walk) : Int × Walk :=
  match requestResult addr s with
  | some status => (status,s)
  | none =>
    if s.queue.cq.depth=0 then (eio,s)
    else if qid=0 then adminWait d addr looks s
    else ioWait d q addr looks false s

/-- Between calls the rest of the driver does what it likes with requests and tags. -/
inductive WalkEvent
  | post (e : Entry)
  | driver (rqs : Nat → Option Nat) (requests : Nat → Option Rq)
  | drain
  | execute (qid addr : Nat) (looks : List (List Entry))

def walkStep (s : Walk) : WalkEvent → Walk
  | .post e => s.post e
  | .driver rqs requests => { s with queue := { s.queue with rqs := rqs,requests := requests } }
  | .drain => (drainAndRing d q s).2
  | .execute qid addr looks => (completeExecute d q qid addr looks s).2

def freshWalk (depth : Nat) : Walk := ⟨freshQueue depth,[],[],[],[]⟩

/-- The position behind each of the first n entries. -/
def positions (depth n : Nat) : List Nat := (List.range n).map fun i => (i+1)%depth

/-- Entries are consumed once and in order, the head stands at the next one, and the doorbells were
given every position. -/
structure Walked (n : Nat) (s : Walk) : Prop where
  depth : s.queue.cq.depth=n
  ring : s.queue.cq.Holds s.consumed.length s.queue.backlog
  inOrder : s.posted=s.consumed++s.queue.backlog
  headDb : s.headDb=if d.mapped then positions n s.consumed.length else []
  shadow : s.shadow=if d.shadowed then positions n s.consumed.length else []

variable {d q} {depth addr : Nat} {s : Walk} {e : Entry} {rest : List Entry}

theorem freshWalk_walked {d : Doorbells} {depth : Nat} : Walked d depth (freshWalk depth) :=
  ⟨rfl,.empty rfl rfl rfl rfl fun _ => rfl,rfl,by cases d.mapped <;> rfl,
    by cases d.shadowed <;> rfl⟩

variable (h : Walked d depth s)

include h

theorem Walked.advance (hb : s.queue.backlog=e::rest) {t : QueueState}
    (hc : t.cq=s.queue.cq.consume) (ht : t.backlog=rest) :
    Walked d depth (s.advance d t) ∧ (s.advance d t).consumed=s.consumed++[e] := by
  have hring := h.ring
  rw [hb] at hring
  have hfront := hring.front
  have hnext := hring.consume
  have hdepth : s.queue.cq.consume.depth=depth := h.depth
  have hhead : t.cq.head=(s.consumed.length+1)%depth := by rw [hc,hnext.head,hdepth]
  refine ⟨⟨?_,?_,?_,?_,?_⟩,by simp [Walk.advance,hfront]⟩
  · rw [Walk.advance,hc,hdepth]
  · simpa [Walk.advance,hc,ht] using hnext
  · simp [Walk.advance,h.inOrder,hb,hfront,ht]
  · cases hm : d.mapped <;> simp [Walk.advance,h.headDb,hm,positions,hhead,List.range_succ]
  · cases hm : d.shadowed <;> simp [Walk.advance,h.shadow,hm,positions,hhead,List.range_succ]

theorem Walked.post (e : Entry) : Walked d depth (s.post e) := by
  unfold Walk.post
  split_ifs with hroom
  · exact ⟨h.depth,h.ring.post (by omega) e,by simp [h.inOrder],h.headDb,h.shadow⟩
  · exact h

theorem Walked.posts (es : List Entry) : Walked d depth (es.foldl Walk.post s) := by
  induction es generalizing s with
  | nil => exact h
  | cons e es ih => exact ih (h.post e)

variable (hd : 0<depth)

include hd

theorem Walked.inside : ¬(s.queue.cq.depth=0 ∨ s.queue.cq.depth ≤ s.queue.cq.head) := by
  have hlt := Nat.mod_lt s.consumed.length hd
  rw [h.ring.head,h.depth]
  omega

theorem Walked.visible_iff : s.queue.cq.visible=true ↔ s.queue.backlog≠[] := h.ring.visible_iff (h.depth ▸ hd)

theorem drain_empty (hb : s.queue.backlog=[]) : drainAndRing d q s=(0,s) := by
  have hv : s.queue.cq.visible=false := by simpa [hb] using (h.visible_iff hd).not
  simp [drainAndRing,drainIoCompletion,h.inside hd,hv]

theorem drain_takes (hb : s.queue.backlog=e::rest) :
    if (entryRequest q s.queue e).isSome then ∃ t : QueueState,t.cq=s.queue.cq.consume ∧
      t.backlog=rest ∧ drainAndRing d q s=(1,s.advance d t)
    else drainAndRing d q s=(eio,s) := by
  have hv := (h.visible_iff hd).mpr (by simp [hb])
  have hfront : s.queue.cq.front=e := (hb ▸ h.ring).front
  cases hr : entryRequest q s.queue e with
  | none => simp [drainAndRing,drainIoCompletion,h.inside hd,hv,hfront,hr,eio]
  | some x =>
    refine ⟨(drainIoCompletion q s.queue).2,?_,?_,?_⟩
    all_goals simp [drainAndRing,drainIoCompletion,h.inside hd,hv,hfront,hr,hb]

theorem Walked.drain : Walked d depth (drainAndRing d q s).2 := by
  cases hb : s.queue.backlog with
  | nil => rwa [drain_empty h hd hb]
  | cons e rest =>
    have htake := drain_takes (q := q) h hd hb
    split_ifs at htake
    · obtain ⟨t,hc,ht,hr⟩ := htake
      rw [hr]
      exact (h.advance hb hc ht).1
    · rwa [htake]

theorem admin_takes {r : Int × Walk}
    (hr : adminPoll d addr s=some r) : ∃ e rest,∃ t : QueueState,s.queue.backlog=e::rest ∧
      t.cq=s.queue.cq.consume ∧ t.backlog=rest ∧ r.2=s.advance d t := by
  unfold adminPoll at hr
  cases ha : s.queue.requests addr with
  | none => simp [ha] at hr
  | some x =>
    simp only [ha,ite_none_right_eq_some,some.injEq] at hr
    obtain ⟨hm,rfl⟩ := hr
    have hv : s.queue.cq.visible=true := by
      simp only [completionMatchesRequest,Bool.and_eq_true] at hm
      exact hm.1.1
    obtain ⟨e,rest,hb⟩ := List.exists_cons_of_ne_nil ((h.visible_iff hd).mp hv)
    exact ⟨e,rest,_,hb,rfl,by simp [hb],rfl⟩

theorem Walked.admin (looks : List (List Entry)) :
    Walked d depth (adminWait d addr looks s).2 := by
  induction looks generalizing s with
  | nil => exact h
  | cons es looks ih =>
    have hp := h.posts es
    unfold adminWait
    cases hr : adminPoll d addr (es.foldl Walk.post s) with
    | none => exact ih hp
    | some r =>
      obtain ⟨e,rest,t,hb,hc,ht,he⟩ := admin_takes hp hd hr
      simp only [getD_some,he]
      exact (hp.advance hb hc ht).1

theorem Walked.io (looks : List (List Entry))
    (inner : Bool) : Walked d depth (ioWait d q addr looks inner s).2 := by
  induction looks generalizing s inner with
  | nil => exact h
  | cons es looks ih =>
    have hp := h.posts es
    unfold ioWait
    dsimp only
    split
    · exact hp
    · split_ifs
      · exact hp.drain hd
      · exact ih (hp.drain hd) _

theorem Walked.step (a : WalkEvent) : Walked d depth (walkStep d q s a) := by
  cases a with
  | post e => exact h.post e
  | driver rqs requests => exact ⟨h.depth,h.ring,h.inOrder,h.headDb,h.shadow⟩
  | drain => exact h.drain hd
  | execute qid addr looks =>
    simp only [walkStep,completeExecute]
    split
    · exact h
    · split_ifs
      · exact h
      · exact h.admin hd looks
      · exact h.io hd looks false

theorem Walked.run (events : List WalkEvent) :
    Walked d depth (runAll (walkStep d q) s events) := by
  induction events generalizing s with
  | nil => exact h
  | cons a as ih => exact ih (h.step hd a)

end

end Kobox.Nvme
