import Kobox.Nvme.Tags

namespace Kobox.Nvme

open List Function QueueState

variable {queueRq : Nat → Rq → Queued} {q : Nat} {s : QueueState}

/-- The next entry is consumed, whatever came late before it, and completes the request whose command
it answers and no other. -/
structure Delivers (q : Nat) (s : QueueState) : Prop where
  next : ∀ e rest,s.backlog=e::rest → ∃ a r,s.requests a=some r ∧ r.command=some e.serial ∧
    drainIoCompletion q s=(1,{ s with
      requests := update s.requests a
        (some { r with completed := true
                       endStatus := e.status
                       result := e.result })
      cq := s.cq.consume
      backlog := rest })
  idle : s.backlog=[] → (drainIoCompletion q s).2=s

structure Attributed (q : Nat) (s : QueueState) : Prop extends Tracked q s where
  ring : ∃ n,s.cq.Holds n s.backlog

theorem Tracked.found (h : Tracked q s) {e : Entry} {a : Nat} {r : Rq}
    (hw : Waits s ⟨e.serial,e.commandId⟩ a r) : entryRequest q s e=some (a,r) := by
  have hsmall := h.small a r hw.live
  have hrow := h.inRow a r hw.live
  have htag : commandTag e.commandId=r.tag := h.waits_tag hw
  have hgen : commandGeneration e.commandId=r.generation%16 := by
    rw [show e.commandId=requestId r from hw.named]
    exact commandGeneration_requestId hsmall
  have hin : ¬(queueMax≤q ∨ tagsPerQueue ≤ r.tag) := by omega
  simp [entryRequest,tagsetRequest,htag,if_neg hin,hw.bound,hw.live,hgen]

theorem Attributed.delivers (h : Attributed q s) : Delivers q s := by
  obtain ⟨n,hring⟩ := h.ring
  constructor
  · intro e rest hb
    rw [hb] at hring
    have hdepth : 0<s.cq.depth := by
      have := hring.fits
      simp only [length_cons] at this
      omega
    have hmem : (⟨e.serial,e.commandId⟩ : Issued)∈s.outstanding := by
      simp only [outstanding,hb]
      exact mem_append_right _ mem_cons_self
    obtain ⟨a,r,hw⟩ := h.waits _ hmem
    have hhead : ¬(s.cq.depth=0 ∨ s.cq.depth ≤ s.cq.head) := by
      have := Nat.mod_lt n hdepth
      rw [hring.head]
      omega
    have hvis : s.cq.visible=true := (hring.visible_iff hdepth).mpr (by simp)
    refine ⟨a,r,hw.live,hw.command,?_⟩
    simp [drainIoCompletion,if_neg hhead,hvis,hring.front,h.found hw,hb]
  · intro hb
    rw [hb] at hring
    unfold drainIoCompletion
    split
    · rfl
    · have hvis : ¬s.cq.visible=true := by
        rw [hring.visible_iff (by omega)]
        simp
      simp [hvis]

theorem allocBatch_ring (addrs : List Nat) :
    (allocBatch q addrs s).cq=s.cq ∧ (allocBatch q addrs s).backlog=s.backlog := by
  induction addrs generalizing s with
  | nil => exact ⟨rfl,rfl⟩
  | cons addr addrs ih =>
    unfold allocBatch
    split
    · exact ⟨rfl,rfl⟩
    next t ht =>
    have hsame : (tagsetAllocTag q s).2.cq=s.cq ∧ (tagsetAllocTag q s).2.backlog=s.backlog := by
      unfold tagsetAllocTag
      split
      · exact ⟨rfl,rfl⟩
      · split <;> exact ⟨rfl,rfl⟩
    unfold requestAlloc at ht
    split at ht
    · cases ht
    next tag u hu =>
    rw [hu] at hsame
    rw [(ih (s := t)).1,(ih (s := t)).2,← Option.some.inj ht]
    exact hsame

theorem Attributed.step (hn : NamesCommands queueRq) (h : Attributed q s) (e : QueueEvent)
    (he : Settles q s e) : Attributed q (queueStep queueRq q s e) := by
  refine ⟨h.toTracked.step hn e he,?_⟩
  obtain ⟨n,hring⟩ := h.ring
  cases e with
  | batch addrs =>
    rw [queueStep,(allocBatch_ring addrs).1,(allocBatch_ring addrs).2]
    exact ⟨n,hring⟩
  | submit addr =>
    simp only [queueStep,submitRq,handOver,tagsetBindRequest]
    split
    · exact ⟨n,hring⟩
    · split <;> exact ⟨n,hring⟩
  | drain =>
    rw [queueStep]
    cases hb : s.backlog with
    | nil =>
      rw [h.delivers.idle hb]
      exact ⟨n,hring⟩
    | cons e rest =>
      obtain ⟨a,r,-,-,hdrain⟩ := h.delivers.next e rest hb
      rw [hdrain]
      rw [hb] at hring
      exact ⟨n+1,hring.consume⟩
  | timeout => exact ⟨n,hring⟩
  | free addr =>
    simp only [queueStep,freeRequest,tagsetUnbindRequest]
    split
    · exact ⟨n,hring⟩
    · split_ifs <;> exact ⟨n,hring⟩
  | post c status result =>
    simp only [queueStep,devicePost]
    split
    · next hc => exact ⟨n,hring.post (by omega) _⟩
    · exact ⟨n,hring⟩

theorem freshQueue_attributed {depth : Nat} : Attributed q (freshQueue depth) where
  toTracked := freshQueue_tracked
  ring := ⟨0,PhaseRing.Holds.empty rfl rfl rfl rfl fun _ => rfl⟩

/-- If events meet the condition each completion goes to its request, and none stops the queue. -/
theorem completions_attributed (queueRq : Nat → Rq → Queued) (hn : NamesCommands queueRq)
    (q depth : Nat) (events : List QueueEvent)
    (h : Meets (queueStep queueRq q) (Settles q) (freshQueue depth) events) (k : Nat) :
    Delivers q (runAll (queueStep queueRq q) (freshQueue depth) (events.take k)) := by
  have hinv : Attributed q (runAll (queueStep queueRq q) (freshQueue depth) (events.take k)) :=
    runAll_invariant (fun s e hs he => hs.step hn e he) freshQueue_attributed (h.take k)
  exact hinv.delivers

/-- Three commands run out of time; the third and the first are answered and their requests freed. -/
def lateAnswers : List QueueEvent :=
  [.batch [1,2,3],.submit 1,.submit 2,.submit 3,.timeout,.timeout,.timeout,.post ⟨2,4099⟩ 0 0,
    .post ⟨0,4097⟩ 0 0,.drain,.drain,.free 3,.free 1]

/-- A batch that is given up takes the cursor around the row. -/
def givenUp : List QueueEvent := .batch (range' 5 60)::(range' 5 60).map .free

/-- Request 4 gets tag 1, with the second command still out. -/
def tagReused : List QueueEvent := [.batch [4],.submit 4,.post ⟨3,4097⟩ 0 0,.post ⟨1,4098⟩ 0 0]

def lateRun : List QueueEvent := lateAnswers++givenUp++tagReused

def lateState : QueueState :=
  runAll (queueStep countingDriver 0) (freshQueue 64) (lateRun.take 78)

theorem lateRun_settle :
    Meets (queueStep countingDriver 0) (Settles 0) (freshQueue 64) lateRun :=
  meets_below (n := 65) (fun _ _ => rfl) (by decide +kernel)

theorem completions_attributed_late : Delivers 0 lateState ∧
    (lateState.requests 4).map Rq.tag=some 1 ∧ lateState.backlog.map Entry.serial=[3,1] :=
  ⟨completions_attributed countingDriver countingDriver_names 0 64 lateRun lateRun_settle 78,
    by decide +kernel⟩

/-- A single command runs out of time and its request is freed. -/
def lateCommand : List QueueEvent := [.batch [1],.submit 1,.timeout,.free 1]

/-- The device answers it after the next command was submitted, and that one too. -/
def answeredLate : List QueueEvent := [.batch [2],.submit 2,.post ⟨0,4097⟩ 0 0,.post ⟨1,4098⟩ 0 0]

def allocAndFree : List QueueEvent := [.batch [3],.free 3]

/-- It answers it when the tag is another request's. -/
def answeredLater : List QueueEvent := [.batch [2],.submit 2,.post ⟨0,4097⟩ 0 0,.drain]

/-- The late entry stops the queue, or is taken for the completion of another request. -/
theorem late_completion_harms :
    (let s := runAll (queueStep countingDriver 0) (freshQueue 64) (lateCommand++answeredLate)
    s.backlog.length=2 ∧ (drainIoCompletion 0 s).1=eio ∧
      (drainIoCompletion 0 s).2.backlog.length=2) ∧
    (let s := runAll (queueStep countingDriver 0) (freshQueue 64)
      (lateCommand++(replicate 62 allocAndFree).flatten++answeredLater)
    (s.requests 2).map (fun r => (r.command,r.completed))=some (some 1,true) ∧
      s.device=[⟨1,4097⟩]) := by
  decide +kernel

end Kobox.Nvme
