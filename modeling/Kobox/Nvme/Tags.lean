import Kobox.Nvme.Queue

namespace Kobox.Nvme

open List Function QueueState

variable {queueRq : Nat → Rq → Queued} {q : Nat} {s : QueueState}

/-- The requests that are allocated and not freed have different tags. -/
def TagsDiffer (s : QueueState) : Prop :=
  ∀ a b ra rb,s.requests a=some ra → s.requests b=some rb → ra.tag=rb.tag → a=b

/-- The commands that the device may still complete have different identifiers. -/
def IdsDiffer (s : QueueState) : Prop := (s.outstanding.map Issued.commandId).Nodup

def AllBound (s : QueueState) : Prop := ∀ a r,s.requests a=some r → s.rqs r.tag=some a

/-- The request's last command, if it had one, was completed and consumed. -/
def Done (s : QueueState) (addr : Nat) : Prop :=
  ∀ r∈s.requests addr,∀ c∈s.outstanding,r.command≠some c.serial

/-- The requests of a batch are in memory of their own, all earlier ones are bound or freed, and the
batch has not more of them than there are unbound tags, or gets none. A request is submitted again or
freed only when done. -/
def Settles (q : Nat) (s : QueueState) : QueueEvent → Prop
  | .batch addrs => q<queueMax ∧ (addrs.Nodup ∧ ∀ a∈addrs,s.requests a=none) ∧ AllBound s ∧
      (addrs.length ≤ s.unbound ∨ s.unbound=0)
  | .submit addr => Done s addr
  | .free addr => Done s addr
  | _ => True

/-- The request at this address is bound to its tag and waits for this command. -/
structure Waits (s : QueueState) (c : Issued) (a : Nat) (r : Rq) : Prop where
  live : s.requests a=some r
  bound : s.rqs r.tag=some a
  command : r.command=some c.serial
  named : c.commandId=requestId r

structure Tracked (q : Nat) (s : QueueState) : Prop where
  tags : TagsDiffer s
  small : ∀ a r,s.requests a=some r → r.tag<tagsPerQueue
  inRow : ∀ a r,s.requests a=some r → q<queueMax
  ids : (s.outstanding.map fun c => commandTag c.commandId).Nodup
  waits : ∀ c∈s.outstanding,∃ a r,Waits s c a r

/-- A drain leaves all as it is, or completes a request and consumes an entry. -/
theorem drain_cases (q : Nat) (s : QueueState) : (drainIoCompletion q s).2=s ∨
    ∃ (e : Entry) (addr : Nat) (r : Rq),s.requests addr=some r ∧ (drainIoCompletion q s).2={ s with
      requests := update s.requests addr
        (some { r with completed := true
                       endStatus := e.status
                       result := e.result })
      cq := s.cq.consume
      backlog := s.backlog.tail } := by
  unfold drainIoCompletion
  split
  · exact Or.inl rfl
  split
  · exact Or.inl rfl
  split
  · exact Or.inl rfl
  next addr r hfound =>
  refine Or.inr ⟨s.cq.front,addr,r,?_,rfl⟩
  unfold entryRequest at hfound
  split at hfound
  · cases hfound
  split at hfound
  · cases hfound
  next _ _ _ hr =>
  split at hfound
  · cases hfound
    exact hr
  · cases hfound

theorem devicePost_frame (c : Issued) (status result : Nat) (s : QueueState) :
    (devicePost c status result s).rqs=s.rqs ∧
      (devicePost c status result s).requests=s.requests := by
  unfold devicePost
  split <;> exact ⟨rfl,rfl⟩

theorem commandTag_requestId {r : Rq} (h : r.tag<tagsPerQueue) : commandTag (requestId r)=r.tag := by
  simp only [commandTag,requestId,tagsPerQueue] at *
  omega

theorem commandGeneration_requestId {r : Rq} (h : r.tag<tagsPerQueue) :
    commandGeneration (requestId r)=r.generation%16 := by
  simp only [commandGeneration,requestId,tagsPerQueue] at *
  omega

theorem tagsetBindRequest_eq {tag addr : Nat} (hq : q<queueMax) (ht : tag<tagsPerQueue) :
    tagsetBindRequest q tag addr s={ s with rqs := update s.rqs tag (some addr) } :=
  if_neg (by omega)

theorem tagsetAllocTag_nil (hq : q<queueMax)
    (h : Block.unboundFrom tagsPerQueue s.rqs s.nextTag=[]) : tagsetAllocTag q s=(none,s) := by
  simp [tagsetAllocTag,if_neg (Nat.not_le.mpr hq),
    Block.scanTags_unboundFrom (show 2≤tagsPerQueue by decide),h]

theorem tagsetAllocTag_cons (hq : q<queueMax) {tag : Nat} {rest : List Nat}
    (h : Block.unboundFrom tagsPerQueue s.rqs s.nextTag=tag::rest) : tagsetAllocTag q s=
      (some tag,{ s with nextTag := if tagsPerQueue≤tag+1 then 1 else tag+1 }) := by
  simp [tagsetAllocTag,if_neg (Nat.not_le.mpr hq),
    Block.scanTags_unboundFrom (show 2≤tagsPerQueue by decide),h]

/-- The cursor behind a tag, where the row ends or not. -/
theorem unboundFrom_cursor {rqs : Nat → Option Nat} (tag : Nat) :
    Block.unboundFrom tagsPerQueue rqs (if tagsPerQueue≤tag+1 then 1 else tag+1)=
      Block.unboundFrom tagsPerQueue rqs (tag+1) := by
  split_ifs with h
  · simp only [Block.unboundFrom,Block.tagsFrom,Block.wrapTag]
    rw [if_neg (by decide),if_pos (Or.inr h)]
  · rfl

/-- The fields of a request that tell its commands apart. -/
def Rq.key (r : Rq) : Nat × Nat × Option Nat := (r.tag,r.generation,r.command)

theorem Rq.of_key {m m' : Option Rq} (h : m.map Rq.key=m'.map Rq.key) {r : Rq} (hm : m=some r) :
    ∃ r0,m'=some r0 ∧ r0.tag=r.tag ∧ r0.generation=r.generation ∧ r0.command=r.command := by
  rw [hm,Option.map_some] at h
  obtain ⟨r0,hr0,hkey⟩ := Option.map_eq_some_iff.mp h.symm
  simp only [Rq.key,Prod.mk.injEq] at hkey
  exact ⟨r0,hr0,hkey⟩

section

variable (h : Tracked q s)

include h

theorem Tracked.waits_tag {c : Issued} {a : Nat} {r : Rq} (hw : Waits s c a r) :
    commandTag c.commandId=r.tag := by
  rw [hw.named]
  exact commandTag_requestId (h.small a r hw.live)

/-- No command of a request that is done is out, nor one with its tag. -/
theorem Tracked.done {addr : Nat} {r : Rq} (hr : s.requests addr=some r) (hd : Done s addr)
    {c : Issued} {a : Nat} {ra : Rq} (hc : c∈s.outstanding) (hw : Waits s c a ra) :
    a≠addr ∧ ra.tag≠r.tag := by
  have hne : a≠addr := by
    rintro rfl
    exact hd ra hw.live c hc hw.command
  exact ⟨hne,fun ht => hne (h.tags a addr ra r hw.live hr ht)⟩

theorem Tracked.mono {t : QueueState} (hrqs : t.rqs=s.rqs)
    (hreq : ∀ a,(t.requests a).map Rq.key=(s.requests a).map Rq.key)
    (hout : t.outstanding.Subperm s.outstanding) : Tracked q t where
  tags a b ra rb ha hb he := by
    obtain ⟨ra0,ha0,hta,-⟩ := Rq.of_key (hreq a) ha
    obtain ⟨rb0,hb0,htb,-⟩ := Rq.of_key (hreq b) hb
    exact h.tags a b ra0 rb0 ha0 hb0 (by rw [hta,htb,he])
  small a r ha := by
    obtain ⟨r0,ha0,ht,-⟩ := Rq.of_key (hreq a) ha
    exact ht ▸ h.small a r0 ha0
  inRow a r ha := by
    obtain ⟨r0,ha0,-⟩ := Rq.of_key (hreq a) ha
    exact h.inRow a r0 ha0
  ids := by
    obtain ⟨l,hp,hs⟩ := hout
    exact (hp.map _).nodup_iff.mp (h.ids.sublist (hs.map _))
  waits c hc := by
    obtain ⟨a,r,hw⟩ := h.waits c (hout.subset hc)
    obtain ⟨r0,hr0,ht,hg,hcmd⟩ := Rq.of_key (hreq a).symm hw.live
    exact ⟨a,r0,hr0,by rw [hrqs,ht,hw.bound],hcmd.trans hw.command,
      by rw [requestId,ht,hg]; exact hw.named⟩

theorem Tracked.alloc {addr tag next : Nat} (hq : q<queueMax) (hsmall : tag<tagsPerQueue)
    (hfree : s.requests addr=none) (hnone : ∀ a r,s.requests a=some r → r.tag≠tag) :
    Tracked q { s with nextTag := next
                       requests := update s.requests addr (some ⟨tag,0,false,0,0,none⟩) } := by
  have hof : ∀ a r,update s.requests addr (some ⟨tag,0,false,0,0,none⟩) a=some r →
      (a=addr ∧ r.tag=tag) ∨ s.requests a=some r := by
    intro a r hr
    rw [update_apply] at hr
    split at hr
    · next he => exact Or.inl ⟨he,by rw [← Option.some.inj hr]⟩
    · exact Or.inr hr
  refine ⟨?_,?_,fun _ _ _ => hq,h.ids,?_⟩
  · intro a b ra rb ha hb he
    rcases hof a ra ha with ⟨hae,hta⟩|ha <;> rcases hof b rb hb with ⟨hbe,htb⟩|hb
    · rw [hae,hbe]
    · exact absurd (he.symm.trans hta) (hnone b rb hb)
    · exact absurd (he.trans htb) (hnone a ra ha)
    · exact h.tags a b ra rb ha hb he
  · intro a r hr
    rcases hof a r hr with ⟨-,ht⟩|hr
    · exact ht ▸ hsmall
    · exact h.small a r hr
  · intro c hc
    obtain ⟨a,r,hw⟩ := h.waits c hc
    have hne : a≠addr := fun he => by simp [← he,hw.live] at hfree
    exact ⟨a,r,by simpa [hne] using hw.live,hw.bound,hw.command,hw.named⟩

end

/-- The cursor goes around the unbound tags, so a batch meets none of its own tags again. -/
theorem Tracked.allocBatch (h : Tracked q s) (hq : q<queueMax) (addrs todo given : List Nat)
    (hrow : Block.unboundFrom tagsPerQueue s.rqs s.nextTag=todo++given)
    (hlive : ∀ a r,s.requests a=some r → s.rqs r.tag=some a ∨ r.tag∈given)
    (hlen : addrs.length ≤ todo.length) (hnodup : addrs.Nodup)
    (hfree : ∀ a∈addrs,s.requests a=none) : Tracked q (allocBatch q addrs s) := by
  induction addrs generalizing s todo given with
  | nil => exact h
  | cons addr addrs ih =>
    obtain ⟨tag,todo,rfl⟩ := exists_cons_of_length_pos (Nat.zero_lt_of_lt hlen)
    rw [cons_append] at hrow
    have hmem : tag∈Block.unboundFrom tagsPerQueue s.rqs s.nextTag := hrow ▸ mem_cons_self
    obtain ⟨⟨-,hsmall⟩,hunbound⟩ := (Block.mem_unboundFrom (by decide)).mp hmem
    have hnew : tag∉todo++given := by
      have hn : (Block.unboundFrom tagsPerQueue s.rqs s.nextTag).Nodup :=
        Block.unboundFrom_nodup (by decide)
      rw [hrow] at hn
      exact (nodup_cons.mp hn).1
    have hnone : ∀ a r,s.requests a=some r → r.tag≠tag := by
      rintro a r hr rfl
      rcases hlive a r hr with hb|hg
      · simp [hunbound] at hb
      · exact hnew (mem_append_right _ hg)
    simp only [Kobox.Nvme.allocBatch,requestAlloc,tagsetAllocTag_cons hq hrow]
    apply ih (h.alloc hq hsmall (hfree addr mem_cons_self) hnone) todo (given++[tag])
    · rw [unboundFrom_cursor,Block.unboundFrom_next (by decide) hrow,append_assoc]
    · intro a r hr
      simp only [update_apply] at hr
      split at hr
      · rw [← Option.some.inj hr]
        simp
      · exact (hlive a r hr).imp_right (mem_append_left _)
    · simpa using hlen
    · exact (nodup_cons.mp hnodup).2
    · intro a ha
      have hne : a≠addr := fun he => (nodup_cons.mp hnodup).1 (he ▸ ha)
      simpa [hne] using hfree a (mem_cons_of_mem _ ha)

theorem allocBatch_full (hq : q<queueMax) (hnone : s.unbound=0) (addrs : List Nat) :
    allocBatch q addrs s=s := by
  cases addrs with
  | nil => rfl
  | cons addr addrs =>
    have hnil : Block.unboundFrom tagsPerQueue s.rqs s.nextTag=[] := by
      rw [← length_eq_zero_iff,Block.length_unboundFrom (by decide)]
      exact hnone
    simp [allocBatch,requestAlloc,tagsetAllocTag_nil hq hnil]

section

variable (h : Tracked q s)

include h

theorem Tracked.batch {addrs : List Nat} (he : Settles q s (.batch addrs)) :
    Tracked q (Kobox.Nvme.allocBatch q addrs s) := by
  obtain ⟨hq,⟨hnodup,hfree⟩,hbound,hlen|hnone⟩ := he
  · apply h.allocBatch hq addrs _ [] (append_nil _).symm (fun a r hr => Or.inl (hbound a r hr)) _
      hnodup hfree
    rwa [Block.length_unboundFrom (by decide)]
  · rwa [allocBatch_full hq hnone]

theorem Tracked.submit (hn : NamesCommands queueRq) {addr : Nat} (hd : Done s addr) :
    Tracked q (submitRq queueRq q addr s) := by
  unfold submitRq
  cases hreq : s.requests addr with
  | none => exact h
  | some r =>
  have hsmall := h.small addr r hreq
  have hrow := h.inRow addr r hreq
  have htag := hn.tag s.serials r
  have hid := hn.id s.serials r
  dsimp only
  rw [tagsetBindRequest_eq hrow hsmall]
  generalize queueRq s.serials r=x at htag hid ⊢
  have hof : ∀ a ra,(handOver addr r x { s with rqs := update s.rqs r.tag (some addr) }).requests a=
      some ra → ∃ r0,s.requests a=some r0 ∧ r0.tag=ra.tag := by
    intro a ra ha
    simp only [handOver,update_apply] at ha
    split at ha
    · next he =>
      rw [← Option.some.inj ha]
      exact ⟨r,he ▸ hreq,htag.symm⟩
    · exact ⟨ra,ha,rfl⟩
  have hperm : (handOver addr r x { s with rqs := update s.rqs r.tag (some addr) }).outstanding.Perm
      (x.commandId.toList.map (Issued.mk s.serials)++s.outstanding) := by
    simp only [handOver,outstanding,append_assoc]
    exact perm_append_comm_assoc ..
  refine ⟨?_,?_,fun _ _ _ => hrow,?_,?_⟩
  · intro a b ra rb ha hb he
    obtain ⟨ra0,ha0,hta⟩ := hof a ra ha
    obtain ⟨rb0,hb0,htb⟩ := hof b rb hb
    exact h.tags a b ra0 rb0 ha0 hb0 (by rw [hta,htb,he])
  · intro a ra ha
    obtain ⟨ra0,ha0,hta⟩ := hof a ra ha
    exact hta ▸ h.small a ra0 ha0
  · rw [(hperm.map _).nodup_iff,map_append]
    cases hx : x.commandId with
    | none => exact h.ids
    | some id =>
      refine nodup_cons.mpr ⟨fun hin => ?_,h.ids⟩
      obtain ⟨c,hc,he⟩ := mem_map.mp hin
      obtain ⟨a,ra,hw⟩ := h.waits c hc
      apply (h.done hreq hd hc hw).2
      have hnamed : commandTag id=r.tag := by
        rw [hid id hx,commandTag_requestId (htag ▸ hsmall),htag]
      exact (h.waits_tag hw).symm.trans (he.trans hnamed)
  · intro c hc
    rcases mem_append.mp (hperm.mem_iff.mp hc) with hnew|hold
    · obtain ⟨id,hx,rfl⟩ := mem_map.mp hnew
      have hx := Option.mem_toList.mp hx
      refine ⟨addr,_,update_self ..,?_,?_,hid id hx⟩
      · simp [handOver,htag]
      · rw [if_neg (by simp [Option.mem_def.mp hx])]
    · obtain ⟨a,ra,hw⟩ := h.waits c hold
      obtain ⟨hne,ht⟩ := h.done hreq hd hold hw
      exact ⟨a,ra,by simpa [handOver,hne] using hw.live,by simpa [handOver,ht] using hw.bound,
        hw.command,hw.named⟩

theorem Tracked.free {addr : Nat} (hd : Done s addr) : Tracked q (freeRequest q addr s) := by
  unfold freeRequest
  cases hreq : s.requests addr with
  | none => exact h
  | some r =>
  have hof : ∀ a ra,update s.requests addr none a=some ra → s.requests a=some ra := by
    intro a ra ha
    rw [update_apply] at ha
    split at ha
    · cases ha
    · exact ha
  have hout : (tagsetUnbindRequest q r.tag addr s).outstanding=s.outstanding := by
    unfold tagsetUnbindRequest
    split_ifs <;> rfl
  refine ⟨fun a b ra rb ha hb => h.tags a b ra rb (hof a ra ha) (hof b rb hb),
    fun a ra ha => h.small a ra (hof a ra ha),fun a ra ha => h.inRow a ra (hof a ra ha),
    hout ▸ h.ids,?_⟩
  intro c hc
  have hc : c∈s.outstanding := hout ▸ hc
  obtain ⟨a,ra,hw⟩ := h.waits c hc
  obtain ⟨hne,ht⟩ := h.done hreq hd hc hw
  refine ⟨a,ra,by simpa [hne] using hw.live,?_,hw.command,hw.named⟩
  have hkept : (tagsetUnbindRequest q r.tag addr s).rqs ra.tag=s.rqs ra.tag := by
    unfold tagsetUnbindRequest
    split_ifs
    · rfl
    · exact update_of_ne ht _ _
    · rfl
  exact hkept.trans hw.bound

theorem Tracked.drain : Tracked q (drainIoCompletion q s).2 := by
  rcases drain_cases q s with hsame|⟨e,addr,r,hreq,hdrain⟩
  · rwa [hsame]
  rw [hdrain]
  refine h.mono rfl (fun a => ?_) ?_
  · simp only [update_apply]
    split
    · next he =>
      rw [he,hreq]
      rfl
    · rfl
  · exact ((tail_sublist _).map _).append_left _ |>.subperm

end

theorem devicePost_outstanding (c : Issued) (status result : Nat) (s : QueueState) :
    (devicePost c status result s).outstanding.Perm s.outstanding := by
  unfold devicePost
  split
  · next hc =>
    simp only [outstanding,map_append]
    rw [← append_assoc]
    have hback : ∀ l : List Issued,(s.device.erase c++l++[c]).Perm (s.device++l) := by
      intro l
      have hlast := perm_append_singleton c (s.device.erase c++l)
      exact hlast.trans ((perm_cons_erase hc.1).symm.append_right l)
    exact hback _
  · exact Perm.refl _

theorem Tracked.post (h : Tracked q s) (c : Issued) (status result : Nat) :
    Tracked q (devicePost c status result s) := by
  obtain ⟨hrqs,hreq⟩ := devicePost_frame c status result s
  exact h.mono hrqs (fun a => by rw [hreq]) (devicePost_outstanding c status result s).subperm

theorem Tracked.step (hn : NamesCommands queueRq) (h : Tracked q s) (e : QueueEvent)
    (he : Settles q s e) : Tracked q (queueStep queueRq q s e) := by
  cases e with
  | batch addrs => exact h.batch he
  | submit addr => exact h.submit hn he
  | drain => exact h.drain
  | timeout => exact h
  | free addr => exact h.free he
  | post c status result => exact h.post c status result

theorem freshQueue_tracked {depth : Nat} : Tracked q (freshQueue depth) where
  tags a b ra rb h := by cases h
  small a r h := by cases h
  inRow a r h := by cases h
  ids := nodup_nil
  waits c h := by cases h

/-- Tags and command identifiers are unique along every run whose events meet the condition. -/
theorem tags_unique (queueRq : Nat → Rq → Queued) (hn : NamesCommands queueRq) (q depth : Nat)
    (events : List QueueEvent)
    (h : Meets (queueStep queueRq q) (Settles q) (freshQueue depth) events) (k : Nat) :
    TagsDiffer (runAll (queueStep queueRq q) (freshQueue depth) (events.take k)) ∧
      IdsDiffer (runAll (queueStep queueRq q) (freshQueue depth) (events.take k)) := by
  have hinv : Tracked q (runAll (queueStep queueRq q) (freshQueue depth) (events.take k)) :=
    runAll_invariant (fun s e hs he => hs.step hn e he) freshQueue_tracked (h.take k)
  refine ⟨hinv.tags,?_⟩
  have hids := hinv.ids
  rw [show (fun c : Issued => commandTag c.commandId)=commandTag∘Issued.commandId from rfl,
    ← map_map] at hids
  exact hids.of_map

/-- Requests are at addresses below this one only. -/
def Within (n : Nat) (s : QueueState) : Prop := ∀ a,n≤a → s.requests a=none

/-- The condition where requests are looked for below an address only, so that it can be checked. -/
def SettlesBelow (n q : Nat) (s : QueueState) : QueueEvent → Prop
  | .batch addrs => q<queueMax ∧ (addrs.Nodup ∧ ∀ a∈addrs,s.requests a=none ∧ a<n) ∧
      (∀ a<n,∀ r∈s.requests a,s.rqs r.tag=some a) ∧ (addrs.length ≤ s.unbound ∨ s.unbound=0)
  | .submit addr => Done s addr
  | .free addr => Done s addr
  | _ => True

instance Done.decidable (s : QueueState) (addr : Nat) : Decidable (Done s addr) :=
  inferInstanceAs (Decidable (∀ r∈s.requests addr,∀ c∈s.outstanding,r.command≠some c.serial))

instance SettlesBelow.decidable (n q : Nat) (s : QueueState) :
    (e : QueueEvent) → Decidable (SettlesBelow n q s e)
  | .batch _ => instDecidableAnd
  | .submit addr => Done.decidable s addr
  | .free addr => Done.decidable s addr
  | .drain => isTrue trivial
  | .timeout => isTrue trivial
  | .post .. => isTrue trivial

theorem allocBatch_other {a : Nat} {addrs : List Nat} (ha : a∉addrs) :
    (allocBatch q addrs s).requests a=s.requests a := by
  induction addrs generalizing s with
  | nil => rfl
  | cons addr addrs ih =>
    rw [mem_cons,not_or] at ha
    unfold allocBatch
    split
    · rfl
    next t ht =>
    have hsame : (tagsetAllocTag q s).2.requests=s.requests := by
      unfold tagsetAllocTag
      split
      · rfl
      · split <;> rfl
    unfold requestAlloc at ht
    split at ht
    · cases ht
    next tag u hu =>
    rw [hu] at hsame
    rw [ih ha.2,← Option.some.inj ht]
    exact (update_of_ne ha.1 _ _).trans (congrFun hsame a)

theorem Within.update {n addr : Nat} {r : Rq} {o : Option Rq} {t : QueueState} (h : Within n s)
    (hr : s.requests addr=some r) (ht : t.requests=update s.requests addr o) : Within n t := by
  intro a ha
  have hne : a≠addr := fun he => by simp [← he,h a ha] at hr
  rw [ht,update_of_ne hne,h a ha]

theorem Within.step {n : Nat} (h : Within n s) (e : QueueEvent) (he : SettlesBelow n q s e) :
    Within n (queueStep queueRq q s e) := by
  cases e with
  | batch addrs =>
    intro a ha
    have hout : a∉addrs := fun hin => absurd (he.2.1.2 a hin).2 (Nat.not_lt.mpr ha)
    exact (allocBatch_other hout).trans (h a ha)
  | submit addr =>
    simp only [queueStep,submitRq]
    split
    · exact h
    next r hr =>
    apply h.update hr
    unfold tagsetBindRequest
    split <;> rfl
  | drain =>
    rcases drain_cases q s with hsame|⟨e,addr,r,hr,hdrain⟩
    · rwa [queueStep,hsame]
    · exact h.update hr (by rw [queueStep,hdrain])
  | timeout => exact h
  | free addr =>
    simp only [queueStep,freeRequest]
    split
    · exact h
    next r hr => exact h.update hr rfl
  | post c status result =>
    intro a ha
    rw [queueStep,(devicePost_frame c status result s).2,h a ha]

theorem Within.settles {n : Nat} (h : Within n s) {e : QueueEvent} (he : SettlesBelow n q s e) :
    Settles q s e := by
  cases e with
  | batch addrs =>
    obtain ⟨hq,⟨hnodup,hfree⟩,hbound,hlen⟩ := he
    refine ⟨hq,⟨hnodup,fun a ha => (hfree a ha).1⟩,fun a r hr => ?_,hlen⟩
    by_cases ha : a<n
    · exact hbound a ha r hr
    · rw [h a (Nat.not_lt.mp ha)] at hr
      cases hr
  | submit addr => exact he
  | free addr => exact he
  | _ => trivial

theorem meets_below {n : Nat} {events : List QueueEvent} (hs : Within n s)
    (h : Meets (queueStep queueRq q) (SettlesBelow n q) s events) :
    Meets (queueStep queueRq q) (Settles q) s events := by
  induction events generalizing s with
  | nil => trivial
  | cons e events ih => exact ⟨hs.settles h.1,ih (hs.step e h.1) h.2⟩

/-- A driver that counts the commands of each request, starts it and takes every one. -/
def countingDriver (_ : Nat) (r : Rq) : Queued :=
  let r := { r with generation := (r.generation+1)%256
                    completed := false
                    endStatus := 0 }
  ⟨r,some (requestId r)⟩

theorem countingDriver_names : NamesCommands countingDriver where
  tag _ _ := rfl
  id _ _ _ h := (Option.some.inj h).symm

/-- Two requests run out of time and are kept; one is answered late, and a batch of two follows. -/
def keptRequests : List QueueEvent :=
  [.batch [1,2],.submit 1,.submit 2,.timeout,.timeout,.batch [3],.submit 3,.post ⟨1,4098⟩ 0 0,.drain,
    .free 2,.batch [2,4],.submit 4]

def keptState : QueueState :=
  runAll (queueStep countingDriver 0) (freshQueue 64) (keptRequests.take 12)

theorem tags_unique_kept : (TagsDiffer keptState ∧ IdsDiffer keptState) ∧
    [1,2,3,4].map (fun a => (keptState.requests a).map Rq.tag)=[some 1,some 4,some 3,some 5] ∧
    keptState.outstanding.map Issued.commandId=[4097,4099,4101] :=
  ⟨tags_unique countingDriver countingDriver_names 0 64 keptRequests
    (meets_below (n := 8) (fun _ _ => rfl) (by decide +kernel)) 12,by decide +kernel⟩

/-- 32 commands run out of time and keep their tags; then come those of the next batch. -/
def twoBatches : List QueueEvent :=
  [.batch (range' 1 32)]++(range' 1 32).map .submit++replicate 32 .timeout++[.batch (range' 33 32)]

/-- The last allocation comes around to the tag of the first of its batch. -/
theorem batch_repeats_tag :
    let s := runAll (queueStep countingDriver 0) (freshQueue 64) twoBatches
    (s.requests 33).map Rq.tag=some 33 ∧ (s.requests 64).map Rq.tag=some 33 := by
  decide +kernel

end Kobox.Nvme
