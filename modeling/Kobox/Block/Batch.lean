import Kobox.Block.Disk

namespace Kobox.Block

open List Request

variable {σ : Type}

/-- The two routes of one kind of transfer: a callback for one request, and what serves a batch,
with whether a callback is behind it. -/
structure Route (σ : Type) where
  refusal : Int
  one : Option (Request → σ → Int × σ)
  ready : Bool
  many : List Request → σ → Int × σ
  count : Request → Counters → Counters
  counts : List Request → Counters → Counters
  counted : ∀ r rs c,counts (r::rs) c=(r::rs).foldl (fun c r => count r c) c

open Route

/-- The error of a request before any callback is asked. -/
def Request.fault (d : Disk σ) (r : Request) : Int :=
  if r.buffer=0 then einval else diskIoRangeValid d r.sector r.byteCount

theorem Request.fault_eq_zero {d : Disk σ} {r : Request} : r.fault d=0 ↔ r.malformed d=false := by
  by_cases hb : r.buffer=0
  · simp [fault,malformed,hb,einval]
  · simp [fault,malformed,hb]

def Route.single (t : Route σ) (d : Disk σ) (r : Request) (s : DiskIo σ) : Int × DiskIo σ :=
  if r.buffer=0 then (einval,s)
  else if t.refusal≠0 then (t.refusal,s)
  else if r.fault d≠0 then (r.fault d,s)
  else settle (t.count r) s (callOne t.one r s.world)

def Route.batch (t : Route σ) (d : Disk σ) (rs : List Request) (s : DiskIo σ) : Int × DiskIo σ :=
  if rs=[] then (einval,s)
  else if t.refusal≠0 then (t.refusal,s)
  else if rs.any (Request.malformed d) then (einval,s)
  else settle (t.counts rs) s (t.many rs s.world)

/-- The batch returns the first error of the single requests; without one it leaves what they
leave. -/
def SameOutcome (batch single : Int × DiskIo σ) : Prop :=
  batch.1=single.1 ∧ (single.1=0 → batch.2=single.2)

def Route.served (t : Route σ) (rs : List Request) (w : σ) : Int × σ := inOrder (callOne t.one) rs w

/-- The answers of an operation for which a callback may be missing. -/
def serving (ready : Bool) (perform : Request → σ → Int × σ) (r : Request) (w : σ) : Int × σ :=
  if ready then perform r w else (eopnotsupp,w)

/-- Both routes perform one operation, batches in order. -/
structure Route.Performs (t : Route σ) (perform : Request → σ → Int × σ) : Prop where
  one : callOne t.one=serving t.one.isSome perform
  many : t.many=inOrder (serving t.ready perform)

/-- When a batch cannot be told from its requests issued one by one: a refused disk is asked with a
buffer; else, of well formed requests, both routes have a callback or none has, or the operation is
not supported; and of others the first one refused is refused as the batch is. -/
def Route.Agrees (t : Route σ) (perform : Request → σ → Int × σ) (d : Disk σ) (first : Request)
    (rest : List Request) (w : σ) : Prop :=
  if t.refusal≠0 then first.buffer≠0
  else
    match (first::rest).find? (Request.malformed d) with
    | none => t.one.isSome=t.ready ∨ (inOrder perform (first::rest) w).1=eopnotsupp
    | some bad =>
      let before := t.served ((first::rest).takeWhile fun r => !r.malformed d) w
      before.1=einval ∨ (before.1=0 ∧ bad.fault d=einval)

/-- Where a callback is missing the first request is answered. -/
theorem serving_agree {perform : Request → σ → Int × σ} {one many : Bool} {r : Request}
    {rs : List Request} {w : σ} :
    ((inOrder (serving many perform) (r::rs) w).1=(inOrder (serving one perform) (r::rs) w).1 ∧
      ((inOrder (serving one perform) (r::rs) w).1=0 →
        (inOrder (serving many perform) (r::rs) w).2=(inOrder (serving one perform) (r::rs) w).2)) ↔
      one=many ∨ (inOrder perform (r::rs) w).1=eopnotsupp := by
  have h0 : eopnotsupp≠0 := by decide
  have hmissing : inOrder (serving false perform) (r::rs) w=(eopnotsupp,w) :=
    inOrder_cons_fail (show (serving false perform r w).1≠0 from h0)
  have hthere : serving true perform=perform := rfl
  cases one
  · cases many
    · simp
    · simp [hmissing,hthere,h0]
  · cases many
    · simp only [hmissing,hthere,Bool.true_eq_false,false_or]
      exact ⟨fun h => h.1.symm,fun h => ⟨h.symm,fun hz => absurd (h.symm.trans hz) h0⟩⟩
    · simp

section

variable {t : Route σ} {d : Disk σ} {r : Request} {rs : List Request} {s : DiskIo σ}

section

variable (ht : t.refusal=0)

include ht

theorem Route.single_served (hr : r.malformed d=false) :
    t.single d r s=settle (t.count r) s (callOne t.one r s.world) := by
  have hf := fault_eq_zero.mpr hr
  have hb : r.buffer≠0 := by
    intro hb
    simp [malformed,hb] at hr
  simp [single,ht,hf,hb]

theorem Route.single_fault (hr : r.malformed d=true) : t.single d r s=(r.fault d,s) := by
  have hf : r.fault d≠0 := fun h => by simp [fault_eq_zero.mp h] at hr
  by_cases hb : r.buffer=0
  · simp [single,fault,hb]
  · simp [single,ht,hf,hb]

theorem Route.singles_served (hrs : ∀ r∈rs,r.malformed d=false) :
    (inOrder (t.single d) rs s).1=(t.served rs s.world).1 ∧
      (inOrder (t.single d) rs s).2.world=(t.served rs s.world).2 := by
  apply inOrder_simulates (R := fun s w => s.world=w) (p := t.single d) (q := callOne t.one)
  · rintro r hr s w rfl
    rw [single_served ht (hrs r hr)]
    exact ⟨rfl,rfl⟩
  · rfl

theorem Route.singles_counted (hrs : ∀ r∈rs,r.malformed d=false)
    (hok : (inOrder (t.single d) rs s).1=0) :
    (inOrder (t.single d) rs s).2.counters=rs.foldl (fun c r => t.count r c) s.counters := by
  induction rs generalizing s with
  | nil => rfl
  | cons r rs ih =>
    have hone := single_served (s := s) ht (hrs r mem_cons_self)
    by_cases h : (t.single d r s).1=0
    · rw [inOrder_cons_ok h] at hok ⊢
      rw [ih (fun q hq => hrs q (mem_cons_of_mem _ hq)) hok,foldl_cons]
      rw [hone] at h ⊢
      simp only [settle] at h ⊢
      rw [if_pos h]
    · rw [inOrder_cons_fail h] at hok
      exact absurd hok h

theorem Route.batch_served (hrs : ∀ q∈r::rs,q.malformed d=false) :
    SameOutcome (t.batch d (r::rs) s) (inOrder (t.single d) (r::rs) s) ↔
      (t.many (r::rs) s.world).1=(t.served (r::rs) s.world).1 ∧ ((t.served (r::rs) s.world).1=0 →
          (t.many (r::rs) s.world).2=(t.served (r::rs) s.world).2) := by
  obtain ⟨hcode,hworld⟩ := singles_served (s := s) ht hrs
  have hany : (r::rs).any (malformed d)=false := by
    rw [any_eq_false]
    intro q hq
    simp [hrs q hq]
  have hbatch : t.batch d (r::rs) s=settle (t.counts (r::rs)) s (t.many (r::rs) s.world) := by
    simp [batch,ht,hany]
  unfold SameOutcome
  rw [hbatch,hcode]
  simp only [settle]
  constructor
  · rintro ⟨h1,h2⟩
    refine ⟨h1,fun h => ?_⟩
    rw [← hworld,← h2 h]
  · rintro ⟨h1,h2⟩
    refine ⟨h1,fun h => ?_⟩
    have hcount := singles_counted (s := s) ht hrs (hcode.trans h)
    have hmany : (t.many (r::rs) s.world).1=0 := h1.trans h
    rw [if_pos hmany,h2 h,← hworld,t.counted,← hcount]

theorem Route.singles_fault {bad : Request} (hbad : rs.find? (Request.malformed d)=some bad) :
    let before := t.served (rs.takeWhile fun r => !r.malformed d) s.world
    (inOrder (t.single d) rs s).1=if before.1=0 then bad.fault d else before.1 := by
  obtain ⟨hb,as,bs,rfl,has⟩ := find?_eq_some_iff_append.mp hbad
  have hfirst : (as++bad::bs).takeWhile (fun r => !r.malformed d)=as := by
    rw [takeWhile_append_of_pos (by simpa using has)]
    simp [hb]
  have hgood : ∀ q∈as,q.malformed d=false := fun q hq => by simpa using has q hq
  simp only [hfirst]
  obtain ⟨hcode,-⟩ := singles_served (s := s) ht hgood
  by_cases h : (t.served as s.world).1=0
  · have hfault : ∀ u,t.single d bad u=(bad.fault d,u) := fun u => single_fault ht hb
    have hne : bad.fault d≠0 := fun h => by simp [fault_eq_zero.mp h] at hb
    rw [if_pos h,inOrder_append_ok (hcode.trans h),inOrder_cons_fail (by rw [hfault]; exact hne),
      hfault]
  · rw [if_neg h,inOrder_append_fail (by rw [hcode]; exact h),hcode]

end

theorem Route.same_iff {t : Route σ} {perform : Request → σ → Int × σ} (hp : t.Performs perform)
    {d : Disk σ} {first : Request} {rest : List Request} (ht : t.refusal≠einval) {s : DiskIo σ} :
    SameOutcome (t.batch d (first::rest) s) (inOrder (t.single d) (first::rest) s) ↔
      t.Agrees perform d first rest s.world := by
  unfold Route.Agrees
  by_cases hopen : t.refusal=0
  · rw [if_neg (by simpa using hopen)]
    cases hfind : (first::rest).find? (malformed d) with
    | none =>
      have hgood : ∀ q∈first::rest,q.malformed d=false := fun q hq => by
        simpa using find?_eq_none.mp hfind q hq
      rw [batch_served hopen hgood,served,hp.one,hp.many]
      exact serving_agree
    | some bad =>
      -- the batch answers with one code whatever is wrong
      have hany : (first::rest).any (malformed d)=true :=
        any_eq_true.mpr ⟨bad,mem_of_find?_eq_some hfind,find?_some hfind⟩
      have hbatch : t.batch d (first::rest) s=(einval,s) := by
        simp [batch,hopen,hany]
      have hsingle := singles_fault (s := s) hopen hfind
      unfold SameOutcome
      rw [hbatch,hsingle]
      have he : einval≠0 := by decide
      by_cases h : (t.served ((first::rest).takeWhile fun r => !r.malformed d) s.world).1=0
      · have hbad := find?_some hfind
        have hne : bad.fault d≠0 := fun hz => by simp [fault_eq_zero.mp hz] at hbad
        simp only [h,true_and]
        constructor
        · exact fun hs => Or.inr hs.1.symm
        · rintro (hz|hz)
          · exact absurd hz.symm he
          · exact ⟨hz.symm,fun hf => absurd hf hne⟩
      · simp only [h,if_false,false_and,or_false]
        exact ⟨fun hs => hs.1.symm,fun hz => ⟨hz.symm,False.elim⟩⟩
  · rw [if_pos hopen]
    have hbatch : t.batch d (first::rest) s=(t.refusal,s) := by
      simp [batch,hopen]
    unfold SameOutcome
    rw [hbatch]
    by_cases hb : first.buffer=0
    · have hone : t.single d first s=(einval,s) := by simp [single,hb]
      rw [inOrder_cons_fail (by rw [hone]; exact (by decide : einval≠0)),hone]
      simp [hb,ht]
    · have hone : t.single d first s=(t.refusal,s) := by simp [single,hb,hopen]
      rw [inOrder_cons_fail (by rw [hone]; exact hopen),hone]
      simp [hb]

end

private theorem foldl_counted {γ : Type} (num : Nat → γ → γ) (add : γ → Request → γ)
    (hnum : ∀ m c,num (m+1) c=num m (num 1 c)) (hadd : ∀ m c r,add (num m c) r=num m (add c r))
    (r : Request) (rs : List Request) (c : γ) :
    (r::rs).foldl add (num (r::rs).length c)=(r::rs).foldl (fun c r => add (num 1 c) r) c := by
  induction rs generalizing r c with
  | nil => rfl
  | cons q rs ih =>
    have h := ih q (add (num 1 c) r)
    rw [← hadd,← hnum] at h
    exact h

theorem Counters.countReads_cons (r : Request) (rs : List Request) (c : Counters) :
    c.countReads (r::rs)=(r::rs).foldl (fun c r => c.countRead r) c := by
  apply foldl_counted (fun n (c : Counters) => { c with readCount := (c.readCount+n)%wordSize })
  · intro m c
    simp [Nat.add_comm m 1,Nat.add_assoc]
  · exact fun m c r => rfl

theorem Counters.countWrites_cons (r : Request) (rs : List Request) (c : Counters) :
    c.countWrites (r::rs)=(r::rs).foldl (fun c r => c.countWrite r) c := by
  apply foldl_counted (fun n (c : Counters) => { c with writeCount := (c.writeCount+n)%wordSize })
  · intro m c
    simp [Nat.add_comm m 1,Nat.add_assoc]
  · exact fun m c r => rfl

/-- Reads: `read_fn` for one, the batch callback or `read_fn` in order for many. -/
def reading (d : Disk σ) : Route σ where
  refusal := if d.dead || !d.registered then enodev else 0
  one := d.readFn
  ready := d.readBatchFn.isSome || d.readFn.isSome
  many := d.readBatchFn.getD (inOrder (callOne d.readFn))
  count r c := c.countRead r
  counts rs c := c.countReads rs
  counted := Counters.countReads_cons

/-- Writes: `write_flags_fn` before `write_fn` for one, but only `write_fn` for many. -/
def writing (d : Disk σ) : Route σ where
  refusal := if d.dead || !d.registered then enodev else if d.readOnly then erofs else 0
  one := (d.writeFlagsFn.map fun f r => f r 0).or d.writeFn
  ready := d.writeBatchFn.isSome || d.writeFn.isSome
  many := d.writeBatchFn.getD (inOrder (callOne d.writeFn))
  count r c := c.countWrite r
  counts rs c := c.countWrites rs
  counted := Counters.countWrites_cons

theorem diskRead_route (d : Disk σ) : diskRead (some d)=(reading d).single d := by
  funext r s
  by_cases hb : r.buffer=0
  · simp [diskRead,single,hb]
  by_cases hd : (d.dead || !d.registered)=true
  · simp [diskRead,single,reading,hd,enodev]
  by_cases hv : diskIoRangeValid d r.sector r.byteCount=0
  · cases hfn : d.readFn <;>
      simp [diskRead,single,reading,fault,callOne,settle,hb,hd,hfn,eopnotsupp]
  · simp [diskRead,single,reading,fault,hb,hd,hv]

theorem diskReadBatch_route (d : Disk σ) : diskReadBatch (some d)=(reading d).batch d := by
  funext rs s
  by_cases hd : (d.dead || !d.registered)=true
  · simp [diskReadBatch,batch,reading,hd,enodev]
  · cases hfn : d.readBatchFn <;> simp [diskReadBatch,batch,reading,hd,hfn]

theorem diskWrite_route (d : Disk σ) : diskWrite (some d)=(writing d).single d := by
  funext r s
  by_cases hb : r.buffer=0
  · simp [diskWrite,diskWriteFlags,single,hb]
  by_cases hd : (d.dead || !d.registered)=true
  · simp [diskWrite,diskWriteFlags,single,writing,hd,enodev]
  by_cases hro : d.readOnly=true
  · simp [diskWrite,diskWriteFlags,single,writing,hd,hro,erofs]
  by_cases hv : diskIoRangeValid d r.sector r.byteCount=0
  · cases hflags : d.writeFlagsFn <;> cases hfn : d.writeFn <;>
      simp [diskWrite,diskWriteFlags,single,writing,fault,callOne,settle,hb,hd,hro,hflags,hfn,eopnotsupp,writeFua]
  · simp [diskWrite,diskWriteFlags,single,writing,fault,hb,hd,hro,hv]

theorem diskWriteBatch_route (d : Disk σ) : diskWriteBatch (some d)=(writing d).batch d := by
  funext rs s
  by_cases hd : (d.dead || !d.registered)=true
  · simp [diskWriteBatch,batch,writing,hd,enodev]
  by_cases hro : d.readOnly=true
  · simp [diskWriteBatch,batch,writing,hd,hro,erofs]
  · cases hfn : d.writeBatchFn <;> simp [diskWriteBatch,batch,writing,hd,hro,hfn]

/-- The driver reads and writes with one operation each: its batch callbacks perform their requests
in order, and a write with no flags is a write. -/
structure Disk.Performs (d : Disk σ) (read write : Request → σ → Int × σ) : Prop where
  readFn : ∀ f∈d.readFn,f=read
  readBatchFn : ∀ f∈d.readBatchFn,f=inOrder read
  writeFn : ∀ f∈d.writeFn,f=write
  writeFlagsFn : ∀ f∈d.writeFlagsFn,(fun r => f r 0)=write
  writeBatchFn : ∀ f∈d.writeBatchFn,f=inOrder write

section

variable {d : Disk σ} {read write perform : Request → σ → Int × σ}

theorem callOne_serving {fn : Option (Request → σ → Int × σ)} (h : ∀ f∈fn,f=perform) :
    callOne fn=serving fn.isSome perform := by
  cases fn with
  | none => rfl
  | some f => exact h f rfl

theorem batch_serving {many : Option (List Request → σ → Int × σ)}
    {fn : Option (Request → σ → Int × σ)} (hmany : ∀ f∈many,f=inOrder perform)
    (h : ∀ f∈fn,f=perform) :
    many.getD (inOrder (callOne fn))=inOrder (serving (many.isSome || fn.isSome) perform) := by
  cases many with
  | none => exact congrArg inOrder (callOne_serving h)
  | some f => exact hmany f rfl

theorem Disk.Performs.reading (h : d.Performs read write) : (reading d).Performs read :=
  ⟨callOne_serving h.readFn,batch_serving h.readBatchFn h.readFn⟩

theorem Disk.Performs.writing (h : d.Performs read write) : (writing d).Performs write := by
  refine ⟨callOne_serving fun f hf => ?_,batch_serving h.writeBatchFn h.writeFn⟩
  rcases Option.or_eq_some_iff.mp hf with hf|hf
  · obtain ⟨g,hg,rfl⟩ := Option.map_eq_some_iff.mp hf
    exact h.writeFlagsFn g hg
  · exact h.writeFn f hf.2

end

/-- What the batch of a registered disk needs to answer as its requests one by one. -/
def BatchFits (route : Disk σ → Route σ) (perform : Request → σ → Int × σ) (disk : Option (Disk σ))
    (first : Request) (rest : List Request) (w : σ) : Prop :=
  match disk with
  | none => True
  | some d => (route d).Agrees perform d first rest w

/-- Batches against single requests, for reads and for writes. -/
theorem batches_equal_singles {read write : Request → σ → Int × σ} (disk : Option (Disk σ))
    (hd : ∀ d∈disk,d.Performs read write) (first : Request) (rest : List Request) (s : DiskIo σ) :
    (SameOutcome (diskReadBatch disk (first::rest) s) (inOrder (diskRead disk) (first::rest) s) ↔
      BatchFits reading read disk first rest s.world) ∧
    (SameOutcome (diskWriteBatch disk (first::rest) s) (inOrder (diskWrite disk) (first::rest) s) ↔
      BatchFits writing write disk first rest s.world) := by
  cases disk with
  | none =>
    constructor
    · exact iff_of_true ⟨rfl,fun _ => rfl⟩ trivial
    · exact iff_of_true ⟨rfl,fun _ => rfl⟩ trivial
  | some d =>
    have hr : (reading d).refusal≠einval := by
      simp only [reading]
      split <;> decide
    have hw : (writing d).refusal≠einval := by
      simp only [writing]
      split
      · decide
      · split <;> decide
    rw [diskRead_route,diskReadBatch_route,diskWrite_route,diskWriteBatch_route]
    exact ⟨same_iff (hd d rfl).reading hr,same_iff (hd d rfl).writing hw⟩

/-- A disk with all callbacks that keeps the sectors written and has a bad one. -/
def fullDisk : Disk (List Nat) where
  queue := none
  capacitySectors := 8
  registered := true
  readOnly := false
  dead := false
  readFn := some fun _ w => (0,w)
  readBatchFn := some (inOrder fun _ w => (0,w))
  writeFn := some fun r w => if r.sector=6 then (-5,w) else (0,r.sector::w)
  writeBatchFn := some (inOrder fun r w => if r.sector=6 then (-5,w) else (0,r.sector::w))
  writeFlagsFn := some fun r _ w => if r.sector=6 then (-5,w) else (0,r.sector::w)
  flushFn := none

theorem fullDisk_performs : fullDisk.Performs (fun _ w => (0,w))
    fun r w => if r.sector=6 then (-5,w) else (0,r.sector::w) := by
  constructor <;> rintro f ⟨⟩ <;> rfl

theorem batches_equal_singles_full :
    let disk := some fullDisk
    let io : DiskIo (List Nat) := ⟨[],⟨0,0,0,0⟩⟩
    let upTo sector : List Request := [⟨2,4096,512⟩,⟨sector,4096,512⟩]
    SameOutcome (diskWriteBatch disk (upTo 4) io) (inOrder (diskWrite disk) (upTo 4) io) ∧
      SameOutcome (diskWriteBatch disk (upTo 6) io) (inOrder (diskWrite disk) (upTo 6) io) := by
  have hboth := batches_equal_singles (some fullDisk) (fun _ h => by cases h; exact fullDisk_performs)
  exact ⟨(hboth _ _ _).2.mpr (.inl rfl),(hboth _ _ _).2.mpr (.inl rfl)⟩

/-- A disk of eight sectors that takes its writes through `write_flags_fn` only. -/
def smallDisk : Disk Nat where
  queue := none
  capacitySectors := 8
  registered := true
  readOnly := false
  dead := false
  readFn := some fun _ w => (0,w)
  readBatchFn := none
  writeFn := none
  writeBatchFn := none
  writeFlagsFn := some fun _ _ w => (0,w+1)
  flushFn := none

/-- A read behind the end has another error in a batch; a write that works alone fails in one. -/
theorem batch_differs : (diskRead (some smallDisk) ⟨8,4096,512⟩ ⟨0,⟨0,0,0,0⟩⟩).1=erange ∧
    (diskReadBatch (some smallDisk) [⟨8,4096,512⟩] ⟨0,⟨0,0,0,0⟩⟩).1=einval ∧
    diskWrite (some smallDisk) ⟨0,4096,512⟩ ⟨0,⟨0,0,0,0⟩⟩=(0,⟨1,⟨0,1,0,512⟩⟩) ∧
    (diskWriteBatch (some smallDisk) [⟨0,4096,512⟩] ⟨0,⟨0,0,0,0⟩⟩).1=eopnotsupp := by
  decide +kernel

end Kobox.Block
