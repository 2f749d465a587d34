import Kobox.Fs.BufferCalls

namespace Kobox.Fs

open List Prog Emits FsState

/-- Bytes written from a sector on hold `data` at a byte offset of the disk. -/
def PutsAt (offset : Nat) (data : List UInt8) (sector : Nat) (bytes : List UInt8) : Prop :=
  ∃ skip,offset=sector*512+skip ∧ (bytes.drop skip).take data.length=data

/-- The request writes `data` to a byte offset of the disk. -/
def Request.Puts (offset : Nat) (data : List UInt8) : Request → Prop
  | .write sector bytes => PutsAt offset data sector bytes
  | .writeBatch parts => ∃ p∈parts,PutsAt offset data p.1 p.2
  | .writeFlags sector bytes _ => PutsAt offset data sector bytes
  | _ => False

/-- A write the disk has taken, of the n bytes at an address to a byte offset of the device. -/
def Event.Stores (d : BlockDevice) (offset address n : Nat) : Event → Prop
  | .disk e r status mem =>
    e=d ∧ status=0 ∧ r.Puts (d.startSector*512+offset) (mem.slice address n)
  | _ => False

variable {δ : Type} {env : Env δ} {s t : FsState δ} {d : BlockDevice} {offset address n : Nat}

def Stored (d : BlockDevice) (offset address n : Nat) (s t : FsState δ) : Prop :=
  Grows FsState.trace (fun es => ∃ e∈es,e.Stores d offset address n) s t

def Remembers (s t : FsState δ) : Prop := Emits FsState.trace (fun _ => True) s t

variable {u : FsState δ}

theorem Stored.before (h : Remembers s t) (k : Stored d offset address n t u) :
    Stored d offset address n s u := by
  obtain ⟨es,hes,_⟩ := h
  obtain ⟨ws,hws,e,he,hst⟩ := k
  exact ⟨es++ws,by rw [hws,hes,append_assoc],e,mem_append_right _ he,hst⟩

theorem Stored.after (h : Stored d offset address n s t) (k : Remembers t u) :
    Stored d offset address n s u := by
  obtain ⟨es,hes,e,he,hst⟩ := h
  obtain ⟨ws,hws,_⟩ := k
  exact ⟨es++ws,by rw [hws,hes,append_assoc],e,mem_append_left _ he,hst⟩

theorem Transferred.remembers (h : Transferred s t) : Remembers s t :=
  mono h.emits fun _ _ => trivial

theorem ask_ok {r : Request} {x : Reply → Prog (FsState δ) Int Unit}
    (h : (ask env d r >>= x) s=(.ok (),t)) :
    ∃ reply u,u.trace=s.trace++[.disk d r reply.status s.mem] ∧ u.mem=s.mem ∧
      x reply u=(.ok (),t) := by
  obtain ⟨reply,u,ha,hb⟩ := bind_eq_ok.mp h
  cases ha
  refine ⟨_,_,?_,?_,hb⟩ <;> rfl

variable {status : Int}

theorem checkStatus_ok {u v : FsState δ} (h : checkStatus status u=(.ok (),v)) :
    status=0 ∧ v=u := by
  unfold checkStatus at h
  split at h
  · next h0 => exact ⟨h0,by cases h; rfl⟩
  · cases h

theorem Stored.one {r : Request} (ht : t.trace=s.trace++[.disk d r 0 s.mem])
    (hr : r.Puts (d.startSector*512+offset) (s.mem.slice address n)) :
    Stored d offset address n s t :=
  ⟨[_],ht,_,mem_singleton_self _,rfl,rfl,hr⟩

theorem bounceRange_ok {data : List UInt8} {range : Nat × Nat}
    (h : bounceRange d offset data.length=.ok range) (hd : offset+data.length≤d.sizeBytes)
    {b : Bytes} :
    PutsAt (d.startSector*512+offset) data range.1 ((b.put (offset%512) data).slice 0 range.2) := by
  have hsize := d.sized
  have hword := d.inWord
  simp only [bounceRange] at h
  split_ifs at h with h1 h2 h3
  cases h
  simp only [sectorSize,wordSize] at *
  refine ⟨offset%512,by omega,?_⟩
  rw [Bytes.slice_part _ (by omega),Nat.zero_add,Bytes.slice_put]

theorem blockDiskWrite_ok {data : List UInt8} (hdata : data=s.mem.slice address n)
    (hd : offset+n≤d.sizeBytes) (h : blockDiskWrite env d offset data s=(.ok (),t)) :
    Stored d offset address n s t := by
  have hlen : data.length=n := by rw [hdata,Bytes.slice_length]
  unfold blockDiskWrite at h
  split at h
  · split at h
    · cases h
    obtain ⟨reply,u,hu,_,hc⟩ := ask_ok h
    obtain ⟨h0,rfl⟩ := checkStatus_ok hc
    rw [h0] at hu
    refine Stored.one hu ?_
    rw [← hdata]
    refine ⟨0,?_,by simp⟩
    omega
  · obtain ⟨range,u,hr,h⟩ := bind_eq_ok.mp h
    obtain ⟨hrange,rfl⟩ := ofExcept_eq_ok.mp hr
    obtain ⟨allocated,v,hv,h⟩ := bind_eq_ok.mp h
    cases hv
    split at h
    · cases h
    obtain ⟨reply,u,hu,hmem,h1⟩ := ask_ok h
    obtain ⟨_,v,hv,h2⟩ := bind_eq_ok.mp h1
    obtain ⟨_,rfl⟩ := checkStatus_ok hv
    obtain ⟨reply',w,hw,_,hc⟩ := ask_ok h2
    obtain ⟨h0,rfl⟩ := checkStatus_ok hc
    rw [h0] at hw
    refine Stored.before ⟨_,hu,fun _ _ => trivial⟩ (Stored.one hw ?_)
    rw [hmem, ← hdata]
    exact bounceRange_ok hrange (by rw [hlen]; exact hd)

theorem onActiveDevice_trace {f : FsState δ → FsState δ} (hf : ∀ u,(f u).trace=u.trace)
    (h : onActiveDevice d f s=(.ok (),t)) : t.trace=s.trace := by
  rw [← (Prod.mk.inj h).2]
  dsimp only
  split_ifs
  · exact hf s
  · rfl

theorem cacheUpdate_trace {offset : Nat} {source : Source} {size : Nat}
    (s : FsState δ) : (updateBufferCacheFromWrite offset source size s).trace=s.trace := by
  simp only [updateBufferCacheFromWrite]
  split_ifs <;> rfl

theorem deviceWrite_ok {size : Nat}
    (h : kbFsBlockDeviceWrite env d offset address size s=(.ok (),t)) :
    Stored d offset address size s t := by
  unfold kbFsBlockDeviceWrite at h
  split at h
  · cases h
  obtain ⟨_,u,hu,h⟩ := bind_eq_ok.mp h
  obtain ⟨hvalid,rfl⟩ := ofExcept_eq_ok.mp hu
  obtain ⟨_,v,hv,h⟩ := bind_eq_ok.mp h
  cases hv
  obtain ⟨_,w,hw,h⟩ := bind_eq_ok.mp h
  have hst := blockDiskWrite_ok rfl (rangeValid_ok.mp hvalid).2.2 hw
  exact hst.after (silent (onActiveDevice_trace
    (cacheUpdate_trace) h))

theorem batchSectors_zip {requests : List IoRequest} {sectors : List Nat}
    (h : requests.mapM (batchSector d)=.ok sectors) {data : IoRequest → List UInt8}
    {r : IoRequest} (hr : r∈requests) :
    r.offset%512=0 ∧ (d.startSector+r.offset/512,data r)∈sectors.zip (requests.map data) := by
  induction requests generalizing sectors with
  | nil => cases hr
  | cons q rs ih =>
    rw [mapM_cons] at h
    cases hq : batchSector d q with
    | error e =>
      rw [hq] at h
      cases h
    | ok sector =>
      cases hrest : rs.mapM (batchSector d) with
      | error e =>
        rw [hq,hrest] at h
        cases h
      | ok rest =>
        rw [hq,hrest] at h
        cases h
        rcases mem_cons.mp hr with h0|h0
        · subst h0
          unfold batchSector at hq
          split_ifs at hq with h1 h2
          cases hq
          exact ⟨by omega,mem_cons_self⟩
        · obtain ⟨h1,h2⟩ := ih hrest h0
          exact ⟨h1,mem_cons_of_mem _ h2⟩

theorem deviceWriteBatch_ok {requests : List IoRequest} {r : IoRequest}
    (hr : r∈requests) (h : kbFsBlockDeviceWriteBatch env d requests s=(.ok (),t)) :
    Stored d r.offset r.buffer r.size s t := by
  unfold kbFsBlockDeviceWriteBatch at h
  split at h
  · cases h
  · next q =>
    obtain rfl : r=q := by simpa using hr
    exact deviceWrite_ok h
  obtain ⟨_,u,hu,h1⟩ := bind_eq_ok.mp h
  obtain ⟨_,rfl⟩ := ofExcept_eq_ok.mp hu
  obtain ⟨_,v,hv,h2⟩ := bind_eq_ok.mp h1
  have hlast : t.trace=v.trace := by
    apply onActiveDevice_trace _ h2
    intro w
    have hfold : ∀ (rs : List IoRequest) (w : FsState δ),(rs.foldl (fun s r =>
        updateBufferCacheFromWrite r.offset (.memory r.buffer) r.size s) w).trace=w.trace := by
      intro rs
      induction rs with
      | nil => exact fun _ => rfl
      | cons q rs ih =>
        intro w
        rw [foldl_cons,ih,cacheUpdate_trace]
    exact hfold _ w
  refine Stored.after ?_ (silent hlast)
  obtain ⟨_,w,hw,h3⟩ := bind_eq_ok.mp hv
  obtain ⟨_,rfl⟩ := ofExcept_eq_ok.mp hw
  obtain ⟨sectors,w,hw,h4⟩ := bind_eq_ok.mp h3
  obtain ⟨hsectors,rfl⟩ := ofExcept_eq_ok.mp hw
  obtain ⟨_,w,hw,h5⟩ := bind_eq_ok.mp h4
  cases hw
  obtain ⟨reply,w,hw,_,hc⟩ := ask_ok h5
  obtain ⟨h0,rfl⟩ := checkStatus_ok hc
  rw [h0] at hw
  obtain ⟨hal,hpart⟩ := batchSectors_zip hsectors hr
  refine Stored.one hw ⟨_,hpart,0,?_,?_⟩
  · omega
  · simp [requestData]

/-- A bio that writes the n bytes at an address to a byte offset of a device, and nothing else. -/
structure OneWrite (env : Env δ) (s : FsState δ) (bio : Nat) (d : BlockDevice)
    (offset address n : Nat) : Prop where
  op : (s.bios bio).bio.op=opWrite
  fua : (s.bios bio).bio.hasFua=false
  preflush : (s.bios bio).bio.hasPreflush=false
  device : blockDeviceForBdev s (s.bios bio).bio.bdev=some d
  sector : (s.bios bio).bio.sector*512=offset
  vector : ∃ v : BioVec,(s.bios bio).bio.vectors=[v] ∧ v.buffer env s=address ∧ v.length=n

variable {bio : Nat}

theorem OneWrite.moved (h : OneWrite env s bio d offset address n)
    (hb : ∃ status,(t.bios bio).bio={ (s.bios bio).bio with status := status })
    (hp : t.pages=s.pages) (hs : SameSettings s t) : OneWrite env t bio d offset address n := by
  obtain ⟨status,hb⟩ := hb
  obtain ⟨v,h1,h2,h3⟩ := h.vector
  have hbuffer : v.buffer env t=v.buffer env s := by
    unfold BioVec.buffer pagePayload folioPagePayload
    rw [hp]
  refine ⟨?_,?_,?_,?_,?_,v,?_,hbuffer.trans h2,h3⟩
  · rw [hb]
    exact h.op
  · rw [hb]
    exact h.fua
  · rw [hb]
    exact h.preflush
  · rw [hs.device,hb]
    exact h.device
  · rw [hb]
    exact h.sector
  · rw [hb]
    exact h1

theorem transferVectors_one {b : Bio} {v : BioVec} {durable : Bool} (hop : b.op=opWrite)
    (hfua : b.hasFua=false) (h : transferVectors env d b offset false [v] s=(.ok durable,u)) :
    Stored d offset (v.buffer env s) v.length s u := by
  obtain ⟨r,t,h1,h2⟩ := bind_eq_ok.mp h
  have hu : u=t := by
    split at h2
    · cases h2
    · cases h2
      rfl
  rw [hu]
  unfold transferVector at h1
  rw [if_neg (by rw [hop]; decide),if_pos hop,if_neg (by simp [Bio.needsFua,hfua])] at h1
  obtain ⟨_,w,hw,h3⟩ := bind_eq_ok.mp h1
  cases hw
  obtain ⟨_,w,hw,h4⟩ := bind_eq_ok.mp h3
  cases h4
  exact deviceWrite_ok hw

theorem bioSubmitNow_stores (hw : OneWrite env s bio d offset address n)
    (h : bioSubmitNow env bio s=(.ok (),t)) : Stored d offset address n s t := by
  obtain ⟨v,hv,hbuf,hlen⟩ := hw.vector
  obtain ⟨_,u,hu,h1⟩ := bind_eq_ok.mp h
  cases hu
  rw [hw.device] at h1
  obtain ⟨_,u,hu,h2⟩ := bind_eq_ok.mp h1
  cases hu
  have hflush : (s.bios bio).bio.op≠opFlush := by
    rw [hw.op]
    decide
  have hpre : (s.bios bio).bio.needsPreflush=false := by simp [Bio.needsPreflush,hw.preflush]
  unfold submitOn at h2
  rw [if_neg hflush,if_neg (by simp [hpre])] at h2
  unfold submitVectors at h2
  split at h2
  · cases h2
  split at h2
  · cases h2
  unfold settle at h2
  rcases hx : transferBio env d (s.bios bio).bio (s.note (.bio d (s.bios bio).bio)) with ⟨r,w⟩
  rw [hx] at h2
  cases r with
  | error e => cases h2
  | ok x =>
    have hmark : t=setStatus bio 0 w := (Prod.mk.inj h2).2.symm
    refine Stored.after ?_ (silent (show t.trace=w.trace by rw [hmark]; rfl))
    unfold transferBio at hx
    rw [if_neg (by simp [hw.op,opWrite,opRead]),if_neg (by rw [hv]; simp)] at hx
    obtain ⟨durable,w',h3,h4⟩ := bind_eq_ok.mp hx
    have hw' : w=w' := by
      rw [if_neg (by simp [Bio.needsFua,hw.fua])] at h4
      cases h4
      rfl
    rw [hw',← hbuf,← hlen,← hw.sector]
    rw [hv] at h3
    have hnote : Remembers s (s.note (.bio d (s.bios bio).bio)) := one rfl trivial
    exact Stored.before hnote (transferVectors_one hw.op hw.fua h3)

theorem writeRequests_one {bio capacity : Nat} {e : BlockDevice} {qs : List IoRequest}
    (hw : OneWrite env s bio d offset address n)
    (h : bioAppendWriteRequests env s bio capacity=some (e,qs)) :
    e=d ∧ (⟨offset,address,n⟩ : IoRequest)∈qs := by
  obtain ⟨v,hv,hbuf,hlen⟩ := hw.vector
  obtain ⟨-,he,-,stop,hr⟩ := writeRequests_some h
  rw [hw.device] at he
  cases he
  rw [hv] at hr
  refine ⟨rfl,?_⟩
  rw [(vectorRequests_one hr).2,← hw.sector,← hbuf,← hlen]
  exact mem_singleton_self _

theorem bioQueuePops_bio {k : Nat} (s : FsState δ) :
    ((bioQueuePops k s).bios bio).bio=(s.bios bio).bio := by
  induction k generalizing s with
  | zero => rfl
  | succ k ih =>
    show ((bioQueuePops k (bioQueuePop s)).bios bio).bio=_
    rw [ih]
    unfold bioQueuePop
    split
    · rfl
    next b rest _ =>
    by_cases hb : bio=b
    · subst hb
      simp [onBio]
    · simp [onBio,hb]

theorem bioQueuePops_lastDrainStatus {k : Nat} (s : FsState δ) :
    (bioQueuePops k s).lastDrainStatus=s.lastDrainStatus := by
  induction k generalizing s with
  | zero => rfl
  | succ k ih =>
    show (bioQueuePops k (bioQueuePop s)).lastDrainStatus=_
    rw [ih]
    unfold bioQueuePop
    split <;> rfl

theorem Carries.stores {bio k : Nat} {x : Prog (FsState δ) Int Unit}
    (hc : Carries env s bio x) (hw : OneWrite env s bio d offset address n)
    (h : x (bioQueuePops k s)=(.ok (),t)) : Stored d offset address n (bioQueuePops k s) t := by
  have hpop : OneWrite env (bioQueuePops k s) bio d offset address n :=
    hw.moved ⟨_,bioQueuePops_bio s⟩ (bioQueuePops_same k s).pages (bioQueuePops_settings s)
  cases hc with
  | single => exact bioSubmitNow_stores hpop h
  | reads hr hp =>
    simp only [bioPrepareReadRequest] at hp
    rw [if_pos (Or.inl (by rw [hw.op]; decide))] at hp
    cases hp
  | writes hq hp =>
    obtain ⟨rfl,hin⟩ := writeRequests_one hw hp
    exact deviceWriteBatch_ok (hq _ hin) h

section

variable {base : Nat → Nat} {todo busy : List Nat} {callback : Call → FsState δ → FsState δ}

theorem bioPut_other {b : Nat} {s : FsState δ} (hb : b≠bio) : (bioPut bio s).bios b=s.bios b := by
  simp only [bioPut,bioQueueRemove,onBio]
  split_ifs <;> simp [hb]

theorem bioPut_status {s : FsState δ} : (bioPut bio s).lastDrainStatus=s.lastDrainStatus := by
  simp only [bioPut,bioQueueRemove]
  split_ifs <;> rfl

theorem bioFinishRecord_other (h : Ready s bio) :
    (bioFinishRecord callback bio status s).lastDrainStatus=s.lastDrainStatus ∧
      ∀ b,b≠bio → (bioFinishRecord callback bio status s).bios b=s.bios b := by
  rw [bioFinishRecord_ready callback h status]
  have honly := completeSync_only (s.bioHead bio) (status=0) (markDone bio status s)
  constructor
  · rw [bioPut_status]
    rw [honly]
    rfl
  · intro b hb
    rw [bioPut_other hb,honly.bios]
    simp [markDone,onBio,note,hb]

theorem bioFinishRecords_other {bios : List Nat} (h : InFlight base (bios++todo) busy s)
    (hq : ∀ c∈bios,c∉s.queue) :
    (bioFinishRecords callback bios status s).lastDrainStatus=s.lastDrainStatus ∧
      ∀ b∉bios,(bioFinishRecords callback bios status s).bios b=s.bios b := by
  induction bios generalizing s with
  | nil => exact ⟨rfl,fun _ _ => rfl⟩
  | cons c bios ih =>
    obtain ⟨h1,h2⟩ := bioFinishRecord_other (h.ready c mem_cons_self)
    obtain ⟨h3,h4⟩ := h.finish callback (hq c mem_cons_self) status
    obtain ⟨h5,h6⟩ := ih h3 fun e he => h4 ▸ hq e (mem_cons_of_mem _ he)
    refine ⟨h5.trans h1,?_⟩
    intro b hb
    rw [mem_cons,not_or] at hb
    exact (h6 b hb.2).trans (h2 b hb.1)

theorem remembers_ioClosed (env : Env δ) : IoClosed env still Remembers where
  trans := trans _ _ _
  quiet := fun h => silent h.trace
  submit := fun _ _ => one rfl trivial
  done := fun _ _ _ => one rfl trivial
  submitNow := fun bio s => (bioSubmitNow_transferred s).remembers
  readBatch := fun d rs s =>
    (deviceReadBatch_rule (transferred_rules) d rs s).remembers
  writeBatch := fun d rs s =>
    (deviceWriteBatch_rule (transferred_rules) d rs s).remembers
  readEnd := fun _ _ _ => one rfl trivial
  writeEnd := fun s head success => by
    refine one (e := .wrote head success) ?_ trivial
    cases success <;> simp [endBufferWriteSync,note]
  start := fun _ _ _ => silent rfl
  lock := fun _ _ _ => silent rfl
  readHold := fun _ _ => silent rfl
  writeHold := fun _ _ => silent rfl
  callback := fun _ s => refl s

variable (h : InFlight base s.queue busy s)

include h

theorem drainBatch_stores {k : Nat} {x : Prog (FsState δ) Int Unit}
    (hx : ∀ b∈s.queue.take k,Carries env s b x) (hm : Moves Transferred x) (hfail : Fails env x) :
    let t := drainBatch callback k x s
    (s.lastDrainStatus≠0 → t.lastDrainStatus≠0) ∧
    (∀ b∈s.queue.drop k,∃ status,(t.bios b).bio={ (s.bios b).bio with status := status }) ∧
    (s.lastDrainStatus=0 → t.lastDrainStatus=0 → ∀ b∈s.queue.take k,∀ d offset address n,
      OneWrite env s b d offset address n → Stored d offset address n s t) := by
  intro t
  have ht := hm (bioQueuePops k s)
  have hlast : (x (bioQueuePops k s)).2.lastDrainStatus=s.lastDrainStatus := by
    rw [ht.rest]
    exact bioQueuePops_lastDrainStatus s
  obtain ⟨h2,hq2,hnot⟩ := h.turn k hm
    (if resultOf (x (bioQueuePops k s)).1≠0 ∧ (x (bioQueuePops k s)).2.lastDrainStatus=0 then
      resultOf (x (bioQueuePops k s)).1 else (x (bioQueuePops k s)).2.lastDrainStatus)
  obtain ⟨h3,h4⟩ := bioFinishRecords_other h2 hnot
  have h3 : t.lastDrainStatus=if resultOf (x (bioQueuePops k s)).1≠0 ∧ s.lastDrainStatus=0 then
      resultOf (x (bioQueuePops k s)).1 else s.lastDrainStatus := by
    rw [← hlast]
    exact h3
  refine ⟨?_,?_,?_⟩
  · intro h0
    rw [h3,if_neg (by tauto)]
    exact h0
  · intro b hb
    have hnodup := h.queue
    rw [← take_append_drop k s.queue] at hnodup
    have hout : b∉s.queue.take k := fun h0 =>
      (nodup_append.mp hnodup).2.2 b h0 b hb rfl
    obtain ⟨status,hstatus⟩ := ht.bios b
    refine ⟨status,?_⟩
    have hb' : t.bios b=(x (bioQueuePops k s)).2.bios b := h4 b hout
    rw [hb',hstatus]
    simp [bioQueuePops_bio]
  · intro h0 h1 b hb d offset address n hw
    -- the status is 0 only if the transfer succeeded
    rw [h3,h0] at h1
    rcases hr : x (bioQueuePops k s) with ⟨r,u⟩
    rw [hr] at h1
    cases r with
    | error e =>
      have hne := (hfail.error _ e u hr).ne_zero
      simp [resultOf,hne] at h1
    | ok v =>
      have hst := (hx b hb).stores hw hr
      have hpops : Remembers s (bioQueuePops k s) := silent (bioQueuePops_same k s).trace
      refine (Stored.before hpops hst).after ?_
      have hstill : t=Fs.drainBatch still k x s := (h.drainBatch callback hm).2.2.2
      have hfold : ∀ status (v : FsState δ),v.trace=u.trace →
          Remembers u (bioFinishRecords still (s.queue.take k) status v) := by
        intro status v hv
        exact trans _ _ _ (silent hv) ((remembers_ioClosed env).foldl
          (fun w b => bioFinishRecord_moves (remembers_ioClosed env).toDrainClosed b status w) _ v)
      rw [hstill]
      unfold Fs.drainBatch
      rw [hr]
      exact hfold _ _ rfl

theorem drainLoop_status {fuel : Nat} (h0 : s.lastDrainStatus≠0) :
    (drainLoop env callback fuel s).2.lastDrainStatus≠0 := by
  induction fuel generalizing s with
  | zero =>
    simp only [drainLoop]
    split <;> exact h0
  | succ fuel ih =>
    cases hq : s.queue with
    | nil => simpa [drainLoop,hq] using h0
    | cons bio rest =>
      obtain ⟨n,x,hx⟩ := drainOnce_spec env hq
      have hone := hx.first hq
      have hrun : (drainLoop env callback (fuel+1) s).2=
          (drainLoop env callback fuel (drainBatch callback n x s)).2 := by
        simp [drainLoop,hq,hx.turn callback]
      obtain ⟨h1,hq1,_,_⟩ := h.drainBatch callback (n := n) hone.transferred
      rw [← hq1] at h1
      rw [hrun]
      exact ih h1 ((drainBatch_stores h hx.carries hone.transferred hone.fails).1 h0)

/-- A drain that ends without an error has stored what every plain write in the queue asked
for. -/
theorem drainLoop_stores {fuel bio : Nat} (hf : s.queue.length≤fuel) (h0 : s.lastDrainStatus=0)
    (h1 : (drainLoop env callback fuel s).2.lastDrainStatus=0) (hb : bio∈s.queue)
    (hw : OneWrite env s bio d offset address n) :
    Stored d offset address n s (drainLoop env callback fuel s).2 := by
  induction fuel generalizing s with
  | zero =>
    rw [length_eq_zero_iff.mp (Nat.le_zero.mp hf)] at hb
    cases hb
  | succ fuel ih =>
    cases hq : s.queue with
    | nil =>
      rw [hq] at hb
      cases hb
    | cons first rest =>
      obtain ⟨k,x,hx⟩ := drainOnce_spec env hq
      have hone := hx.first hq
      have hrun : (drainLoop env callback (fuel+1) s).2=
          (drainLoop env callback fuel (drainBatch callback k x s)).2 := by
        simp [drainLoop,hq,hx.turn callback]
      rw [hrun] at h1 ⊢
      obtain ⟨h2,hq2,hs2,he2⟩ := h.drainBatch callback (n := k) hone.transferred
      rw [← hq2] at h2
      obtain ⟨h3,h4,h5⟩ := drainBatch_stores h hx.carries hone.transferred hone.fails
      -- an error of this turn would still be there at the end
      have hzero : (drainBatch callback k x s).lastDrainStatus=0 := by
        by_contra hne
        exact drainLoop_status h2 hne h1
      have hlen : (drainBatch callback k x s).queue.length≤fuel := by
        rw [hq2,length_drop]
        have := hx.some
        omega
      have hmoves : ∀ u,Remembers u (drainLoop env still fuel u).2 := fun u =>
        drainLoop_moves (remembers_ioClosed env).toDrainClosed u
      rw [← take_append_drop k s.queue,mem_append] at hb
      rcases hb with hb|hb
      · refine (h5 h0 hzero bio hb d offset address n hw).after ?_
        rw [(h2.drainLoop env callback hlen).2.2.2]
        exact hmoves _
      have hkept : BuffersKept s (drainBatch callback k x s) := by
        rw [he2]
        have hturn := drainOnce_moves (buffersKept_ioClosed env).toDrainClosed hq
        rw [hx.turn still] at hturn
        exact hturn
      have hgone : Remembers s (drainBatch callback k x s) := by
        rw [he2]
        have hturn := drainOnce_moves (remembers_ioClosed env).toDrainClosed hq
        rw [hx.turn still] at hturn
        exact hturn
      exact Stored.before hgone (ih h2 hlen hzero h1 (hq2 ▸ hb)
        (hw.moved (h4 bio hb) hkept.pages hs2))

end

end Kobox.Fs
