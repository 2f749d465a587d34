import Kobox.Fs.BufferIo

namespace Kobox.Fs

open List Function Prog SameBuffers Or
open FsState (bioHead onBio)

variable {δ : Type} (env : Env δ) (callback : Call → FsState δ → FsState δ)
  {base : Nat → Nat} {todo busy : List Nat} {s : FsState δ}

def headRecord (opf head page offset : Nat) (h : BufferHead) : BioRecord :=
  ⟨⟨h.bdev,opf,h.blockNumber*h.blockSize/512,h.blockSize,0,[⟨page,h.blockSize,offset⟩],1,
    .bufferHead,head⟩,true,einprogress,0,false,false⟩

/-- Nothing keeps `bufferHeadBio` from building a bio over a page for the buffer. -/
def Buildable (s : FsState δ) (head page offset : Nat) : Prop :=
  env.allocOk s.allocations=true ∧ bioPageOf env s (s.heads head)=some (page,offset) ∧
    (s.heads head).blockNumber*(s.heads head).blockSize%512=0 ∧
    (s.heads head).blockSize<2^32 ∧ page≠0 ∧ (pagePayload env s page+offset)%wordSize≠0 ∧
    offset<2^32

/-- What `bufferHeadBio` leaves behind: bio is 0, or a new record for the buffer. -/
structure BioBuilt (opf head : Nat) (s : FsState δ) (bio : Nat) (t : FsState δ) : Prop where
  buffers : SameBuffers s t
  settings : SameSettings s t
  queue : t.queue=s.queue
  mem : t.mem=s.mem
  allocations : t.allocations=s.allocations+1
  old : ∀ b ≤ s.nextBio,t.bios b=s.bios b
  next : s.nextBio≤t.nextBio
  made : (bio=0 ∧ ∀ page offset,¬Buildable env s head page offset) ∨
    bio=s.nextBio+1 ∧ t.nextBio=bio ∧ (s.heads head).blockNumber*(s.heads head).blockSize%512=0 ∧
      ∃ page offset,bioPageOf env s (s.heads head)=some (page,offset) ∧
        t.bios bio=headRecord opf head page offset (s.heads head)

def withBio (opf bdev : Nat) (s : FsState δ) : FsState δ :=
  { s with
    allocations := s.allocations+1
    nextBio := s.nextBio+1
    bios := Function.update s.bios (s.nextBio+1)
      ⟨⟨bdev,opf,0,0,0,[],1,.none,0⟩,true,einprogress,0,false,false⟩ }

variable {bio : Nat}

theorem BioBuilt.of_update (opf head bdev : Nat) (r : BioRecord)
    (hmade : (bio=0 ∧ ∀ page offset,¬Buildable env s head page offset) ∨ bio=s.nextBio+1 ∧
      (s.heads head).blockNumber*(s.heads head).blockSize%512=0 ∧
      ∃ page offset,bioPageOf env s (s.heads head)=some (page,offset) ∧
      r=headRecord opf head page offset (s.heads head)) :
    BioBuilt env opf head s bio ((withBio opf bdev s).onBio (s.nextBio+1) fun _ => r) := by
  refine ⟨⟨rfl,rfl,rfl,rfl,rfl,rfl,rfl⟩,⟨rfl,rfl,rfl,rfl,rfl,rfl,rfl⟩,rfl,rfl,rfl,?_,
    Nat.le_succ _,?_⟩
  · intro b hb
    have hne : b≠s.nextBio+1 := by omega
    simp [onBio,withBio,hne]
  · rcases hmade with h|⟨hb,h0,page,offset,hp,hr⟩
    · exact inl h
    · refine inr ⟨hb,hb.symm,h0,page,offset,hp,?_⟩
      simp [onBio,hb,hr]

theorem bioAddPage_new (opf bdev page len offset : Nat) (s : FsState δ) :
    (∃ r : BioRecord,bioAddPage env (s.nextBio+1) page len offset (withBio opf bdev s)=
      (.ok 0,(withBio opf bdev s).onBio (s.nextBio+1) fun _ => r) ∧
        r.magic=true ∧ r.queued=false ∧ (page=0 ∨ (pagePayload env s page+offset)%wordSize=0 ∨
          len=0 ∨ 2^32≤len ∨ 2^32≤offset)) ∨
    bioAddPage env (s.nextBio+1) page len offset (withBio opf bdev s)=
      (.ok len,(withBio opf bdev s).onBio (s.nextBio+1) fun _ =>
        ⟨⟨bdev,opf,0,len,0,[⟨page,len,offset⟩],1,.none,0⟩,true,einprogress,0,false,false⟩) := by
  have hrec : (withBio opf bdev s).bios (s.nextBio+1)=
      ⟨⟨bdev,opf,0,0,0,[],1,.none,0⟩,true,einprogress,0,false,false⟩ := by simp [withBio]
  unfold bioAddPage
  by_cases hp : page=0
  · left
    refine ⟨(withBio opf bdev s).bios (s.nextBio+1),?_,by rw [hrec],by rw [hrec],inl hp⟩
    simp [hp,onBio]
  rw [if_neg (by simp [hrec,hp])]
  rw [hrec]
  unfold bioAddVector
  split
  · next hbad =>
    refine inl ⟨_,rfl,rfl,rfl,?_⟩
    have hbad : page=0 ∨ (pagePayload env s page+offset)%wordSize=0 ∨ len=0 ∨ 2^32≤len ∨
      2^32≤offset ∨ 1≤0 ∨ bioMaxVecs≤0 ∨ 2^32-1-len<0 := hbad
    simp only [bioMaxVecs] at hbad
    omega
  · exact inr (by simp)

variable {head : Nat}

theorem bufferHeadBio_spec {opf : Nat} (hsize : (s.heads head).blockSize≠0) :
    ∃ bio t,bufferHeadBio env opf head s=(.ok bio,t) ∧ BioBuilt env opf head s bio t := by
  have hgive : (∀ page offset,¬Buildable env s head page offset) → ∀ u : FsState δ,
      (∃ r : BioRecord,r.magic=true ∧ r.queued=false ∧
        u=(withBio opf (s.heads head).bdev s).onBio (s.nextBio+1) fun _ => r) →
      BioBuilt env opf head s 0 (bioPut (s.nextBio+1) u) := by
    rintro hno u ⟨r,hm,hq,rfl⟩
    rw [bioPut_unqueued (by simp [onBio,hm]) (by simp [onBio,hq])]
    have h := BioBuilt.of_update env opf head (s.heads head).bdev { r with magic := false }
      (s := s) (inl ⟨rfl,hno⟩)
    simpa [onBio] using h
  have hnew : withBio opf (s.heads head).bdev s=
      (withBio opf (s.heads head).bdev s).onBio (s.nextBio+1) fun _ =>
        ⟨⟨(s.heads head).bdev,opf,0,0,0,[],1,.none,0⟩,true,einprogress,0,false,false⟩ := by
    simp [onBio,withBio]
  unfold bufferHeadBio
  rw [bind_ok (get_run)]
  by_cases ha : env.allocOk s.allocations=true
  · have halloc : bioAllocBioset env (s.heads head).bdev 1 opf s=
        (.ok (s.nextBio+1),withBio opf (s.heads head).bdev s) := by
      simp [bioAllocBioset,bioMaxVecs,ha,withBio]
    rw [bind_ok halloc,if_neg (Nat.succ_ne_zero _)]
    cases hp : bioPageOf env s (s.heads head) with
    | none =>
      refine ⟨0,_,rfl,hgive ?_ _ ⟨_,rfl,rfl,hnew⟩⟩
      rintro page offset ⟨_,hplace,_⟩
      rw [hp] at hplace
      cases hplace
    | some p =>
      obtain ⟨page,offset⟩ := p
      dsimp only
      by_cases hbad : (s.heads head).blockNumber*(s.heads head).blockSize%512≠0 ∨
          2^32≤(s.heads head).blockSize
      · rw [if_pos hbad]
        refine ⟨0,_,rfl,hgive ?_ _ ⟨_,rfl,rfl,hnew⟩⟩
        rintro page offset ⟨_,_,hal,hlt,_⟩
        exact hbad.elim (fun h0 => h0 hal) fun h0 => absurd hlt (not_lt.mpr h0)
      · rw [if_neg hbad]
        have hadd := bioAddPage_new env opf (s.heads head).bdev page (s.heads head).blockSize
          offset s
        rcases hadd with ⟨r,hr,hm,hq,hrefused⟩|hadd
        · rw [bind_ok hr,if_pos (Ne.symm hsize)]
          refine ⟨0,_,rfl,hgive ?_ _ ⟨r,hm,hq,rfl⟩⟩
          rintro p o ⟨_,hplace,_,hlt,hp0,hpay,ho⟩
          rw [hp] at hplace
          cases hplace
          omega
        · rw [bind_ok hadd,if_neg (by simp)]
          refine ⟨s.nextBio+1,_,rfl,?_⟩
          have h := BioBuilt.of_update env opf head (s.heads head).bdev
            (headRecord opf head page offset (s.heads head)) (s := s)
            (inr ⟨rfl,by tauto,page,offset,hp,rfl⟩)
          simpa [onBio,headRecord] using h
  · have halloc : bioAllocBioset env (s.heads head).bdev 1 opf s=
        (.ok 0,{ s with allocations := s.allocations+1 }) := by
      simp [bioAllocBioset,bioMaxVecs,ha]
    rw [bind_ok halloc]
    exact ⟨0,_,rfl,⟨rfl,rfl,rfl,rfl,rfl,rfl,rfl⟩,⟨rfl,rfl,rfl,rfl,rfl,rfl,rfl⟩,rfl,rfl,rfl,
      fun _ _ => rfl,le_rfl,inl ⟨rfl,fun _ _ h0 => ha h0.1⟩⟩

theorem issueBh_cases (fuel opf head : Nat) (s : FsState δ) :
    (¬(bufferHeadReady s (s.heads head)=true ∧ (opf%256=opRead ∨ opf%256=opWrite)) ∧
      ∀ callback,issueBh env callback fuel opf head s=bufferHeadComplete callback head false s) ∨
    ∃ bio t,BioBuilt env opf head s bio t ∧ ∀ callback,issueBh env callback fuel opf head s=
      if bio=0 then bufferHeadComplete callback head false t
      else kbFsSubsystemSubmitBio env callback fuel bio t := by
  unfold issueBh
  by_cases hr : bufferHeadReady s (s.heads head)=true ∧ (opf%256=opRead ∨ opf%256=opWrite)
  · have hsize : (s.heads head).blockSize≠0 := by
      have := hr.1
      simp only [bufferHeadReady,Bool.and_eq_true,decide_eq_true_eq] at this
      exact this.1.2
    obtain ⟨bio,t,ht,hb⟩ := bufferHeadBio_spec env hsize
    refine inr ⟨bio,t,hb,fun callback => ?_⟩
    rw [if_pos hr,ht]
  · exact inl ⟨hr,fun callback => if_neg hr⟩

variable {t : FsState δ}

theorem InFlight.built {opf : Nat} (h : InFlight base todo busy s)
    (hb : BioBuilt env opf head s bio t) : InFlight base todo busy t :=
  h.same (fun b hin => hb.old b (h.ready b hin).known) hb.next hb.buffers.heads hb.queue

/-- A bio at the end of the queue, as its submission leaves it. -/
def enqueue (bio : Nat) (s : FsState δ) : FsState δ := bioQueuePush bio
    ((s.onBio bio fun r => { r with submitted := r.submitted+1,result := einprogress }).note
      (.submit bio))

theorem enqueue_new (h : (s.bios bio).queued=false) : enqueue bio s={ s with
      bios := update s.bios bio { (s.bios bio) with
        submitted := (s.bios bio).submitted+1,result := einprogress,queued := true,
        completed := false }
      queue := s.queue++[bio]
      queueDepth := s.queueDepth+1
      trace := s.trace++[.submit bio] } := by
  simp [enqueue,bioQueuePush,onBio,FsState.note,h]

theorem InFlight.enqueue (h : InFlight base todo (head::busy) s) (hm : (s.bios bio).magic=true)
    (hq : (s.bios bio).queued=false) (he : (s.bios bio).bio.endIo=.bufferHead)
    (hp : s.bioHead bio=head) (hk : bio ≤ s.nextBio) (hnew : bio∉todo) :
    InFlight base (todo++[bio]) busy (enqueue bio s) ∧ (Fs.enqueue bio s).queue=s.queue++[bio] ∧
      SameSettings s (Fs.enqueue bio s) := by
  rw [enqueue_new hq]
  refine ⟨?_,rfl,⟨rfl,rfl,rfl,rfl,rfl,rfl,rfl⟩⟩
  generalize hu : ({ s with
    bios := update s.bios bio { (s.bios bio) with
      submitted := (s.bios bio).submitted+1,result := einprogress,queued := true,
      completed := false }
    queue := s.queue++[bio]
    queueDepth := s.queueDepth+1
    trace := s.trace++[.submit bio] } : FsState δ)=u
  have hold : ∀ b,b≠bio → u.bios b=s.bios b := by
    intro b hb
    rw [← hu]
    simp [hb]
  have hheads : u.heads=s.heads := by rw [← hu]
  have hqueue : u.queue=s.queue++[bio] := by rw [← hu]
  have hlink : u.bioHead=s.bioHead := by
    funext b
    by_cases hb : b=bio
    · subst hb
      rw [← hu]
      simp [bioHead]
    · simp [bioHead,hold b hb]
  have hne : ∀ b∈todo,b≠bio := fun b hb h0 => hnew (h0 ▸ hb)
  have hlist : (todo++[bio]).map u.bioHead++busy=todo.map s.bioHead++head::busy := by
    simp [hlink,hp]
  have hnot : bio∉s.queue := fun h0 => hnew (h.inQueue bio h0)
  refine ⟨?_,?_,by rw [hlist]; exact h.heads,?_,?_,?_,?_,?_⟩
  · refine forall_mem_append.mpr ⟨fun b hb => ?_,forall_mem_singleton.mpr ?_⟩
    · have hr := h.ready b hb
      have hb := hold b (hne b hb)
      refine ⟨hb ▸ hr.magic,hb ▸ hr.waiting,hb ▸ hr.endIo,by rw [← hu]; exact hr.known,?_⟩
      rw [hlink,hheads]
      exact hr.sync
    · refine ⟨by rw [← hu]; simpa using hm,by rw [← hu]; simp,by rw [← hu]; simpa using he,
        by rw [← hu]; exact hk,?_⟩
      rw [hlink,hheads,hp]
      exact h.sync head mem_cons_self
  · intro k hk'
    rw [hheads]
    exact h.sync k (mem_cons_of_mem _ hk')
  · rw [hqueue]
    simpa using h.queue.concat hnot
  · rw [hqueue]
    refine forall_mem_append.mpr ⟨fun b hb => ?_,forall_mem_singleton.mpr (by rw [← hu]; simp)⟩
    rw [hold b (hne b hb),h.queued b hb]
    simp [hne b hb]
  · rw [hqueue]
    exact fun b hb => mem_append.mpr ((mem_append.mp hb).imp_left (h.inQueue b))
  · intro k
    rw [hlist,hheads]
    exact h.lock k
  · intro k
    rw [hlist,hheads]
    exact h.refs k

variable {fuel : Nat}

theorem InFlight.drain (h : InFlight base s.queue busy s) (hf : s.queue.length≤fuel) :
    InFlight base [] busy (kbFsSubsystemBioDrain env callback fuel s).2 ∧
      (kbFsSubsystemBioDrain env callback fuel s).2.queue=[] ∧
      SameSettings s (kbFsSubsystemBioDrain env callback fuel s).2 ∧
      (kbFsSubsystemBioDrain env callback fuel s).2=(kbFsSubsystemBioDrain env still fuel s).2 := by
  have hs : SameSettings s { s with lastDrainStatus := 0 } := ⟨rfl,rfl,rfl,rfl,rfl,rfl,rfl⟩
  obtain ⟨h1,h2,h3,h4⟩ := InFlight.drainLoop env callback
    (s := { s with lastDrainStatus := 0 }) (h.status 0) hf
  exact ⟨h1,h2,hs.trans h3,h4⟩

/-- How a call with buffer I/O in s ends in t: what it left in flight is queued, in buffers it found
locked; without module code it ends in u. -/
structure IoDone (base : Nat → Nat) (busy : List Nat) (s t u : FsState δ) : Prop where
  flight : InFlight base t.queue busy t
  settings : SameSettings s t
  still : t=u
  drained : s.autoDrain=true → s.plugDepth=0 → s.queue=[] → t.queue=[]
  length : t.queue.length ≤ s.queue.length+1
  lock : ∀ k,(t.heads k).flags.lock=true → (s.heads k).flags.lock=true

theorem submitBio_done (h : InFlight base s.queue (head::busy) s)
    (hm : (s.bios bio).magic=true) (hq : (s.bios bio).queued=false)
    (he : (s.bios bio).bio.endIo=.bufferHead) (hp : s.bioHead bio=head) (hk : bio ≤ s.nextBio)
    (hnew : bio∉s.queue) (hf : s.queue.length<fuel) :
    IoDone base busy s (kbFsSubsystemSubmitBio env callback fuel bio s)
      (kbFsSubsystemSubmitBio env still fuel bio s) := by
  obtain ⟨h1,hq1,hs1⟩ := h.enqueue hm hq he hp hk hnew
  rw [← hq1] at h1
  have hlen : (enqueue bio s).queue.length ≤ fuel := by
    rw [hq1]
    simpa using hf
  by_cases hd : (enqueue bio s).autoDrain=true ∧ (enqueue bio s).plugDepth=0
  · have heq : ∀ callback : Call → FsState δ → FsState δ,
        kbFsSubsystemSubmitBio env callback fuel bio s=
          (kbFsSubsystemBioDrain env callback fuel (enqueue bio s)).2 := by
      intro callback
      simp only [kbFsSubsystemSubmitBio,hm]
      exact if_pos hd
    obtain ⟨h2,hq2,hs2,he2⟩ := h1.drain env callback hlen
    rw [heq callback,heq still]
    refine ⟨by rw [hq2]; exact h2,hs1.trans hs2,he2,fun _ _ _ => hq2,by rw [hq2]; simp,?_⟩
    intro k hk
    have hbusy : k∈busy := by simpa using (h2.lock k).mp hk
    exact (h.lock k).mpr (by simp [hbusy])
  · have heq : ∀ callback : Call → FsState δ → FsState δ,
        kbFsSubsystemSubmitBio env callback fuel bio s=enqueue bio s := by
      intro callback
      simp only [kbFsSubsystemSubmitBio,hm]
      exact if_neg hd
    rw [heq callback,heq still]
    refine ⟨h1,hs1,rfl,?_,by rw [hq1]; simp,?_⟩
    · intro ha hpl _
      exact absurd ⟨hs1.autoDrain.trans ha,hs1.plugDepth.trans hpl⟩ hd
    · rw [enqueue_new hq]
      exact fun _ hk => hk

variable {success : Bool}

theorem headComplete_done (h : InFlight base s.queue (head::busy) s) :
    IoDone base busy s (bufferHeadComplete callback head success s)
      (bufferHeadComplete still head success s) := by
  have hsync := h.sync head mem_cons_self
  rw [headComplete_sync callback success hsync,headComplete_sync still success hsync]
  obtain ⟨h1,hq1,hs1⟩ := h.drop success
  refine ⟨by rw [hq1]; exact h1,hs1,rfl,fun _ _ hq => hq1.trans hq,by rw [hq1]; simp,?_⟩
  intro k hk
  by_cases he : k=head
  · exact (h.lock k).mpr (by simp [he])
  · rwa [completeSync_heads,update_of_ne he] at hk

theorem IoDone.after {v w : FsState δ} (hq : t.queue=s.queue) (hs : SameSettings s t)
    (hl : ∀ k,(t.heads k).flags.lock=true → (s.heads k).flags.lock=true)
    (h : IoDone base busy t v w) :
    IoDone base busy s v w where
  flight := h.flight
  settings := hs.trans h.settings
  still := h.still
  drained := fun ha hp h0 =>
    h.drained (hs.autoDrain.trans ha) (hs.plugDepth.trans hp) (hq.trans h0)
  length := hq ▸ h.length
  lock := fun k hk => hl k (h.lock k hk)

theorem startBh_lock {opf head : Nat} (s : FsState δ) (k : Nat) :
    ((startBh opf head s).heads k).flags.lock=true → (s.heads k).flags.lock=true := by
  by_cases hk : k=head
  · subst hk
    simp [startBh,FsState.onHead]
  · simp [startBh,FsState.onHead,hk]

theorem submitBh_done {opf : Nat} (h : InFlight base s.queue (head::busy) s)
    (hf : s.queue.length<fuel) :
    IoDone base busy s (submitBh env callback fuel opf head s)
      (submitBh env still fuel opf head s) := by
  have h1 : InFlight base s.queue (head::busy) (startBh opf head s) :=
    h.onHead head (fun _ => rfl) (fun _ => rfl) (fun _ => rfl)
  have hs1 : SameSettings s (startBh opf head s) := ⟨rfl,rfl,rfl,rfl,rfl,rfl,rfl⟩
  have hq1 : (startBh opf head s).queue=s.queue := rfl
  apply IoDone.after hq1 hs1 (startBh_lock s)
  have hf1 : (startBh opf head s).queue.length<fuel := hf
  show IoDone base busy _ (issueBh env callback fuel opf head (startBh opf head s))
    (issueBh env still fuel opf head (startBh opf head s))
  have h1 : InFlight base (startBh opf head s).queue (head::busy) (startBh opf head s) := h1
  generalize startBh opf head s=u at h1 hf1
  rcases issueBh_cases env fuel opf head u with ⟨-,hnone⟩|⟨bio,t,hb,hbio⟩
  · rw [hnone callback,hnone still]
    exact headComplete_done callback h1
  rw [hbio callback,hbio still]
  have h2 : InFlight base t.queue (head::busy) t := by
    rw [hb.queue]
    exact h1.built env hb
  apply IoDone.after hb.queue hb.settings (by rw [hb.buffers.heads]; exact fun _ hk => hk)
  rcases hb.made with ⟨h0,_⟩|⟨hbio,hnext,_,page,offset,_,hrec⟩
  · rw [if_pos h0,if_pos h0]
    exact headComplete_done callback h2
  have hne : bio≠0 := by omega
  rw [if_neg hne,if_neg hne]
  apply submitBio_done env callback h2
  · rw [hrec]
    rfl
  · rw [hrec]
    rfl
  · rw [hrec]
    rfl
  · rw [bioHead,hrec]
    rfl
  · exact hnext.ge
  · intro hin
    rw [hb.queue] at hin
    have := (h1.ready bio (h1.inQueue bio hin)).known
    omega
  · rw [hb.queue]
    exact hf1

theorem onHead_onHead (s : FsState δ) {head : Nat} {f g : BufferHead → BufferHead} :
    (s.onHead head f).onHead head g=s.onHead head fun h => g (f h) := by
  simp [FsState.onHead]

theorem lockBuffer_free (fuel : Nat) (h : (s.heads head).flags.lock=false) :
    lockBuffer env callback fuel head s=setLock head true s := by
  simp [lockBuffer,lockBufferLoop,h]

theorem waitOnBuffer_free (fuel : Nat) (h : (s.heads head).flags.lock=false) :
    waitOnBuffer env callback fuel head s=s := by
  simp [waitOnBuffer,waitOnBufferLoop,h]

theorem unlock_lock (h : (s.heads head).flags.lock=false) :
    setLock head false (setLock head true s)=s := by
  have hb : { s.heads head with flags := { (s.heads head).flags with lock := false } }=
      s.heads head := by
    rw [← h]
  rw [setLock,setLock]
  simp [FsState.onHead,hb]

theorem setLock_lock {head : Nat} (s : FsState δ) (k : Nat) :
    (s.heads k).flags.lock=true → ((setLock head true s).heads k).flags.lock=true := by
  by_cases hk : k=head
  · subst hk
    simp [setLock,FsState.onHead]
  · simp [setLock,FsState.onHead,hk]

theorem IoDone.unlocked (h : InFlight base s.queue busy s) (hfree : (s.heads head).flags.lock=false) :
    IoDone base busy (setLock head true s) (setLock head false (setLock head true s))
      (setLock head false (setLock head true s)) := by
  rw [unlock_lock hfree]
  exact ⟨h,⟨rfl,rfl,rfl,rfl,rfl,rfl,rfl⟩,rfl,fun _ _ hq => hq,Nat.le_succ _,setLock_lock s⟩

theorem submitBh_taken (opf : Nat) (h : InFlight base s.queue busy s)
    (hfree : (s.heads head).flags.lock=false) (hf : s.queue.length<fuel)
    {f : BufferHead → BufferHead} (hl : ∀ b,(f b).flags.lock=b.flags.lock)
    (hr : ∀ b,(f b).refcount=b.refcount+1) (he : ∀ b,(f b).endIo.Sync) :
    IoDone base busy (setLock head true s)
      (submitBh env callback fuel opf head ((setLock head true s).onHead head f))
      (submitBh env still fuel opf head ((setLock head true s).onHead head f)) := by
  have h1 : InFlight base (setLock head true s).queue (head::busy)
      ((setLock head true s).onHead head f) := by
    rw [show (setLock head true s).onHead head f=s.onHead head fun h =>
      f { h with flags := { h.flags with lock := true } } from onHead_onHead s]
    exact h.take hfree (fun _ => hl _) (fun _ => hr _) fun _ => he _
  have hlocked : ((setLock head true s).heads head).flags.lock=true := by
    simp [setLock,FsState.onHead]
  have hf : (setLock head true s).queue.length<fuel := hf
  generalize setLock head true s=u at h1 hlocked hf ⊢
  have hlock : ∀ k,((u.onHead head f).heads k).flags.lock=true → (u.heads k).flags.lock=true := by
    intro k hk
    by_cases hne : k=head
    · exact hne ▸ hlocked
    · simpa [FsState.onHead,hne] using hk
  have hq : (u.onHead head f).queue=u.queue := rfl
  have hs : SameSettings u (u.onHead head f) := ⟨rfl,rfl,rfl,rfl,rfl,rfl,rfl⟩
  exact IoDone.after hq hs hlock (submitBh_done env callback h1 hf)

variable (opFlags : Nat)

theorem writeLocked_done (h : InFlight base s.queue busy s)
    (hfree : (s.heads head).flags.lock=false) (hf : s.queue.length<fuel) :
    IoDone base busy (setLock head true s)
      (writeLocked env callback fuel opFlags head (setLock head true s))
      (writeLocked env still fuel opFlags head (setLock head true s)) :=
  submitBh_taken env callback (opWrite|||opFlags) h hfree hf (fun _ => rfl) (fun _ => rfl)
    fun _ => trivial

theorem writeDirty_done (h : InFlight base s.queue busy s)
    (hfree : (s.heads head).flags.lock=false) (hf : s.queue.length<fuel) :
    IoDone base busy (setLock head true s) (writeDirtyBuffer env callback fuel head opFlags s)
      (writeDirtyBuffer env still fuel head opFlags s) := by
  unfold writeDirtyBuffer
  rw [lockBuffer_free env callback fuel hfree,lockBuffer_free env still fuel hfree]
  unfold writeIfDirty
  split
  · exact IoDone.unlocked h hfree
  · exact writeLocked_done env callback opFlags h hfree hf

/-- The layer does its I/O at once, and none is under way. -/
structure Prompt (s : FsState δ) : Prop where
  autoDrain : s.autoDrain=true
  plugDepth : s.plugDepth=0
  queue : s.queue=[]

/-- A call of the layer that has done its I/O, with its result, and the same call without module
code. -/
structure Finished (base : Nat → Nat) (s t : FsState δ) : Prop where
  idle : Idle base t
  settings : SameSettings s t
  prompt : Prompt t

theorem IoDone.finished {u : FsState δ} (h : IoDone base [] s t u) (hp : Prompt s) :
    Finished base s t := by
  have hq := h.drained hp.autoDrain hp.plugDepth hp.queue
  have hf := h.flight
  rw [hq] at hf
  exact ⟨hf,h.settings,h.settings.autoDrain.trans hp.autoDrain,
    h.settings.plugDepth.trans hp.plugDepth,hq⟩

theorem Idle.lock (h : Idle base s) (k : Nat) : (s.heads k).flags.lock=false := by
  rw [← Bool.not_eq_true,InFlight.lock h k]
  simp

theorem Idle.refs (h : Idle base s) (k : Nat) : (s.heads k).refcount=base k := by
  rw [InFlight.refs h k]
  simp

theorem Finished.refl (h : Idle base s) (hp : Prompt s) : Finished base s s :=
  ⟨h,SameSettings.refl s,hp⟩

theorem Prompt.flight (hp : Prompt s) (h : Idle base s) : InFlight base s.queue [] s := by
  rw [hp.queue]
  exact h

theorem Prompt.settings (hp : Prompt s) (hs : SameSettings s t) (hq : t.queue=s.queue) : Prompt t :=
  ⟨hs.autoDrain.trans hp.autoDrain,hs.plugDepth.trans hp.plugDepth,hq.trans hp.queue⟩

theorem setLock_settings (head : Nat) (locked : Bool) (s : FsState δ) :
    SameSettings s (setLock head locked s) := ⟨rfl,rfl,rfl,rfl,rfl,rfl,rfl⟩

theorem IoDone.taken {u : FsState δ} (h : IoDone base [] (setLock head true s) t u) (hp : Prompt s) :
    Finished base s t := by
  have hs := setLock_settings head true s
  have hfin := h.finished (hp.settings hs rfl)
  exact ⟨hfin.idle,hs.trans hfin.settings,hfin.prompt⟩

theorem writeDirty_finished (head opFlags : Nat) (h : Idle base s) (hp : Prompt s) (hf : 0<fuel) :
    Finished base s (writeDirtyBuffer env callback fuel head opFlags s) ∧
      writeDirtyBuffer env callback fuel head opFlags s=
        writeDirtyBuffer env still fuel head opFlags s := by
  have hd := writeDirty_done env callback opFlags (hp.flight h) (Idle.lock h head)
    (by rw [hp.queue]; exact hf)
  exact ⟨hd.taken hp,hd.still⟩

theorem syncDirtyBuffer_finished (head : Nat) (h : Idle base s) (hp : Prompt s) (hf : 0<fuel) :
    Finished base s (syncDirtyBuffer env callback fuel head s).2 ∧
      syncDirtyBuffer env callback fuel head s=syncDirtyBuffer env still fuel head s := by
  have hfree := Idle.lock h head
  have hw := writeLocked_done env callback 0 (hp.flight h) hfree (by rw [hp.queue]; exact hf)
  have hfin := hw.taken hp
  have hwait := waitOnBuffer_free env callback fuel (Idle.lock hfin.idle head)
  have hwait' := waitOnBuffer_free env still fuel (Idle.lock hfin.idle head)
  unfold syncDirtyBuffer
  rw [lockBuffer_free env callback fuel hfree,lockBuffer_free env still fuel hfree]
  unfold syncLocked
  rw [unlock_lock hfree]
  split
  · exact ⟨Finished.refl h hp,rfl⟩
  split
  · exact ⟨Finished.refl h hp,rfl⟩
  split
  · exact ⟨Finished.refl h hp,rfl⟩
  · rw [← hw.still,hwait,hwait']
    exact ⟨hfin,rfl⟩

theorem bhRead_finished (h : Idle base s) (hp : Prompt s) (hf : 0<fuel)
    (hmax : (s.heads head).refcount≠refcountMax) :
    Finished base s (bhRead env callback fuel head opFlags true (setLock head true s)).2 ∧
      bhRead env callback fuel head opFlags true (setLock head true s)=
        bhRead env still fuel head opFlags true (setLock head true s) := by
  have hfree := Idle.lock h head
  have hr := submitBh_taken env callback (opRead|||opFlags) (hp.flight h) hfree
    (by rw [hp.queue]; exact hf) (f := fun h => { h with
      refcount := h.refcount+1,endIo := .readSync }) (fun _ => rfl) (fun _ => rfl) fun _ => trivial
  have hfin := hr.taken hp
  have hwait := waitOnBuffer_free env callback fuel (Idle.lock hfin.idle head)
  have hwait' := waitOnBuffer_free env still fuel (Idle.lock hfin.idle head)
  have hlocked : ((setLock head true s).heads head).flags.lock=true := by
    simp [setLock,FsState.onHead]
  have hroom : ((setLock head true s).heads head).refcount≠refcountMax := by
    simpa [setLock,FsState.onHead] using hmax
  unfold bhRead
  simp only [hlocked,hroom,Bool.not_true,Bool.false_eq_true,if_false]
  rw [← hr.still,hwait,hwait']
  exact ⟨hfin,rfl⟩

def freedIn (trace : List Event) : List (Nat × BufferHead × Bool) := trace.filterMap fun
    | .freed head buffer dirty => some (head,buffer,dirty)
    | _ => none

def DirtyOk (s : FsState δ) : Prop :=
  ∀ i,(s.cache i).active=true → (s.heads (s.cache i).bufferHead).flags.dirty=true →
    (s.cache i).dirty=true

/-- Whether a buffer waits to be written behind an event. -/
def Event.pends (head : Nat) (p : Bool) : Event → Bool
  | .marked h => h==head || p
  | .forgot h => !(h==head) && p
  | .wrote h success => !(h==head && success) && p
  | _ => p

/-- The buffer was marked dirty and has been neither written nor forgotten since. -/
def pending (trace : List Event) (head : Nat) : Bool :=
  trace.foldl (fun p e => e.pends head p) false

def DirtyKnown (s : FsState δ) : Prop := ∀ h,pending s.trace h=true →
    ∃ i,(s.cache i).active=true ∧ (s.cache i).bufferHead=h ∧ (s.cache i).dirty=true

theorem pending_note (trace : List Event) (e : Event) (head : Nat) :
    pending (trace++[e]) head=e.pends head (pending trace head) := by
  simp [pending]

theorem pends_transfer {es : List Event} (h : ∀ e∈es,e.OfTransfer) (head : Nat) (p : Bool) :
    es.foldl (fun p e => e.pends head p) p=p := by
  induction es generalizing p with
  | nil => rfl
  | cons e es ih =>
    rw [foldl_cons,ih fun d hd => h d (mem_cons_of_mem _ hd)]
    have he := h e mem_cons_self
    cases e with
    | bio d b => rfl
    | disk d r status mem => rfl
    | _ => exact absurd he id

/-- Buffer I/O leaves alone which buffers there are and where, and dirty ones stay known. -/
structure BuffersKept (s t : FsState δ) : Prop where
  headLive : t.headLive=s.headLive
  pages : t.pages=s.pages
  evictCursor : t.evictCursor=s.evictCursor
  cache : ∀ i,t.cache i={ s.cache i with dirty := (t.cache i).dirty }
  heads : ∀ h,t.heads h={ s.heads h with
    flags := (t.heads h).flags,refcount := (t.heads h).refcount,endIo := (t.heads h).endIo }
  freed : freedIn t.trace=freedIn s.trace
  dirty : DirtyOk s → DirtyOk t
  known : DirtyKnown s → DirtyKnown t

open BuffersKept

theorem BuffersKept.trans (a b c : FsState δ) (h : BuffersKept a b) (k : BuffersKept b c) :
    BuffersKept a c where
  headLive := k.headLive.trans h.headLive
  pages := k.pages.trans h.pages
  evictCursor := k.evictCursor.trans h.evictCursor
  cache := by
    intro i
    rw [k.cache i,h.cache i]
  heads := by
    intro x
    rw [k.heads x,h.heads x]
  freed := k.freed.trans h.freed
  dirty := fun hd => k.dirty (h.dirty hd)
  known := fun hd => k.known (h.known hd)

theorem BuffersKept.same (h : SameBuffers s t) : BuffersKept s t where
  headLive := h.headLive
  pages := h.pages
  evictCursor := h.evictCursor
  cache := fun i => by rw [h.cache]
  heads := fun x => by rw [h.heads]
  freed := by rw [h.trace]
  dirty := fun hd => by
    unfold DirtyOk
    rw [h.cache,h.heads]
    exact hd
  known := fun hd => by
    unfold DirtyKnown
    rw [h.cache,h.trace]
    exact hd

theorem freedIn_note {trace : List Event} {e : Event} (h : freedIn [e]=[]) :
    freedIn (trace++[e])=freedIn trace := by
  unfold freedIn at h ⊢
  rw [filterMap_append,h,append_nil]

theorem BuffersKept.note (s : FsState δ) {e : Event} (h : freedIn [e]=[])
    (hp : ∀ head p,e.pends head p=true → p=true) : BuffersKept s (s.note e) := by
  refine ⟨rfl,rfl,rfl,fun _ => rfl,fun _ => rfl,freedIn_note h,fun hd => hd,?_⟩
  intro hk head hpend
  have hpend : pending (s.trace++[e]) head=true := hpend
  rw [pending_note] at hpend
  exact hk head (hp head _ hpend)

theorem freedIn_transfer {es : List Event} (h : ∀ e∈es,e.OfTransfer) : freedIn es=[] := by
  unfold freedIn
  rw [filterMap_eq_nil_iff]
  intro e he
  have := h e he
  cases e with
  | freed head buffer dirty => exact absurd this id
  | _ => rfl

theorem Transferred.buffersKept (h : Transferred s t) : BuffersKept s t := by
  obtain ⟨es,hes,he⟩ := h.emits
  have hf : freedIn t.trace=freedIn s.trace := by
    rw [hes,freedIn,filterMap_append]
    show freedIn s.trace++freedIn es=_
    rw [freedIn_transfer he,append_nil]
  have hrest := h.rest
  have hcache : t.cache=s.cache := by rw [hrest]
  refine ⟨by rw [hrest],by rw [hrest],by rw [hrest],?_,?_,hf,?_,?_⟩
  · intro i
    rw [hcache]
  · intro x
    rw [hrest]
  · intro hd
    rw [hrest]
    exact hd
  · intro hk head hpend
    rw [hes,pending,foldl_append,pends_transfer he] at hpend
    rw [hcache]
    exact hk head hpend

theorem BuffersKept.onHead (s : FsState δ) (head : Nat) {f : BufferHead → BufferHead}
    (hf : ∀ b,f b={ b with
      flags := (f b).flags,refcount := (f b).refcount,endIo := (f b).endIo })
    (hd : ∀ b,(f b).flags.dirty=true → b.flags.dirty=true) : BuffersKept s (s.onHead head f) := by
  refine ⟨rfl,rfl,rfl,fun _ => rfl,?_,rfl,?_,fun hk => hk⟩
  · intro x
    by_cases hx : x=head
    · subst hx
      simpa [FsState.onHead] using hf (s.heads x)
    · simp [FsState.onHead,hx]
  · intro hs i ha hdirty
    apply hs i ha
    by_cases hx : (s.cache i).bufferHead=head
    · apply hd
      simpa [FsState.onHead,hx] using hdirty
    · simpa [FsState.onHead,hx] using hdirty

theorem BuffersKept.setDirty (s : FsState δ) (head : Nat)
    (hclean : (s.heads head).flags.dirty=false) (hdone : pending s.trace head=false) :
    BuffersKept s (bufferCacheSetDirty (bufferCacheRecordForHead s head) false s) := by
  have hfind : ∀ i,bufferCacheRecordForHead s head=some i → (s.cache i).bufferHead=head := by
    intro i hi
    have := find?_some hi
    simp at this
    exact this.2
  generalize bufferCacheRecordForHead s head=slot at hfind ⊢
  cases slot with
  | none => exact same (refl s)
  | some i =>
    simp only [bufferCacheSetDirty]
    split
    · exact same (refl s)
    refine ⟨rfl,rfl,rfl,?_,fun _ => rfl,rfl,?_,?_⟩
    · intro j
      by_cases hj : j=i
      · subst hj
        simp
      · simp [hj]
    · intro hd j ha hdirty
      by_cases hj : j=i
      · subst hj
        simp [hfind j rfl,hclean] at hdirty
      · simp only [update_of_ne hj] at ha hdirty ⊢
        exact hd j ha hdirty
    · intro hk h hpend
      obtain ⟨j,h1,h2,h3⟩ := hk h hpend
      -- the record that is cleared is one of a buffer that does not wait
      have hj : j≠i := by
        rintro rfl
        rw [hfind j rfl] at h2
        rw [← h2,hdone] at hpend
        cases hpend
      refine ⟨j,?_,?_,?_⟩ <;> simpa only [update_of_ne hj]

theorem endReadSync_kept {head : Nat} {s : FsState δ} :
    BuffersKept s (endBufferReadSync head success s) := by
  have h := onHead s head (f := fun h => { h with
    flags := { h.flags with uptodate := success,lock := false,req := false }
    refcount := h.refcount-1 }) (fun _ => rfl) fun _ h => h
  exact trans _ _ _ h (note _ rfl fun _ _ hp => hp)

theorem endWriteSync_kept {head : Nat} {s : FsState δ} :
    BuffersKept s (endBufferWriteSync head success s) := by
  unfold endBufferWriteSync
  extract_lets t u
  have h1 : BuffersKept s t := by
    have hh := onHead s head (f := fun h => { h with
      flags := { h.flags with
        uptodate := success
        dirty := if success then false else h.flags.dirty
        writeEio := !success
        lock := false
        req := false } }) (fun _ => rfl) (by cases success <;> simp)
    refine hh.trans _ _ _ (note _ rfl ?_)
    intro k p hp
    simp only [Event.pends,Bool.and_eq_true] at hp
    exact hp.2
  have h2 : BuffersKept t u := by
    have hu : u=if success then bufferCacheSetDirty (bufferCacheRecordForHead t head) false t
      else t := rfl
    have hclean : success=true → (t.heads head).flags.dirty=false := by
      intro h
      simp [t,FsState.note,FsState.onHead,h]
    have hdone : success=true → pending t.trace head=false := by
      intro h
      show pending (s.trace++[.wrote head success]) head=false
      rw [pending_note]
      simp [Event.pends,h]
    rw [hu]
    split
    · next h => exact setDirty t head (hclean h) (hdone h)
    · exact same (refl t)
  exact trans s u _ (trans s t u h1 h2) (onHead u head (fun _ => rfl) fun _ h => h)

theorem buffersKept_ioClosed : IoClosed env still BuffersKept where
  trans := trans _ _ _
  quiet := fun h => same h
  submit := fun s bio => note s rfl fun _ _ hp => hp
  done := fun s bio result => note s rfl fun _ _ hp => hp
  submitNow := fun bio s => (bioSubmitNow_transferred s).buffersKept
  readBatch := fun d rs s =>
    (deviceReadBatch_rule (transferred_rules) d rs s).buffersKept
  writeBatch := fun d rs s =>
    (deviceWriteBatch_rule (transferred_rules) d rs s).buffersKept
  readEnd := fun s head success => endReadSync_kept
  writeEnd := fun s head success => endWriteSync_kept
  start := fun s _ head => onHead s head (fun _ => rfl) fun _ h => h
  lock := fun s head _ => onHead s head (fun _ => rfl) fun _ h => h
  readHold := fun s head => onHead s head (fun _ => rfl) fun _ h => h
  writeHold := fun s head => onHead s head (fun _ => rfl) (by simp)
  callback := fun _ s => same (refl s)

/-- The state of the scan for dirty buffers behind the slots in `visited`. -/
structure Scanned (base : Nat → Nat) (visited : List Nat) (s t : FsState δ) : Prop where
  flight : InFlight base t.queue [] t
  settings : SameSettings s t
  kept : BuffersKept s t
  length : t.queue.length≤visited.length
  lock : ∀ k,(t.heads k).flags.lock=true →
    ∃ i∈visited,(s.cache i).active=true ∧ (s.cache i).bufferHead=k

theorem Scanned.start (h : InFlight base s.queue [] s) (hq : s.queue=[]) : Scanned base [] s s := by
  refine ⟨h,SameSettings.refl s,same (refl s),by simp [hq],?_⟩
  intro k hk
  have := (h.lock k).mp hk
  simp [hq] at this

def HeadsApart (s : FsState δ) : Prop := ∀ i j,(s.cache i).active=true → (s.cache j).active=true →
    (s.cache i).bufferHead=(s.cache j).bufferHead → i=j

theorem BuffersKept.active (h : BuffersKept s t) (i : Nat) :
    (t.cache i).active=(s.cache i).active := by rw [h.cache i]

theorem BuffersKept.bufferHead (h : BuffersKept s t) (i : Nat) :
    (t.cache i).bufferHead=(s.cache i).bufferHead := by rw [h.cache i]

theorem flushSlot_scanned {i : Nat} {visited : List Nat} {acc : FsState δ × List Nat × Int}
    (h : Scanned base visited s acc.1) (hi : i∉visited) (ha : HeadsApart s)
    (hf : visited.length<fuel) :
    Scanned base (visited++[i]) s (flushSlot env callback fuel acc i).1 ∧
      flushSlot env callback fuel acc i=flushSlot env still fuel acc i := by
  have hmore : Scanned base (visited++[i]) s acc.1 := by
    refine ⟨h.flight,h.settings,h.kept,?_,?_⟩
    · simpa using Nat.le_succ_of_le h.length
    · intro k hk
      obtain ⟨j,hj,hj'⟩ := h.lock k hk
      exact ⟨j,mem_append_left _ hj,hj'⟩
  unfold flushSlot
  dsimp only
  by_cases hskip : (!(acc.1.cache i).active)=true ∨ (!(acc.1.cache i).dirty)=true
  · rw [if_pos hskip,if_pos hskip]
    exact ⟨hmore,rfl⟩
  rw [if_neg hskip]
  have hact : (s.cache i).active=true := by
    rw [← h.kept.active i]
    simp at hskip
    exact hskip.1
  -- the slots before this one hold other buffers, so this one is not locked
  have hfree : (acc.1.heads (acc.1.cache i).bufferHead).flags.lock=false := by
    rw [← Bool.not_eq_true]
    intro hlock
    obtain ⟨j,hj,hj1,hj2⟩ := h.lock _ hlock
    rw [h.kept.bufferHead i] at hj2
    exact hi (ha j i hj1 hact hj2 ▸ hj)
  have hlen : acc.1.queue.length<fuel := h.length.trans_lt hf
  have hd := writeDirty_done env callback 0 h.flight hfree hlen
  have hkept := writeDirty_moves (buffersKept_ioClosed env) fuel (acc.1.cache i).bufferHead 0 acc.1
  rw [← hd.still] at hkept
  have hscan : Scanned base (visited++[i]) s
      (writeDirtyBuffer env callback fuel (acc.1.cache i).bufferHead 0 acc.1) := by
    refine ⟨hd.flight,?_,h.kept.trans _ _ _ hkept,?_,?_⟩
    · exact (h.settings.trans (setLock_settings _ true _)).trans hd.settings
    · have h1 : (writeDirtyBuffer env callback fuel (acc.1.cache i).bufferHead 0
        acc.1).queue.length ≤ acc.1.queue.length+1 := hd.length
      simpa using h1.trans (Nat.succ_le_succ h.length)
    intro k hk
    by_cases he : k=(acc.1.cache i).bufferHead
    · exact ⟨i,by simp,hact,by rw [he,h.kept.bufferHead i]⟩
    · obtain ⟨j,hj,hj'⟩ := h.lock k (by
        have h1 := hd.lock k hk
        simpa [setLock,FsState.onHead,he] using h1)
      exact ⟨j,mem_append_left _ hj,hj'⟩
  rw [← hd.still]
  split
  · exact ⟨hscan,rfl⟩
  · split <;> exact ⟨hscan,rfl⟩

theorem flushScan_scanned {slots : List Nat} (h : InFlight base s.queue [] s) (hq : s.queue=[])
    (hn : slots.Nodup) (ha : HeadsApart s) (hf : slots.length≤fuel) :
    Scanned base slots s (flushScan env callback fuel slots s).1 ∧
      flushScan env callback fuel slots s=flushScan env still fuel slots s := by
  refine foldl_visited (P := fun visited acc => Scanned base visited s acc.1 ∧
    acc=visited.foldl (flushSlot env still fuel) (s,[],0)) ?_ ⟨.start h hq,rfl⟩ hn hf
  rintro visited i acc hi hlen ⟨hacc,he⟩
  obtain ⟨h1,h2⟩ := flushSlot_scanned env callback hacc hi ha hlen
  rw [foldl_append,← he]
  exact ⟨h1,h2⟩

theorem flushWait_idle {fuel : Nat} (h : Idle base s) {heads : List Nat} (error : Int) :
    (flushWait env callback fuel heads s error).2=s ∧
      flushWait env callback fuel heads s error=flushWait env still fuel heads s error := by
  unfold flushWait
  induction heads generalizing error with
  | nil => exact ⟨rfl,rfl⟩
  | cons head heads ih =>
    have hone : ∀ callback : Call → FsState δ → FsState δ,∃ e,∀ c : Call → FsState δ → FsState δ,
        flushWaitOne env c fuel (error,s) head=(e,s) := by
      intro callback
      have hw : ∀ c : Call → FsState δ → FsState δ,waitOnBuffer env c fuel head s=s :=
        fun c => waitOnBuffer_free env c fuel (Idle.lock h head)
      by_cases hc : ((s.heads head).flags.writeEio=true ∨ (!(s.heads head).flags.uptodate)=true) ∧
          error=0
      · exact ⟨eio,fun c => by simp only [flushWaitOne,hw c,if_pos hc]⟩
      · exact ⟨error,fun c => by simp only [flushWaitOne,hw c,if_neg hc]⟩
    obtain ⟨e,he⟩ := hone callback
    rw [foldl_cons,foldl_cons,he callback,he still]
    exact ih e

theorem flushDirty_finished (h : Idle base s) (hp : Prompt s) (ha : HeadsApart s)
    (hf : bufferCacheMax≤fuel) :
    Finished base s (flushDirtyBuffers env callback fuel s).2 ∧
      flushDirtyBuffers env callback fuel s=flushDirtyBuffers env still fuel s := by
  have h0 : InFlight base ({ s with autoDrain := false } : FsState δ).queue []
      { s with autoDrain := false } :=
    (hp.flight h).same (fun _ _ => rfl) le_rfl rfl rfl
  have hlen : (range bufferCacheMax).length≤fuel := by rw [length_range]; exact hf
  obtain ⟨hs,he⟩ := flushScan_scanned env callback h0 hp.queue nodup_range
    (show HeadsApart { s with autoDrain := false } from ha) hlen
  have hqueue := hs.length
  obtain ⟨hd,hq,hsd,hed⟩ := hs.flight.drain env callback (hqueue.trans hlen)
  unfold flushDirtyBuffers
  rw [← he]
  generalize flushScan env callback fuel (range bufferCacheMax) { s with autoDrain := false }=
    scan at hs hd hq hsd hed
  dsimp only
  rw [← hed]
  generalize (kbFsSubsystemBioDrain env callback fuel scan.1).2=t at hd hq hsd
  have hidle : Idle base ({ t with autoDrain := s.autoDrain } : FsState δ) :=
    InFlight.same hd (fun _ _ => rfl) le_rfl rfl rfl
  have hall := hs.settings.trans hsd
  have hset : SameSettings s { t with autoDrain := s.autoDrain } :=
    ⟨rfl,hall.plugDepth,hall.hung,hall.bindingBdev,hall.bindingDevice,hall.mountDevice,
      hall.fileFolio⟩
  obtain ⟨hw1,hw2⟩ := flushWait_idle env callback hidle
    (if t.lastDrainStatus≠0 ∧ scan.2.2=0 then t.lastDrainStatus else scan.2.2)
  refine ⟨?_,hw2⟩
  rw [hw1]
  exact ⟨hidle,hset,hp.settings hset (hq.trans hp.queue.symm)⟩

end Kobox.Fs
