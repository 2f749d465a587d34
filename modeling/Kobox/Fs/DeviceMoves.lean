import Kobox.Framework.Rules
import Kobox.Fs.Core

namespace Kobox.Fs

open List Prog

/-- The n bytes from a disk sector on lie in the device. -/
def Within (d : BlockDevice) (sector n : Nat) : Prop :=
  n=0 ∨ d.startSector ≤ sector ∧ sector+(n+511)/512≤d.startSector+d.sectorCount

def Inside (d : BlockDevice) : Request → Prop
  | .read sector bytes => Within d sector bytes
  | .readBatch parts => ∀ p∈parts,Within d p.1 p.2
  | .write sector data => Within d sector data.length
  | .writeBatch parts => ∀ p∈parts,Within d p.1 p.2.length
  | .writeFlags sector data _ => Within d sector data.length
  | .flush => True

/-- A byte range that the wrappers have let through. -/
def InDevice (d : BlockDevice) (offset size : Nat) : Prop := 0<size ∧ offset+size≤d.sizeBytes

section

variable {d : BlockDevice} {offset size : Nat}

theorem rangeValid_ok : blockDeviceRangeValid d offset size=.ok () ↔
      0<size ∧ offset+size<wordSize ∧ offset+size≤d.sizeBytes := by
  unfold blockDeviceRangeValid
  split_ifs <;> simp <;> omega

theorem inDevice_of_valid (h : blockDeviceRangeValid d offset size=.ok ()) : InDevice d offset size :=
  ⟨(rangeValid_ok.mp h).1,(rangeValid_ok.mp h).2.2⟩

theorem within_aligned (ho : offset%512=0) (hn : size%512=0) (h : offset+size≤d.sizeBytes) :
    Within d (d.startSector+offset/512) size := by
  have hs := d.sized
  unfold sectorSize at hs
  refine Or.inr ⟨by omega,?_⟩
  omega

theorem bounceRange_within {range : Nat × Nat} (h : InDevice d offset size)
    (hr : bounceRange d offset size=.ok range) : Within d range.1 range.2 := by
  have hs := d.sized
  have hw := d.inWord
  obtain ⟨_,hle⟩ := h
  unfold sectorSize at hs
  simp only [bounceRange] at hr
  split_ifs at hr
  cases hr
  have hm : (offset+size+511)%wordSize=offset+size+511 := by
    unfold wordSize at *
    omega
  have hc : ((offset+size+511)%wordSize/512+wordSize-offset/512)%wordSize=
      (offset+size+511)/512-offset/512 := by
    unfold wordSize at *
    omega
  refine Or.inr ⟨by simp,?_⟩
  omega

variable {δ : Type} {env : Env δ} {s : FsState δ} {e : Int}

theorem bounceRange_negative (h : bounceRange d offset size=.error e) : e<0 := by
  simp only [bounceRange] at h
  split_ifs at h <;> cases h <;> decide

theorem batchSector_negative {r : IoRequest} (h : batchSector d r=.error e) : e<0 := by
  unfold batchSector at h
  split_ifs at h <;> cases h <;> decide

variable {requests : List IoRequest}

theorem batchSectors_negative (h : requests.mapM (batchSector d)=.error e) : e<0 := by
  induction requests with
  | nil => cases h
  | cons r rs ih =>
    rw [List.mapM_cons] at h
    cases hb : batchSector d r with
    | error f =>
      rw [hb] at h
      cases h
      exact batchSector_negative hb
    | ok sector =>
      cases hr : rs.mapM (batchSector d) with
      | error f =>
        rw [hb,hr] at h
        cases h
        exact ih hr
      | ok rest =>
        rw [hb,hr] at h
        cases h

theorem rangeValid_negative (h : blockDeviceRangeValid d offset size=.error e) : e<0 := by
  unfold blockDeviceRangeValid at h
  split_ifs at h <;> cases h <;> decide

theorem batchCountValid_negative (h : batchCountValid requests=.error e) : e<0 := by
  unfold batchCountValid at h
  split_ifs at h
  cases h
  decide

theorem batchValid_negative (h : batchValid d requests=.error e) : e<0 := by
  unfold batchValid at h
  split_ifs at h
  cases h
  decide

theorem vectorRequests_negative {vs : List BioVec} (h : vectorRequests env s offset vs=.error e) :
    e<0 := by
  induction vs generalizing offset with
  | nil => cases h
  | cons v vs ih =>
    simp only [vectorRequests] at h
    split_ifs at h
    · cases h
      decide
    · cases h
      decide
    cases hr : vectorRequests env s (offset+v.length) vs with
    | error f =>
      rw [hr] at h
      cases h
      exact ih hr
    | ok r =>
      rw [hr] at h
      cases h

variable {sectors : List Nat}

theorem batchSectors_within (hv : batchValid d requests=.ok ())
    (hs : requests.mapM (batchSector d)=.ok sectors) :
    ∀ p∈sectors.zip (requests.map IoRequest.size),Within d p.1 p.2 := by
  have hin : ∀ r∈requests,InDevice d r.offset r.size := by
    intro r hr
    unfold batchValid at hv
    split_ifs at hv with ha
    have hb := all_eq_true.mp ha r hr
    have hok : (blockDeviceRangeValid d r.offset r.size).isOk := by
      have := of_decide_eq_true hb
      exact this.2
    cases hc : blockDeviceRangeValid d r.offset r.size with
    | ok _ => exact inDevice_of_valid hc
    | error e => rw [hc] at hok; cases hok
  clear hv
  induction requests generalizing sectors with
  | nil =>
    intro p hp
    simp at hp
  | cons r rs ih =>
    rw [mapM_cons] at hs
    cases hb : batchSector d r with
    | error e => rw [hb] at hs; cases hs
    | ok sector =>
      cases hrest : rs.mapM (batchSector d) with
      | error e => rw [hb,hrest] at hs; cases hs
      | ok rest =>
        rw [hb,hrest] at hs
        cases hs
        intro p hp
        rcases mem_cons.mp hp with he|hp
        · subst he
          unfold batchSector at hb
          split_ifs at hb with hc
          cases hb
          have hle := (hin r mem_cons_self).2
          exact within_aligned (by omega) (by omega) hle
        · exact ih hrest (fun q hq => hin q (mem_cons_of_mem _ hq)) p hp

theorem writeParts_within {mem : Bytes}
    (h : ∀ p∈sectors.zip (requests.map IoRequest.size),Within d p.1 p.2) :
    ∀ p∈sectors.zip (requests.map (requestData mem)),Within d p.1 p.2.length := by
  intro p hp
  have hm : sectors.zip (requests.map IoRequest.size)=
      (sectors.zip (requests.map (requestData mem))).map fun q => (q.1,q.2.length) := by
    have hl : requests.map IoRequest.size=(requests.map (requestData mem)).map length := by
      simp [requestData]
    rw [hl,zip_map_right]
    rfl
  exact h (p.1,p.2.length) (hm ▸ mem_map.mpr ⟨p,hp,rfl⟩)

end

variable {δ : Type} {env : Env δ}

/-- A change of memory that looks at the core only. -/
structure Updates (f : FsState δ → FsState δ) : Prop where
  mem : ∀ s,∃ m,f s={ s with mem := m }
  sees : Sees f

theorem Updates.ite {c : FsState δ → Prop} [DecidablePred c] {f g : FsState δ → FsState δ}
    (hc : ∀ s,c s.core ↔ c s) (hf : Updates f) (hg : Updates g) :
    Updates fun s => if c s then f s else g s := by
  refine ⟨?_,Blind.ite hc hf.sees hg.sees⟩
  intro s
  split
  · exact hf.mem s
  · exact hg.mem s

theorem overlay_updates {offset buffer size : Nat} :
    Updates (overlayDirtyBufferCacheOnRead offset buffer size : FsState δ → FsState δ) := by
  exact Updates.ite (fun _ => Iff.rfl) ⟨fun s => ⟨s.mem,rfl⟩,fun _ => rfl⟩
    ⟨fun _ => ⟨_,rfl⟩,fun _ => rfl⟩

theorem update_updates {offset : Nat} {source : Source} {size : Nat} :
    Updates (updateBufferCacheFromWrite offset source size : FsState δ → FsState δ) := by
  exact Updates.ite (fun _ => Iff.rfl) ⟨fun s => ⟨s.mem,rfl⟩,fun _ => rfl⟩
    ⟨fun _ => ⟨_,rfl⟩,fun _ => rfl⟩

theorem foldl_updates {f : FsState δ → IoRequest → FsState δ} (hf : ∀ r,Updates fun s => f s r)
    {requests : List IoRequest} : Updates fun s => requests.foldl f s := by
  refine ⟨?_,fun s => Blind.foldl (fun r => (hf r).sees) requests (core_core s)⟩
  intro s
  induction requests generalizing s with
  | nil => exact ⟨s.mem,rfl⟩
  | cons r rs ih =>
    obtain ⟨m,hm⟩ := (hf r).mem s
    obtain ⟨k,hk⟩ := ih (f s r)
    refine ⟨k,?_⟩
    rw [foldl_cons,hk,hm]

/-- A status that some disk may answer. -/
def Answered (env : Env δ) (status : Int) : Prop := ∃ disk r,(env.reply disk r).1.status=status

/-- A property of code that the steps of a transfer have and that composes: requests that are Ok,
changes of memory, of the allocation counter, of a status byte. -/
structure DeviceRules (env : Env δ) (Ok : BlockDevice → Request → Prop)
    (P : ∀ {α : Type},Prog (FsState δ) Int α → Prop) : Prop
    extends Rules FsState.core (·<0) @P where
  inside : ∀ d r,Inside d r → Ok d r
  ask : ∀ {α : Type} {d r} {f : Reply → Prog (FsState δ) Int α},Ok d r →
    (∀ reply,Answered env reply.status → P (f reply)) → P (ask env d r >>= f)
  checkStatus : ∀ {status},Answered env status → P (checkStatus status)
  mem : ∀ {f : FsState δ → FsState δ},Updates f → P (modify f)
  allocate : P (allocate env)
  settle : ∀ bio {x},P x → P (settle bio x)
  settleFailure : ∀ bio {x},P x → P (settleFailure bio x)
  status : ∀ bio status,P (modify (setStatus bio status))

section

variable {Ok : BlockDevice → Request → Prop} {P : ∀ {α : Type},Prog (FsState δ) Int α → Prop}
  (C : DeviceRules env Ok @P) (d : BlockDevice) (offset buffer : Nat)

include C

theorem DeviceRules.request {d : BlockDevice} {r : Request} (h : Ok d r) :
    P (Kobox.Fs.ask env d r >>= fun reply => Kobox.Fs.checkStatus reply.status) :=
  C.ask h fun _ => C.checkStatus

theorem fillBuffer_rule {bytes : List UInt8} : P (fillBuffer buffer bytes) :=
  C.mem ⟨fun _ => ⟨_,rfl⟩,fun _ => rfl⟩

theorem fillBuffers_rule {reply : Reply} (i : Nat) {requests : List IoRequest} :
    P (fillBuffers reply i requests) := by
  induction requests generalizing i with
  | nil => exact C.pure ()
  | cons r rs ih => exact C.bind (fillBuffer_rule C _) fun _ => ih (i+1)

theorem onActiveDevice_rule {f : FsState δ → FsState δ} (hf : Updates f) : P (onActiveDevice d f) :=
  C.mem (Updates.ite (fun _ => Iff.rfl) hf ⟨fun s => ⟨s.mem,rfl⟩,fun _ => rfl⟩)

theorem blockDiskRead_rule {d : BlockDevice} {offset size : Nat} (h : InDevice d offset size)
    {buffer : Nat} : P (blockDiskRead env d offset buffer size) := by
  apply iteInduction
  · intro ha
    apply iteInduction (fun _ => C.fail (by decide))
    intro _
    apply C.ask (C.inside d (.read _ _) (within_aligned ha.1 ha.2 h.2))
    intro r hr
    exact C.bind (fillBuffer_rule C buffer) fun _ => C.checkStatus hr
  · intro _
    apply C.check fun _ => bounceRange_negative
    intro range hrange
    apply C.bind C.allocate
    intro allocated
    apply iteInduction (fun _ => C.fail (by decide))
    intro _
    apply C.ask (C.inside d (.read _ _) (bounceRange_within h hrange))
    intro r hr
    exact C.bind (C.checkStatus hr) fun _ => fillBuffer_rule C buffer

theorem blockDiskWrite_rule {d : BlockDevice} {offset : Nat} {data : List UInt8}
    (h : InDevice d offset data.length) : P (blockDiskWrite env d offset data) := by
  apply iteInduction
  · intro ha
    apply iteInduction (fun _ => C.fail (by decide))
    intro _
    exact C.request (C.inside d (.write _ _) (within_aligned ha.1 ha.2 h.2))
  · intro _
    apply C.check fun _ => bounceRange_negative
    intro range hrange
    have hin := bounceRange_within h hrange
    apply C.bind C.allocate
    intro allocated
    apply iteInduction (fun _ => C.fail (by decide))
    intro _
    apply C.ask (C.inside d (.read _ _) hin)
    intro r hr
    apply C.bind (C.checkStatus hr)
    intro _
    -- the bounce buffer goes back to the sectors it was read from
    have hback : ∀ b : Bytes,Inside d (.write range.1 (b.slice 0 range.2)) := by
      simpa [Inside] using hin
    exact C.request (C.inside d _ (hback _))

theorem blockDiskFlush_rule : P (blockDiskFlush env d) := C.request (C.inside d .flush trivial)

theorem blockDiskReadBatch_rule {d : BlockDevice} {requests : List IoRequest}
    (hv : batchValid d requests=.ok ()) : P (blockDiskReadBatch env d requests) := by
  apply C.check fun _ => batchCountValid_negative
  intro _ _
  apply C.check fun _ => batchSectors_negative
  intro sectors hs
  apply C.ask (C.inside d (.readBatch _) (batchSectors_within hv hs))
  intro r hr
  exact C.bind (fillBuffers_rule C 0) fun _ => C.checkStatus hr

theorem blockDiskWriteBatch_rule {d : BlockDevice} {requests : List IoRequest}
    (hv : batchValid d requests=.ok ()) : P (blockDiskWriteBatch env d requests) := by
  apply C.check fun _ => batchCountValid_negative
  intro _ _
  apply C.check fun _ => batchSectors_negative
  intro sectors hs
  refine C.get (fun _ => rfl) fun u => ?_
  exact C.request (C.inside d (.writeBatch _) (writeParts_within (batchSectors_within hv hs)))

theorem deviceRead_rule {size : Nat} : P (kbFsBlockDeviceRead env d offset buffer size) := by
  apply iteInduction (fun _ => C.fail (by decide))
  intro _
  apply C.check fun _ => rangeValid_negative
  intro _ hv
  apply C.bind (blockDiskRead_rule C (inDevice_of_valid hv))
  intro _
  exact onActiveDevice_rule C d (overlay_updates)

omit C in
@[simp] theorem source_length {source : Source} {mem : Bytes} {skip n : Nat} :
    (source.bytes mem skip n).length=n := by
  cases source <;> simp [Source.bytes]

theorem writeFrom_rule {source : Source} {size : Nat} : P (writeFrom env d offset source size) := by
  apply C.check fun _ => rangeValid_negative
  intro _ hv
  refine C.get (fun _ => rfl) fun u => ?_
  have hin : InDevice d offset (source.bytes u.mem 0 size).length := by
    rw [source_length]
    exact inDevice_of_valid hv
  apply C.bind (blockDiskWrite_rule C hin)
  intro _
  exact onActiveDevice_rule C d (update_updates)

theorem deviceWrite_rule {size : Nat} : P (kbFsBlockDeviceWrite env d offset buffer size) :=
  iteInduction (fun _ => C.fail (by decide)) fun _ => writeFrom_rule C d offset

theorem deviceReadBatch_rule (requests : List IoRequest) :
    P (kbFsBlockDeviceReadBatch env d requests) := by
  unfold kbFsBlockDeviceReadBatch
  split
  · exact C.fail (by decide)
  · exact deviceRead_rule C d _ _
  apply C.check fun _ => batchValid_negative
  intro _ hv
  apply C.bind (blockDiskReadBatch_rule C hv)
  intro _
  exact onActiveDevice_rule C d (foldl_updates (fun r => overlay_updates))

theorem deviceWriteBatch_rule (requests : List IoRequest) :
    P (kbFsBlockDeviceWriteBatch env d requests) := by
  unfold kbFsBlockDeviceWriteBatch
  split
  · exact C.fail (by decide)
  · exact deviceWrite_rule C d _ _
  apply C.check fun _ => batchValid_negative
  intro _ hv
  apply C.bind (blockDiskWriteBatch_rule C hv)
  intro _
  exact onActiveDevice_rule C d (foldl_updates (fun r => update_updates))

theorem issueFlush_rule {bdev : Nat} : P (kbFsSubsystemIssueFlush env bdev) := by
  refine C.get (fun _ => rfl) fun s => ?_
  cases blockDeviceForBdev s bdev with
  | none => exact C.fail (by decide)
  | some d => exact blockDiskFlush_rule C d

theorem issueZeroout_rule {bdev sector sectorCount : Nat} {noFallback : Bool} :
    P (kbFsSubsystemIssueZeroout env bdev sector sectorCount noFallback) := by
  refine C.get (fun _ => rfl) fun s => ?_
  cases blockDeviceForBdev s bdev with
  | none => exact C.fail (by decide)
  | some d =>
    apply iteInduction (fun _ => C.fail (by decide))
    intro _
    apply iteInduction (fun _ => C.fail (by decide))
    intro _
    apply iteInduction (fun _ => C.pure ())
    intro _
    apply C.bind C.allocate
    intro allocated
    apply iteInduction (fun _ => C.fail (by decide))
    intro _
    exact C.loopFrom (fun _ => writeFrom_rule C d _) _ _

/-- A single-vector write that asks for forced unit access goes to the disk as it is. -/
def FuaOk (Ok : BlockDevice → Request → Prop) (d : BlockDevice) (b : Bio) : Prop :=
  b.needsFua=true → b.vectors.length=1 → ∀ data : List UInt8,data.length%512=0 →
    (∀ v∈b.vectors,data.length=v.length) → ∀ flags,
      Ok d (.writeFlags (d.startSector+b.sector) data flags)

variable {b : Bio}

theorem transferVector_rule {d : BlockDevice} (hfua : FuaOk Ok d b) {v : BioVec} {offset : Nat}
    (hv : b.vectors.length=1 → offset=b.sector*512 ∧ b.vectors=[v]) :
    P (transferVector env d b offset v) := by
  apply iteInduction
  · intro _
    refine C.get (fun _ => rfl) fun s => ?_
    exact C.bind (deviceRead_rule C d _ _) fun _ => C.pure false
  intro _
  refine iteInduction (fun _ => iteInduction ?_ ?_) fun _ => C.fail (by decide)
  · intro hf
    refine C.get (fun _ => rfl) fun s => C.bind ?_ fun _ => C.pure true
    obtain ⟨ho,hb⟩ := hv hf.2
    apply iteInduction (fun _ => C.fail (by decide))
    intro hc
    apply iteInduction (fun _ => C.fail (by decide))
    intro _
    have hs : offset/512=b.sector := by rw [ho]; simp
    rw [hs]
    apply C.request
    apply hfua hf.1 hf.2
    · omega
    · intro w hw
      rw [hb,mem_singleton] at hw
      simp [hw]
  · intro _
    refine C.get (fun _ => rfl) fun s => ?_
    exact C.bind (deviceWrite_rule C d _ _) fun _ => C.pure false

theorem transferVectors_rule {d : BlockDevice} (hfua : FuaOk Ok d b) {vs : List BioVec}
    (offset : Nat) (durable : Bool)
    (hv : b.vectors.length=1 → ∀ v∈vs,offset=b.sector*512 ∧ b.vectors=vs) :
    P (transferVectors env d b offset durable vs) := by
  induction vs generalizing offset durable with
  | nil => exact C.pure durable
  | cons v vs ih =>
    -- a single vector leaves nothing behind it
    have hn : b.vectors.length=1 → vs=[] := by
      intro h1
      rw [(hv h1 v mem_cons_self).2,length_cons] at h1
      exact eq_nil_of_length_eq_zero (by omega)
    apply C.bind
    · apply transferVector_rule C hfua
      intro h1
      obtain ⟨ho,hb⟩ := hv h1 v mem_cons_self
      exact ⟨ho,hn h1 ▸ hb⟩
    · intro done
      apply iteInduction (fun _ => C.fail (by decide))
      intro _
      apply ih
      intro h1 w hw
      rw [hn h1] at hw
      simp at hw

theorem transferBatches_rule {issue : List IoRequest → Prog (FsState δ) Int Unit}
    (hi : ∀ requests,P (issue requests)) (n offset : Nat) (vs : List BioVec) :
    P (transferBatches env issue n offset vs) := by
  induction n generalizing offset vs with
  | zero => exact C.pure ()
  | succ n ih =>
    cases vs with
    | nil => exact C.pure ()
    | cons v vs =>
      apply C.get
      · intro s
        rw [vectorRequests_core]
      · intro s
        apply C.check fun _ => vectorRequests_negative
        intro r _
        exact C.bind (hi r.1) fun _ => ih r.2 _

theorem transferBio_rule {d : BlockDevice} (hfua : FuaOk Ok d b) : P (transferBio env d b) := by
  have hflush : ∀ c : Prop,∀ _ : Decidable c,P (if c then blockDiskFlush env d else pure ()) :=
    fun c _ => iteInduction (fun _ => blockDiskFlush_rule C d) fun _ => C.pure ()
  apply iteInduction
  · intro _
    exact transferBatches_rule C (deviceReadBatch_rule C d) _ _ _
  intro _
  apply iteInduction
  · intro _
    apply C.bind (transferBatches_rule C (deviceWriteBatch_rule C d) _ _ _)
    intro _
    exact hflush _ _
  · intro _
    apply C.bind (transferVectors_rule C hfua _ _ fun _ _ _ => ⟨rfl,rfl⟩)
    intro durable
    exact hflush _ _

theorem submitOn_rule {d : BlockDevice} (hfua : FuaOk Ok d b) (bio : Nat) :
    P (submitOn env d bio b) := by
  have hvectors : P (submitVectors env d bio b) := by
    apply iteInduction (fun _ => C.fail (by decide))
    intro _
    apply iteInduction (fun _ => C.fail (by decide))
    intro _
    exact C.settle bio (transferBio_rule C hfua)
  apply iteInduction (fun _ => C.settle bio (blockDiskFlush_rule C d))
  intro _
  refine iteInduction (fun _ => ?_) fun _ => hvectors
  apply C.bind (C.settleFailure bio (blockDiskFlush_rule C d))
  intro _
  exact iteInduction (fun _ => C.status bio 0) fun _ => hvectors

theorem bioSubmitNow_rule (hfua : ∀ d b,FuaOk Ok d b)
    (hnote : ∀ d b,P (modify fun s => s.note (.bio d b))) {bio : Nat} :
    P (bioSubmitNow env bio) := by
  refine C.get (fun _ => rfl) fun s => ?_
  dsimp only
  cases blockDeviceForBdev s (s.bios bio).bio.bdev with
  | none => exact C.fail (by decide)
  | some d => exact C.bind (hnote d _) fun _ => submitOn_rule C (hfua d _) bio

end

/-- A relation that the steps of a transfer stay in. -/
structure DeviceClosed (env : Env δ) (R : FsState δ → FsState δ → Prop)
    (Ok : BlockDevice → Request → Prop) : Prop where
  refl : ∀ s,R s s
  trans : ∀ a b c,R a b → R b c → R a c
  inside : ∀ d r,Inside d r → Ok d r
  ask : ∀ d r s,Ok d r → R s (ask env d r s).2
  mem : ∀ s m,R s { s with mem := m }
  alloc : ∀ s,R s { s with allocations := s.allocations+1 }
  status : ∀ s bio status,R s (setStatus bio status s)

theorem DeviceClosed.rules {R : FsState δ → FsState δ → Prop} {Ok : BlockDevice → Request → Prop}
    (C : DeviceClosed env R Ok) : DeviceRules env Ok (Moves R) where
  toRules := Moves.rules C.refl C.trans
  inside := C.inside
  ask := by
    intro α d r f h hf s
    exact C.trans _ _ _ (C.ask d r s h) (hf _ ⟨_,r,rfl⟩ _)
  checkStatus := fun _ => iteInduction (fun _ => Moves.pure C.refl ()) fun _ => Moves.fail C.refl _
  mem := by
    intro f hf s
    obtain ⟨m,hm⟩ := hf.mem s
    rw [modify_run,hm]
    exact C.mem s m
  allocate := C.alloc
  settle := by
    intro bio x hx s
    have h := hx s
    unfold settle
    rcases hr : x s with ⟨r,t⟩
    rw [hr] at h
    cases r <;> exact C.trans _ _ _ h (C.status t bio _)
  settleFailure := by
    intro bio x hx s
    have h := hx s
    unfold settleFailure
    rcases hr : x s with ⟨r,t⟩
    rw [hr] at h
    cases r with
    | ok _ => exact h
    | error e => exact C.trans _ _ _ h (C.status t bio 1)
  status := fun bio status s => C.status s bio status

end Kobox.Fs
