import Kobox.Fs.BlockDevice

namespace Kobox.Fs

def opRead : Nat := 0
def opWrite : Nat := 1
def opFlush : Nat := 2

/-- The operation in the low byte of the flags, and the two request flags above it. -/
def Bio.op (b : Bio) : Nat := b.opf%256
def Bio.hasFua (b : Bio) : Bool := b.opf.testBit 17
def Bio.hasPreflush (b : Bio) : Bool := b.opf.testBit 18
def Bio.needsFua (b : Bio) : Bool := b.op=opWrite && b.hasFua
def Bio.needsPreflush (b : Bio) : Bool := b.op=opWrite && b.hasPreflush

variable {δ : Type} (env : Env δ)

/-- Payload of a page, or the page itself where it has none. -/
def pagePayload (s : FsState δ) (page : Nat) : Nat :=
  if folioPagePayload env s page=0 then page else folioPagePayload env s page

def BioVec.buffer (s : FsState δ) (v : BioVec) : Nat := (pagePayload env s v.page+v.offset)%wordSize

/-- `kb_fs_subsystem_bio_alloc_bioset`: the handle of a new record, 0 for NULL. -/
def bioAllocBioset (bdev nrVecs opf : Nat) : Prog (FsState δ) Int Nat := fun s =>
  if bioMaxVecs<nrVecs then (.ok 0,s)
  else if !env.allocOk s.allocations then (.ok 0,{ s with allocations := s.allocations+1 })
  else
    (.ok (s.nextBio+1),{ s with
      allocations := s.allocations+1
      nextBio := s.nextBio+1
      bios := Function.update s.bios (s.nextBio+1)
        ⟨⟨bdev,opf,0,0,0,[],nrVecs,.none,0⟩,true,einprogress,0,false,false⟩ })

def bioAddVector (v : BioVec) (buffer : Nat) (r : BioRecord) : Nat × BioRecord :=
  if v.page=0 ∨ buffer=0 ∨ v.length=0 ∨ 2^32≤v.length ∨ 2^32≤v.offset ∨
      r.bio.maxVectors ≤ r.bio.vectors.length ∨ bioMaxVecs ≤ r.bio.vectors.length ∨
      2^32-1-v.length < r.bio.size then (0,r)
  else (v.length,{ r with bio := { r.bio with
      vectors := r.bio.vectors++[v],size := r.bio.size+v.length } })

/-- The number of bytes added, 0 if the page was refused. -/
def bioAddPage (bio page len offset : Nat) : Prog (FsState δ) Int Nat := fun s =>
  if !(s.bios bio).magic ∨ page=0 then (.ok 0,s)
  else
    let r := bioAddVector ⟨page,len,offset⟩ ((pagePayload env s page+offset)%wordSize) (s.bios bio)
    (.ok r.1,s.onBio bio fun _ => r.2)

def setStatus (bio : Nat) (status : Nat) (s : FsState δ) : FsState δ :=
  s.onBio bio fun r => { r with bio := { r.bio with status := status } }

/-- Run the transfer of a bio and put its outcome into the status byte. -/
def settle (bio : Nat) (x : Prog (FsState δ) Int Unit) : Prog (FsState δ) Int Unit := fun s =>
  match x s with
  | (.ok _,t) => (.ok (),setStatus bio 0 t)
  | (.error e,t) => (.error e,setStatus bio 1 t)

/-- The status byte is touched only on failure. -/
def settleFailure (bio : Nat) (x : Prog (FsState δ) Int Unit) : Prog (FsState δ) Int Unit :=
  fun s =>
    match x s with
    | (.ok _,t) => (.ok (),t)
    | (.error e,t) => (.error e,setStatus bio 1 t)

/-- One request per vector, and the offset behind the last one. -/
def vectorRequests (s : FsState δ) : Nat → List BioVec → Except Int (List IoRequest × Nat)
  | offset,[] => .ok ([],offset)
  | offset,v::vs =>
    if pagePayload env s v.page=0 ∨ v.length=0 then .error einval
    else if wordSize≤offset+v.length then .error erange
    else
      match vectorRequests s (offset+v.length) vs with
      | .error e => .error e
      | .ok (requests,stop) => .ok (⟨offset,v.buffer env s,v.length⟩::requests,stop)

/-- Batches of at most 128 vectors; each turn takes at least one of the n that are left. -/
def transferBatches (issue : List IoRequest → Prog (FsState δ) Int Unit) :
    Nat → Nat → List BioVec → Prog (FsState δ) Int Unit
  | 0,_,_ => return ()
  | _+1,_,[] => return ()
  | n+1,offset,vs => do
    let s ← Prog.get
    let r ← Prog.ofExcept (vectorRequests env s offset (vs.take batchMax))
    issue r.1
    transferBatches issue n r.2 (vs.drop batchMax)

/-- One vector of the loop for the remaining bios; true once the write itself was durable. -/
def transferVector (d : BlockDevice) (b : Bio) (offset : Nat) (v : BioVec) :
    Prog (FsState δ) Int Bool :=
  if b.op=opRead then do
    let s ← Prog.get
    kbFsBlockDeviceRead env d offset (v.buffer env s) v.length
    return false
  else if b.op=opWrite then
    if b.needsFua ∧ b.vectors.length=1 then do
      let s ← Prog.get
      blockDiskWriteFlags env d offset (s.mem.slice (v.buffer env s) v.length) writeFua
      return true
    else do
      let s ← Prog.get
      kbFsBlockDeviceWrite env d offset (v.buffer env s) v.length
      return false
  else Prog.fail eopnotsupp

def transferVectors (d : BlockDevice) (b : Bio) :
    Nat → Bool → List BioVec → Prog (FsState δ) Int Bool
  | _,durable,[] => return durable
  | offset,durable,v::vs => do
    let done ← transferVector env d b offset v
    if wordSize≤offset+v.length then Prog.fail erange
    else transferVectors d b (offset+v.length) (durable || done) vs

/-- The transfer of a bio with vectors, from the byte offset of its sector on. -/
def transferBio (d : BlockDevice) (b : Bio) : Prog (FsState δ) Int Unit :=
  if b.op=opRead ∧ 2≤b.vectors.length then
    transferBatches env (kbFsBlockDeviceReadBatch env d) b.vectors.length (b.sector*512) b.vectors
  else if b.op=opWrite ∧ 2≤b.vectors.length then do
    transferBatches env (kbFsBlockDeviceWriteBatch env d) b.vectors.length (b.sector*512) b.vectors
    if b.needsFua then blockDiskFlush env d else return ()
  else do
    let durable ← transferVectors env d b (b.sector*512) false b.vectors
    if b.needsFua ∧ !durable then blockDiskFlush env d else return ()

/-- The part of `bio_submit_now` behind the preflush. -/
def submitVectors (d : BlockDevice) (bio : Nat) (b : Bio) : Prog (FsState δ) Int Unit :=
  if b.vectors=[] ∨ b.size=0 then Prog.fail einval
  else if wordSize≤b.sector*512 then Prog.fail erange
  else settle bio (transferBio env d b)

def submitOn (d : BlockDevice) (bio : Nat) (b : Bio) : Prog (FsState δ) Int Unit :=
  if b.op=opFlush then settle bio (blockDiskFlush env d)
  else if b.needsPreflush then do
    settleFailure bio (blockDiskFlush env d)
    if b.vectors=[] ∧ b.size=0 then Prog.modify (setStatus bio 0)
    else submitVectors env d bio b
  else submitVectors env d bio b

def bioSubmitNow (bio : Nat) : Prog (FsState δ) Int Unit := do
  let s ← Prog.get
  let b := (s.bios bio).bio
  match blockDeviceForBdev s b.bdev with
  | none => Prog.fail enodev
  | some d =>
    Prog.modify fun s => s.note (.bio d b)
    submitOn env d bio b

def bioQueuePush (bio : Nat) (s : FsState δ) : FsState δ :=
  if (s.bios bio).queued then s
  else
    { s.onBio bio (fun r => { r with queued := true,completed := false }) with
      queue := s.queue++[bio]
      queueDepth := s.queueDepth+1 }

def bioQueueRemove (bio : Nat) (s : FsState δ) : FsState δ :=
  if !(s.bios bio).queued then s
  else
    let t := s.onBio bio fun r => { r with queued := false }
    if bio∈s.queue then { t with queue := s.queue.erase bio,queueDepth := s.queueDepth-1 } else t

def bioQueuePop (s : FsState δ) : FsState δ :=
  match s.queue with
  | [] => s
  | bio::rest =>
    { s.onBio bio (fun r => { r with queued := false }) with
      queue := rest
      queueDepth := s.queueDepth-1 }

def bioQueuePops (n : Nat) (s : FsState δ) : FsState δ := n.iterate bioQueuePop s

/-- The record is freed; its handle is not handed out again. -/
def bioPut (bio : Nat) (s : FsState δ) : FsState δ :=
  if !(s.bios bio).magic then s
  else (bioQueueRemove bio s).onBio bio fun r => { r with magic := false }

/-- The single request of a read bio that may join a batch. -/
def bioPrepareReadRequest (s : FsState δ) (bio : Nat) : Option (BlockDevice × IoRequest) :=
  let b := (s.bios bio).bio
  if b.op≠opRead ∨ b.size=0 then none
  else
    match b.vectors,blockDeviceForBdev s b.bdev with
    | [v],some d =>
      if pagePayload env s v.page=0 ∨ v.length≠b.size ∨ wordSize≤b.sector*512 then none
      else some (d,⟨b.sector*512,v.buffer env s,v.length⟩)
    | _,_ => none

/-- The requests of a write bio that may join a batch with `capacity` places left. -/
def bioAppendWriteRequests (s : FsState δ) (bio capacity : Nat) :
    Option (BlockDevice × List IoRequest) :=
  let b := (s.bios bio).bio
  if b.op≠opWrite ∨ b.hasPreflush ∨ b.hasFua ∨ b.vectors=[] ∨ b.size=0 ∨
      capacity<b.vectors.length then none
  else
    match blockDeviceForBdev s b.bdev with
    | none => none
    | some d =>
      if wordSize≤b.sector*512 then none
      else
        match vectorRequests env s (b.sector*512) b.vectors with
        | .error _ => none
        | .ok (requests,_) =>
          if (requests.map IoRequest.size).sum≠b.size then none else some (d,requests)

/-- Reads at the head of the queue that form one batch: device and requests, one a record. -/
def readRun (s : FsState δ) :
    Nat → Option BlockDevice → List Nat → Option BlockDevice × List IoRequest
  | 0,device,_ => (device,[])
  | _+1,device,[] => (device,[])
  | n+1,device,bio::rest =>
    match bioPrepareReadRequest env s bio with
    | none => (device,[])
    | some (d,request) =>
      if device.isSome ∧ device≠some d then (device,[])
      else
        let r := readRun s n (some d) rest
        (r.1,request::r.2)

/-- Writes at the head of the queue that form one batch: device, number of records, requests. -/
def writeRun (s : FsState δ) :
    Nat → Option BlockDevice → List Nat → Option BlockDevice × Nat × List IoRequest
  | _,device,[] => (device,0,[])
  | capacity,device,bio::rest =>
    if capacity=0 then (device,0,[])
    else
      match bioAppendWriteRequests env s bio capacity with
      | none => (device,0,[])
      | some (d,requests) =>
        if device.isSome ∧ device≠some d then (device,0,[])
        else
          let r := writeRun s (capacity-requests.length) (some d) rest
          (r.1,r.2.1+1,requests++r.2.2)

def resultOf (r : Except Int Unit) : Int :=
  match r with
  | .ok _ => 0
  | .error e => e

def endBufferReadSync (head : Nat) (uptodate : Bool) (s : FsState δ) : FsState δ :=
  (s.onHead head fun h => { h with
    flags := { h.flags with uptodate := uptodate,lock := false,req := false }
    refcount := h.refcount-1 }).note (.read head uptodate)

def bufferCacheRecordForHead (s : FsState δ) (head : Nat) : Option Nat :=
  (List.range bufferCacheMax).find? fun i => (s.cache i).active && (s.cache i).bufferHead==head

def bufferCacheSetDirty (slot : Option Nat) (dirty : Bool) (s : FsState δ) : FsState δ :=
  match slot with
  | none => s
  | some i =>
    if !(s.cache i).active ∨ (s.cache i).dirty=dirty then s
    else
      { s with
        cache := Function.update s.cache i { (s.cache i) with dirty := dirty }
        dirtyCount := if dirty then s.dirtyCount+1 else s.dirtyCount-1 }

theorem setDirty_eq (slot : Option Nat) (dirty : Bool) (s : FsState δ) :
    bufferCacheSetDirty slot dirty s={ s with
      cache := (bufferCacheSetDirty slot dirty s).cache
      dirtyCount := (bufferCacheSetDirty slot dirty s).dirtyCount } := by
  cases slot with
  | none => rfl
  | some i =>
    simp only [bufferCacheSetDirty]
    split <;> rfl

def endBufferWriteSync (head : Nat) (uptodate : Bool) (s : FsState δ) : FsState δ :=
  let t := (s.onHead head fun h => { h with
    flags := { h.flags with
      uptodate := uptodate
      dirty := if uptodate then false else h.flags.dirty
      writeEio := !uptodate
      lock := false
      req := false } }).note (.wrote head uptodate)
  let u := if uptodate then bufferCacheSetDirty (bufferCacheRecordForHead t head) false t else t
  u.onHead head fun h => { h with refcount := h.refcount-1 }

variable (callback : Call → FsState δ → FsState δ)

def bufferHeadComplete (head : Nat) (success : Bool) (s : FsState δ) : FsState δ :=
  match (s.heads head).endIo with
  | .none => endBufferReadSync head success s
  | .readSync => endBufferReadSync head success s
  | .writeSync => endBufferWriteSync head success s
  | .module c => callback (.head c head success) s

def bufferHeadBioEndIo (bio : Nat) (s : FsState δ) : FsState δ :=
  let r := s.bios bio
  if !r.magic then s
  else
    bioPut bio (bufferHeadComplete callback r.bio.privateData (r.result=0 && r.bio.status=0) s)

def bioCallEndIo (bio : Nat) (s : FsState δ) : FsState δ :=
  if (s.bios bio).completed then s
  else
    let t := s.onBio bio fun r => { r with completed := true }
    match (s.bios bio).bio.endIo with
    | .none => t
    | .bufferHead => bufferHeadBioEndIo callback bio t
    | .module c => callback (.bio c bio) t

def bioFinishRecord (bio : Nat) (status : Int) (s : FsState δ) : FsState δ :=
  bioCallEndIo callback bio ((s.onBio bio fun r => { r with
    result := status
    bio := { r.bio with status := if status=0 then 0 else 1 } }).note (.done bio status))

def bioFinishRecords (bios : List Nat) (status : Int) (s : FsState δ) : FsState δ :=
  bios.foldl (fun t bio => bioFinishRecord callback bio status t) s

/-- Run the transfer of the first n records and complete them with its status. -/
def drainBatch (n : Nat) (x : Prog (FsState δ) Int Unit) (s : FsState δ) : FsState δ :=
  let r := x (bioQueuePops n s)
  let status := resultOf r.1
  let t := { r.2 with lastDrainStatus :=
    if status≠0 ∧ r.2.lastDrainStatus=0 then status else r.2.lastDrainStatus }
  bioFinishRecords callback (s.queue.take n) status t

/-- One turn of the drain loop on a queue that starts with `bio`, and how many records it
completes. -/
def drainOnce (bio : Nat) (s : FsState δ) : Nat × FsState δ :=
  let reads := readRun env s batchMax none s.queue
  let writes := writeRun env s batchMax none s.queue
  match reads.1,writes.1 with
  | some d,writer =>
    if 2 ≤ reads.2.length then
      (reads.2.length,drainBatch callback reads.2.length (kbFsBlockDeviceReadBatch env d reads.2) s)
    else
      match writer with
      | some e =>
        if 2≤writes.2.2.length then
          (writes.2.1,drainBatch callback writes.2.1 (kbFsBlockDeviceWriteBatch env e writes.2.2) s)
        else (1,drainBatch callback 1 (bioSubmitNow env bio) s)
      | none => (1,drainBatch callback 1 (bioSubmitNow env bio) s)
  | none,some e =>
    if 2≤writes.2.2.length then
      (writes.2.1,drainBatch callback writes.2.1 (kbFsBlockDeviceWriteBatch env e writes.2.2) s)
    else (1,drainBatch callback 1 (bioSubmitNow env bio) s)
  | none,none => (1,drainBatch callback 1 (bioSubmitNow env bio) s)

/-- At most `fuel` turns of the drain loop, with the number of records completed. -/
def drainLoop : Nat → FsState δ → Nat × FsState δ
  | 0,s => (0,if s.queue=[] then s else { s with hung := true })
  | fuel+1,s =>
    match s.queue with
    | [] => (0,s)
    | bio::_ =>
      let r := drainOnce env callback bio s
      let t := drainLoop fuel r.2
      (r.1+t.1,t.2)

def kbFsSubsystemBioDrain (fuel : Nat) (s : FsState δ) : Nat × FsState δ :=
  drainLoop env callback fuel { s with lastDrainStatus := 0 }

def kbFsSubsystemSubmitBio (fuel bio : Nat) (s : FsState δ) : FsState δ :=
  if !(s.bios bio).magic then s
  else
    let t := bioQueuePush bio
      ((s.onBio bio fun r => { r with submitted := r.submitted+1,result := einprogress }).note
        (.submit bio))
    if t.autoDrain ∧ t.plugDepth=0 then (kbFsSubsystemBioDrain env callback fuel t).2 else t

def kbFsSubsystemBlkStartPlug (s : FsState δ) : FsState δ :=
  if s.plugDepth=2^32-1 then s else { s with plugDepth := s.plugDepth+1 }

def kbFsSubsystemBlkFinishPlug (fuel : Nat) (s : FsState δ) : FsState δ :=
  if s.plugDepth=0 then s
  else
    let t := { s with plugDepth := s.plugDepth-1 }
    if t.plugDepth=0 then (kbFsSubsystemBioDrain env callback fuel t).2 else t

variable {callback} {P : FsState δ → Prop} {s t : FsState δ}

theorem headComplete_rule {head : Nat} {success : Bool}
    (hread : P (endBufferReadSync head success s))
    (hwrite : (s.heads head).endIo=.writeSync → P (endBufferWriteSync head success s))
    (hcall : ∀ c,P (callback (.head c head success) s)) :
    P (bufferHeadComplete callback head success s) := by
  unfold bufferHeadComplete
  split
  · exact hread
  · exact hread
  · next he => exact hwrite he
  · exact hcall _

theorem bioCallEndIo_rule {bio : Nat}
    (ht : (s.onBio bio fun r => { r with completed := true })=t) (hs : P s) (hdone : P t)
    (hhead : (s.bios bio).bio.endIo=.bufferHead →
      ∀ success,P (bufferHeadComplete callback (s.bios bio).bio.privateData success t))
    (hput : ∀ u,P u → P (bioPut bio u)) (hcall : ∀ c,P (callback (.bio c bio) t)) :
    P (bioCallEndIo callback bio s) := by
  have hpriv : (t.bios bio).bio.privateData=(s.bios bio).bio.privateData := by
    simp [← ht,FsState.onBio]
  unfold bioCallEndIo
  split
  · exact hs
  rw [ht]
  split
  · exact hdone
  · next he =>
    simp only [bufferHeadBioEndIo,hpriv]
    split
    · exact hdone
    · exact hput _ (hhead he _)
  · exact hcall _

end Kobox.Fs
