import Kobox.Fs.Bio

namespace Kobox.Fs

variable {δ : Type} (env : Env δ)

/-- Page and offset that a buffer goes into a bio with; without a folio it stands for its own page. -/
def bioPageOf (s : FsState δ) (h : BufferHead) : Option (Nat × Nat) :=
  if h.folio=0 then some (h.data,0)
  else
    let payload := folioPagePayload env s h.folio
    if payload=0 ∨ h.data<payload ∨ pageSize≤h.data-payload ∨
        pageSize-(h.data-payload)<h.blockSize then none
    else some (h.folio,h.data-payload)

/-- The bio of a buffer, ready for submission; 0 if it could not be built. -/
def bufferHeadBio (opf head : Nat) : Prog (FsState δ) Int Nat := do
  let s ← Prog.get
  let h := s.heads head
  let bio ← bioAllocBioset env h.bdev 1 opf
  if bio=0 then return 0
  else
    match bioPageOf env s h with
    | none => do
      Prog.modify (bioPut bio)
      return 0
    | some (page,offset) =>
      if h.blockNumber*h.blockSize%512≠0 ∨ 2^32≤h.blockSize then do
        Prog.modify (bioPut bio)
        return 0
      else do
        let added ← bioAddPage env bio page h.blockSize offset
        if added≠h.blockSize then do
          Prog.modify (bioPut bio)
          return 0
        else do
          Prog.modify fun t => t.onBio bio fun r => { r with bio := { r.bio with
            sector := h.blockNumber*h.blockSize/512
            privateData := head
            endIo := .bufferHead } }
          return bio

def bufferHeadReady (s : FsState δ) (h : BufferHead) : Bool :=
  (blockDeviceForBdev s h.bdev).isSome && h.data≠0 && h.blockSize≠0 &&
    h.blockNumber*h.blockSize<wordSize

variable (callback : Call → FsState δ → FsState δ) (fuel : Nat)

def startBh (opf head : Nat) (s : FsState δ) : FsState δ :=
  s.onHead head fun h => { h with flags := { h.flags with
    req := true
    writeEio := if opf%256=opWrite then false else h.flags.writeEio } }

/-- The bio of a started buffer is submitted; a buffer that gets none fails at once. -/
def issueBh (opf head : Nat) (s : FsState δ) : FsState δ :=
  if bufferHeadReady s (s.heads head) ∧ (opf%256=opRead ∨ opf%256=opWrite) then
    match bufferHeadBio env opf head s with
    | (.ok bio,t) =>
      if bio=0 then bufferHeadComplete callback head false t
      else kbFsSubsystemSubmitBio env callback fuel bio t
    | (.error _,t) => bufferHeadComplete callback head false t
  else bufferHeadComplete callback head false s

def submitBh (opf head : Nat) (s : FsState δ) : FsState δ :=
  issueBh env callback fuel opf head (startBh opf head s)

def setLock (head : Nat) (locked : Bool) (s : FsState δ) : FsState δ :=
  s.onHead head fun h => { h with flags := { h.flags with lock := locked } }

def waitTurn (s : FsState δ) : FsState δ :=
  callback .deferred (kbFsSubsystemBioDrain env callback fuel s).2

def lockBufferLoop (head : Nat) : Nat → FsState δ → FsState δ
  | 0,s => { s with hung := true }
  | n+1,s =>
    if (s.heads head).flags.lock then lockBufferLoop head n (waitTurn env callback fuel s)
    else setLock head true s

def lockBuffer (head : Nat) (s : FsState δ) : FsState δ :=
  lockBufferLoop env callback fuel head (fuel+1) s

def waitOnBufferLoop (head : Nat) : Nat → FsState δ → FsState δ
  | 0,s => { s with hung := true }
  | n+1,s =>
    if (s.heads head).flags.lock then waitOnBufferLoop head n (waitTurn env callback fuel s)
    else s

def waitOnBuffer (head : Nat) (s : FsState δ) : FsState δ :=
  waitOnBufferLoop env callback fuel head (fuel+1) s

def bhRead (head opFlags : Nat) (wait : Bool) (s : FsState δ) : Int × FsState δ :=
  if !(s.heads head).flags.lock then (einval,s)
  else if (s.heads head).refcount=refcountMax then (eoverflow,s)
  else
    let t := s.onHead head fun h => { h with refcount := h.refcount+1,endIo := .readSync }
    let u := submitBh env callback fuel (opRead|||opFlags) head t
    if !wait then (0,u)
    else
      let v := waitOnBuffer env callback fuel head u
      (if (v.heads head).flags.uptodate then 0 else eio,v)

/-- A dirty locked buffer goes to the device; its dirty flag is cleared first. -/
def writeLocked (opFlags head : Nat) (s : FsState δ) : FsState δ :=
  submitBh env callback fuel (opWrite|||opFlags) head (s.onHead head fun h => { h with
    flags := { h.flags with dirty := false }
    refcount := h.refcount+1
    endIo := .writeSync })

def writeIfDirty (opFlags head : Nat) (s : FsState δ) : FsState δ :=
  if !(s.heads head).flags.dirty ∨ (s.heads head).refcount=refcountMax then setLock head false s
  else writeLocked env callback fuel opFlags head s

def writeDirtyBuffer (head opFlags : Nat) (s : FsState δ) : FsState δ :=
  writeIfDirty env callback fuel opFlags head (lockBuffer env callback fuel head s)

def syncLocked (head : Nat) (s : FsState δ) : Int × FsState δ :=
  if !(s.heads head).flags.dirty then (0,setLock head false s)
  else if !(s.heads head).flags.mapped then (eio,setLock head false s)
  else if (s.heads head).refcount=refcountMax then (eoverflow,setLock head false s)
  else
    let t := waitOnBuffer env callback fuel head (writeLocked env callback fuel 0 head s)
    (if (t.heads head).flags.uptodate ∧ !(t.heads head).flags.writeEio then 0 else eio,t)

def syncDirtyBuffer (head : Nat) (s : FsState δ) : Int × FsState δ :=
  syncLocked env callback fuel head (lockBuffer env callback fuel head s)

/-- A buffer of the page cache dirties its folio, every other one its record, if it has one. -/
def markBufferDirty (head : Nat) (s : FsState δ) : FsState δ :=
  let t := (s.onHead head fun h => { h with flags := { h.flags with dirty := true } }).note
    (.marked head)
  if t.fileFolio (t.heads head).folio then t
  else bufferCacheSetDirty (bufferCacheRecordForHead t head) true t

def bufferHeadPut (head : Nat) (s : FsState δ) : FsState δ :=
  s.onHead head fun h => { h with refcount := h.refcount-1 }

def bforget (head : Nat) (s : FsState δ) : FsState δ :=
  let t := (s.onHead head fun h => { h with flags := { h.flags with dirty := false } }).note
    (.forgot head)
  bufferHeadPut head (bufferCacheSetDirty (bufferCacheRecordForHead t head) false t)

/-- One slot of the scan: the state, the buffers that wait for their write, the first error. -/
def flushSlot (acc : FsState δ × List Nat × Int) (i : Nat) : FsState δ × List Nat × Int :=
  let r := acc.1.cache i
  if !r.active ∨ !r.dirty then acc
  else
    let t := writeDirtyBuffer env callback fuel r.bufferHead 0 acc.1
    if (t.heads r.bufferHead).flags.lock then (t,acc.2.1++[r.bufferHead],acc.2.2)
    else if (t.heads r.bufferHead).flags.dirty ∧ acc.2.2=0 then (t,acc.2.1,eoverflow)
    else (t,acc.2)

def flushScan (slots : List Nat) (s : FsState δ) : FsState δ × List Nat × Int :=
  slots.foldl (flushSlot env callback fuel) (s,[],0)

def flushWaitOne (acc : Int × FsState δ) (head : Nat) : Int × FsState δ :=
  let t := waitOnBuffer env callback fuel head acc.2
  if ((t.heads head).flags.writeEio ∨ !(t.heads head).flags.uptodate) ∧ acc.1=0 then (eio,t)
  else (acc.1,t)

def flushWait (heads : List Nat) (s : FsState δ) (error : Int) : Int × FsState δ :=
  heads.foldl (flushWaitOne env callback fuel) (error,s)

def flushDirtyBuffers (s : FsState δ) : Int × FsState δ :=
  let scan := flushScan env callback fuel (List.range bufferCacheMax) { s with autoDrain := false }
  let t := (kbFsSubsystemBioDrain env callback fuel scan.1).2
  let error := if t.lastDrainStatus≠0 ∧ scan.2.2=0 then t.lastDrainStatus else scan.2.2
  flushWait env callback fuel scan.2.1 { t with autoDrain := s.autoDrain } error

def CacheRecord.hasKey (r : CacheRecord) (bdev blockNumber blockSize : Nat) : Bool :=
  r.active && r.bdev==bdev && r.blockNumber==blockNumber && r.blockSize==blockSize

/-- `__find_get_block`: only buffers whose folio belongs to a block device count. -/
def findGetBlock (bdev blockNumber blockSize : Nat) (s : FsState δ) : Nat × FsState δ :=
  if blockSize=0 then (0,s)
  else
    match (List.range bufferCacheMax).find? (fun i =>
        (s.cache i).hasKey bdev blockNumber blockSize && (s.cache i).bufferHead≠0 &&
          env.hosted (s.heads (s.cache i).bufferHead).folio) with
    | none => (0,s)
    | some i =>
      ((s.cache i).bufferHead,s.onHead (s.cache i).bufferHead fun h => { h with
        refcount := if h.refcount=refcountMax then h.refcount else h.refcount+1 })

/-- The first record with a key, if it holds a buffer. -/
def cachedHead (s : FsState δ) (bdev blockNumber blockSize : Nat) : Option Nat :=
  match (List.range bufferCacheMax).find? (fun i =>
      (s.cache i).hasKey bdev blockNumber blockSize) with
  | none => none
  | some i =>
    if (s.cache i).bufferHead≠0 ∧ (s.cache i).data≠0 then some (s.cache i).bufferHead else none

def freeSlot (s : FsState δ) : Option Nat :=
  (List.range bufferCacheMax).find? fun i => !(s.cache i).active

def evictable (s : FsState δ) (i : Nat) : Bool :=
  !(s.cache i).dirty && (s.cache i).bufferHead≠0 && (s.heads (s.cache i).bufferHead).refcount==0

def victimSlot (s : FsState δ) : Option Nat :=
  ((List.range bufferCacheMax).map fun k => (s.evictCursor+k)%bufferCacheMax).find? (evictable s)

def dropRecord (i : Nat) (s : FsState δ) : FsState δ :=
  let r := s.cache i
  { s with
    cache := Function.update s.cache i CacheRecord.empty
    headLive := Function.update s.headLive r.bufferHead false
    pages := if r.folio=0 then s.pages else s.pages.releasePages env.base r.folio r.folioOrder
    trace := s.trace++[.freed r.bufferHead (s.heads r.bufferHead) r.dirty] }

/-- A slot for a new record, evicting one if need be; `bufferCacheMax` for none. -/
def claimSlot (s : FsState δ) : Nat × FsState δ :=
  match freeSlot s with
  | some i => (i,s)
  | none =>
    match victimSlot s with
    | none => (bufferCacheMax,s)
    | some i => (i,{ dropRecord env i s with evictCursor := (i+1)%bufferCacheMax })

def folioOrderFor (blockSize : Nat) : Nat :=
  ((List.range 8).find? fun order => blockSize≤pageSize*2^order).getD 7

def freshHead (bdev blockNumber blockSize folio data : Nat) : BufferHead :=
  ⟨⟨false,false,false,false,true,false⟩,blockNumber,blockSize,data,folio,bdev,1,.none⟩

def payloadOf (s : FsState δ) (folio size : Nat) : Nat :=
  if folio=0 then 0 else s.pages.pagePayload env.base folio size

/-- A new buffer over its allocations, put into a slot of the cache if there is one. -/
def adoptBuffer (slot bdev blockNumber blockSize head folio : Nat) (s : FsState δ) :
    Nat × FsState δ :=
  let order := folioOrderFor blockSize
  let data := payloadOf env s folio blockSize
  if head=0 ∨ folio=0 ∨ data=0 then (0,freePages env folio order s)
  else
    (head,{ s with
      heads := Function.update s.heads head (freshHead bdev blockNumber blockSize folio data)
      headLive := Function.update s.headLive head true
      cache := if slot=bufferCacheMax then s.cache else Function.update s.cache slot
        ⟨true,bdev,blockNumber,blockSize,head,folio,data,order,false⟩ })

/-- The miss path of `bdev_getblk`, with the slot already chosen. -/
def createBuffer (slot bdev blockNumber blockSize : Nat) (s : FsState δ) : Nat × FsState δ :=
  let head := env.allocHead s.headLive s.allocations
  match allocPages env (folioOrderFor blockSize) { s with allocations := s.allocations+1 } with
  | (.error _,t) => (0,t)
  | (.ok folio,t) => adoptBuffer env slot bdev blockNumber blockSize head folio t

def bdevGetblk (bdev blockNumber blockSize : Nat) (s : FsState δ) : Nat × FsState δ :=
  if blockSize=0 ∨ 65536<blockSize then (0,s)
  else if (blockDeviceForBdev s bdev).isNone then (0,s)
  else
    match cachedHead s bdev blockNumber blockSize with
    | some head =>
      (head,s.onHead head fun h => { h with refcount := (h.refcount+1)%2^32 })
    | none =>
      let claim := claimSlot env s
      createBuffer env claim.1 bdev blockNumber blockSize claim.2

def breadGfp (bdev blockNumber blockSize : Nat) (s : FsState δ) : Nat × FsState δ :=
  let r := bdevGetblk env bdev blockNumber blockSize s
  if r.1=0 then (0,r.2)
  else if (r.2.heads r.1).flags.uptodate then r
  else
    let t := lockBuffer env callback fuel r.1 r.2
    if (t.heads r.1).flags.uptodate then (r.1,setLock r.1 false t)
    else
      let u := bhRead env callback fuel r.1 0 true t
      if u.1≠0 then (0,bufferHeadPut r.1 u.2) else (r.1,u.2)

/-- The part of `invalidate_bdev` on the buffer cache. -/
def invalidateBdev (bdev : Nat) (s : FsState δ) : FsState δ :=
  if bdev=0 then s
  else
    (List.range bufferCacheMax).foldl (fun t i =>
      let r := t.cache i
      if !r.active ∨ r.bdev≠bdev ∨ r.dirty ∨ r.bufferHead=0 then t
      else if (t.heads r.bufferHead).refcount≠0 ∨ (t.heads r.bufferHead).flags.lock then t
      else dropRecord env i t) s

def logicalBlockSize (s : FsState δ) (bdev : Nat) : Nat :=
  match blockDeviceForBdev s bdev with
  | some d => if d.logicalBlockSize≠0 then d.logicalBlockSize else 512
  | none => 512

/-- Write the dirty buffers out and drop the others of the device. -/
def changeBlocksize (bdev size : Nat) (s : FsState δ) : Int × FsState δ :=
  let r := flushDirtyBuffers env callback fuel s
  if r.1≠0 then r
  else (0,invalidateBdev env bdev { r.2 with
    blockBits := Function.update r.2.blockBits bdev (some (Nat.log2 size)) })

def setBlocksize (bdev size : Nat) (s : FsState δ) : Int × FsState δ :=
  if bdev=0 ∨ size<512 ∨ pageSize<size ∨ size&&&(size-1)≠0 ∨ size<logicalBlockSize s bdev then
    (einval,s)
  else
    match s.blockBits bdev with
    | none => (einval,s)
    | some bits =>
      if bits=Nat.log2 size then (0,s) else changeBlocksize env callback fuel bdev size s

end Kobox.Fs
