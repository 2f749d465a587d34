import Kobox.Fs.State

namespace Kobox.Fs

/-- `kb_block_disk_snapshot_t` with the logical block size its queue reports, if it does. -/
structure DiskSnapshot where
  capacitySectors : Nat
  logicalBlockSize : Option Nat
  inWord : capacitySectors<wordSize

/-- `kb_fs_block_device_create_from_disk_range`; `allocated` says whether all its allocations
succeed. -/
def createFromDiskRange (id disk : Nat) (snapshot : Except Int DiskSnapshot)
    (startSector sectorCount : Nat) (allocated : Bool) : Except Int BlockDevice :=
  match snapshot with
  | .error e => .error e
  | .ok snap =>
    if hr : sectorCount=0 ∨ snap.capacitySectors<startSector ∨
        snap.capacitySectors-startSector<sectorCount then .error erange
    else if hm : wordSize ≤ sectorCount*sectorSize then .error erange
    else if !allocated then .error enomem
    else
      .ok {
        id := id
        disk := disk
        startSector := startSector
        sectorCount := sectorCount
        sizeBytes := sectorCount*sectorSize
        logicalBlockSize := match snap.logicalBlockSize with
          | some size => if size=0 then 512 else size
          | none => 512
        sized := rfl
        inWord := by omega
        bounded := by
          have := snap.inWord
          omega }

variable {δ : Type} (env : Env δ)

def ask (d : BlockDevice) (request : Request) : Prog (FsState δ) Int Reply := fun s =>
  let r := env.reply (s.disks d.disk) request
  (.ok r.1,{ s with
    disks := Function.update s.disks d.disk r.2
    trace := s.trace++[.disk d request r.1.status s.mem] })

def checkStatus (status : Int) : Prog (FsState δ) Int Unit :=
  if status=0 then pure () else Prog.fail status

def fillBuffer (buffer : Nat) (bytes : List UInt8) : Prog (FsState δ) Int Unit :=
  Prog.modify fun s => { s with mem := s.mem.put buffer bytes }

/-- The sectors that a byte range covers, for the bounce buffer: first disk sector and number
of bytes. -/
def bounceRange (d : BlockDevice) (offset size : Nat) : Except Int (Nat × Nat) :=
  if wordSize≤offset+size then .error erange
  else
    let startSector := offset/512
    let endSector := (offset+size+511)%wordSize/512
    let sectorCount := (endSector+wordSize-startSector)%wordSize
    if wordSize≤d.startSector+startSector then .error erange
    else if wordSize ≤ sectorCount*512 then .error erange
    else .ok (d.startSector+startSector,sectorCount*512)

def blockDiskRead (d : BlockDevice) (offset buffer size : Nat) : Prog (FsState δ) Int Unit :=
  if offset%512=0 ∧ size%512=0 then
    if wordSize≤d.startSector+offset/512 then Prog.fail erange
    else do
      let r ← ask env d (.read (d.startSector+offset/512) size)
      fillBuffer buffer (r.part 0 size)
      checkStatus r.status
  else do
    let range ← Prog.ofExcept (bounceRange d offset size)
    let allocated ← allocate env
    if !allocated then Prog.fail enomem
    else do
      let r ← ask env d (.read range.1 range.2)
      checkStatus r.status
      let bounce := Bytes.put (fun _ => 0) 0 (r.part 0 range.2)
      fillBuffer buffer (bounce.slice (offset%512) size)

def blockDiskWrite (d : BlockDevice) (offset : Nat) (data : List UInt8) :
    Prog (FsState δ) Int Unit :=
  if offset%512=0 ∧ data.length%512=0 then
    if wordSize≤d.startSector+offset/512 then Prog.fail erange
    else do
      let r ← ask env d (.write (d.startSector+offset/512) data)
      checkStatus r.status
  else do
    let range ← Prog.ofExcept (bounceRange d offset data.length)
    let allocated ← allocate env
    if !allocated then Prog.fail enomem
    else do
      let r ← ask env d (.read range.1 range.2)
      checkStatus r.status
      let bounce := (Bytes.put (fun _ => 0) 0 (r.part 0 range.2)).put (offset%512) data
      let w ← ask env d (.write range.1 (bounce.slice 0 range.2))
      checkStatus w.status

/-- The check of one request in a batch: its disk sector. -/
def batchSector (d : BlockDevice) (r : IoRequest) : Except Int Nat :=
  if r.buffer=0 ∨ r.size=0 ∨ r.offset%512≠0 ∨ r.size%512≠0 then .error einval
  else if wordSize≤d.startSector+r.offset/512 then .error erange
  else .ok (d.startSector+r.offset/512)

def batchCountValid (requests : List IoRequest) : Except Int Unit :=
  if requests.length<2 ∨ batchMax < requests.length then .error einval else .ok ()

def fillBuffers (reply : Reply) : Nat → List IoRequest → Prog (FsState δ) Int Unit
  | _,[] => pure ()
  | i,r::rs => do
    fillBuffer r.buffer (reply.part i r.size)
    fillBuffers reply (i+1) rs

def blockDiskReadBatch (d : BlockDevice) (requests : List IoRequest) :
    Prog (FsState δ) Int Unit := do
  Prog.ofExcept (batchCountValid requests)
  let sectors ← Prog.ofExcept (requests.mapM (batchSector d))
  let r ← ask env d (.readBatch (sectors.zip (requests.map IoRequest.size)))
  fillBuffers r 0 requests
  checkStatus r.status

def requestData (mem : Bytes) (r : IoRequest) : List UInt8 := mem.slice r.buffer r.size

def blockDiskWriteBatch (d : BlockDevice) (requests : List IoRequest) :
    Prog (FsState δ) Int Unit := do
  Prog.ofExcept (batchCountValid requests)
  let sectors ← Prog.ofExcept (requests.mapM (batchSector d))
  let s ← Prog.get
  let r ← ask env d (.writeBatch (sectors.zip (requests.map (requestData s.mem))))
  checkStatus r.status

def writeFua : Nat := 1

def blockDiskWriteFlags (d : BlockDevice) (offset : Nat) (data : List UInt8) (flags : Nat) :
    Prog (FsState δ) Int Unit :=
  if writeFua<flags ∨ offset%512≠0 ∨ data.length%512≠0 then Prog.fail einval
  else if wordSize≤d.startSector+offset/512 then Prog.fail erange
  else do
    let r ← ask env d (.writeFlags (d.startSector+offset/512) data flags)
    checkStatus r.status

def blockDiskFlush (d : BlockDevice) : Prog (FsState δ) Int Unit := do
  let r ← ask env d .flush
  checkStatus r.status

def blockDeviceRangeValid (d : BlockDevice) (offset size : Nat) : Except Int Unit :=
  if size=0 then .error einval
  else if wordSize≤offset+size then .error erange
  else if d.sizeBytes<offset+size then .error erange
  else .ok ()

/-- The part of a cached block that [offset,stop) covers: start of the block, start and end of the
part. -/
def CacheRecord.overlap (r : CacheRecord) (offset stop : Nat) : Option (Nat × Nat × Nat) :=
  let start := r.blockNumber*r.blockSize
  if !r.active ∨ r.data=0 ∨ r.blockSize=0 then none
  else if wordSize ≤ start ∨ wordSize ≤ start+r.blockSize then none
  else if stop ≤ start ∨ start+r.blockSize≤offset then none
  else some (start,max offset start,min stop (start+r.blockSize))

/-- Dirty cached blocks over bytes just read from the device. -/
def overlayDirtyBufferCacheOnRead (offset buffer size : Nat) (s : FsState δ) : FsState δ :=
  if buffer=0 ∨ size=0 ∨ s.dirtyCount=0 ∨ wordSize≤offset+size then s
  else
    { s with mem := (List.range bufferCacheMax).foldl (fun mem i =>
        let r := s.cache i
        match r.overlap offset (offset+size) with
        | some (start,lo,hi) =>
          if r.dirty then mem.copy (buffer+(lo-offset)) (hi-lo) mem (r.data+(lo-start)) else mem
        | none => mem) s.mem }

inductive Source
  | memory (address : Nat)
  | zeros

def Source.bytes (source : Source) (mem : Bytes) (skip n : Nat) : List UInt8 :=
  match source with
  | .memory address => mem.slice (address+skip) n
  | .zeros => List.replicate n 0

/-- Bytes just written into every cached block they touch, read again for each block. -/
def updateBufferCacheFromWrite (offset : Nat) (source : Source) (size : Nat) (s : FsState δ) :
    FsState δ :=
  if size=0 ∨ wordSize≤offset+size then s
  else
    { s with mem := (List.range bufferCacheMax).foldl (fun mem i =>
        let r := s.cache i
        match r.overlap offset (offset+size) with
        | some (start,lo,hi) =>
          mem.put (r.data+(lo-start)) (source.bytes mem (lo-offset) (hi-lo))
        | none => mem) s.mem }

/-- A cache update that only the device behind the active binding gets. -/
def onActiveDevice (d : BlockDevice) (f : FsState δ → FsState δ) : Prog (FsState δ) Int Unit :=
  Prog.modify fun s => if s.bindingDevice=some d then f s else s

def kbFsBlockDeviceRead (d : BlockDevice) (offset buffer size : Nat) :
    Prog (FsState δ) Int Unit :=
  if buffer=0 then Prog.fail einval
  else do
    Prog.ofExcept (blockDeviceRangeValid d offset size)
    blockDiskRead env d offset buffer size
    onActiveDevice d (overlayDirtyBufferCacheOnRead offset buffer size)

/-- `kb_fs_block_device_write` behind its check of the buffer. -/
def writeFrom (d : BlockDevice) (offset : Nat) (source : Source) (size : Nat) :
    Prog (FsState δ) Int Unit := do
  Prog.ofExcept (blockDeviceRangeValid d offset size)
  let s ← Prog.get
  blockDiskWrite env d offset (source.bytes s.mem 0 size)
  onActiveDevice d (updateBufferCacheFromWrite offset source size)

def kbFsBlockDeviceWrite (d : BlockDevice) (offset buffer size : Nat) :
    Prog (FsState δ) Int Unit :=
  if buffer=0 then Prog.fail einval else writeFrom env d offset (.memory buffer) size

def batchValid (d : BlockDevice) (requests : List IoRequest) : Except Int Unit :=
  if requests.all fun r => r.buffer≠0 ∧ (blockDeviceRangeValid d r.offset r.size).isOk then .ok ()
  else .error einval

def kbFsBlockDeviceReadBatch (d : BlockDevice) (requests : List IoRequest) :
    Prog (FsState δ) Int Unit :=
  match requests with
  | [] => Prog.fail einval
  | [r] => kbFsBlockDeviceRead env d r.offset r.buffer r.size
  | _ => do
    Prog.ofExcept (batchValid d requests)
    blockDiskReadBatch env d requests
    onActiveDevice d fun s => requests.foldl (fun s r =>
      overlayDirtyBufferCacheOnRead r.offset r.buffer r.size s) s

def kbFsBlockDeviceWriteBatch (d : BlockDevice) (requests : List IoRequest) :
    Prog (FsState δ) Int Unit :=
  match requests with
  | [] => Prog.fail einval
  | [r] => kbFsBlockDeviceWrite env d r.offset r.buffer r.size
  | _ => do
    Prog.ofExcept (batchValid d requests)
    blockDiskWriteBatch env d requests
    onActiveDevice d fun s => requests.foldl (fun s r =>
      updateBufferCacheFromWrite r.offset (.memory r.buffer) r.size s) s

def kbFsSubsystemIssueFlush (bdev : Nat) : Prog (FsState δ) Int Unit := do
  let s ← Prog.get
  match blockDeviceForBdev s bdev with
  | none => Prog.fail enodev
  | some d => blockDiskFlush env d

def zeroChunkBytes : Nat := 65536

def zeroChunks (d : BlockDevice) (offset byteCount : Nat) : Prog (FsState δ) Int Unit :=
  Prog.loopFrom (fun i => writeFrom env d (offset+i*zeroChunkBytes) .zeros
    (min zeroChunkBytes (byteCount-i*zeroChunkBytes))) 0
    ((byteCount+zeroChunkBytes-1)/zeroChunkBytes)

def kbFsSubsystemIssueZeroout (bdev sector sectorCount : Nat) (noFallback : Bool) :
    Prog (FsState δ) Int Unit := do
  let s ← Prog.get
  match blockDeviceForBdev s bdev with
  | none => Prog.fail enodev
  | some d =>
    if noFallback then Prog.fail eopnotsupp
    else if wordSize ≤ sector*512 ∨ wordSize ≤ sectorCount*512 ∨ d.sizeBytes<sector*512 ∨
        d.sizeBytes-sector*512<sectorCount*512 then Prog.fail erange
    else if sectorCount*512=0 then return ()
    else do
      let allocated ← allocate env
      if !allocated then Prog.fail enomem
      else zeroChunks env d (sector*512) (sectorCount*512)

end Kobox.Fs
