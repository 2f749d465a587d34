import Kobox.Framework.InOrder
import Kobox.Framework.Word

namespace Kobox.Block

def enodev : Int := -19
def einval : Int := -22
def erofs : Int := -30
def erange : Int := -34
def eopnotsupp : Int := -95

def sectorSize : Nat := 512

def writeFua : Nat := 1

/-- `kb_block_disk_read_request_t` and `kb_block_disk_write_request_t`. -/
structure Request where
  sector : Nat
  buffer : Nat
  byteCount : Nat
  deriving DecidableEq

structure QueueLimits where
  logicalBlockSize : Nat
  maxHwSectors : Nat
  deriving DecidableEq

/-- A disk with its driver; σ is what the driver's callbacks work on: the medium and the memory. -/
structure Disk (σ : Type) where
  queue : Option QueueLimits
  capacitySectors : Nat
  registered : Bool
  readOnly : Bool
  dead : Bool
  readFn : Option (Request → σ → Int × σ)
  readBatchFn : Option (List Request → σ → Int × σ)
  writeFn : Option (Request → σ → Int × σ)
  writeBatchFn : Option (List Request → σ → Int × σ)
  writeFlagsFn : Option (Request → Nat → σ → Int × σ)
  flushFn : Option (σ → Int × σ)

structure Counters where
  readCount : Nat
  writeCount : Nat
  bytesRead : Nat
  bytesWritten : Nat
  deriving DecidableEq

structure DiskIo (σ : Type) where
  world : σ
  counters : Counters
  deriving DecidableEq

variable {σ : Type}

def diskLogicalBlockSize (d : Disk σ) : Nat :=
  match d.queue with
  | none => 512
  | some limits => if limits.logicalBlockSize=0 then 512 else limits.logicalBlockSize

def diskIoRangeValid (d : Disk σ) (sector byteCount : Nat) : Int :=
  if byteCount=0 then einval
  else if wordSize ≤ sector*sectorSize then erange
  else if wordSize ≤ sector*sectorSize+byteCount then erange
  else if wordSize≤d.capacitySectors*sectorSize then erange
  else if d.capacitySectors*sectorSize<sector*sectorSize+byteCount then erange
  else if sector*sectorSize%diskLogicalBlockSize d≠0 ∨ byteCount%diskLogicalBlockSize d≠0 then
    einval
  else 0

def Counters.countRead (r : Request) (c : Counters) : Counters :=
  { c with readCount := (c.readCount+1)%wordSize
           bytesRead := (c.bytesRead+r.byteCount)%wordSize }

def Counters.countWrite (r : Request) (c : Counters) : Counters :=
  { c with writeCount := (c.writeCount+1)%wordSize
           bytesWritten := (c.bytesWritten+r.byteCount)%wordSize }

/-- The counters after a whole batch: the number first, then the bytes of each request. -/
def Counters.countReads (rs : List Request) (c : Counters) : Counters :=
  rs.foldl (fun c r => { c with bytesRead := (c.bytesRead+r.byteCount)%wordSize })
    { c with readCount := (c.readCount+rs.length)%wordSize }

def Counters.countWrites (rs : List Request) (c : Counters) : Counters :=
  rs.foldl (fun c r => { c with bytesWritten := (c.bytesWritten+r.byteCount)%wordSize })
    { c with writeCount := (c.writeCount+rs.length)%wordSize }

/-- The answer of a callback; the counters move only if it is 0. -/
def settle (count : Counters → Counters) (s : DiskIo σ) (a : Int × σ) : Int × DiskIo σ :=
  (a.1,⟨a.2,if a.1=0 then count s.counters else s.counters⟩)

/-- `kb_block_subsystem_disk_read`; the disk is what `disk_state_for` finds. -/
def diskRead (disk : Option (Disk σ)) (r : Request) (s : DiskIo σ) : Int × DiskIo σ :=
  match disk with
  | none => (einval,s)
  | some d =>
    if r.buffer=0 then (einval,s)
    else if d.dead || !d.registered then (enodev,s)
    else if diskIoRangeValid d r.sector r.byteCount≠0 then
      (diskIoRangeValid d r.sector r.byteCount,s)
    else
      match d.readFn with
      | none => (eopnotsupp,s)
      | some readFn => settle (Counters.countRead r) s (readFn r s.world)

def Request.malformed (d : Disk σ) (r : Request) : Bool :=
  r.buffer=0 || diskIoRangeValid d r.sector r.byteCount≠0

def callOne (fn : Option (Request → σ → Int × σ)) (r : Request) (w : σ) : Int × σ :=
  match fn with
  | none => (eopnotsupp,w)
  | some f => f r w

def diskReadBatch (disk : Option (Disk σ)) (rs : List Request) (s : DiskIo σ) :
    Int × DiskIo σ :=
  match disk with
  | none => (einval,s)
  | some d =>
    if rs=[] then (einval,s)
    else if d.dead || !d.registered then (enodev,s)
    else if rs.any (Request.malformed d) then (einval,s)
    else
      settle (Counters.countReads rs) s
        (match d.readBatchFn with
        | some batchFn => batchFn rs s.world
        | none => inOrder (callOne d.readFn) rs s.world)

def diskWriteFlags (disk : Option (Disk σ)) (r : Request) (flags : Nat) (s : DiskIo σ) :
    Int × DiskIo σ :=
  match disk with
  | none => (einval,s)
  | some d =>
    if r.buffer=0 then (einval,s)
    else if d.dead || !d.registered then (enodev,s)
    else if d.readOnly then (erofs,s)
    else if diskIoRangeValid d r.sector r.byteCount≠0 then
      (diskIoRangeValid d r.sector r.byteCount,s)
    else if 1<flags then (eopnotsupp,s)
    else
      match d.writeFlagsFn,d.writeFn with
      | none,none => (eopnotsupp,s)
      | some writeFlagsFn,_ => settle (Counters.countWrite r) s (writeFlagsFn r flags s.world)
      | none,some writeFn =>
        -- without a callback for flags, a forced write is a write and a flush
        let a := writeFn r s.world
        settle (Counters.countWrite r) s
          (if a.1=0 ∧ flags=writeFua then
            match d.flushFn with
            | none => (eopnotsupp,a.2)
            | some flushFn => flushFn a.2
          else a)

def diskWrite (disk : Option (Disk σ)) (r : Request) (s : DiskIo σ) : Int × DiskIo σ :=
  diskWriteFlags disk r 0 s

def diskWriteBatch (disk : Option (Disk σ)) (rs : List Request) (s : DiskIo σ) :
    Int × DiskIo σ :=
  match disk with
  | none => (einval,s)
  | some d =>
    if rs=[] then (einval,s)
    else if d.dead || !d.registered then (enodev,s)
    else if d.readOnly then (erofs,s)
    else if rs.any (Request.malformed d) then (einval,s)
    else
      settle (Counters.countWrites rs) s
        (match d.writeBatchFn with
        | some batchFn => batchFn rs s.world
        | none => inOrder (callOne d.writeFn) rs s.world)

end Kobox.Block
