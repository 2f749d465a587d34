import Kobox.Framework.Bytes
import Kobox.Framework.Prog
import Kobox.Framework.Word
import Kobox.Kvm.PageArena

namespace Kobox.Fs

def eio : Int := -5
def enomem : Int := -12
def efault : Int := -14
def enodev : Int := -19
def einval : Int := -22
def erange : Int := -34
def eoverflow : Int := -75
def eopnotsupp : Int := -95
def einprogress : Int := -115

def sectorSize : Nat := 512
def pageSize : Nat := 4096

/-- Most requests of one batch, the same for reads and writes. -/
def batchMax : Nat := 128

def bioMaxVecs : Nat := 256
def bufferCacheMax : Nat := 512
def refcountMax : Nat := 2^32-1

/-- A range of a disk; the last fields are what `kb_fs_block_device_create_from_disk_range` checks. -/
structure BlockDevice where
  id : Nat
  disk : Nat
  startSector : Nat
  sectorCount : Nat
  sizeBytes : Nat
  logicalBlockSize : Nat
  sized : sizeBytes=sectorCount*sectorSize
  inWord : sizeBytes<wordSize
  bounded : startSector+sectorCount<wordSize
  deriving DecidableEq

/-- What is passed to `kb_block_subsystem_disk_*`, with the bytes to be written. -/
inductive Request
  | read (sector bytes : Nat)
  | readBatch (parts : List (Nat × Nat))
  | write (sector : Nat) (data : List UInt8)
  | writeBatch (parts : List (Nat × List UInt8))
  | writeFlags (sector : Nat) (data : List UInt8) (flags : Nat)
  | flush
  deriving DecidableEq

/-- Status of a request and, for each part of a read, the bytes that reached the buffer. -/
structure Reply where
  status : Int
  data : List (List UInt8)

def Reply.part (r : Reply) (i n : Nat) : List UInt8 := (r.data.getD i []).take n

/-- `kb_fs_block_read_request_t` and `kb_fs_block_write_request_t`. -/
structure IoRequest where
  offset : Nat
  buffer : Nat
  size : Nat
  deriving DecidableEq

structure BioVec where
  page : Nat
  length : Nat
  offset : Nat
  deriving DecidableEq

inductive BioEndIo
  | none
  | bufferHead
  | module (callback : Nat)
  deriving DecidableEq

/-- The part of a bio that modules read and write themselves. -/
structure Bio where
  bdev : Nat
  opf : Nat
  sector : Nat
  size : Nat
  status : Nat
  vectors : List BioVec
  maxVectors : Nat
  endIo : BioEndIo
  privateData : Nat
  deriving DecidableEq

structure BioRecord where
  bio : Bio
  magic : Bool
  result : Int
  submitted : Nat
  queued : Bool
  completed : Bool
  deriving DecidableEq

structure HeadFlags where
  uptodate : Bool
  dirty : Bool
  lock : Bool
  req : Bool
  mapped : Bool
  writeEio : Bool
  deriving DecidableEq

inductive HeadEndIo
  | none
  | readSync
  | writeSync
  | module (callback : Nat)
  deriving DecidableEq

structure BufferHead where
  flags : HeadFlags
  blockNumber : Nat
  blockSize : Nat
  data : Nat
  folio : Nat
  bdev : Nat
  refcount : Nat
  endIo : HeadEndIo
  deriving DecidableEq

structure CacheRecord where
  active : Bool
  bdev : Nat
  blockNumber : Nat
  blockSize : Nat
  bufferHead : Nat
  folio : Nat
  data : Nat
  folioOrder : Nat
  dirty : Bool
  deriving DecidableEq

def CacheRecord.empty : CacheRecord := ⟨false,0,0,0,0,0,0,0,false⟩

/-- The single-buffer iterator that reads and writes of a file carry. -/
structure Iter where
  buffer : Nat
  count : Nat
  capacity : Nat

/-- What is observed: a request with its status and the memory it was issued in, a freed buffer as
it was then, with the dirty flag of its record. -/
inductive Event
  | submit (bio : Nat)
  | bio (device : BlockDevice) (bio : Bio)
  | disk (device : BlockDevice) (request : Request) (status : Int) (mem : Bytes)
  | done (bio : Nat) (result : Int)
  | marked (head : Nat)
  | forgot (head : Nat)
  | read (head : Nat) (success : Bool)
  | wrote (head : Nat) (success : Bool)
  | freed (head : Nat) (buffer : BufferHead) (dirty : Bool)

/-- The block layer over disks with states in δ. -/
structure FsState (δ : Type) where
  disks : Nat → δ
  mem : Bytes
  pages : Kvm.PageArena
  iters : Nat → Iter
  heads : Nat → BufferHead
  headLive : Nat → Bool
  cache : Nat → CacheRecord
  dirtyCount : Nat
  evictCursor : Nat
  bios : Nat → BioRecord
  nextBio : Nat
  allocations : Nat
  queue : List Nat
  queueDepth : Nat
  autoDrain : Bool
  plugDepth : Nat
  lastDrainStatus : Int
  bindingBdev : Nat
  bindingDevice : Option BlockDevice
  mountDevice : Option BlockDevice
  /-- Block bits of the inode behind a bdev, if it has one. -/
  blockBits : Nat → Option Nat
  /-- Folios that are in the page cache. -/
  fileFolio : Nat → Bool
  trace : List Event
  /-- A loop has been cut off: the call it is in does not return. -/
  hung : Bool

/-- Module code about to run: a completion callback, or the deferred work of a wait loop. -/
inductive Call
  | bio (callback bio : Nat)
  | head (callback head : Nat) (success : Bool)
  | deferred

/-- What the layer runs on. hosted: the host of a folio's mapping is in the block device
superblock. -/
structure Env (δ : Type) where
  reply : δ → Request → Reply × δ
  base : Kvm.ArenaBase
  allocOk : Nat → Bool
  allocHead : (Nat → Bool) → Nat → Nat
  allocHead_fresh : ∀ live n,allocHead live n=0 ∨ live (allocHead live n)=false
  hosted : Nat → Bool

section

variable {δ : Type}

def blockDeviceForBdev (s : FsState δ) (bdev : Nat) : Option BlockDevice :=
  if s.bindingBdev=bdev ∧ s.bindingDevice.isSome then s.bindingDevice else s.mountDevice

def allocate (env : Env δ) : Prog (FsState δ) Int Bool := fun s =>
  (.ok (env.allocOk s.allocations),{ s with allocations := s.allocations+1 })

/-- Zeroed pages from the arena: the first page struct, 0 for NULL. -/
def allocPages (env : Env δ) (order : Nat) : Prog (FsState δ) Int Nat := fun s =>
  if !env.allocOk s.allocations then (.ok 0,{ s with allocations := s.allocations+1 })
  else
    match s.pages.allocPages order with
    | none => (.ok 0,{ s with allocations := s.allocations+1 })
    | some (index,pages) =>
      (.ok (Kvm.PageArena.pageAt env.base index),{ s with
        allocations := s.allocations+1
        pages := pages
        mem := s.mem.fill (env.base.payloads+index*pageSize) (2^order*pageSize) 0 })

def freePages (env : Env δ) (page order : Nat) (s : FsState δ) : FsState δ :=
  { s with pages := s.pages.releasePages env.base page order }

def folioPagePayload (env : Env δ) (s : FsState δ) (folio : Nat) : Nat :=
  s.pages.pagePayload env.base folio pageSize

def FsState.onBio (s : FsState δ) (bio : Nat) (f : BioRecord → BioRecord) : FsState δ :=
  { s with bios := Function.update s.bios bio (f (s.bios bio)) }

def FsState.onHead (s : FsState δ) (head : Nat) (f : BufferHead → BufferHead) : FsState δ :=
  { s with heads := Function.update s.heads head (f (s.heads head)) }

def FsState.note (s : FsState δ) (e : Event) : FsState δ := { s with trace := s.trace++[e] }

end

def sampleDevice : BlockDevice := ⟨1,7,100,8,4096,512,by decide,by decide,by decide⟩

/-- An idle block layer with nothing cached, on one device for every bdev. -/
def bootState (d : BlockDevice) : FsState Bytes where
  disks := fun _ _ => 0
  mem := fun _ => 0
  pages := fun _ => .free
  iters := fun _ => ⟨0,0,0⟩
  heads := fun _ => ⟨⟨false,false,false,false,false,false⟩,0,0,0,0,0,0,.none⟩
  headLive := fun _ => false
  cache := fun _ => CacheRecord.empty
  dirtyCount := 0
  evictCursor := 0
  bios := fun _ => ⟨⟨0,0,0,0,0,[],0,.none,0⟩,false,0,0,false,false⟩
  nextBio := 0
  allocations := 0
  queue := []
  queueDepth := 0
  autoDrain := true
  plugDepth := 0
  lastDrainStatus := 0
  bindingBdev := 1
  bindingDevice := some d
  mountDevice := some d
  blockBits := fun _ => none
  fileFolio := fun _ => false
  trace := []
  hung := false

/-- A disk that serves every request on the bytes it keeps. -/
def keptBytes (disk : Bytes) : Request → Reply × Bytes
  | .read sector n => (⟨0,[disk.slice (sector*512) n]⟩,disk)
  | .readBatch parts => (⟨0,parts.map fun p => disk.slice (p.1*512) p.2⟩,disk)
  | .write sector data | .writeFlags sector data _ => (⟨0,[]⟩,disk.put (sector*512) data)
  | .writeBatch parts => (⟨0,[]⟩,parts.foldl (fun b p => b.put (p.1*512) p.2) disk)
  | .flush => (⟨0,[]⟩,disk)

/-- Such disks, and a heap that gives out 1,2,… . -/
def sampleEnv : Env Bytes where
  reply := keptBytes
  base := ⟨4096,2^20,by decide,by decide,by decide⟩
  allocOk := fun _ => true
  allocHead := fun live n => if live (n+1) then 0 else n+1
  allocHead_fresh := by
    intro live n
    by_cases h : live (n+1)
    · exact Or.inl (if_pos h)
    · right
      rw [if_neg h]
      simpa using h
  hosted := fun _ => true

def brokenEnv : Env Bytes := { sampleEnv with reply := fun disk _ => (⟨eio,[]⟩,disk) }

end Kobox.Fs
