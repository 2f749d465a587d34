import Kobox.Framework.Word
import Kobox.Nvme.Queue

namespace Kobox.Nvme

def enomem : Int := -12
def enodev : Int := -19
def erange : Int := -34
def eopnotsupp : Int := -95

def lbaUnit : Nat := 512

def nvmePage : Nat := 4096

/-- `KB_DEVICE_DMA_MAPPING_MAX_PAGES`; a page of the list has as many entries. -/
def mappingMaxPages : Nat := 512

def uint32Max : Nat := 2^32-1
def batchMax : Nat := 128
def parallelMax : Nat := 32
def cachedAuxMax : Nat := 64

/-- The separate pieces of memory: what callers own, the two staging buffers, bounce buffers. -/
inductive Place
  | caller
  | readStaging
  | writeStaging
  | bounce (n : Nat)
  deriving DecidableEq

structure Pointer where
  place : Place
  addr : Nat
  deriving DecidableEq

def Pointer.isNull (p : Pointer) : Bool := p.place=.caller && p.addr=0

def Pointer.add (p : Pointer) (n : Nat) : Pointer := ⟨p.place,p.addr+n⟩

inductive Opcode
  | read
  | write
  deriving DecidableEq

/-- The page with a command's list of addresses: one of the cached pages, or its own. -/
inductive PrpPage
  | cached (i : Nat)
  | owned (n : Nat)
  deriving DecidableEq

/-- What the driver writes into a command: double words 10 to 12. -/
structure Setup where
  opcode : Opcode
  slba : Nat
  nlb : Nat
  control : Nat
  deriving DecidableEq

/-- A command as the device has it, with the memory it was given. -/
structure Command extends Setup where
  serial : Nat
  data : Pointer
  length : Nat
  prp : Option PrpPage
  deriving DecidableEq

/-- A command between its submission and the moment its completion is consumed. -/
structure Flight where
  command : Command
  /-- The answer of the device once it has done the transfer. -/
  executed : Option Nat
  /-- The bytes in the command's memory when it was submitted. -/
  asked : List UInt8
  deriving DecidableEq

inductive Memory
  | data (p : Pointer) (length : Nat)
  | prp (page : PrpPage)
  deriving DecidableEq

/-- Ways in which memory leaves a command's hands. -/
inductive Fate
  | handed
  | unmapped
  | freed
  | returned
  deriving DecidableEq

/-- What happens to memory, and the commands in flight at that moment. -/
structure MemoryEvent where
  fate : Fate
  memory : Memory
  inFlight : List Command
  deriving DecidableEq

/-- What a write put on the medium and what it was to put there. -/
structure Stored where
  asked : List UInt8
  actual : List UInt8
  deriving DecidableEq

structure Io where
  mem : Place → Nat → UInt8
  medium : Nat → UInt8
  flights : List Flight
  /-- Status of the requests that are marked complete, by the number of their command. -/
  done : Nat → Option Nat
  serials : Nat
  requests : Nat
  bounces : Nat
  /-- `owner` of the cached pages. -/
  prpOwner : Nat → Option Nat
  windowActive : Bool
  borrowers : Nat
  /-- `dma_read_scope`: start and size of the target, usable size of the staging buffer. -/
  scope : Option (Nat × Nat × Nat)
  log : List MemoryEvent
  stored : List Stored
  issued : List Command

/-- What the device does while the driver waits: transfers, and completions credited to a request. -/
inductive Act
  | exec (serial : Nat)
  | finish (serial credited : Nat)
  deriving DecidableEq

/-- Device, memory allocators and mapping layer; all may depend on what has happened. -/
structure Env where
  /-- Bytes of a logical block of the namespace. -/
  lbaSize : Nat
  /-- `max_hw_sectors` of the queue, 0 if unset. -/
  maxHwSectors : Nat
  status : Command → Nat
  /-- What the device does in one wait, for a command or for none of these. -/
  turn : Option Nat → Io → List Act
  /-- A wait that ends without a completion: an entry nobody owns, or the deadline. -/
  stuck : Io → Bool
  requestOk : Io → Bool
  mapStatus : Io → Int
  auxOk : Io → Bool
  prpStatus : Io → Int
  submitStatus : Io → Int
  bounceOk : Io → Bool
  backend : Io → Bool
  readStagingOk : Io → Bool
  windowOk : Io → Bool
  writeStagingOk : Io → Bool
  /-- `fua` of the queue limits. -/
  fua : Bool
  /-- Answer of a flush command, which carries no memory. -/
  flushStatus : Io → Int

def Io.bytes (s : Io) (p : Pointer) (n : Nat) : List UInt8 :=
  (List.range n).map fun i => s.mem p.place (p.addr+i)

def Io.copy (s : Io) (dst src : Pointer) (n : Nat) : Io :=
  { s with mem := fun place a =>
      if place=dst.place ∧ dst.addr≤a ∧ a<dst.addr+n then s.mem src.place (src.addr+(a-dst.addr))
      else s.mem place a }

def Io.logged (s : Io) (fate : Fate) (memory : Memory) : Io :=
  { s with log := s.log++[⟨fate,memory,s.flights.map Flight.command⟩] }

section device

variable (env : Env)

/-- Bytes that a command moves: as many blocks as it names, within the memory it was given. -/
def Command.moved (c : Command) : Nat := min ((c.nlb+1)*env.lbaSize) c.length

def Command.offset (c : Command) : Nat := c.slba*env.lbaSize

def transfer (c : Command) (s : Io) : Io :=
  match c.opcode with
  | .read =>
    { s with mem := fun place a =>
        if place=c.data.place ∧ c.data.addr≤a ∧ a<c.data.addr+c.moved env then
          s.medium (c.offset env+(a-c.data.addr))
        else s.mem place a }
  | .write =>
    { s with medium := fun x =>
        if c.offset env≤x ∧ x<c.offset env+c.moved env then
          s.mem c.data.place (c.data.addr+(x-c.offset env))
        else s.medium x }

def mark (serial status : Nat) (f : Flight) : Flight :=
  if f.command.serial=serial then { f with executed := some status } else f

def deviceAct (s : Io) : Act → Io
  | .exec serial =>
    match s.flights.find? fun f => f.command.serial=serial ∧ f.executed=none with
    | none => s
    | some f =>
      let status := env.status f.command
      let t := if status=0 then transfer env f.command s else s
      { t with
        flights := s.flights.map (mark serial status)
        stored := if status=0 ∧ f.command.opcode=.write then
            s.stored++[⟨f.asked,s.bytes f.command.data f.command.length⟩]
          else s.stored }
  | .finish serial credited =>
    match s.flights.find? fun f => f.command.serial=serial ∧ f.executed.isSome with
    | none => s
    | some f =>
      { s with
        flights := s.flights.filter fun g => g.command.serial≠serial
        done := Function.update s.done credited f.executed }

def deviceTurn (awaited : Option Nat) (s : Io) : Io :=
  (env.turn awaited s).foldl (deviceAct env) s

end device

inductive MapKind
  | direct
  | window
  | preallocated
  deriving DecidableEq

structure Mapping where
  data : Pointer
  length : Nat
  kind : MapKind
  deriving DecidableEq

/-- `shim_linux_request_t` on its way through one transfer. -/
structure IoRq where
  id : Nat
  setup : Setup
  mapped : Option Mapping
  prp : Option PrpPage
  serial : Option Nat
  deriving DecidableEq

def IoRq.completed (r : IoRq) (s : Io) : Bool :=
  match r.serial with
  | none => false
  | some n => (s.done n).isSome

section driver

variable (env : Env)

def followingPages (p : Pointer) (length : Nat) : Nat :=
  (length-min (nvmePage-p.addr%nvmePage) length+(nvmePage-1))/nvmePage

def mapKind (opcode : Opcode) (p : Pointer) (s : Io) : MapKind :=
  if p.place=.writeStaging then .preallocated
  else if s.windowActive ∧ p.place=.readStaging ∧ p.addr%nvmePage=0 ∧ opcode=.read then .window
  else .direct

def unmapPrp (r : IoRq) (s : Io) : Io :=
  match r.prp with
  | none => s
  | some (.cached i) =>
    if s.prpOwner i=some r.id then { s with prpOwner := Function.update s.prpOwner i none } else s
  | some (.owned n) => s.logged .freed (.prp (.owned n))

def unmapData (r : IoRq) (s : Io) : Io :=
  match r.mapped with
  | none => s
  | some m =>
    match m.kind with
    | .direct => s.logged .unmapped (.data m.data m.length)
    | .window => { s with borrowers := s.borrowers-1 }
    | .preallocated => s

def freeAux (s : Io) : Option Nat :=
  (List.range cachedAuxMax).find? fun i => s.prpOwner i=none

/-- The list of a transfer over more than two pages: a cached page, else one of its own. -/
def mapPrp (r : IoRq) (s : Io) : Int × IoRq × Io :=
  match if env.auxOk s then freeAux s else none with
  | some i =>
    (0,{ r with prp := some (.cached i) },
      { s with prpOwner := Function.update s.prpOwner i (some r.id) }.logged .handed
        (.prp (.cached i)))
  | none =>
    if env.prpStatus s≠0 then (env.prpStatus s,{ r with mapped := none },unmapData r s)
    else (0,{ r with prp := some (.owned r.id) },s.logged .handed (.prp (.owned r.id)))

/-- `nvme_block_map_kernel_buffer` for a request without mappings. -/
def mapKernelBuffer (p : Pointer) (length : Nat) (r : IoRq) (s : Io) : Int × IoRq × Io :=
  if p.isNull ∨ length=0 then (einval,r,s)
  else if mappingMaxPages<1+followingPages p length then (eopnotsupp,r,s)
  else if env.mapStatus s≠0 then (env.mapStatus s,r,s)
  else
    let kind := mapKind r.setup.opcode p s
    let r := { r with mapped := some ⟨p,length,kind⟩ }
    let s := s.logged .handed (.data p length)
    let s := if kind=.window then { s with borrowers := s.borrowers+1 } else s
    if followingPages p length≤1 then (0,r,s) else mapPrp env r s

/-- `kb_blk_mq_alloc_request` with the command filled in. -/
def allocRequest (setup : Setup) (s : Io) : IoRq × Io :=
  (⟨s.requests,setup,none,none,none⟩,{ s with requests := s.requests+1 })

def freeIoRq (r : IoRq) (s : Io) : Io := unmapData r (unmapPrp r s)

def IoRq.command (r : IoRq) (m : Mapping) (serial : Nat) : Command :=
  { r.setup with
    serial := serial
    data := m.data
    length := m.length
    prp := r.prp }

/-- `kb_blk_submit_rq` of a mapped request. -/
def submitIoRq (r : IoRq) (s : Io) : Int × IoRq × Io :=
  if env.submitStatus s≠0 then (env.submitStatus s,r,s)
  else
    match r.mapped with
    | none => (einval,r,s)
    | some m =>
      let c := r.command m s.serials
      (0,{ r with serial := some s.serials },
        { s with
          flights := s.flights++[⟨c,none,s.bytes m.data m.length⟩]
          serials := s.serials+1
          issued := s.issued++[c] })

def endStatus (status : Nat) : Int := if status=0 then 0 else eio

/-- `kb_blk_complete_rq`: `nvme_block_complete_execute` of an I/O queue. -/
def completeRq (r : IoRq) (s : Io) : Int × Io :=
  match r.serial with
  | none => (einval,s)
  | some n =>
    match s.done n with
    | some status => (endStatus status,s)
    | none =>
      let t := deviceTurn env (some n) s
      match t.done n with
      | some status => (endStatus status,t)
      | none => (if env.stuck s then eio else etimedout,t)

def executeRq (r : IoRq) (s : Io) : Int × IoRq × Io :=
  let a := submitIoRq env r s
  if a.1≠0 then a
  else
    let b := completeRq env a.2.1 a.2.2
    (b.1,a.2.1,b.2)

/-- The command of a single transfer; bit 14 of the control field asks for a forced write. -/
def singleSetup (opcode : Opcode) (sector byteCount flags : Nat) : Setup :=
  ⟨opcode,sector,(byteCount/lbaUnit-1)%2^16,if flags=1 then 2^14 else 0⟩

/-- `nvme_block_disk_io_flags`; the request is freed in any case. -/
def diskIoFlags (opcode : Opcode) (sector : Nat) (data : Pointer) (byteCount flags : Nat)
    (s : Io) : Int × Io :=
  if data.isNull ∨ byteCount=0 ∨ byteCount%lbaUnit≠0 ∨ 1<flags ∨ (opcode≠.write ∧ flags≠0) then
    (einval,s)
  else if uint32Max<byteCount then (erange,s)
  else if 2^16<byteCount/lbaUnit then (erange,s)
  else if !env.requestOk s then (enomem,s)
  else
    let a := allocRequest (singleSetup opcode sector byteCount flags) s
    let b := mapKernelBuffer env data byteCount a.1 a.2
    if b.1≠0 then (b.1,freeIoRq b.2.1 b.2.2)
    else
      let c := executeRq env b.2.1 b.2.2
      (c.1,freeIoRq c.2.1 c.2.2)

def diskIo (opcode : Opcode) (sector : Nat) (data : Pointer) (byteCount : Nat) (s : Io) :
    Int × Io :=
  diskIoFlags env opcode sector data byteCount 0 s

/-- `kb_linux_block_read_request_t` and `kb_linux_block_write_request_t`. -/
structure IoRequest where
  sector : Nat
  data : Pointer
  byteCount : Nat
  deriving DecidableEq

def IoRequest.bad (q : IoRequest) : Bool :=
  q.data.isNull || q.byteCount=0 || q.byteCount%lbaUnit≠0 || uint32Max<q.byteCount

/-- The command of one request; one 32-bit store fills the block count and the control field. -/
def parallelSetup (opcode : Opcode) (q : IoRequest) : Setup :=
  let blocks := (q.byteCount/lbaUnit-1)%2^32
  ⟨opcode,q.sector,blocks%2^16,blocks/2^16⟩

/-- Allocation and mapping up to the first failure; the request that failed is kept, to be freed. -/
def prepareAll (opcode : Opcode) : List IoRequest → Io → Int × List IoRq × Io
  | [],s => (0,[],s)
  | q::qs,s =>
    if q.bad then (einval,[],s)
    else if !env.requestOk s then (enomem,[],s)
    else
      let a := allocRequest (parallelSetup opcode q) s
      let b := mapKernelBuffer env q.data q.byteCount a.1 a.2
      if b.1≠0 then (b.1,[b.2.1],b.2.2)
      else
        let c := prepareAll opcode qs b.2.2
        (c.1,b.2.1::c.2.1,c.2.2)

def submitAll : List IoRq → Io → Int × List IoRq × Io
  | [],s => (0,[],s)
  | r::rs,s =>
    let a := submitIoRq env r s
    if a.1≠0 then (a.1,r::rs,s)
    else
      let b := submitAll rs a.2.2
      (b.1,a.2.1::b.2.1,b.2.2)

def waitAll : List IoRq → Int → Io → Int × Io
  | [],result,s => (result,s)
  | r::rs,result,s =>
    if r.serial.isNone then waitAll rs result s
    else
      let a := completeRq env r s
      waitAll rs (if result=0 then a.1 else result) a.2

/-- Frees the requests from the last to the first; one whose command is still out is retained. -/
def freeAll (rs : List IoRq) (s : Io) : Io :=
  rs.reverse.foldl (fun s r =>
    if r.serial.isSome ∧ !r.completed s then s else freeIoRq r s) s

/-- The parallel part of `nvme_block_disk_read_batch`, and `nvme_block_disk_write_parallel`. -/
def ioParallel (opcode : Opcode) (qs : List IoRequest) (s : Io) : Int × Io :=
  if qs=[] ∨ parallelMax<qs.length then (einval,s)
  else
    let a := prepareAll env opcode qs s
    if a.1≠0 then (a.1,freeAll a.2.1 a.2.2)
    else
      let b := submitAll env a.2.1 a.2.2
      let c := waitAll env b.2.1 b.1 b.2.2
      (c.1,freeAll b.2.1 c.2)

def maxTransferBytes : Nat :=
  if env.maxHwSectors=0 then uint32Max else env.maxHwSectors*lbaUnit

/-- Bytes, expected sector and buffer so far; none once a request does not continue the one before. -/
def continues (limit : Nat) : Option (Nat × Nat × Pointer) → IoRequest →
    Option (Nat × Nat × Pointer)
  | none,_ => none
  | some (merged,sector,p),q =>
    if q.bad ∨ limit<q.byteCount ∨ q.sector≠sector ∨ q.data≠p ∨
        limit-q.byteCount < merged ∨ wordSize-1-q.byteCount/lbaUnit<sector ∨
        wordSize-1-q.byteCount<p.addr then none
    else some (merged+q.byteCount,sector+q.byteCount/lbaUnit,p.add q.byteCount)

/-- Total of a read batch that is one transfer, on the disk and in memory. -/
def contiguousReads (qs : List IoRequest) : Option Nat :=
  match qs with
  | [] => none
  | q::qs =>
    ((q::qs).foldl (continues (maxTransferBytes env)) (some (0,q.sector,q.data))).map fun m => m.1

/-- Runs a long list in pieces of at most 32. -/
def inPieces (run : List IoRequest → Io → Int × Io) : Nat → List IoRequest → Io → Int × Io
  | 0,_,s => (0,s)
  | fuel+1,qs,s =>
    if qs=[] then (0,s)
    else
      let a := run (qs.take parallelMax) s
      if a.1≠0 then a else inPieces run fuel (qs.drop parallelMax) a.2

/-- The body of `nvme_block_disk_read_batch`, with its call of itself for shorter lists. -/
def readBatchBody (again : List IoRequest → Io → Int × Io) (qs : List IoRequest) (s : Io) :
    Int × Io :=
  if qs.length<2 ∨ batchMax<qs.length then (einval,s)
  else
    match contiguousReads env qs,qs with
    | some total,q::_ => diskIo env .read q.sector q.data total s
    | _,_ =>
      if parallelMax<qs.length then
        inPieces (fun piece s =>
          match piece with
          | [q] => diskIo env .read q.sector q.data q.byteCount s
          | piece => again piece s) qs.length qs s
      else ioParallel env .read qs s

def diskReadBatch (qs : List IoRequest) (s : Io) : Int × Io :=
  readBatchBody env (readBatchBody env fun _ s => (einval,s)) qs s

structure WriteScan where
  total : Nat
  sector : Nat
  buffer : Pointer
  contiguous : Bool
  buffersContiguous : Bool
  deriving DecidableEq

def scanWrite (w : WriteScan) (q : IoRequest) : Except Int WriteScan :=
  if q.bad ∨ maxTransferBytes env<q.byteCount ∨ wordSize-1-q.byteCount<w.total then .error einval
  else if wordSize-1-q.byteCount/lbaUnit<q.sector ∨ wordSize-1-q.byteCount<w.buffer.addr then
    .error erange
  else
    .ok { total := w.total+q.byteCount
          sector := q.sector+q.byteCount/lbaUnit
          buffer := w.buffer.add q.byteCount
          contiguous := w.contiguous && q.sector=w.sector
          buffersContiguous := w.buffersContiguous && q.data=w.buffer }

def scanWrites (qs : List IoRequest) : Except Int WriteScan :=
  match qs with
  | [] => .error einval
  | q::qs => (q::qs).foldlM (scanWrite env) ⟨0,q.sector,q.data,true,true⟩

def gather (dst : Pointer) : List IoRequest → Io → Io
  | [],s => s
  | q::qs,s => gather (dst.add q.byteCount) qs (s.copy dst q.data q.byteCount)

/-- One write through a bounce buffer, which is freed at once. -/
def bounceWrite (qs : List IoRequest) (s : Io) : Int × Io :=
  match qs with
  | [] => (einval,s)
  | q::_ =>
    if !env.bounceOk s then (enomem,s)
    else
      let total := (qs.map IoRequest.byteCount).sum
      let merged : Pointer := ⟨.bounce s.bounces,0⟩
      let s := gather merged qs { s with bounces := s.bounces+1 }
      let a := diskIo env .write q.sector merged total s
      (a.1,a.2.logged .freed (.data merged total))

/-- The longest start of a list whose bytes fit one transfer. -/
def takeFitting (limit : Nat) : Nat → List IoRequest → List IoRequest × List IoRequest
  | _,[] => ([],[])
  | merged,q::qs =>
    if q.byteCount≤limit-merged then
      let a := takeFitting limit (merged+q.byteCount) qs
      (q::a.1,a.2)
    else ([],q::qs)

/-- Contiguous writes that are too long for one transfer. -/
def bounceChunks : Nat → List IoRequest → Io → Int × Io
  | 0,_,s => (0,s)
  | fuel+1,qs,s =>
    if qs=[] then (0,s)
    else
      let chunk := takeFitting (maxTransferBytes env) 0 qs
      if chunk.1=[] then (einval,s)
      else
        let a := bounceWrite env chunk.1 s
        if a.1≠0 then a else bounceChunks fuel chunk.2 a.2

/-- The body of `nvme_block_disk_write_batch`, with its call of itself for shorter lists. -/
def writeBatchBody (again : List IoRequest → Io → Int × Io) (qs : List IoRequest) (s : Io) :
    Int × Io :=
  if batchMax<qs.length then (einval,s)
  else
    match qs with
    | [] => (einval,s)
    | [q] => diskIo env .write q.sector q.data q.byteCount s
    | q::_ =>
      match scanWrites env qs with
      | .error e => (e,s)
      | .ok w =>
        if w.contiguous ∧ w.buffersContiguous ∧ w.total ≤ maxTransferBytes env then
          diskIo env .write q.sector q.data w.total s
        else if w.contiguous ∧ w.total ≤ maxTransferBytes env then bounceWrite env qs s
        else if w.contiguous then bounceChunks env qs.length qs s
        else if parallelMax<qs.length then inPieces again qs.length qs s
        else ioParallel env .write qs s

def diskWriteBatch (qs : List IoRequest) (s : Io) : Int × Io :=
  writeBatchBody env (writeBatchBody env fun _ s => (einval,s)) qs s

end driver

end Kobox.Nvme
