import Kobox.Block.TagScan
import Kobox.Framework.Ring
import Kobox.Framework.Run

namespace Kobox.Nvme

def eio : Int := -5
def einval : Int := -22
def etimedout : Int := -110

def queueMax : Nat := 4

/-- `KB_BLOCK_SUBSYSTEM_TAGS_PER_QUEUE`, `nr_tags` of every queue; tag 0 is never given out. -/
def tagsPerQueue : Nat := 64

/-- The fields of `shim_linux_request_t` that a command's way through the queue reads. -/
structure Rq where
  tag : Nat
  /-- `reserved_120[0]`: the driver's counter of commands of this request. -/
  generation : Nat
  completed : Bool
  endStatus : Nat
  result : Nat
  /-- Which command the request was last submitted with, for the statements only. -/
  command : Option Nat
  deriving DecidableEq

structure Issued where
  serial : Nat
  commandId : Nat
  deriving DecidableEq

/-- A completion entry, with the command that it answers. -/
structure Entry where
  serial : Nat
  commandId : Nat
  status : Nat
  result : Nat
  deriving DecidableEq

/-- One hardware queue: the row of the tag set, the requests by address, the completion ring. -/
structure QueueState where
  rqs : Nat → Option Nat
  nextTag : Nat
  requests : Nat → Option Rq
  cq : PhaseRing Entry
  /-- Submitted commands that the device has not answered. -/
  device : List Issued
  /-- Entries in the ring that are not consumed. -/
  backlog : List Entry
  /-- Calls of the driver's `queue_rq`, by which its commands are numbered. -/
  serials : Nat

def commandTag (commandId : Nat) : Nat := commandId%4096
def commandGeneration (commandId : Nat) : Nat := commandId/4096%16

/-- `kb_block_subsystem_tagset_alloc_tag`; none is `UINT32_MAX`. -/
def tagsetAllocTag (q : Nat) (s : QueueState) : Option Nat × QueueState :=
  if queueMax≤q then (some 1,s)
  else
    match Block.scanTags tagsPerQueue s.rqs (tagsPerQueue-1) s.nextTag with
    | none => (none,s)
    | some tag => (some tag,{ s with nextTag := if tagsPerQueue≤tag+1 then 1 else tag+1 })

def tagsetBindRequest (q tag addr : Nat) (s : QueueState) : QueueState :=
  if queueMax≤q ∨ tagsPerQueue≤tag then s
  else { s with rqs := Function.update s.rqs tag (some addr) }

def tagsetUnbindRequest (q tag addr : Nat) (s : QueueState) : QueueState :=
  if queueMax≤q ∨ tagsPerQueue≤tag then s
  else if s.rqs tag=some addr then { s with rqs := Function.update s.rqs tag none }
  else s

def tagsetRequest (q tag : Nat) (s : QueueState) : Option Nat :=
  if queueMax≤q ∨ tagsPerQueue≤tag then none else s.rqs tag

/-- `shim_blk_request_alloc` with the memory at this address: `shim_blk_request_init` clears all of
it. None is `NULL`. -/
def requestAlloc (q addr : Nat) (s : QueueState) : Option QueueState :=
  match tagsetAllocTag q s with
  | (none,_) => none
  | (some tag,t) =>
    some { t with requests := Function.update t.requests addr (some ⟨tag,0,false,0,0,none⟩) }

/-- The first loop of a batch: one request after the other, until there is no tag. -/
def allocBatch (q : Nat) : List Nat → QueueState → QueueState
  | [],s => s
  | addr::addrs,s =>
    match requestAlloc q addr s with
    | none => s
    | some t => allocBatch q addrs t

/-- What a call of the driver's `queue_rq` leaves: the request and the command it gave to the
device. -/
structure Queued where
  request : Rq
  commandId : Option Nat

/-- `nvme_cid`: the counter of the request over its tag. -/
def requestId (r : Rq) : Nat := r.generation%16*4096+r.tag

/-- What is asked of `queue_rq`, which is the module's: the tag stays, and a command is named by
tag and counter of its request. -/
structure NamesCommands (queueRq : Nat → Rq → Queued) : Prop where
  tag : ∀ n r,(queueRq n r).request.tag=r.tag
  id : ∀ n r,∀ id∈(queueRq n r).commandId,id=requestId (queueRq n r).request

def handOver (addr : Nat) (r : Rq) (x : Queued) (s : QueueState) : QueueState :=
  { s with
    requests := Function.update s.requests addr
      (some { x.request with command := if x.commandId=none then r.command else some s.serials })
    device := s.device++x.commandId.toList.map (Issued.mk s.serials)
    serials := s.serials+1 }

/-- `kb_blk_submit_rq_internal`. -/
def submitRq (queueRq : Nat → Rq → Queued) (q addr : Nat) (s : QueueState) : QueueState :=
  match s.requests addr with
  | none => s
  | some r => handOver addr r (queueRq s.serials r) (tagsetBindRequest q r.tag addr s)

def freeRequest (q addr : Nat) (s : QueueState) : QueueState :=
  match s.requests addr with
  | none => s
  | some r =>
    { tagsetUnbindRequest q r.tag addr s with requests := Function.update s.requests addr none }

/-- The request that an entry completes: the one bound to its tag, if the generation fits. -/
def entryRequest (q : Nat) (s : QueueState) (e : Entry) : Option (Nat × Rq) :=
  match tagsetRequest q (commandTag e.commandId) s with
  | none => none
  | some addr =>
    match s.requests addr with
    | none => none
    | some r =>
      if r.generation%16=commandGeneration e.commandId then some (addr,r) else none

def drainIoCompletion (q : Nat) (s : QueueState) : Int × QueueState :=
  if s.cq.depth=0 ∨ s.cq.depth ≤ s.cq.head then (eio,s)
  else if !s.cq.visible then (0,s)
  else
    match entryRequest q s s.cq.front with
    | none => (eio,s)
    | some (addr,r) =>
      let e := s.cq.front
      (1,{ s with
        requests := Function.update s.requests addr
          (some { r with completed := true
                         endStatus := e.status
                         result := e.result })
        cq := s.cq.consume
        backlog := s.backlog.tail })

/-- The device answers one of its commands; a full ring makes it wait. -/
def devicePost (c : Issued) (status result : Nat) (s : QueueState) : QueueState :=
  if c∈s.device ∧ s.backlog.length+1<s.cq.depth then
    let e : Entry := ⟨c.serial,c.commandId,status,result⟩
    { s with
      cq := s.cq.post e
      device := s.device.erase c
      backlog := s.backlog++[e] }
  else s

inductive QueueEvent
  | batch (addrs : List Nat)
  | submit (addr : Nat)
  | drain
  | timeout
  | free (addr : Nat)
  | post (c : Issued) (status result : Nat)
  deriving DecidableEq

/-- A wait that runs out changes nothing. -/
def queueStep (queueRq : Nat → Rq → Queued) (q : Nat) (s : QueueState) : QueueEvent → QueueState
  | .batch addrs => allocBatch q addrs s
  | .submit addr => submitRq queueRq q addr s
  | .drain => (drainIoCompletion q s).2
  | .timeout => s
  | .free addr => freeRequest q addr s
  | .post c status result => devicePost c status result s

def freshQueue (depth : Nat) : QueueState where
  rqs _ := none
  nextTag := 1
  requests _ := none
  cq := ⟨depth,fun _ => (⟨0,0,0,0⟩,false),0,true,0,true⟩
  device := []
  backlog := []
  serials := 0

/-- Commands whose completion is still to come or to be consumed. -/
def QueueState.outstanding (s : QueueState) : List Issued :=
  s.device++s.backlog.map fun e => ⟨e.serial,e.commandId⟩

/-- The tags that a scan finds free. -/
def QueueState.unbound (s : QueueState) : Nat :=
  (List.range' 1 (tagsPerQueue-1)).countP fun tag => s.rqs tag=none

end Kobox.Nvme
