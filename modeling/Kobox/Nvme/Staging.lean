import Kobox.Block.Disk
import Kobox.Nvme.TransferSteps

namespace Kobox.Nvme

open Block (Request)

/-- `KB_LINUX_DMA_READ_STAGING_SIZE` and the size of the write staging buffer. -/
def stagingSize : Nat := 512*1024

def readStagingTotal : Nat := stagingSize*4

section

variable (env : Env)

def callerData (r : Request) : Pointer := ⟨.caller,r.buffer⟩

def direct (r : Request) : IoRequest := ⟨r.sector,callerData r,r.byteCount⟩

def handBack (rs : List Request) (s : Io) : Io :=
  rs.foldl (fun s r => s.logged .returned (.data (callerData r) r.byteCount)) s

def windowBegin (s : Io) : Option Io :=
  if s.windowActive ∨ !env.windowOk s then none else some { s with windowActive := true }

/-- `kb_subsystem_dma_cached_window_end`: with borrowers the window stays. -/
def windowEnd (s : Io) : Io :=
  if !s.windowActive ∨ s.borrowers≠0 then s else { s with windowActive := false }

def readWindowBegin (buffer length : Nat) (s : Io) : Int × Io :=
  if buffer=0 ∨ length=0 ∨ buffer%nvmePage≠0 ∨ wordSize-1-length<buffer ∨ s.scope.isSome then
    (einval,s)
  else if !env.backend s then (enodev,s)
  else if !env.readStagingOk s then (enomem,s)
  else
    match windowBegin env s with
    | none => (eio,s)
    | some t =>
      (0,{ t with scope := some (buffer,length,
        (min length stagingSize+(nvmePage-1))/nvmePage*nvmePage) })

def readWindowEnd (s : Io) : Io :=
  if s.scope.isNone then s else { windowEnd s with scope := none }

def stagedRead (r : Request) (s : Io) : Int × Io :=
  let a := diskIo env .read r.sector ⟨.readStaging,0⟩ r.byteCount s
  (a.1,if a.1=0 then a.2.copy (callerData r) ⟨.readStaging,0⟩ r.byteCount else a.2)

def inScope (r : Request) : Nat × Nat × Nat → Bool
  | (start,size,staging) =>
    r.byteCount ≤ staging && r.buffer≤wordSize-1-r.byteCount && start ≤ r.buffer &&
      r.buffer+r.byteCount ≤ start+size

/-- `shim_blk_disk_read`, with `block_staged_read_borrow`. -/
def shimDiskRead (r : Request) (s : Io) : Int × Io :=
  match s.scope with
  | some scope =>
    if inScope r scope then stagedRead env r s
    else diskIo env .read r.sector (callerData r) r.byteCount s
  | none =>
    if r.buffer=0 ∨ r.byteCount=0 ∨ stagingSize < r.byteCount ∨ !env.backend s ∨
        !env.readStagingOk s then
      diskIo env .read r.sector (callerData r) r.byteCount s
    else
      match windowBegin env s with
      | none => diskIo env .read r.sector (callerData r) r.byteCount s
      | some t =>
        let a := stagedRead env r t
        (a.1,windowEnd a.2)

def readOneByOne : List Request → Io → Int × Io
  | [],s => (0,s)
  | r::rs,s =>
    let a := shimDiskRead env r s
    if a.1≠0 then a else readOneByOne rs a.2

def stride (rs : List Request) : Nat :=
  ((rs.map Request.byteCount).foldl max 0+(nvmePage-1))/nvmePage*nvmePage

def slices (width i : Nat) : List Request → List IoRequest
  | [] => []
  | r::rs => ⟨r.sector,⟨.readStaging,i*width⟩,r.byteCount⟩::slices width (i+1) rs

def copyOut (width i : Nat) : List Request → Io → Io
  | [],s => s
  | r::rs,s =>
    copyOut width (i+1) rs (s.copy (callerData r) ⟨.readStaging,i*width⟩ r.byteCount)

def shimDiskReadBatch (rs : List Request) (s : Io) : Int × Io :=
  if rs.length<2 ∨ batchMax < rs.length then (einval,s)
  else if !env.backend s then (enodev,s)
  else if !env.readStagingOk s then (enomem,s)
  else if rs.any fun r => r.buffer=0 || r.byteCount=0 || stagingSize < r.byteCount then (einval,s)
  else if stride rs=0 ∨ readStagingTotal/stride rs < rs.length then readOneByOne env rs s
  else
    let opened := if s.scope.isNone then windowBegin env s else some s
    match opened with
    | none => (eio,s)
    | some t =>
      let a := diskReadBatch env (slices (stride rs) 0 rs) t
      let u := if a.1=0 then copyOut (stride rs) 0 rs a.2 else a.2
      (a.1,if s.scope.isNone then windowEnd u else u)

def shimDiskWrite (r : Request) (s : Io) : Int × Io :=
  diskIo env .write r.sector (callerData r) r.byteCount s

/-- `nvme_block_disk_flush`: the device works while the driver waits for the answer. -/
def diskFlush (s : Io) : Int × Io := (env.flushStatus s,deviceTurn env none s)

/-- `shim_blk_disk_write_flags`: a forced write, or a write and a flush. -/
def shimDiskWriteFlags (r : Request) (flags : Nat) (s : Io) : Int × Io :=
  if 1<flags then (eopnotsupp,s)
  else if flags=1 ∧ env.fua then
    diskIoFlags env .write r.sector (callerData r) r.byteCount 1 s
  else
    let a := shimDiskWrite env r s
    if a.1=0 ∧ flags=1 then diskFlush env a.2 else a

def canStage (rs : List Request) : Bool :=
  rs.all (fun r => r.buffer≠0 && r.byteCount≠0) && (rs.map Request.byteCount).sum ≤ stagingSize

/-- Copies the callers' buffers into the write staging buffer. -/
def stageWrites (offset : Nat) : List Request → Io → List IoRequest × Io
  | [],s => ([],s)
  | r::rs,s =>
    let slice : Pointer := ⟨.writeStaging,offset⟩
    let t := (s.logged .handed (.data slice r.byteCount)).copy slice (callerData r) r.byteCount
    let a := stageWrites (offset+r.byteCount) rs t
    (⟨r.sector,slice,r.byteCount⟩::a.1,a.2)

def shimDiskWriteBatch (rs : List Request) (s : Io) : Int × Io :=
  if rs.length<2 ∨ batchMax < rs.length then (einval,s)
  else if canStage rs ∧ env.backend s ∧ env.writeStagingOk s then
    let a := stageWrites 0 rs s
    diskWriteBatch env a.1 a.2
  else diskWriteBatch env (rs.map direct) s

end

/-- The layers above, the owner of the caller's memory, and a device while nobody waits. -/
inductive DiskEvent
  | read (r : Request)
  | readBatch (rs : List Request)
  | write (r : Request)
  | writeFlags (r : Request) (flags : Nat)
  | writeBatch (rs : List Request)
  | openScope (buffer length : Nat)
  | closeScope
  | touch (f : (Nat → UInt8) → Nat → UInt8)
  | idle

def diskStep (env : Env) (s : Io) : DiskEvent → Io
  | .read r => handBack [r] (shimDiskRead env r s).2
  | .readBatch rs => handBack rs (shimDiskReadBatch env rs s).2
  | .write r => handBack [r] (shimDiskWrite env r s).2
  | .writeFlags r flags => handBack [r] (shimDiskWriteFlags env r flags s).2
  | .writeBatch rs => handBack rs (shimDiskWriteBatch env rs s).2
  | .openScope buffer length => (readWindowBegin env buffer length s).2
  | .closeScope => readWindowEnd s
  | .touch f => { s with mem := fun place => if place=.caller then f (s.mem place) else s.mem place }
  | .idle => deviceTurn env none s

end Kobox.Nvme
