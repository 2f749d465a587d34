import Kobox.Fs.BufferHead

namespace Kobox.Fs

variable {δ : Type} (env : Env δ)

def FsState.onIter (s : FsState δ) (iter : Nat) (f : Iter → Iter) : FsState δ :=
  { s with iters := Function.update s.iters iter (f (s.iters iter)) }

def iovIterLimit (i : Iter) (bytes : Nat) : Nat :=
  if i.buffer=0 ∨ i.count=0 then 0 else min bytes i.count

def iovIterAdvance (bytes : Nat) (i : Iter) : Iter :=
  { buffer := i.buffer+min bytes i.count
    count := i.count-bytes
    capacity := if min bytes i.count ≤ i.capacity then i.capacity-min bytes i.count
      else i.capacity }

def iovIterRevert (bytes : Nat) (i : Iter) : Iter :=
  ⟨i.buffer-bytes,i.count+bytes,i.capacity+bytes⟩

def copyToIter (address bytes iter : Nat) (s : FsState δ) : Nat × FsState δ :=
  let n := iovIterLimit (s.iters iter) bytes
  if address=0 ∨ n=0 then (0,s)
  else (n,{ s with mem := s.mem.copy (s.iters iter).buffer n s.mem address }.onIter iter
    (iovIterAdvance n))

def copyFromIter (address bytes iter : Nat) (s : FsState δ) : Nat × FsState δ :=
  let n := iovIterLimit (s.iters iter) bytes
  if address=0 ∨ n=0 then (0,s)
  else (n,{ s with mem := s.mem.copy address n s.mem (s.iters iter).buffer }.onIter iter
    (iovIterAdvance n))

def bioResult (s : FsState δ) (bio : Nat) : Int :=
  if (s.bios bio).magic then (s.bios bio).result else einval

/-- The bio of one chunk of direct I/O; 0 if it could not be built. -/
def dioBio (bdev opf page chunk sector : Nat) : Prog (FsState δ) Int Nat := do
  let bio ← bioAllocBioset env bdev 1 opf
  if bio=0 then return 0
  else do
    let added ← bioAddPage env bio page chunk 0
    if added≠chunk then do
      Prog.modify (bioPut bio)
      return 0
    else do
      Prog.modify fun s => s.onBio bio fun r => { r with bio := { r.bio with sector := sector } }
      return bio

variable (callback : Call → FsState δ → FsState δ) (fuel : Nat)

def dioSubmit (bio : Nat) (s : FsState δ) : FsState δ :=
  let t := kbFsSubsystemSubmitBio env callback fuel bio s
  if bioResult t bio=einprogress then (kbFsSubsystemBioDrain env callback fuel t).2 else t

structure DioMap where
  bdev : Nat
  offset : Nat
  length : Nat
  blockSize : Nat
  iter : Nat
  write : Bool
  fua : Bool

def DioMap.opf (m : DioMap) : Nat :=
  if m.write then if m.fua then opWrite+2^17 else opWrite else opRead

/-- Give the page of a chunk back, and for a write the bytes to the iterator. -/
def dioUndo (m : DioMap) (page chunk : Nat) (s : FsState δ) : FsState δ :=
  freePages env page 0 (if m.write then s.onIter m.iter (iovIterRevert chunk) else s)

/-- The bio of a chunk has been run: look at its result. -/
def dioFinish (m : DioMap) (page payload chunk bio : Nat) : Prog (FsState δ) Int Unit := fun s =>
  if bioResult s bio≠0 then (.error (bioResult s bio),dioUndo env m page chunk (bioPut bio s))
  else
    let given := if m.write then (chunk,s) else copyToIter payload chunk m.iter s
    (if given.1≠chunk then .error efault else .ok (),freePages env page 0 (bioPut bio given.2))

def dioRun (m : DioMap) (moved chunk page payload : Nat) : Prog (FsState δ) Int Unit := do
  let bio ← dioBio env m.bdev m.opf page chunk ((m.offset+moved)/512)
  if bio=0 then do
    Prog.modify (dioUndo env m page chunk)
    Prog.fail enomem
  else do
    Prog.modify (dioSubmit env callback fuel bio)
    dioFinish env m page payload chunk bio

def dioFill (m : DioMap) (payload chunk : Nat) (s : FsState δ) : Nat × FsState δ :=
  if m.write then copyFromIter payload chunk m.iter s else (chunk,s)

def dioChunk (m : DioMap) (moved chunk : Nat) : Prog (FsState δ) Int Unit := do
  let page ← allocPages env 0
  let s ← Prog.get
  if payloadOf env s page pageSize=0 then do
    Prog.modify (freePages env page 0)
    Prog.fail enomem
  else do
    let filled := dioFill m (payloadOf env s page pageSize) chunk s
    Prog.modify fun _ => filled.2
    if filled.1≠chunk then do
      Prog.modify (freePages env page 0)
      Prog.fail efault
    else dioRun env callback fuel m moved chunk page (payloadOf env s page pageSize)

def dioLoop (m : DioMap) : Nat → Nat → FsState δ → Int × FsState δ
  | 0,moved,s => (moved,s)
  | n+1,moved,s =>
    if m.length ≤ moved then (moved,s)
    else
      let chunk := min (m.length-moved) pageSize
      if chunk%m.blockSize≠0 then (if moved=0 then einval else moved,s)
      else
        match dioChunk env callback fuel m moved chunk s with
        | (.error e,t) => (if moved=0 then e else moved,t)
        | (.ok _,t) => dioLoop m n (moved+chunk) t

def BlockDevice.dioBlockSize (d : BlockDevice) : Nat :=
  if d.logicalBlockSize=0 then 512 else d.logicalBlockSize

/-- `kb_fs_iomap_dio_transfer` of a mapping with its disk address and file offset. -/
def kbFsIomapDioTransfer (address mapOffset bdev position length iter : Nat) (write fua : Bool)
    (s : FsState δ) : Int × FsState δ :=
  match blockDeviceForBdev s bdev with
  | none => (eio,s)
  | some d =>
    if address=2^64-1 ∨ position < mapOffset ∨ 2^64-1-(position-mapOffset)<address then (eio,s)
    else
      let offset := address+position-mapOffset
      if offset%d.dioBlockSize≠0 ∨ length%d.dioBlockSize≠0 ∨
          (s.iters iter).buffer%d.dioBlockSize≠0 then (einval,s)
      else dioLoop env callback fuel ⟨bdev,offset,length,d.dioBlockSize,iter,write,fua⟩
        ((length+pageSize-1)/pageSize) 0 s

end Kobox.Fs
