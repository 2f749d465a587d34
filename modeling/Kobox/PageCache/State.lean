import Kobox.Framework.Table
import Kobox.Fs.State

namespace Kobox.PageCache

open Fs (pageSize einval enomem eoverflow eopnotsupp)

def enoent : Int := -2

def folioCacheMax : Nat := 2048

def ulongMax : Nat := 2^64-1
def int64Max : Int := 2^63-1
def refcountMax : Nat := 2^32-1

structure FolioFlags where
  locked : Bool
  uptodate : Bool
  dirty : Bool
  writeback : Bool
  readahead : Bool
  deriving DecidableEq

structure Folio where
  flags : FolioFlags
  mapping : Nat
  index : Nat
  refcount : Nat
  deriving DecidableEq

structure FolioRecord where
  active : Bool
  mapping : Nat
  index : Nat
  folio : Nat
  towrite : Bool
  deriving DecidableEq

def FolioRecord.empty : FolioRecord := ⟨false,0,0,0,false⟩

/-- `nrpages`, the head of the xarray and the three marks in its flags. -/
structure Mapping where
  nrpages : Nat
  head : Nat
  dirty : Bool
  writeback : Bool
  towrite : Bool
  deriving DecidableEq

structure PageState where
  pages : Kvm.PageArena
  mem : Bytes
  allocations : Nat
  folios : Nat → Folio
  records : Nat → FolioRecord
  mappings : Nat → Mapping
  /-- Entries that were stored in an xarray by `xa_insert` and `xa_store`; 0 for none. -/
  entries : Nat → Nat → Nat
  /-- Folios whose page was taken from the arena, and given back, in order. -/
  taken : List Nat
  freed : List Nat
  /-- A NULL folio was read: the process is gone. -/
  faulted : Bool

/-- What the page cache runs on: the arena, allocations, and the code it calls; functions given to
`write_cache_pages` are known by address. -/
structure PageEnv where
  base : Kvm.ArenaBase
  allocOk : Nat → Bool
  shrink : Nat → PageState → PageState
  wait : Nat → PageState → PageState
  writepages : Nat → Option (Int → Int → PageState → Int × PageState)
  dirtyFolio : Nat → Option (Nat → PageState → Int × PageState)
  drain : PageState → Int × PageState
  writepage : Nat → Nat → PageState → Int × PageState

namespace PageState

variable (s : PageState)

def onFolio (folio : Nat) (f : Folio → Folio) : PageState :=
  { s with folios := Function.update s.folios folio (f (s.folios folio)) }

def onRecord (i : Nat) (f : FolioRecord → FolioRecord) : PageState :=
  { s with records := Function.update s.records i (f (s.records i)) }

def onMapping (mapping : Nat) (f : Mapping → Mapping) : PageState :=
  { s with mappings := Function.update s.mappings mapping (f (s.mappings mapping)) }

end PageState

def FolioRecord.caches (mapping : Nat) (r : FolioRecord) : Bool :=
  r.active && r.mapping==mapping && r.folio≠0

/-- The folio with the least index; one at ULONG_MAX, where the search starts, is never found. -/
def headOf (s : PageState) (mapping : Nat) : Nat :=
  match leastSlot (fun r => r.caches mapping && r.index<ulongMax) FolioRecord.index
      s.records folioCacheMax with
  | some i => (s.records i).folio
  | none => 0

def filemapRefreshXarrayHead (mapping : Nat) (s : PageState) : PageState :=
  if mapping=0 then s else s.onMapping mapping fun m => { m with head := headOf s mapping }

def findKey (s : PageState) (mapping index : Nat) : Option Nat :=
  (List.range folioCacheMax).find? fun i =>
    (s.records i).active && (s.records i).mapping==mapping && (s.records i).index==index

def filemapXarrayLoad (s : PageState) (mapping index : Nat) : Nat :=
  match findKey s mapping index with
  | some i => (s.records i).folio
  | none => 0

def xaLoad (s : PageState) (mapping index : Nat) : Nat :=
  if s.entries (mapping+8) index≠0 then s.entries (mapping+8) index
  else filemapXarrayLoad s mapping index

def filemapMappingRefreshMarks (mapping : Nat) (s : PageState) : PageState :=
  if mapping=0 then s
  else s.onMapping mapping fun m => { m with
    dirty := anySlot (fun r => r.caches mapping && (s.folios r.folio).flags.dirty)
      s.records folioCacheMax
    writeback := anySlot (fun r => r.caches mapping && (s.folios r.folio).flags.writeback)
      s.records folioCacheMax
    towrite := anySlot (fun r => r.caches mapping && r.towrite) s.records folioCacheMax }

def filemapMappingFolioCount (s : PageState) (mapping : Nat) : Nat :=
  slotCount (fun r => r.active && r.mapping==mapping) s.records folioCacheMax

def filemapFolioRecord (s : PageState) (folio : Nat) : Option Nat :=
  if folio=0 then none
  else (List.range folioCacheMax).find? fun i =>
    (s.records i).active && (s.records i).folio==folio

section

variable (env : PageEnv)

def folioPagePayload (s : PageState) (folio : Nat) : Nat :=
  s.pages.pagePayload env.base folio pageSize

/-- A page for a folio from the arena; 0 for NULL. -/
def allocFolioPage (s : PageState) : Nat × PageState :=
  if !env.allocOk s.allocations then (0,{ s with allocations := s.allocations+1 })
  else
    match s.pages.allocPages 0 with
    | none => (0,{ s with allocations := s.allocations+1 })
    | some (index,pages) =>
      (Kvm.PageArena.pageAt env.base index,{ s with
        allocations := s.allocations+1
        pages := pages
        taken := s.taken++[Kvm.PageArena.pageAt env.base index]
        mem := s.mem.fill (env.base.payloads+index*pageSize) pageSize 0 })

/-- Drop a reference of a folio outside the cache; the last one gives the page back. -/
def unrefFolio (folio : Nat) (s : PageState) : PageState :=
  if (s.folios folio).refcount=0 then s
  else
    let t := s.onFolio folio fun f => { f with refcount := f.refcount-1 }
    if 1 < (s.folios folio).refcount then t
    else { t with pages := t.pages.releasePages env.base folio 0,freed := t.freed++[folio] }

/-- `kb_fs_subsystem_folio_put`: the reference of the cache itself cannot be dropped. -/
def folioPut (folio : Nat) (s : PageState) : PageState :=
  if folio=0 then s
  else
    match filemapFolioRecord s folio with
    | some _ => s.onFolio folio fun f => { f with
        refcount := if 1 < f.refcount then f.refcount-1 else f.refcount }
    | none => unrefFolio env folio s

def forgetFolio (folio : Nat) (s : PageState) : PageState :=
  match filemapFolioRecord s folio with
  | none => s
  | some i =>
    let mapping := (s.records i).mapping
    let t := filemapRefreshXarrayHead mapping (s.onRecord i fun _ => FolioRecord.empty)
    if mapping=0 then t
    else filemapMappingRefreshMarks mapping (t.onMapping mapping fun m => { m with
      nrpages := if m.nrpages≠0 then m.nrpages-1 else m.nrpages })

def filemapFolioDiscard (folio : Nat) (s : PageState) : PageState :=
  if folio=0 then s
  else unrefFolio env folio ((forgetFolio folio s).onFolio folio fun f => { f with mapping := 0 })

def folioUnlock (folio : Nat) (s : PageState) : PageState :=
  if folio=0 then s else s.onFolio folio fun f => { f with flags := { f.flags with locked := false } }

/-- Wait until the lock bit is free and take it. -/
def folioLock (folio : Nat) (s : PageState) : PageState :=
  if folio=0 then s
  else
    let t := if (s.folios folio).flags.locked then env.wait folio s else s
    t.onFolio folio fun f => { f with flags := { f.flags with locked := true } }

def folioEndRead (folio : Nat) (success : Bool) (s : PageState) : PageState :=
  if folio=0 then s
  else s.onFolio folio fun f => { f with flags := { f.flags with locked := false,uptodate := success } }

/-- `filemap_writeback_range`: a mapping without the dirty mark is skipped. -/
def filemapWritebackRange (mapping : Nat) (start stop : Int) (s : PageState) : Int × PageState :=
  if mapping=0 ∨ start<0 ∨ stop<start then (einval,s)
  else if !(s.mappings mapping).dirty then (0,s)
  else
    match env.writepages mapping with
    | none => (eopnotsupp,s)
    | some writepages =>
      let w := writepages start stop s
      let d := env.drain w.2
      (if w.1≠0 then w.1 else d.1,filemapMappingRefreshMarks mapping d.2)

structure Victim where
  slot : Nat
  folio : Nat
  state : Folio

/-- A reference of a key at or behind the current one belongs to the readahead that is kept. -/
def keeps (preserve : Bool) (mapping index : Nat) (r : FolioRecord) : Bool :=
  preserve && r.mapping==mapping && index ≤ r.index

/-- The first stage takes clean folios that only the cache refers to. -/
def reclaimable (s : PageState) (preserve : Bool) (mapping index i : Nat) : Bool :=
  let r := s.records i
  let f := s.folios r.folio
  r.folio≠0 && f.refcount≤1 && !f.flags.dirty && !f.flags.writeback && !keeps preserve mapping index r

def reclaimClean (preserve : Bool) (mapping index : Nat) (s : PageState) :
    Option Victim × PageState :=
  match (List.range folioCacheMax).find? (reclaimable s preserve mapping index) with
  | none => (none,s)
  | some i =>
    let folio := (s.records i).folio
    (some ⟨i,folio,s.folios folio⟩,filemapFolioDiscard env folio s)

def skips (s : PageState) (preserve : Bool) (mapping index i : Nat) : Bool :=
  let r := s.records i
  let f := s.folios r.folio
  !r.active || r.folio==0 || r.mapping==0 || 1<f.refcount || f.flags.writeback ||
    keeps preserve mapping index r

/-- The second stage writes the mapping of a dirty folio back. -/
def writeVictim (i : Nat) (s : PageState) : Int × PageState :=
  if (s.folios (s.records i).folio).flags.dirty then
    filemapWritebackRange env (s.records i).mapping 0 int64Max s
  else (0,s)

def reclaimDirty (preserve : Bool) (mapping index : Nat) :
    List Nat → PageState → Option Victim × PageState
  | [],s => (none,s)
  | i::slots,s =>
    if skips s preserve mapping index i then reclaimDirty preserve mapping index slots s
    else
      let w := writeVictim env i s
      if w.1≠0 then reclaimDirty preserve mapping index slots w.2
      else
        -- the record is read again: the callbacks may have emptied it or given it away
        let folio := (w.2.records i).folio
        if folio=0 then (none,{ w.2 with faulted := true })
        else if (w.2.folios folio).flags.dirty ∨ (w.2.folios folio).flags.writeback then
          reclaimDirty preserve mapping index slots w.2
        else (some ⟨i,folio,w.2.folios folio⟩,filemapFolioDiscard env folio w.2)

def reclaim (preserve : Bool) (mapping index gfp : Nat) (s : PageState) :
    Option Victim × PageState :=
  match reclaimClean env preserve mapping index (env.shrink gfp s) with
  | (some v,t) => (some v,t)
  | (none,t) => reclaimDirty env preserve mapping index (List.range folioCacheMax) t

/-- A slot for a new record, if need be from reclaim. -/
def claimFolioSlot (preserve : Bool) (mapping index gfp : Nat) (s : PageState) :
    Option Nat × PageState :=
  match (List.range folioCacheMax).find? fun i => !(s.records i).active with
  | some i => (some i,s)
  | none =>
    let r := reclaim env preserve mapping index gfp s
    (r.1.map Victim.slot,r.2)

/-- The flags FGP_LOCK and FGP_CREAT. -/
def fgpLock (fgp : Nat) : Bool := fgp.testBit 1
def fgpCreat (fgp : Nat) : Bool := fgp.testBit 2

/-- A new folio in a slot, with one reference for the cache and one for the caller. -/
def insertFolio (slot mapping index fgp folio : Nat) (s : PageState) : PageState :=
  let t := { s with
    folios := Function.update s.folios folio ⟨⟨fgpLock fgp,false,false,false,false⟩,mapping,index,2⟩
    records := Function.update s.records slot
      { s.records slot with active := true,mapping := mapping,index := index,folio := folio } }
  (filemapRefreshXarrayHead mapping t).onMapping mapping fun m => { m with
    nrpages := if m.nrpages≠ulongMax then m.nrpages+1 else m.nrpages }

def takeFolio (fgp folio : Nat) (s : PageState) : Except Int Nat × PageState :=
  if (s.folios folio).refcount=0 ∨ (s.folios folio).refcount=refcountMax then (.error eoverflow,s)
  else
    let t := s.onFolio folio fun f => { f with refcount := f.refcount+1 }
    (.ok folio,if fgpLock fgp then folioLock env folio t else t)

def filemapGetFolioInternal (mapping index fgp gfp : Nat) (preserve : Bool) (s : PageState) :
    Except Int Nat × PageState :=
  if mapping=0 then (.error einval,s)
  else
    match findKey s mapping index with
    | some i => takeFolio env fgp (s.records i).folio s
    | none =>
      if !fgpCreat fgp then (.error enoent,s)
      else
        match claimFolioSlot env preserve mapping index gfp s with
        | (none,t) => (.error enomem,t)
        | (some slot,t) =>
          let a := allocFolioPage env t
          if a.1=0 then (.error enomem,a.2)
          else (.ok a.1,insertFolio slot mapping index fgp a.1 a.2)

def filemapGetFolio (mapping index fgp gfp : Nat) (s : PageState) : Except Int Nat × PageState :=
  filemapGetFolioInternal env mapping index fgp gfp false s

/-- One slot of a truncation to the bytes from `first` to `last`. -/
def truncateSlot (mapping first last : Nat) (s : PageState) (i : Nat) : PageState :=
  let r := s.records i
  let start := r.index*pageSize
  let stop := start+(pageSize-1)
  if !r.caches mapping then s
  else if 2^64 ≤ start then s
  else if stop<first ∨ last<start then s
  else if first ≤ start ∧ stop≤last then filemapFolioDiscard env r.folio s
  else
    let payload := folioPagePayload env s r.folio
    if payload=0 then s
    else
      let zeroStart := first-start
      let zeroEnd := if last<stop then last-start else pageSize-1
      if zeroStart<pageSize ∧ zeroStart≤zeroEnd then
        { s with mem := s.mem.fill (payload+zeroStart) (zeroEnd-zeroStart+1) 0 }
      else s

def truncateInodePagesRange (mapping : Nat) (start stop : Int) (s : PageState) : PageState :=
  if mapping=0 ∨ start<0 ∨ (0 ≤ stop ∧ stop<start) then s
  else
    let last := if stop<0 then ulongMax else stop.toNat
    filemapMappingRefreshMarks mapping
      ((List.range folioCacheMax).foldl (truncateSlot env mapping start.toNat last) s)

def truncateInodePagesFinal (mapping : Nat) (s : PageState) : PageState :=
  truncateInodePagesRange env mapping 0 (-1) s

/-- One slot of an invalidation, with the number of folios dropped so far. -/
def invalidateSlot (mapping start stop : Nat) (acc : Nat × PageState) (i : Nat) : Nat × PageState :=
  let s := acc.2
  let r := s.records i
  let f := s.folios r.folio
  if !r.caches mapping ∨ r.index<start ∨ stop < r.index then acc
  else if 1<f.refcount ∨ f.flags.locked ∨ f.flags.dirty ∨ f.flags.writeback then acc
  else (acc.1+1,filemapFolioDiscard env r.folio s)

def invalidateMappingPages (mapping start stop : Nat) (s : PageState) : Nat × PageState :=
  if mapping=0 ∨ stop<start then (0,s)
  else
    let r := (List.range folioCacheMax).foldl (invalidateSlot env mapping start stop) (0,s)
    (r.1,filemapMappingRefreshMarks mapping r.2)

end

/-- `low_or_err_pointer`; the addresses between the two halves of the address space are none. -/
def lowOrErrPointer (p : Nat) : Bool :=
  p<4096 || 2^64-4096≤p || (0x00007fffffffffff<p && p<0xffff800000000000)

/-- `filemap_dirty_folio`; the state of the inode behind the mapping is not kept here. -/
def filemapDirtyFolio (mapping folio : Nat) (s : PageState) : Bool × PageState :=
  if lowOrErrPointer mapping ∨ lowOrErrPointer folio then (false,s)
  else
    (!(s.folios folio).flags.dirty,
      (s.onFolio folio fun f => { f with flags := { f.flags with dirty := true } }).onMapping mapping
        fun m => { m with dirty := true })

/-- `block_dirty_folio`, without the buffers of the folio. -/
def blockDirtyFolio (mapping folio : Nat) (s : PageState) : Bool × PageState :=
  filemapDirtyFolio mapping folio s

/-- A folio outside every mapping only gets the flag; others go through `dirty_folio`, if any. -/
def folioMarkDirty (env : PageEnv) (folio : Nat) (s : PageState) : PageState :=
  if folio=0 then s
  else if (s.folios folio).mapping=0 then
    s.onFolio folio fun f => { f with flags := { f.flags with dirty := true } }
  else
    match env.dirtyFolio (s.folios folio).mapping with
    | none => (filemapDirtyFolio (s.folios folio).mapping folio s).2
    | some op => (op folio s).2

/-- Change the record of a folio, if it has one, and bring the marks of its mapping up to date. -/
def onCached (folio : Nat) (f : FolioRecord → FolioRecord) (s : PageState) : PageState :=
  match filemapFolioRecord s folio with
  | none => s
  | some i => filemapMappingRefreshMarks (s.records i).mapping (s.onRecord i f)

def folioClearDirtyForIo (folio : Nat) (s : PageState) : Bool × PageState :=
  if folio=0 then (false,s)
  else
    ((s.folios folio).flags.dirty,onCached folio (fun r => { r with towrite := false })
      (s.onFolio folio fun f => { f with flags := { f.flags with dirty := false } }))

def folioStartWriteback (folio : Nat) (keepWrite : Bool) (s : PageState) : PageState :=
  if folio=0 then s
  else onCached folio (fun r => { r with towrite := keepWrite && r.towrite })
    (s.onFolio folio fun f => { f with flags := { f.flags with writeback := true } })

def folioEndWriteback (folio : Nat) (s : PageState) : PageState :=
  if folio=0 then s
  else onCached folio (fun r => r)
    (s.onFolio folio fun f => { f with flags := { f.flags with writeback := false } })

def dirtyIn (s : PageState) (mapping start stop : Nat) (r : FolioRecord) : Bool :=
  r.caches mapping && start ≤ r.index && r.index ≤ stop && (s.folios r.folio).flags.dirty

/-- `tag_pages_for_writeback`: the mark is set to whether the call has tagged anything. -/
def tagPagesForWriteback (mapping start stop : Nat) (s : PageState) : PageState :=
  if mapping=0 then s
  else
    { s with records := fun i =>
        if i<folioCacheMax ∧ dirtyIn s mapping start stop (s.records i) then
          { s.records i with towrite := true }
        else s.records i }.onMapping mapping fun m =>
      { m with towrite := anySlot (dirtyIn s mapping start stop) s.records folioCacheMax }

def aopWritepageActivate : Int := 0x80000

/-- The dirty folio of a range that is written next. -/
@[irreducible] def nextDirty (s : PageState) (mapping start stop : Nat) : Option Nat :=
  leastSlot (dirtyIn s mapping start stop) FolioRecord.index s.records folioCacheMax

def writeFolio (env : PageEnv) (writepage i : Nat) (s : PageState) : Int × PageState :=
  let folio := (s.records i).folio
  let w := env.writepage writepage folio (s.onFolio folio fun f => { f with
    flags := { f.flags with locked := true }
    refcount := if f.refcount≠refcountMax then f.refcount+1 else f.refcount })
  -- from here on the folio is whatever the slot holds then
  let t := if w.1=aopWritepageActivate then folioUnlock (w.2.records i).folio w.2 else w.2
  (if w.1=aopWritepageActivate then 0 else w.1,folioPut env (t.records i).folio t)

/-- The loop of `write_cache_pages`: the first error, with n writes left. -/
def writeCacheLoop (env : PageEnv) (writepage mapping last : Nat) :
    Nat → Nat → PageState → Int × PageState
  | 0,_,s => (0,s)
  | n+1,cursor,s =>
    if last<cursor then (0,s)
    else
      match nextDirty s mapping cursor last with
      | none => (0,s)
      | some i =>
        let w := writeFolio env writepage i s
        if w.1≠0 then w
        else if (s.records i).index=ulongMax then (0,w.2)
        else writeCacheLoop env writepage mapping last n ((s.records i).index+1) w.2

def writeCachePages (env : PageEnv) (writepage mapping : Nat) (nrToWrite start stop : Int)
    (s : PageState) : Int × PageState :=
  if mapping=0 ∨ writepage=0 then (einval,s)
  else if nrToWrite≤0 ∨ start<0 ∨ stop<start then (0,s)
  else
    let last := if stop=int64Max then ulongMax else stop.toNat/pageSize
    let r := writeCacheLoop env writepage mapping last nrToWrite.toNat (start.toNat/pageSize) s
    (r.1,filemapMappingRefreshMarks mapping r.2)

/-- Callbacks that do nothing. -/
def stillEnv : PageEnv where
  base := Fs.sampleEnv.base
  allocOk := fun _ => true
  shrink := fun _ s => s
  wait := fun _ s => s
  writepages := fun _ => none
  dirtyFolio := fun _ => none
  drain := fun s => (0,s)
  writepage := fun _ _ s => (0,s)

def freshPages : PageState where
  pages := fun _ => .free
  mem := fun _ => 0
  allocations := 0
  folios := fun _ => ⟨⟨false,false,false,false,false⟩,0,0,0⟩
  records := fun _ => FolioRecord.empty
  mappings := fun _ => ⟨0,0,false,false,false⟩
  entries := fun _ _ => 0
  taken := []
  freed := []
  faulted := false

end Kobox.PageCache
