import Kobox.PageCache.State

namespace Kobox.Vfs

open Fs (einval)
open PageCache (PageState lowOrErrPointer)

def ebusy : Int := -16

def inodeMax : Nat := 2048
def countMax : Nat := 2^32-1

/-- Offsets of the address space in an inode of a file system and in one made here. -/
def inodeDataOffset : Nat := 0x170
def fakeInodeBytes : Nat := 1024

/-- What the registry reads of an inode; `freeing` stands for I_FREEING and I_WILL_FREE. -/
structure Inode where
  superBlock : Nat
  number : Nat
  count : Nat
  nlink : Nat
  freeing : Bool
  deriving DecidableEq

/-- `kb_fs_inode_allocation_record_t`. -/
structure InodeRecord where
  active : Bool
  hashed : Bool
  native : Bool
  inode : Nat
  mapping : Nat
  dirtyMetadata : Bool
  deriving DecidableEq

def InodeRecord.empty : InodeRecord := ⟨false,false,false,0,0,false⟩

structure InodeState where
  inodes : Nat → Inode
  records : Nat → InodeRecord
  cache : PageState
  /-- Inodes whose memory was given back, in order. -/
  released : List Nat

/-- The file system behind the registry: its operations, and memory for new inodes (0 for NULL). -/
structure InodeEnv where
  native : Nat → Bool
  alloc : Nat → InodeState → Nat
  alloc_fresh : ∀ sb s,alloc sb s≠0 → ∀ i < inodeMax,(s.records i).active=true →
    (s.records i).inode≠alloc sb s
  writeback : Nat → InodeState → Int × InodeState
  writeInode : Nat → Option (Nat → InodeState → Int × InodeState)
  evictInode : Nat → Option (Nat → InodeState → InodeState)
  releaseInode : Nat → Nat → Bool → InodeState → InodeState

namespace InodeState

variable (s : InodeState)

def onInode (inode : Nat) (f : Inode → Inode) : InodeState :=
  { s with inodes := Function.update s.inodes inode (f (s.inodes inode)) }

def onRecord (i : Nat) (f : InodeRecord → InodeRecord) : InodeState :=
  { s with records := Function.update s.records i (f (s.records i)) }

end InodeState

@[irreducible] def inodeAllocationFind (s : InodeState) (inode : Nat) : Option Nat :=
  (List.range inodeMax).find? fun i => (s.records i).active && (s.records i).inode==inode

@[irreducible] def inodeAllocationClaim (s : InodeState) : Option Nat :=
  (List.range inodeMax).find? fun i => !(s.records i).active

def hasKey (s : InodeState) (sb number : Nat) (r : InodeRecord) : Bool :=
  r.active && r.hashed && (s.inodes r.inode).superBlock==sb && (s.inodes r.inode).number==number

/-- The lookup of `iget_locked`: a count of zero or at the maximum is passed over. -/
@[irreducible] def cachedInode (s : InodeState) (sb number : Nat) : Option Nat :=
  if number=0 then none
  else (List.range inodeMax).find? fun i =>
    hasKey s sb number (s.records i) && (s.records i).inode≠0 &&
      (s.inodes (s.records i).inode).count≠0 && (s.inodes (s.records i).inode).count≠countMax

def registerInode (native : Bool) (slot inode sb number : Nat) (s : InodeState) : InodeState :=
  let mapping := inode+(if native then inodeDataOffset else fakeInodeBytes)
  { s with
    records := Function.update s.records slot ⟨true,decide (number≠0),native,inode,mapping,false⟩
    inodes := Function.update s.inodes inode ⟨sb,number,1,
      if number=0 then 1 else if native then (s.inodes inode).nlink else 0,false⟩ }

def releaseMemory (env : InodeEnv) (native destroy : Bool) (sb inode : Nat) (s : InodeState) :
    InodeState :=
  let t := { s with released := s.released++[inode] }
  if native then (if sb=0 ∨ inode=0 then s else env.releaseInode sb inode destroy t) else t

def igetLocked (env : InodeEnv) (sb number : Nat) (s : InodeState) : Nat × InodeState :=
  if sb=0 then (0,s)
  else
    match cachedInode s sb number with
    | some i =>
      ((s.records i).inode,s.onInode (s.records i).inode fun x => { x with count := x.count+1 })
    | none =>
      let inode := env.alloc sb s
      if inode=0 then (0,s)
      else
        match inodeAllocationClaim s with
        | none => (0,releaseMemory env (env.native sb) false sb inode s)
        | some slot => (inode,registerInode (env.native sb) slot inode sb number s)

def newInode (env : InodeEnv) (sb : Nat) (s : InodeState) : Nat × InodeState := igetLocked env sb 0 s

/-- Another inode that is hashed under the key of this one and not going away. -/
@[irreducible] def hashedTwin (s : InodeState) (inode : Nat) : Bool :=
  (List.range inodeMax).any fun i =>
    hasKey s (s.inodes inode).superBlock (s.inodes inode).number (s.records i) &&
      (s.records i).inode≠0 && (s.records i).inode≠inode &&
      !(s.inodes (s.records i).inode).freeing

def insertInodeLocked (inode : Nat) (s : InodeState) : Int × InodeState :=
  if lowOrErrPointer inode then (einval,s)
  else if hashedTwin s inode then (ebusy,s)
  else
    match inodeAllocationFind s inode with
    | none => (0,s)
    | some i => (0,s.onRecord i fun r => { r with hashed := true })

def ihold (inode : Nat) (s : InodeState) : InodeState :=
  match inodeAllocationFind s inode with
  | none => s
  | some _ =>
    if (s.inodes inode).count≠0 ∧ (s.inodes inode).count≠countMax then
      s.onInode inode fun x => { x with count := x.count+1 }
    else s

def igrab (inode : Nat) (s : InodeState) : Nat × InodeState :=
  match inodeAllocationFind s inode with
  | none => (0,s)
  | some _ =>
    if (s.inodes inode).count=0 ∨ (s.inodes inode).count=countMax then (0,s)
    else (inode,s.onInode inode fun x => { x with count := x.count+1 })

@[irreducible] def findInodeByInoRcu (s : InodeState) (sb number : Nat) : Nat :=
  if lowOrErrPointer sb then 0
  else
    match (List.range inodeMax).find? fun i =>
        hasKey s sb number (s.records i) && !lowOrErrPointer (s.records i).inode &&
          !(s.inodes (s.records i).inode).freeing with
    | some i => (s.records i).inode
    | none => 0

def clearDirtyMetadata (inode : Nat) (s : InodeState) : InodeState :=
  match inodeAllocationFind s inode with
  | none => s
  | some i => s.onRecord i fun r => { r with dirtyMetadata := false }

/-- `sync_inode_metadata`, without the dirty bits of the inode state. -/
def syncInodeMetadata (env : InodeEnv) (inode : Nat) (s : InodeState) : Int × InodeState :=
  if lowOrErrPointer inode then (einval,s)
  else
    match env.writeInode (s.inodes inode).superBlock with
    | none => (0,clearDirtyMetadata inode s)
    | some op =>
      let w := op inode s
      if w.1=0 then (w.1,clearDirtyMetadata inode w.2) else w

def markInodeFreeing (inode : Nat) (s : InodeState) : InodeState :=
  if lowOrErrPointer inode then s else s.onInode inode fun x => { x with freeing := true }

/-- The record is cleared before the memory goes. -/
def freeFakeInode (env : InodeEnv) (inode : Nat) (s : InodeState) : InodeState :=
  if lowOrErrPointer inode then s
  else
    match inodeAllocationFind s inode with
    | none => { s with released := s.released++[inode] }
    | some i =>
      releaseMemory env (s.records i).native true (s.inodes inode).superBlock inode
        (s.onRecord i fun _ => InodeRecord.empty)

section

variable (env : InodeEnv) (slot inode : Nat)

def iputDropped (s : InodeState) : InodeState :=
  s.onInode inode fun x => { x with count := x.count-1 }

/-- The data of a linked inode is written back, ... -/
def iputData (s : InodeState) : Int × InodeState :=
  if (s.records slot).mapping=0 then (0,s) else env.writeback (s.records slot).mapping s

/-- ... and then its metadata, if that went well and there is any. -/
def iputWritten (s : InodeState) : InodeState :=
  if (s.inodes inode).nlink=0 then s
  else
    let w := iputData env slot s
    if w.1=0 ∧ (w.2.records slot).dirtyMetadata then (syncInodeMetadata env inode w.2).2 else w.2

def iputMarked (s : InodeState) : InodeState :=
  markInodeFreeing inode (iputWritten env slot inode (iputDropped inode s))

/-- Behind `evict_inode`, if the file system has it. -/
def iputEvicted (s : InodeState) : InodeState :=
  let t := iputMarked env slot inode s
  match env.evictInode (t.inodes inode).superBlock with
  | none => t
  | some op => op inode t

end

/-- `kb_fs_subsystem_iput`. Folios that are left behind are only reported. -/
def iput (env : InodeEnv) (inode : Nat) (s : InodeState) : InodeState :=
  match inodeAllocationFind s inode with
  | none => s
  | some slot =>
    if (s.inodes inode).count=0 then s
    else if (s.inodes inode).count≠1 then iputDropped inode s
    else freeFakeInode env inode (iputEvicted env slot inode s)

inductive InodeCallback where
  | writeback (mapping : Nat)
  | writeInode (sb inode : Nat)
  | evictInode (sb inode : Nat)
  | releaseInode (sb inode : Nat) (destroy : Bool)

def InodeEnv.after (env : InodeEnv) : InodeCallback → InodeState → InodeState
  | .writeback mapping,s => (env.writeback mapping s).2
  | .writeInode sb inode,s =>
    match env.writeInode sb with
    | none => s
    | some op => (op inode s).2
  | .evictInode sb inode,s =>
    match env.evictInode sb with
    | none => s
    | some op => op inode s
  | .releaseInode sb inode destroy,s => env.releaseInode sb inode destroy s

/-- The calls a file system makes, its own writes to an inode and to the page cache. -/
inductive InodeCall where
  | igetLocked (sb number : Nat)
  | newInode (sb : Nat)
  | insertInodeLocked (inode : Nat)
  | ihold (inode : Nat)
  | igrab (inode : Nat)
  | iput (inode : Nat)
  | findByIno (sb number : Nat)
  | setNumber (inode number : Nat)
  | setLinks (inode nlink : Nat)
  | markDirty (inode : Nat)
  | setCache (cache : PageState)

def InodeCall.run (env : InodeEnv) : InodeCall → InodeState → InodeState
  | .igetLocked sb number,s => (Vfs.igetLocked env sb number s).2
  | .newInode sb,s => (Vfs.newInode env sb s).2
  | .insertInodeLocked inode,s => (Vfs.insertInodeLocked inode s).2
  | .ihold inode,s => Vfs.ihold inode s
  | .igrab inode,s => (Vfs.igrab inode s).2
  | .iput inode,s => Vfs.iput env inode s
  | .findByIno _ _,s => s
  | .setNumber inode number,s => s.onInode inode fun x => { x with number := number }
  | .setLinks inode nlink,s => s.onInode inode fun x => { x with nlink := nlink }
  | .markDirty inode,s =>
    match inodeAllocationFind s inode with
    | none => s
    | some i => s.onRecord i fun r => { r with dirtyMetadata := true }
  | .setCache cache,s => { s with cache := cache }

def runInodeCalls (env : InodeEnv) (calls : List InodeCall) (s : InodeState) : InodeState :=
  calls.foldl (fun s c => c.run env s) s

def noInodes : InodeState where
  inodes := fun _ => ⟨0,0,0,0,false⟩
  records := fun _ => InodeRecord.empty
  cache := PageCache.freshPages
  released := []

@[irreducible] def placeTaken (s : InodeState) (place : Nat) : Bool :=
  (List.range inodeMax).any fun i => (s.records i).active && (s.records i).inode==place

theorem placeTaken_false {s : InodeState} {place : Nat} (h : ¬placeTaken s place=true) :
    ∀ i < inodeMax,(s.records i).active=true → (s.records i).inode≠place := by
  intro i hi hact he
  unfold placeTaken at h
  rw [List.any_eq_true] at h
  exact h ⟨i,List.mem_range.mpr hi,by simp [hact,he]⟩

def nextPlace (s : InodeState) : Nat := if (s.records 0).active then 131072 else 65536

def twoPlaces (s : InodeState) : Nat := if placeTaken s (nextPlace s) then 0 else nextPlace s

theorem twoPlaces_fresh (s : InodeState) (h : twoPlaces s≠0) :
    ∀ i < inodeMax,(s.records i).active=true → (s.records i).inode≠twoPlaces s := by
  unfold twoPlaces at h ⊢
  split at h
  · exact absurd rfl h
  · next hno =>
    rw [if_neg hno]
    exact placeTaken_false hno

def plainFs : InodeEnv where
  native := fun _ => false
  alloc := fun _ => twoPlaces
  alloc_fresh := fun _ => twoPlaces_fresh
  writeback := fun _ s => (0,s)
  writeInode := fun _ => none
  evictInode := fun _ => none
  releaseInode := fun _ _ _ s => s

/-- A file system that looks inode 5 of super block 4096 up while it writes back. -/
def lookupFs : InodeEnv := { plainFs with
  writeback := fun _ s => (0,(igetLocked plainFs 4096 5 s).2) }

end Kobox.Vfs
