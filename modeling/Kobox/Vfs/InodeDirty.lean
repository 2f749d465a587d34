import Kobox.Vfs.Inode
import Kobox.Framework.Run

namespace Kobox.Vfs.Dirty

open Fs (einval)
open PageCache (lowOrErrPointer)

def dirtySync : BitVec 64 := 1#64<<<3
def dirtyDatasync : BitVec 64 := 1#64<<<4
def dirtyPages : BitVec 64 := 1#64<<<5
def dirtyTime : BitVec 64 := 1#64<<<11

/-- The registry with the state word of every inode, and the calls of `write_inode` so far. -/
structure DirtyState where
  registry : InodeState
  state : Nat → BitVec 64
  written : List Nat

/-- What `write_inode` does, step by step: its calls of `mark_inode_dirty`, and all else. -/
inductive Act where
  | mark (inode : Nat) (flags : BitVec 32)
  | other (change : DirtyState → DirtyState)

/-- `write_inode` with its steps and status, `dirty_inode`, and the writeback of a mapping. -/
structure DirtyOps where
  writeInode : Nat → Option (Nat → Bool → DirtyState → List Act × Int)
  dirtyInode : Nat → Option (Nat → BitVec 32 → DirtyState → DirtyState)
  writeback : Nat → DirtyState → Int × DirtyState

variable (ops : DirtyOps)

def DirtyState.setMetadata (s : DirtyState) (inode : Nat) (dirty : Bool) : DirtyState :=
  match inodeAllocationFind s.registry inode with
  | none => s
  | some i => {s with registry := s.registry.onRecord i fun r => {r with dirtyMetadata := dirty}}

def requested (flags : BitVec 32) : BitVec 64 :=
  flags.zeroExtend 64 &&& (dirtySync ||| dirtyDatasync ||| dirtyPages ||| dirtyTime)

def markInodeDirty (inode : Nat) (flags : BitVec 32) (s : DirtyState) : DirtyState :=
  if lowOrErrPointer inode then s else
  let t := s.setMetadata inode true
  let u := {t with state := Function.update t.state inode (t.state inode ||| requested flags)}
  if flags.zeroExtend 64 &&& (dirtySync ||| dirtyDatasync)=0 then u else
  match ops.dirtyInode (u.registry.inodes inode).superBlock with
  | none => u
  | some op => op inode flags u

def Act.run (s : DirtyState) : Act → DirtyState
  | .mark inode flags => markInodeDirty ops inode flags s
  | .other change => change s

def clean (inode : Nat) (s : DirtyState) : DirtyState :=
  let t := s.setMetadata inode false
  {t with
    state := Function.update t.state inode
      (t.state inode &&& ~~~(dirtySync ||| dirtyDatasync ||| dirtyTime))}

def syncInodeMetadata (inode : Nat) (wait : Bool) (s : DirtyState) : Int × DirtyState :=
  if lowOrErrPointer inode then (einval,s) else
  match ops.writeInode (s.registry.inodes inode).superBlock with
  | none => (0,clean inode s)
  | some op =>
    let call := op inode wait s
    let t := runAll (Act.run ops) {s with written := s.written++[inode]} call.1
    if call.2=0 then (0,clean inode t) else (call.2,t)

/-- One turn of `writeback_inodes_for_super`, with the first error. -/
def writebackRecord (super : Nat) (wait : Bool) (a : Int × DirtyState) (i : Nat) :
    Int × DirtyState :=
  let r := a.2.registry.records i
  if !r.active ∨ r.inode=0 ∨ (a.2.registry.inodes r.inode).superBlock≠super then a else
  let data := if r.mapping=0 then (0,a.2) else ops.writeback r.mapping a.2
  let error := if a.1=0 then data.1 else a.1
  if (data.2.registry.records i).dirtyMetadata then
    let metadata := syncInodeMetadata ops (data.2.registry.records i).inode wait data.2
    (if error=0 then metadata.1 else error,metadata.2)
  else (error,data.2)

def StillDirty (s : DirtyState) (inode : Nat) (flags : BitVec 32) : Prop :=
  s.state inode &&& requested flags=requested flags ∧
    ∃ i,inodeAllocationFind s.registry inode=some i ∧ (s.registry.records i).dirtyMetadata=true

theorem find_onRecord (s : InodeState) (inode i : Nat) (dirty : Bool) :
    inodeAllocationFind (s.onRecord i fun r => {r with dirtyMetadata := dirty}) inode=
      inodeAllocationFind s inode := by
  have hsame : ∀ j,((s.onRecord i fun r => {r with dirtyMetadata := dirty}).records j).active=
      (s.records j).active ∧ ((s.onRecord i fun r => {r with dirtyMetadata := dirty}).records
        j).inode=(s.records j).inode := by
    intro j
    by_cases hj : j=i <;> simp [InodeState.onRecord,hj]
  unfold inodeAllocationFind
  simp only [hsame]

theorem clean_not_dirty (inode : Nat) (s : DirtyState) (flags : BitVec 32) :
    ¬StillDirty (clean inode s) inode flags := by
  rintro ⟨_,i,hf,hd⟩
  simp only [clean,DirtyState.setMetadata] at hf hd
  cases hs : inodeAllocationFind s.registry inode with
  | none => simp [hs] at hf
  | some j =>
    simp only [hs,find_onRecord,Option.some.injEq] at hf hd
    simp [InodeState.onRecord,hf] at hd

/-- A mark of `write_inode` is there behind the sync exactly when it fails and leaves it. -/
theorem redirtied_inode_iff (s : DirtyState) (inode : Nat) (wait : Bool) (flags : BitVec 32)
    (op : Nat → Bool → DirtyState → List Act × Int) (before after : List Act) (status : Int)
    (hp : lowOrErrPointer inode=false)
    (hop : ops.writeInode (s.registry.inodes inode).superBlock=some op)
    (hact : op inode wait s=(before++.mark inode flags::after,status)) :
    StillDirty (syncInodeMetadata ops inode wait s).2 inode flags ↔
      status≠0 ∧ StillDirty (runAll (Act.run ops) {s with written := s.written++[inode]}
        (before++.mark inode flags::after)) inode flags := by
  simp only [syncInodeMetadata,hp,hop,hact]
  by_cases hs : status=0
  · simp [hs,clean_not_dirty]
  · simp [hs]

/-- One inode of super block 4096 in the first slot, with metadata to write. -/
def oneInode : DirtyState where
  registry := {noInodes with
    records := Function.update noInodes.records 0 ⟨true,true,false,65536,0,true⟩
    inodes := Function.update noInodes.inodes 65536 ⟨4096,5,1,1,false⟩}
  state := Function.update (fun _ => 0) 65536 dirtySync
  written := []

/-- A file system whose `write_inode` marks the inode dirty again and returns a status. -/
def remarking (status : Int) : DirtyOps where
  writeInode := fun _ => some fun inode _ _ => ([.mark inode 8#32],status)
  dirtyInode := fun _ => none
  writeback := fun _ s => (0,s)

theorem redirtied_inode_failed :
    StillDirty (syncInodeMetadata (remarking (-5)) 65536 true oneInode).2 65536 8#32 :=
  (redirtied_inode_iff (remarking (-5)) oneInode 65536 true 8#32 _ [] [] (-5) rfl rfl rfl).mpr
    ⟨by decide,by decide +kernel,0,by decide +kernel,by decide +kernel⟩

/-- The mark of a `write_inode` that succeeds is lost, and the next sync passes the inode over. -/
theorem redirtied_inode_lost :
    let s := (syncInodeMetadata (remarking 0) 65536 true oneInode).2
    s.written=[65536] ∧ s.state 65536=0 ∧ (s.registry.records 0).dirtyMetadata=false ∧
      (writebackRecord (remarking 0) 4096 true (0,s) 0).2.written=[65536] := by
  decide +kernel

end Kobox.Vfs.Dirty
