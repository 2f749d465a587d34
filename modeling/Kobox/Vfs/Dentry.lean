import Kobox.Framework.Run
import Kobox.Framework.Slots
import Kobox.PageCache.State

namespace Kobox.Vfs

open PageCache (lowOrErrPointer)

def dentryAllocationMax : Nat := 2048

def countSize : Nat := 2^32

/-- inode is 0 for a negative one; token tells apart the dentries of one address. -/
structure Dentry where
  address : Nat
  parent : Nat
  inode : Nat
  refcount : Nat
  parentRefHeld : Bool
  hashed : Bool
  token : Nat
  deriving DecidableEq

/-- An open file is in use, or in the middle of its open or release callback. -/
inductive FilePhase
  | opening
  | opened
  | closing
  deriving DecidableEq

/-- A file with the fields that `file_open` fills in; writer is FMODE_WRITER. -/
structure OpenFile where
  address : Nat
  dentry : Nat
  inode : Nat
  writer : Bool
  phase : FilePhase
  deriving DecidableEq

/-- releasing: parents that `dput` has still to drop, innermost first; handles, given, released:
references of callers, inode references taken over and put. These and made are bookkeeping. -/
structure DentryState where
  slots : List (Option Dentry)
  files : List OpenFile
  writecount : Nat → Nat
  releasing : List Nat
  handles : List Nat
  made : Nat
  given : List (Nat × Nat)
  released : List (Nat × Nat)

namespace DentryState

def start : DentryState where
  slots := List.replicate dentryAllocationMax none
  files := []
  writecount := fun _ => 0
  releasing := []
  handles := []
  made := 0
  given := []
  released := []

def records (s : DentryState) : List Dentry := inUse s.slots

def isAt (d : Nat) (r : Dentry) : Bool := r.address=d

def find (d : Nat) (s : DentryState) : Option Dentry := s.records.find? (isAt d)

def claim (d parent inode : Nat) (parentRefHeld : Bool) (s : DentryState) : Option DentryState :=
  (claimSlot ⟨d,parent,inode,1,parentRefHeld,false,s.made⟩ s.slots).map fun slots =>
    {s with
      slots := slots,
      made := s.made+1,
      given := if lowOrErrPointer inode then s.given else (s.made,inode)::s.given}

def count (d : Nat) (s : DentryState) : DentryState :=
  {s with
    slots := changeSlot (isAt d) (fun r => some {r with refcount := (r.refcount+1)%countSize}) s.slots}

/-- `kb_fs_subsystem_d_make_root`; calloc gives the new dentry, 0 is NULL. -/
def dMakeRoot (inode : Nat) (calloc : Option Nat) (s : DentryState) : Nat × DentryState :=
  if lowOrErrPointer inode then (0,s)
  else
    match calloc with
    | none => (0,s)
    | some d =>
      match s.claim d d inode false with
      | none => (0,s)
      | some s => (d,s)

/-- named says that there is a usable name, room that a long one can be copied. -/
def dAllocLen (parent : Nat) (named room : Bool) (calloc : Option Nat) (s : DentryState) :
    Nat × DentryState :=
  if parent=0 ∨ !named then (0,s)
  else
    match calloc with
    | none => (0,s)
    | some d =>
      let parentRefHeld := (s.find parent).isSome
      if !room then (0,s)
      else
        match s.claim d parent 0 parentRefHeld with
        | none => (0,s)
        | some s => (d,if parentRefHeld then s.count parent else s)

def dFindAnyAlias (inode : Nat) (s : DentryState) : Nat × DentryState :=
  if lowOrErrPointer inode then (0,s)
  else
    match s.records.find? fun r => r.inode=inode with
    | none => (0,s)
    | some r =>
      (r.address,{s with
        slots := changeSlot (fun r => r.inode=inode)
          (fun r => some {r with refcount := (r.refcount+1)%countSize}) s.slots})

def dgetParent (d : Nat) (s : DentryState) : Nat × DentryState :=
  match s.find d with
  | none => (0,s)
  | some r => if (s.find r.parent).isSome then (r.parent,s.count r.parent) else (0,s)

def errPtr (status : Nat) : Nat := 2^64-status

/-- `kb_fs_subsystem_d_obtain_alias`. What it puts with `iput` is the caller's own reference. -/
def dObtainAlias (inode : Nat) (calloc : Option Nat) (s : DentryState) : Nat × DentryState :=
  if inode=0 then (errPtr 116,s)
  else if errPtr 4095 ≤ inode then (inode,s)
  else
    match s.dFindAnyAlias inode with
    | (0,s) =>
      match calloc with
      | none => (errPtr 12,s)
      | some d =>
        match s.claim d d (if lowOrErrPointer inode then 0 else inode) false with
        | none => (errPtr 12,s)
        | some s => (d,s)
    | (found,s) => (found,s)

def pathGet (d : Nat) (s : DentryState) : DentryState :=
  match s.find d with
  | none => s
  | some r => if r.refcount≠countSize-1 then s.count d else s

/-- `kb_fs_subsystem_dput` up to the call for the parent, which comes once `iput` has returned. -/
def dput (d : Nat) (s : DentryState) : DentryState :=
  if d=0 then s
  else
    match s.find d with
    | none => s
    | some r =>
      if 1 < r.refcount then
        {s with slots := changeSlot (isAt d) (fun r => some {r with refcount := r.refcount-1}) s.slots}
      else
        {s with
          slots := changeSlot (isAt d) (fun _ => none) s.slots,
          released := if lowOrErrPointer r.inode then s.released else (r.token,r.inode)::s.released,
          releasing := if r.parentRefHeld ∧ r.parent≠0 ∧ r.parent≠d then r.parent::s.releasing
            else s.releasing}

/-- The innermost `dput` goes on with the parent. -/
def unwind (s : DentryState) : DentryState :=
  match s.releasing with
  | [] => s
  | p::ps => {s with releasing := ps}.dput p

def pathPut (d : Nat) (s : DentryState) : DentryState :=
  if (s.find d).isSome then s.dput d else s

/-- `kb_fs_subsystem_d_instantiate`, which is also `d_add`. -/
def dInstantiate (d inode : Nat) (s : DentryState) : DentryState :=
  if d=0 ∨ lowOrErrPointer inode then s
  else
    match s.find d with
    | none => s
    | some r =>
      {s with
        slots := changeSlot (isAt d) (fun r => some {r with inode := inode,hashed := true}) s.slots,
        given := (r.token,inode)::s.given}

end DentryState

/-- The arguments of `file_open`, the file that calloc gives, and what the inode has. -/
structure OpenInput where
  mount : Nat
  access : Nat
  out : Bool
  calloc : Option Nat
  mapping : Bool
  operations : Bool
  countsWriters : Bool
  deriving DecidableEq

namespace DentryState

def fileAt (f : Nat) (file : OpenFile) : Bool := file.address=f

/-- `kb_fs_subsystem_finish_open` on a new file, up to the open callback. -/
def finishOpen (i : OpenInput) (f d : Nat) (s : DentryState) : Int × DentryState :=
  if lowOrErrPointer f ∨ lowOrErrPointer d then (-22,s)
  else
    let inode := ((s.find d).map Dentry.inode).getD 0
    if lowOrErrPointer inode ∨ !i.mapping ∨ !i.operations then (-19,s)
    else
      let s := s.pathGet d
      let writer := i.access.testBit 1 && i.countsWriters
      if writer ∧ s.writecount inode=countSize-1 then (-75,s.pathPut d)
      else
        (0,{s with
          files := ⟨f,d,inode,writer,.opening⟩::s.files,
          writecount := if writer then Function.update s.writecount inode (s.writecount inode+1)
            else s.writecount})

/-- `kb_fs_subsystem_file_open` up to the open callback. -/
def fileOpen (i : OpenInput) (d : Nat) (s : DentryState) : Int × DentryState :=
  if lowOrErrPointer i.mount ∨ lowOrErrPointer d ∨ !i.out ∨ 4 ≤ i.access ∨ i.access=0 then (-22,s)
  else
    match i.calloc with
    | none => (-12,s)
    | some f => s.finishOpen i f d

def dropWriter (file : OpenFile) (s : DentryState) : DentryState :=
  if file.writer ∧ s.writecount file.inode≠0 then
    {s with writecount := Function.update s.writecount file.inode (s.writecount file.inode-1)}
  else s

/-- The open callback returns; where it fails all is undone and the file freed. -/
def openReturns (f : Nat) (status : Int) (s : DentryState) : DentryState :=
  match s.files.find? (fileAt f) with
  | none => s
  | some file =>
    let rest := s.files.eraseP (fileAt f)
    if status=0 then {s with files := {file with phase := .opened}::rest}
    else ({s with files := rest}.dropWriter file).pathPut file.dentry

/-- `kb_fs_subsystem_file_close` up to the release callback. -/
def fileClose (f : Nat) (s : DentryState) : Int × DentryState :=
  if lowOrErrPointer f then (-22,s)
  else
    match s.files.find? (fileAt f) with
    | none => (-9,s)
    | some file =>
      if file.phase=.opened then
        (0,{s with files := {file with phase := .closing}::s.files.eraseP (fileAt f)})
      else (-9,s)

def closeReturns (f : Nat) (s : DentryState) : DentryState :=
  match s.files.find? (fileAt f) with
  | none => s
  | some file =>
    ({s with files := s.files.eraseP (fileAt f)}.dropWriter file).pathPut file.dentry

end DentryState

/-- Calls, returns of callbacks, which make calls of their own, the continuation of a `dput`. -/
inductive DentryMove
  | makeRoot (inode : Nat) (calloc : Option Nat)
  | alloc (parent : Nat) (named room : Bool) (calloc : Option Nat)
  | instantiate (d inode : Nat)
  | findAnyAlias (inode : Nat)
  | obtainAlias (inode : Nat) (calloc : Option Nat)
  | getParent (d : Nat)
  | pathGet (d : Nat)
  | pathPut (d : Nat)
  | dput (d : Nat)
  | unwind
  | fileOpen (i : OpenInput) (d : Nat)
  | openReturns (f : Nat) (status : Int)
  | fileClose (f : Nat)
  | closeReturns (f : Nat)

namespace DentryState

/-- The caller holds what a call returns, unless it is NULL or an error. -/
def obtained (r : Nat × DentryState) : DentryState :=
  if lowOrErrPointer r.1 then r.2 else {r.2 with handles := r.1::r.2.handles}

def step (s : DentryState) : DentryMove → DentryState
  | .makeRoot inode calloc => obtained (s.dMakeRoot inode calloc)
  | .alloc parent named room calloc => obtained (s.dAllocLen parent named room calloc)
  | .instantiate d inode => s.dInstantiate d inode
  | .findAnyAlias inode => obtained (s.dFindAnyAlias inode)
  | .obtainAlias inode calloc => obtained (s.dObtainAlias inode calloc)
  | .getParent d => obtained (s.dgetParent d)
  | .pathGet d => obtained (d,s.pathGet d)
  | .pathPut d => {s with handles := s.handles.erase d}.pathPut d
  | .dput d => {s with handles := s.handles.erase d}.dput d
  | .unwind => s.unwind
  | .fileOpen i d => (s.fileOpen i d).2
  | .openReturns f status => s.openReturns f status
  | .fileClose f => (s.fileClose f).2
  | .closeReturns f => s.closeReturns f

/-- Those of callers, of files, of calls that have yet to drop one, and of child dentries. -/
def references (s : DentryState) : List Nat :=
  s.handles++(s.files.map OpenFile.dentry++s.releasing)++
    (s.records.filter Dentry.parentRefHeld).map Dentry.parent

def owned (s : DentryState) : List (Nat × Nat) :=
  (s.records.filter fun r => !lowOrErrPointer r.inode).map fun r => (r.token,r.inode)

def writers (s : DentryState) (inode : Nat) : Nat :=
  s.files.countP fun file => file.writer && file.inode=inode

end DentryState

open DentryState

/-- A dentry is there exactly while referenced, as are parents and dentries of files; inode
references are its own or released once; i_writecount counts writers. -/
structure DentriesKept (s : DentryState) : Prop where
  alive : ∀ d,(s.find d).isSome=true ↔ d∈s.references
  children : ∀ r∈s.records,(s.find r.parent).isSome=true
  files : ∀ file∈s.files,(s.find file.dentry).isSome=true
  inodes : s.given.Perm (s.owned++s.released) ∧ (s.given.map Prod.fst).Nodup
  writecount : ∀ inode,s.writecount inode=s.writers inode

/-- An address that calloc may give: not in use, and a place for objects. -/
def Fresh (used : List Nat) (calloc : Option Nat) : Prop :=
  ∀ a∈calloc,lowOrErrPointer a=false ∧ a∉used

instance (used : List Nat) (calloc : Option Nat) : Decidable (Fresh used calloc) := by
  cases calloc with
  | none => exact isTrue fun a ha => by cases ha
  | some a =>
    refine decidable_of_iff (lowOrErrPointer a=false ∧ a∉used) ?_
    simp [Fresh]

/-- What is passed is there; a reference is dropped by who holds it; only a negative dentry gets an
inode. -/
def Proper (s : DentryState) : DentryMove → Prop
  | .makeRoot _ calloc => Fresh (s.records.map Dentry.address) calloc
  | .alloc parent _ _ calloc =>
    (parent=0 ∨ (s.find parent).isSome) ∧ Fresh (s.records.map Dentry.address) calloc
  | .instantiate d _ => d=0 ∨ ∃ r∈s.find d,r.inode=0
  | .findAnyAlias _ => True
  | .obtainAlias inode calloc =>
    (inode=0 ∨ errPtr 4095 ≤ inode ∨ lowOrErrPointer inode=false) ∧
      Fresh (s.records.map Dentry.address) calloc
  | .getParent _ => True
  | .pathGet d => (s.find d).isSome
  | .pathPut d => d∈s.handles
  | .dput d => d=0 ∨ d∈s.handles
  | .unwind => True
  | .fileOpen i d => (lowOrErrPointer d ∨ (s.find d).isSome) ∧
      Fresh (s.files.map OpenFile.address) i.calloc
  | .openReturns f _ => ∃ file∈s.files.find? (fileAt f),file.phase=.opening
  | .fileClose f => ∃ file∈s.files.find? (fileAt f),file.phase=.opened
  | .closeReturns f => ∃ file∈s.files.find? (fileAt f),file.phase=.closing

instance (s : DentryState) (m : DentryMove) : Decidable (Proper s m) := by
  cases m <;> unfold Proper <;> infer_instance

/-- No dentry has as many references as an unsigned int can count. -/
def Countable (s : DentryState) (_ : DentryMove) : Prop := ∀ r∈s.records,r.refcount<countSize-1

instance (s : DentryState) (m : DentryMove) : Decidable (Countable s m) := by
  unfold Countable
  infer_instance

end Kobox.Vfs
