import Kobox.Fs.IoMoves
import Kobox.Fs.Module

namespace Kobox.Fs

open Prog
open Moves (fail modify pure)

variable {δ : Type} {env : Env δ} {callback : Call → FsState δ → FsState δ}
  {R : FsState δ → FsState δ → Prop}

/-- A relation between states of a run that looks at the trace only and that every transfer
stays in. -/
structure TransferClosed (env : Env δ) (R : FsState δ → FsState δ → Prop) : Prop where
  trans : ∀ {a b c},R a b → R b c → R a c
  quiet : ∀ {s t},t.trace=s.trace → R s t
  note : ∀ s e,¬e.OfTransfer → R s (s.note e)
  submitNow : ∀ bio,Prog.Moves R (bioSubmitNow env bio)
  read : ∀ d offset buffer size,Prog.Moves R (kbFsBlockDeviceRead env d offset buffer size)
  readBatch : ∀ d requests,Prog.Moves R (kbFsBlockDeviceReadBatch env d requests)
  write : ∀ d offset buffer size,Prog.Moves R (kbFsBlockDeviceWrite env d offset buffer size)
  writeBatch : ∀ d requests,Prog.Moves R (kbFsBlockDeviceWriteBatch env d requests)
  flush : ∀ bdev,Prog.Moves R (kbFsSubsystemIssueFlush env bdev)
  zeroout : ∀ bdev sector sectorCount noFallback,
    Prog.Moves R (kbFsSubsystemIssueZeroout env bdev sector sectorCount noFallback)

/-- The callbacks stay in it too. -/
structure LayerClosed (env : Env δ) (callback : Call → FsState δ → FsState δ)
    (R : FsState δ → FsState δ → Prop) : Prop extends TransferClosed env R where
  callback : ∀ c s,R s (callback c s)

variable {s : FsState δ}

@[simp] theorem allocPages_trace {order : Nat} : (allocPages env order s).2.trace=s.trace := by
  unfold allocPages
  split
  · rfl
  · split <;> rfl

@[simp] theorem freePages_trace {page order : Nat} :
    (freePages env page order s).trace=s.trace := rfl

variable (C : LayerClosed env callback R)

include C

theorem LayerClosed.refl (s : FsState δ) : R s s := C.quiet rfl

theorem LayerClosed.bind {α β : Type} {x : Prog (FsState δ) Int α} {f : α → Prog (FsState δ) Int β}
    (hx : Moves R x) (hf : ∀ a,Moves R (f a)) : Moves R (x>>=f) :=
  Moves.bind (fun _ _ _ => C.trans) hx hf

theorem LayerClosed.silent {α : Type} {x : Prog (FsState δ) Int α}
    (h : ∀ s,(x s).2.trace=s.trace) : Moves R x := fun s => C.quiet (h s)

variable {head : Nat}

theorem endWriteSync_moves {uptodate : Bool} : R s (endBufferWriteSync head uptodate s) := by
  have h1 : R s (s.onHead head fun h => { h with
      flags := { h.flags with
        uptodate := uptodate
        dirty := if uptodate then false else h.flags.dirty
        writeEio := !uptodate
        lock := false
        req := false } }) := C.quiet rfl
  refine C.trans h1 (C.trans (C.note _ (.wrote head uptodate) id) (C.quiet ?_))
  simp only [endBufferWriteSync]
  split <;> simp

theorem LayerClosed.io : IoClosed env callback R where
  trans := C.trans
  quiet := fun h => C.quiet h.trace
  submit := fun s _ => C.note s _ id
  done := fun s _ _ => C.note s _ id
  submitNow := C.submitNow
  readBatch := C.readBatch
  writeBatch := C.writeBatch
  readEnd := by
    intro s head success
    have h1 : R s (s.onHead head fun h => { h with
        flags := { h.flags with uptodate := success,lock := false,req := false }
        refcount := h.refcount-1 }) := C.quiet rfl
    exact C.trans h1 (C.note _ (.read head success) id)
  writeEnd := fun s head success => endWriteSync_moves C
  start := fun _ _ _ => C.quiet rfl
  lock := fun _ _ _ => C.quiet rfl
  readHold := fun _ _ => C.quiet rfl
  writeHold := fun _ _ => C.quiet rfl
  callback := C.callback

variable {fuel : Nat}

theorem markBufferDirty_moves : R s (markBufferDirty head s) := by
  have h1 : R s (s.onHead head fun h => { h with flags := { h.flags with dirty := true } }) :=
    C.quiet rfl
  have h2 := C.trans h1 (C.note _ (.marked head) id)
  simp only [markBufferDirty]
  split
  · exact h2
  · exact C.trans h2 (C.quiet (setDirty_trace _ _ _))

theorem dropRecord_moves {i : Nat} : R s (dropRecord env i s) :=
  C.trans (C.note s (.freed (s.cache i).bufferHead (s.heads (s.cache i).bufferHead)
    (s.cache i).dirty) id) (C.quiet rfl)

theorem claimSlot_moves : R s (claimSlot env s).2 := by
  unfold claimSlot
  split
  · exact C.refl s
  · split
    · exact C.refl s
    · exact C.trans (dropRecord_moves C) (C.quiet rfl)

omit C in
@[simp] theorem createBuffer_trace {slot bdev blockNumber blockSize : Nat} :
    (createBuffer env slot bdev blockNumber blockSize s).2.trace=s.trace := by
  have h : (allocPages env (folioOrderFor blockSize)
      { s with allocations := s.allocations+1 }).2.trace=s.trace := allocPages_trace
  unfold createBuffer
  rcases ha : allocPages env (folioOrderFor blockSize) { s with allocations := s.allocations+1 }
    with ⟨r,t⟩
  rw [ha] at h
  cases r with
  | error e => exact h
  | ok folio =>
    simp only [adoptBuffer]
    split <;> exact h

variable (bdev blockNumber blockSize : Nat)

theorem bdevGetblk_moves (s : FsState δ) : R s (bdevGetblk env bdev blockNumber blockSize s).2 := by
  unfold bdevGetblk
  split
  · exact C.refl s
  split
  · exact C.refl s
  · split
    · exact C.quiet rfl
    · exact C.trans (claimSlot_moves C) (C.quiet (createBuffer_trace))

omit C in
@[simp] theorem findGetBlock_trace :
    (findGetBlock env bdev blockNumber blockSize s).2.trace=s.trace := by
  unfold findGetBlock
  split
  · rfl
  · split <;> rfl

theorem invalidateBdev_moves {bdev : Nat} : R s (invalidateBdev env bdev s) := by
  unfold invalidateBdev
  split
  · exact C.refl s
  apply C.io.foldl
  intro t i
  dsimp only
  split
  · exact C.refl t
  · split
    · exact C.refl t
    · exact dropRecord_moves C

omit C in
theorem bforget_trace : (bforget head s).trace=(s.note (.forgot head)).trace := by
  simp [bforget,bufferHeadPut,FsState.note]

theorem breadGfp_moves : R s (breadGfp env callback fuel bdev blockNumber blockSize s).2 := by
  have h1 := bdevGetblk_moves C bdev blockNumber blockSize s
  have h2 := C.trans h1 (lockBufferLoop_moves C.io fuel
    (bdevGetblk env bdev blockNumber blockSize s).1 (fuel+1) _)
  have h3 := C.trans h2 (bhRead_moves C.io fuel
    (bdevGetblk env bdev blockNumber blockSize s).1 0 true _)
  unfold breadGfp
  dsimp only
  split
  · exact h1
  split
  · exact h1
  split
  · exact C.trans h2 (C.quiet rfl)
  · split
    · exact C.trans h3 (C.quiet rfl)
    · exact h3

theorem setBlocksize_moves {bdev size : Nat} :
    R s (setBlocksize env callback fuel bdev size s).2 := by
  have h1 := flushDirty_moves C.io fuel s
  have h2 : R s (changeBlocksize env callback fuel bdev size s).2 := by
    unfold changeBlocksize
    generalize flushDirtyBuffers env callback fuel s=r at h1 ⊢
    dsimp only
    split
    · exact h1
    · have hbits : R r.2 { r.2 with
          blockBits := Function.update r.2.blockBits bdev (some (Nat.log2 size)) } := C.quiet rfl
      exact C.trans h1 (C.trans hbits (invalidateBdev_moves C))
  unfold setBlocksize
  split
  · exact C.refl s
  split
  · exact C.refl s
  · split
    · exact C.refl s
    · exact h2

omit C in
@[simp] theorem copyFromIter_trace {address bytes iter : Nat} :
    (copyFromIter address bytes iter s).2.trace=s.trace := by
  simp only [copyFromIter]
  split <;> rfl

omit C in
@[simp] theorem copyToIter_trace {address bytes iter : Nat} :
    (copyToIter address bytes iter s).2.trace=s.trace := by
  simp only [copyToIter]
  split <;> rfl

theorem dioBio_moves {bdev opf page chunk sector : Nat} :
    Moves R (dioBio env bdev opf page chunk sector) := by
  apply C.bind (C.silent fun s => (bioAllocBioset_same s).trace)
  intro bio
  apply Moves.ite
  · intro _
    exact pure C.refl 0
  intro _
  apply C.bind (C.silent fun s => (bioAddPage_same s).trace)
  intro added
  apply Moves.ite
  · intro _
    exact C.silent fun s => bioPut_trace
  · intro _
    exact C.silent fun s => rfl

theorem dioSubmit_moves {bio : Nat} : R s (dioSubmit env callback fuel bio s) := by
  have h1 := submitBio_moves C.io.toDrainClosed fuel bio s
  unfold dioSubmit
  dsimp only
  split
  · exact C.trans h1 (bioDrain_moves C.io.toDrainClosed fuel _)
  · exact h1

variable {m : DioMap}

theorem dioUndo_moves {page chunk : Nat} : R s (dioUndo env m page chunk s) := by
  apply C.quiet
  unfold dioUndo
  split <;> rfl

theorem dioFinish_moves {page payload chunk bio : Nat} :
    Moves R (dioFinish env m page payload chunk bio) := by
  intro s
  unfold dioFinish
  split
  · exact C.trans (C.quiet (bioPut_trace)) (dioUndo_moves C)
  apply C.quiet
  rw [freePages_trace,bioPut_trace]
  split
  · rfl
  · exact copyToIter_trace

theorem dioRun_moves {moved chunk page payload : Nat} :
    Moves R (dioRun env callback fuel m moved chunk page payload) := by
  apply C.bind (dioBio_moves C)
  intro bio
  apply Moves.ite
  · intro _
    exact C.bind (modify fun s => dioUndo_moves C)
      fun _ => fail C.refl _
  · intro _
    apply C.bind (modify fun s => dioSubmit_moves C)
    intro _
    exact dioFinish_moves C

theorem dioChunk_moves (fuel : Nat) (m : DioMap) (moved chunk : Nat) :
    Moves R (dioChunk env callback fuel m moved chunk) := by
  have hdrop : ∀ (page : Nat) (e : Int),Moves R (do
      Prog.modify (freePages env page 0)
      fail e : Prog (FsState δ) Int Unit) := fun page e =>
    C.bind (modify fun s => C.quiet rfl)
      fun _ => fail C.refl e
  apply C.bind (C.silent fun s => allocPages_trace)
  intro page
  apply Moves.get_bind
  intro s
  split
  · exact hdrop page _ s
  have hfill : R s (dioFill m (payloadOf env s page pageSize) chunk s).2 := by
    apply C.quiet
    unfold dioFill
    split
    · exact copyFromIter_trace
    · rfl
  refine C.trans hfill ?_
  exact Moves.ite (fun _ => hdrop page _) (fun _ => dioRun_moves C) _

theorem dioLoop_moves (n moved : Nat) (s : FsState δ) :
    R s (dioLoop env callback fuel m n moved s).2 := by
  induction n generalizing moved s with
  | zero => exact C.refl s
  | succ n ih =>
    have h1 := dioChunk_moves C fuel m moved (min (m.length-moved) pageSize) s
    unfold dioLoop
    dsimp only
    split
    · exact C.refl s
    split
    · exact C.refl s
    rcases hc : dioChunk env callback fuel m moved (min (m.length-moved) pageSize) s with ⟨r,t⟩
    rw [hc] at h1
    cases r with
    | error e => exact h1
    | ok _ => exact C.trans h1 (ih _ _)

theorem kbFsIomapDioTransfer_moves {address mapOffset bdev position length iter : Nat}
    {write fua : Bool} :
    R s (kbFsIomapDioTransfer env callback fuel address mapOffset bdev position length iter write
      fua s).2 := by
  unfold kbFsIomapDioTransfer
  split
  · exact C.refl s
  dsimp only
  split
  · exact C.refl s
  · split
    · exact C.refl s
    · exact dioLoop_moves C _ _ s

theorem exec_moves {c : Cmd} : R s (exec env callback fuel s c) := by
  cases c with
  | store address bytes => exact C.quiet rfl
  | setBio bio fields => exact C.quiet rfl
  | setHead head fields => exact C.quiet rfl
  | setIter iter fields => exact C.quiet rfl
  | setMountDevice device => exact C.quiet rfl
  | bindBdev bdev => exact C.quiet rfl
  | allocPages order => exact C.quiet (allocPages_trace)
  | freePages page order => exact C.quiet rfl
  | bioAlloc bdev nrVecs opf => exact C.quiet ((bioAllocBioset_same s).trace)
  | bioAddPage bio page len offset => exact C.quiet ((bioAddPage_same s).trace)
  | submitBio bio => exact submitBio_moves C.io.toDrainClosed fuel bio s
  | bioEndio bio =>
    simp only [exec]
    split
    · exact bioCallEndIo_moves C.io.toDrainClosed bio s
    · exact C.refl s
  | bioPut bio => exact C.quiet (bioPut_trace)
  | startPlug =>
    apply C.quiet
    simp only [exec,kbFsSubsystemBlkStartPlug]
    split <;> rfl
  | finishPlug => exact blkFinishPlug_moves C.io.toDrainClosed fuel s
  | setAutoDrain enabled => exact C.quiet rfl
  | drain => exact bioDrain_moves C.io.toDrainClosed fuel s
  | submitBh opf head => exact submitBh_moves C.io fuel opf head s
  | bhRead head opFlags wait => exact bhRead_moves C.io fuel head opFlags wait s
  | lockBuffer head => exact lockBufferLoop_moves C.io fuel head (fuel+1) s
  | unlockBuffer head => exact C.quiet rfl
  | waitOnBuffer head => exact waitOnBufferLoop_moves C.io fuel head (fuel+1) s
  | writeDirtyBuffer head opFlags => exact writeDirty_moves C.io fuel head opFlags s
  | syncDirtyBuffer head => exact syncDirtyBuffer_moves C.io fuel
  | markBufferDirty head => exact markBufferDirty_moves C
  | bufferHeadPut head => exact C.quiet rfl
  | bforget head =>
    exact C.trans (C.note s (.forgot head) id) (C.quiet (bforget_trace))
  | flushDirtyBuffers => exact flushDirty_moves C.io fuel s
  | findGetBlock bdev blockNumber blockSize => exact C.quiet (findGetBlock_trace _ _ _)
  | bdevGetblk bdev blockNumber blockSize => exact bdevGetblk_moves C _ _ _ s
  | bread bdev blockNumber blockSize => exact breadGfp_moves C bdev blockNumber blockSize
  | invalidateBdev bdev => exact invalidateBdev_moves C
  | setBlocksize bdev size => exact setBlocksize_moves C
  | read d offset buffer size => exact C.read d offset buffer size s
  | readBatch d requests => exact C.readBatch d requests s
  | write d offset buffer size => exact C.write d offset buffer size s
  | writeBatch d requests => exact C.writeBatch d requests s
  | issueFlush bdev => exact C.flush bdev s
  | issueZeroout bdev sector sectorCount noFallback =>
    exact C.zeroout bdev sector sectorCount noFallback s
  | dioTransfer address mapOffset bdev position length iter write fua =>
    exact kbFsIomapDioTransfer_moves C

theorem runExec_moves (fuel : Nat) (s : FsState δ) {cmds : List Cmd} :
    R s (runAll (exec env callback fuel) s cmds) := by
  induction cmds generalizing s with
  | nil => exact C.refl s
  | cons c cmds ih => exact C.trans (exec_moves C) (ih _)

omit C in
theorem moduleCallback_closed (fuel : Nat) (T : TransferClosed env R) (calls : FsState δ → Call → List Cmd)
    (depth : Nat) : LayerClosed env (moduleCallback env fuel calls depth) R := by
  induction depth with
  | zero => exact { T with callback := fun _ s => T.quiet rfl }
  | succ depth ih => exact { T with callback := fun c s => runExec_moves ih fuel s }

end Kobox.Fs
