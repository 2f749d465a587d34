import Kobox.Fs.BufferHead
import Kobox.Fs.Transfer

namespace Kobox.Fs

open Prog

variable {δ : Type} {env : Env δ} {callback : Call → FsState δ → FsState δ}
  {R : FsState δ → FsState δ → Prop}

/-- Nothing about buffers has changed, and nothing was observed. -/
structure SameBuffers (s t : FsState δ) : Prop where
  heads : t.heads=s.heads
  headLive : t.headLive=s.headLive
  cache : t.cache=s.cache
  dirtyCount : t.dirtyCount=s.dirtyCount
  evictCursor : t.evictCursor=s.evictCursor
  pages : t.pages=s.pages
  trace : t.trace=s.trace

theorem SameBuffers.refl (s : FsState δ) : SameBuffers s s := ⟨rfl,rfl,rfl,rfl,rfl,rfl,rfl⟩

theorem SameBuffers.trans (a b c : FsState δ) (h : SameBuffers a b) (k : SameBuffers b c) :
    SameBuffers a c :=
  ⟨k.heads.trans h.heads,k.headLive.trans h.headLive,k.cache.trans h.cache,
    k.dirtyCount.trans h.dirtyCount,k.evictCursor.trans h.evictCursor,k.pages.trans h.pages,
    k.trace.trans h.trace⟩

theorem onBio_same (bio : Nat) (f : BioRecord → BioRecord) (s : FsState δ) :
    SameBuffers s (s.onBio bio f) := ⟨rfl,rfl,rfl,rfl,rfl,rfl,rfl⟩

theorem bioQueuePush_same (bio : Nat) (s : FsState δ) : SameBuffers s (bioQueuePush bio s) := by
  unfold bioQueuePush
  split <;> exact ⟨rfl,rfl,rfl,rfl,rfl,rfl,rfl⟩

variable {s : FsState δ}

theorem bioQueueRemove_same {bio : Nat} : SameBuffers s (bioQueueRemove bio s) := by
  simp only [bioQueueRemove]
  split
  · exact SameBuffers.refl s
  · split <;> exact ⟨rfl,rfl,rfl,rfl,rfl,rfl,rfl⟩

theorem bioQueuePops_same (n : Nat) (s : FsState δ) : SameBuffers s (bioQueuePops n s) := by
  induction n generalizing s with
  | zero => exact SameBuffers.refl s
  | succ n ih =>
    have hpop : SameBuffers s (bioQueuePop s) := by
      unfold bioQueuePop
      split <;> exact ⟨rfl,rfl,rfl,rfl,rfl,rfl,rfl⟩
    exact SameBuffers.trans _ _ _ hpop (ih (bioQueuePop s))

theorem bioPut_same {bio : Nat} {s : FsState δ} : SameBuffers s (bioPut bio s) := by
  unfold bioPut
  split
  · exact SameBuffers.refl s
  · exact SameBuffers.trans _ _ _ (bioQueueRemove_same) (onBio_same _ _ _)

theorem bioAllocBioset_same {bdev nrVecs opf : Nat} :
    Moves SameBuffers (bioAllocBioset env bdev nrVecs opf) := by
  intro s
  unfold bioAllocBioset
  split
  · exact SameBuffers.refl s
  · split <;> exact ⟨rfl,rfl,rfl,rfl,rfl,rfl,rfl⟩

theorem bioAddPage_same {bio page len offset : Nat} :
    Moves SameBuffers (bioAddPage env bio page len offset) := by
  intro s
  unfold bioAddPage
  split
  · exact SameBuffers.refl s
  · exact ⟨rfl,rfl,rfl,rfl,rfl,rfl,rfl⟩

theorem bufferHeadBio_same {opf head : Nat} : Moves SameBuffers (bufferHeadBio env opf head) := by
  have hput : ∀ bio,Moves SameBuffers (do
      Prog.modify (bioPut bio)
      return 0 : Prog (FsState δ) Int Nat) := fun bio s => bioPut_same
  intro s
  refine Moves.bind SameBuffers.trans (bioAllocBioset_same) ?_ s
  intro bio
  apply Moves.ite
  · intro _
    exact Moves.pure SameBuffers.refl 0
  intro _
  cases bioPageOf env s (s.heads head) with
  | none => exact hput bio
  | some p =>
    apply Moves.ite
    · intro _
      exact hput bio
    intro _
    apply Moves.bind SameBuffers.trans (bioAddPage_same)
    intro added
    apply Moves.ite
    · intro _
      exact hput bio
    · intro _ t
      exact ⟨rfl,rfl,rfl,rfl,rfl,rfl,rfl⟩

@[simp] theorem onHead_trace (s : FsState δ) {head : Nat} (f : BufferHead → BufferHead) :
    (s.onHead head f).trace=s.trace := rfl

@[simp] theorem bioPut_trace {bio : Nat} {s : FsState δ} : (bioPut bio s).trace=s.trace :=
  (bioPut_same).trace

@[simp] theorem setDirty_trace (slot : Option Nat) (dirty : Bool) (s : FsState δ) :
    (bufferCacheSetDirty slot dirty s).trace=s.trace := by
  rw [setDirty_eq]

@[simp] theorem setDirty_heads (slot : Option Nat) (dirty : Bool) (s : FsState δ) :
    (bufferCacheSetDirty slot dirty s).heads=s.heads := by
  rw [setDirty_eq]

/-- A relation a drain stays in: transfers, the end of a buffer's I/O, what leaves buffers alone. -/
structure DrainClosed (env : Env δ) (callback : Call → FsState δ → FsState δ)
    (R : FsState δ → FsState δ → Prop) : Prop where
  trans : ∀ {a b c},R a b → R b c → R a c
  quiet : ∀ {s t},SameBuffers s t → R s t
  submit : ∀ s bio,R s (s.note (.submit bio))
  done : ∀ s bio result,R s (s.note (.done bio result))
  submitNow : ∀ bio,Prog.Moves R (bioSubmitNow env bio)
  readBatch : ∀ d requests,Prog.Moves R (kbFsBlockDeviceReadBatch env d requests)
  writeBatch : ∀ d requests,Prog.Moves R (kbFsBlockDeviceWriteBatch env d requests)
  readEnd : ∀ s head success,R s (endBufferReadSync head success s)
  writeEnd : ∀ s head success,R s (endBufferWriteSync head success s)
  callback : ∀ c s,R s (callback c s)

/-- The start of the I/O of a buffer and its lock stay in it too. -/
structure IoClosed (env : Env δ) (callback : Call → FsState δ → FsState δ)
    (R : FsState δ → FsState δ → Prop) : Prop extends DrainClosed env callback R where
  start : ∀ s opf head,R s (startBh opf head s)
  lock : ∀ s head locked,R s (setLock head locked s)
  readHold : ∀ s head,R s (s.onHead head fun h => { h with
    refcount := h.refcount+1,endIo := .readSync })
  writeHold : ∀ s head,R s (s.onHead head fun h => { h with
    flags := { h.flags with dirty := false }
    refcount := h.refcount+1
    endIo := .writeSync })

section

variable (C : DrainClosed env callback R)

include C

theorem DrainClosed.refl (s : FsState δ) : R s s := C.quiet (SameBuffers.refl s)

theorem DrainClosed.foldl {α : Type} {f : FsState δ → α → FsState δ} (hf : ∀ s a,R s (f s a))
    (as : List α) (s : FsState δ) : R s (as.foldl f s) := by
  induction as generalizing s with
  | nil => exact C.refl s
  | cons a as ih => exact C.trans (hf s a) (ih (f s a))

theorem headComplete_moves (head : Nat) (success : Bool) (s : FsState δ) :
    R s (bufferHeadComplete callback head success s) := by
  apply headComplete_rule
  · exact C.readEnd s head success
  · exact fun _ => C.writeEnd s head success
  · exact fun _ => C.callback _ s

theorem bioCallEndIo_moves (bio : Nat) (s : FsState δ) : R s (bioCallEndIo callback bio s) := by
  have h1 := C.quiet (onBio_same bio (fun r => { r with completed := true }) s)
  apply bioCallEndIo_rule rfl (C.refl s) h1
  · exact fun _ success => C.trans h1 (headComplete_moves C _ success _)
  · exact fun u hu => C.trans hu (C.quiet (bioPut_same))
  · exact fun _ => C.trans h1 (C.callback _ _)

theorem bioFinishRecord_moves (bio : Nat) (status : Int) (s : FsState δ) :
    R s (bioFinishRecord callback bio status s) := by
  have h1 := C.quiet (onBio_same bio (fun r => { r with
    result := status
    bio := { r.bio with status := if status=0 then 0 else 1 } }) s)
  exact C.trans h1 (C.trans (C.done _ bio status) (bioCallEndIo_moves C bio _))

theorem drainBatch_moves {n : Nat} {x : Prog (FsState δ) Int Unit} (hx : Moves R x) :
    R s (drainBatch callback n x s) := by
  have h1 := C.quiet (bioQueuePops_same n s)
  have h2 := C.trans h1 (hx (bioQueuePops n s))
  refine C.trans (C.trans h2 (C.quiet ?_))
    (C.foldl (fun t bio => bioFinishRecord_moves C bio _ t) _ _)
  exact ⟨rfl,rfl,rfl,rfl,rfl,rfl,rfl⟩

theorem drainOnce_moves {bio : Nat} {rest : List Nat} (hq : s.queue=bio::rest) :
    R s (drainOnce env callback bio s).2 := by
  obtain ⟨n,x,hx⟩ := drainOnce_spec env hq
  rw [hx.turn callback]
  cases hx.first hq with
  | single => exact drainBatch_moves C (C.submitNow bio)
  | reads _ _ => exact drainBatch_moves C (C.readBatch _ _)
  | writes _ _ => exact drainBatch_moves C (C.writeBatch _ _)

theorem drainLoop_moves {fuel : Nat} (s : FsState δ) : R s (drainLoop env callback fuel s).2 := by
  induction fuel generalizing s with
  | zero =>
    simp only [drainLoop]
    split
    · exact C.refl s
    · exact C.quiet ⟨rfl,rfl,rfl,rfl,rfl,rfl,rfl⟩
  | succ fuel ih =>
    unfold drainLoop
    split
    · exact C.refl s
    · next hq => exact C.trans (drainOnce_moves C hq) (ih _)

variable (fuel : Nat)

theorem bioDrain_moves (s : FsState δ) : R s (kbFsSubsystemBioDrain env callback fuel s).2 :=
  C.trans (C.quiet (t := { s with lastDrainStatus := 0 }) ⟨rfl,rfl,rfl,rfl,rfl,rfl,rfl⟩)
    (drainLoop_moves C _)

theorem submitBio_moves (bio : Nat) (s : FsState δ) :
    R s (kbFsSubsystemSubmitBio env callback fuel bio s) := by
  have h1 := C.quiet (onBio_same bio (fun r => { r with
    submitted := r.submitted+1,result := einprogress }) s)
  have h2 := C.trans h1 (C.submit _ bio)
  have h3 := C.trans h2 (C.quiet (bioQueuePush_same bio _))
  simp only [kbFsSubsystemSubmitBio]
  split
  · exact C.refl s
  · split
    · exact C.trans h3 (bioDrain_moves C fuel _)
    · exact h3

theorem blkFinishPlug_moves (s : FsState δ) :
    R s (kbFsSubsystemBlkFinishPlug env callback fuel s) := by
  have h1 : R s { s with plugDepth := s.plugDepth-1 } := C.quiet ⟨rfl,rfl,rfl,rfl,rfl,rfl,rfl⟩
  simp only [kbFsSubsystemBlkFinishPlug]
  split
  · exact C.refl s
  · split
    · exact C.trans h1 (bioDrain_moves C fuel _)
    · exact h1

end

variable (C : IoClosed env callback R) (fuel : Nat)

include C

theorem issueBh_moves {opf head : Nat} : R s (issueBh env callback fuel opf head s) := by
  have h1 : R s (bufferHeadBio env opf head s).2 := C.quiet (bufferHeadBio_same s)
  unfold issueBh
  split
  · rcases hb : bufferHeadBio env opf head s with ⟨r,t⟩
    rw [hb] at h1
    cases r with
    | error e => exact C.trans h1 (headComplete_moves C.toDrainClosed head false _)
    | ok bio =>
      dsimp only
      split
      · exact C.trans h1 (headComplete_moves C.toDrainClosed head false _)
      · exact C.trans h1 (submitBio_moves C.toDrainClosed fuel _ _)
  · exact headComplete_moves C.toDrainClosed head false _

theorem submitBh_moves (opf head : Nat) (s : FsState δ) :
    R s (submitBh env callback fuel opf head s) :=
  C.trans (C.start s opf head) (issueBh_moves C fuel)

theorem waitTurn_moves : R s (waitTurn env callback fuel s) :=
  C.trans (bioDrain_moves C.toDrainClosed fuel s) (C.callback _ _)

theorem lockBufferLoop_moves (head n : Nat) (s : FsState δ) :
    R s (lockBufferLoop env callback fuel head n s) := by
  induction n generalizing s with
  | zero => exact C.quiet ⟨rfl,rfl,rfl,rfl,rfl,rfl,rfl⟩
  | succ n ih =>
    unfold lockBufferLoop
    split
    · exact C.trans (waitTurn_moves C fuel) (ih _)
    · exact C.lock s head true

theorem waitOnBufferLoop_moves (head n : Nat) (s : FsState δ) :
    R s (waitOnBufferLoop env callback fuel head n s) := by
  induction n generalizing s with
  | zero => exact C.quiet ⟨rfl,rfl,rfl,rfl,rfl,rfl,rfl⟩
  | succ n ih =>
    unfold waitOnBufferLoop
    split
    · exact C.trans (waitTurn_moves C fuel) (ih _)
    · exact C.refl s

theorem bhRead_moves (head opFlags : Nat) (wait : Bool) (s : FsState δ) :
    R s (bhRead env callback fuel head opFlags wait s).2 := by
  have h2 := C.trans (C.readHold s head) (submitBh_moves C fuel (opRead|||opFlags) head _)
  simp only [bhRead]
  split
  · exact C.refl s
  split
  · exact C.refl s
  · split
    · exact h2
    · exact C.trans h2 (waitOnBufferLoop_moves C fuel head (fuel+1) _)

theorem writeLocked_moves {opFlags head : Nat} :
    R s (writeLocked env callback fuel opFlags head s) :=
  C.trans (C.writeHold s head) (submitBh_moves C fuel _ head _)

theorem writeDirty_moves (head opFlags : Nat) (s : FsState δ) :
    R s (writeDirtyBuffer env callback fuel head opFlags s) := by
  apply C.trans (lockBufferLoop_moves C fuel head (fuel+1) s)
  unfold writeDirtyBuffer writeIfDirty
  split
  · exact C.lock _ head false
  · exact writeLocked_moves C fuel

theorem syncDirtyBuffer_moves {head : Nat} {s : FsState δ} :
    R s (syncDirtyBuffer env callback fuel head s).2 := by
  apply C.trans (lockBufferLoop_moves C fuel head (fuel+1) s)
  unfold syncDirtyBuffer syncLocked
  split
  · exact C.lock _ head false
  split
  · exact C.lock _ head false
  · split
    · exact C.lock _ head false
    · exact C.trans (writeLocked_moves C fuel)
        (waitOnBufferLoop_moves C fuel head (fuel+1) _)

theorem flushSlot_moves {acc : FsState δ × List Nat × Int} {i : Nat} :
    R acc.1 (flushSlot env callback fuel acc i).1 := by
  have h := writeDirty_moves C fuel (acc.1.cache i).bufferHead 0 acc.1
  unfold flushSlot
  dsimp only
  split
  · exact C.refl _
  · split
    · exact h
    · split <;> exact h

theorem flushScan_moves (slots : List Nat) (s : FsState δ) :
    R s (flushScan env callback fuel slots s).1 := by
  have h : ∀ acc : FsState δ × List Nat × Int,
      R acc.1 (slots.foldl (flushSlot env callback fuel) acc).1 := by
    induction slots with
    | nil => exact fun acc => C.refl _
    | cons i slots ih => exact fun acc => C.trans (flushSlot_moves C fuel) (ih _)
  exact h (s,[],0)

theorem flushWait_moves {heads : List Nat} {error : Int} :
    R s (flushWait env callback fuel heads s error).2 := by
  have h : ∀ acc : Int × FsState δ,
      R acc.2 (heads.foldl (flushWaitOne env callback fuel) acc).2 := by
    induction heads with
    | nil => exact fun acc => C.refl _
    | cons head heads ih =>
      intro acc
      have hw := waitOnBufferLoop_moves C fuel head (fuel+1) acc.2
      have hone : R acc.2 (flushWaitOne env callback fuel acc head).2 := by
        unfold flushWaitOne
        dsimp only
        split <;> exact hw
      exact C.trans hone (ih _)
  exact h (error,s)

theorem flushDirty_moves (s : FsState δ) : R s (flushDirtyBuffers env callback fuel s).2 := by
  have h1 : R s { s with autoDrain := false } := C.quiet ⟨rfl,rfl,rfl,rfl,rfl,rfl,rfl⟩
  have h2 := C.trans h1 (flushScan_moves C fuel (List.range bufferCacheMax) _)
  have h3 := C.trans h2 (bioDrain_moves C.toDrainClosed fuel _)
  refine C.trans (C.trans h3 (C.quiet ?_)) (flushWait_moves C fuel)
  exact ⟨rfl,rfl,rfl,rfl,rfl,rfl,rfl⟩

end Kobox.Fs
