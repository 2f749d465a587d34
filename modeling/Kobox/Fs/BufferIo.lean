import Kobox.Framework.Scan
import Kobox.Fs.IoMoves

namespace Kobox.Fs

open List Function
open FsState (note onBio)

/-- The end of I/O is handled by the layer itself. -/
def HeadEndIo.Sync : HeadEndIo → Prop
  | .module _ => False
  | _ => True

variable {δ : Type} (env : Env δ) (callback : Call → FsState δ → FsState δ)
  {base : Nat → Nat} {todo busy : List Nat} {s : FsState δ}

def FsState.bioHead (s : FsState δ) (bio : Nat) : Nat := (s.bios bio).bio.privateData

structure Ready (s : FsState δ) (bio : Nat) : Prop where
  magic : (s.bios bio).magic=true
  waiting : (s.bios bio).completed=false
  endIo : (s.bios bio).bio.endIo=.bufferHead
  known : bio ≤ s.nextBio
  sync : (s.heads (s.bioHead bio)).endIo.Sync

/-- Bios in `todo` are not finished, buffers in `busy` have no bio yet. Exactly those buffers are
locked, once, with one reference more than `base` says. -/
structure InFlight (base : Nat → Nat) (todo busy : List Nat) (s : FsState δ) : Prop where
  ready : ∀ b∈todo,Ready s b
  sync : ∀ h∈busy,(s.heads h).endIo.Sync
  heads : (todo.map s.bioHead++busy).Nodup
  queue : s.queue.Nodup
  queued : ∀ b∈todo,(s.bios b).queued=true ↔ b∈s.queue
  inQueue : ∀ b∈s.queue,b∈todo
  lock : ∀ h,(s.heads h).flags.lock=true ↔ h∈todo.map s.bioHead++busy
  refs : ∀ h,(s.heads h).refcount=base h+if h∈todo.map s.bioHead++busy then 1 else 0

abbrev Idle (base : Nat → Nat) (s : FsState δ) : Prop := InFlight base [] [] s

/-- What a step may not do to the records of the bios in flight. -/
structure BiosKept (todo : List Nat) (s t : FsState δ) : Prop where
  magic : ∀ b∈todo,(t.bios b).magic=(s.bios b).magic
  completed : ∀ b∈todo,(t.bios b).completed=(s.bios b).completed
  endIo : ∀ b∈todo,(t.bios b).bio.endIo=(s.bios b).bio.endIo
  head : ∀ b∈todo,t.bioHead b=s.bioHead b
  next : s.nextBio≤t.nextBio

variable {t : FsState δ}

theorem BiosKept.of_records (h : ∀ b∈todo,∃ queued status,t.bios b={ s.bios b with
      queued := queued,bio := { (s.bios b).bio with status := status } })
    (hn : s.nextBio≤t.nextBio) : BiosKept todo s t := by
  refine ⟨?_,?_,?_,?_,hn⟩ <;>
  · intro b hb
    obtain ⟨_,_,he⟩ := h b hb
    simp [FsState.bioHead,he]

/-- The buffers that are locked for I/O, each with one reference for it. -/
structure Held (base : Nat → Nat) (held : List Nat) (heads : Nat → BufferHead) : Prop where
  sync : ∀ k∈held,(heads k).endIo.Sync
  nodup : held.Nodup
  lock : ∀ k,(heads k).flags.lock=true ↔ k∈held
  refs : ∀ k,(heads k).refcount=base k+if k∈held then 1 else 0

section

variable {heads : Nat → BufferHead} {l : List Nat} {head : Nat} {b : BufferHead}

theorem Held.take (h : Held base (l++busy) heads) (hfree : (heads head).flags.lock=false)
    (hl : b.flags.lock=true) (hr : b.refcount=(heads head).refcount+1) (he : b.endIo.Sync) :
    Held base (l++head::busy) (update heads head b) := by
  have hnot : head∉l++busy := by
    rw [← h.lock head,hfree]
    simp
  have hmem : ∀ k,k∈l++head::busy ↔ k=head ∨ k∈l++busy := fun k => perm_middle.mem_iff.trans mem_cons
  refine ⟨?_,nodup_middle.mpr (nodup_cons.mpr ⟨hnot,h.nodup⟩),?_,?_⟩ <;> intro k
  all_goals
    by_cases hk : k=head
  · simpa [hk] using he
  · simpa [hk] using h.sync k
  · simp [hk,hl]
  · simpa [hk] using h.lock k
  · simpa [hk,hr,hnot] using h.refs head
  · simpa [hk] using h.refs k

theorem Held.drop (h : Held base (l++head::busy) heads) (hl : b.flags.lock=false)
    (hr : b.refcount=(heads head).refcount-1) : Held base (l++busy) (update heads head b) := by
  obtain ⟨hnot,hnodup⟩ := nodup_cons.mp (nodup_middle.mp h.nodup)
  have hmem : ∀ k,k∈l++head::busy ↔ k=head ∨ k∈l++busy := fun k => perm_middle.mem_iff.trans mem_cons
  refine ⟨?_,hnodup,?_,?_⟩ <;> intro k
  all_goals by_cases hk : k=head
  · exact fun hin => absurd (hk ▸ hin) hnot
  · simpa [hk] using fun hin => h.sync k ((hmem k).mpr (.inr hin))
  · simpa [hk,hl] using hnot
  · simpa [hk,hmem] using h.lock k
  · have href := h.refs head
    rw [if_pos ((hmem head).mpr (.inl rfl))] at href
    simpa [hk,hr,hnot] using by omega
  · simpa [hk,hmem] using h.refs k

end

section

variable (h : InFlight base todo busy s)

include h

theorem InFlight.held : Held base (todo.map s.bioHead++busy) s.heads := by
  refine ⟨?_,h.heads,h.lock,h.refs⟩
  intro k hk
  rcases mem_append.mp hk with hin|hin
  · obtain ⟨b,hb,rfl⟩ := mem_map.mp hin
    exact (h.ready b hb).sync
  · exact h.sync k hin

theorem InFlight.change {rest calls : List Nat} (hsub : ∀ b∈rest,b∈todo) (hk : BiosKept rest s t)
    (hh : Held base (rest.map s.bioHead++calls) t.heads) (hq : t.queue.Nodup)
    (hqueued : ∀ b∈rest,(t.bios b).queued=true ↔ b∈t.queue) (hin : ∀ b∈t.queue,b∈rest) :
    InFlight base rest calls t := by
  rw [← map_congr_left hk.head] at hh
  refine ⟨?_,fun k hk => hh.sync k (mem_append_right _ hk),hh.nodup,hq,hqueued,hin,hh.lock,hh.refs⟩
  intro b hb
  have hr := h.ready b (hsub b hb)
  exact ⟨(hk.magic b hb).trans hr.magic,(hk.completed b hb).trans hr.waiting,
    (hk.endIo b hb).trans hr.endIo,hr.known.trans hk.next,
    hh.sync _ (mem_append_left _ (mem_map_of_mem hb))⟩

theorem InFlight.kept (hk : BiosKept todo s t) (hh : t.heads=s.heads) (hq : t.queue.Nodup)
    (hqueued : ∀ b∈todo,(t.bios b).queued=true ↔ b∈t.queue) (hin : ∀ b∈t.queue,b∈todo) :
    InFlight base todo busy t :=
  h.change (fun _ hb => hb) hk (hh ▸ h.held) hq hqueued hin

theorem InFlight.same (hb : ∀ b∈todo,t.bios b=s.bios b) (hn : s.nextBio≤t.nextBio)
    (hh : t.heads=s.heads) (hq : t.queue=s.queue) : InFlight base todo busy t := by
  refine h.kept (.of_records (fun b hin => ⟨_,_,hb b hin⟩) hn) hh (hq ▸ h.queue) ?_ (hq ▸ h.inQueue)
  intro b hin
  rw [hb b hin,hq]
  exact h.queued b hin

theorem InFlight.transferred (ht : Transferred s t) : InFlight base todo busy t := by
  have hq : t.queue=s.queue := by rw [ht.rest]
  have hk : BiosKept todo s t := .of_records (fun b _ => ⟨_,ht.bios b⟩) (by rw [ht.rest])
  apply h.kept hk (by rw [ht.rest]) (hq ▸ h.queue)
  · intro b hb
    obtain ⟨_,hbio⟩ := ht.bios b
    rw [hbio,hq]
    exact h.queued b hb
  · rw [hq]
    exact h.inQueue

theorem InFlight.status (status : Int) :
    InFlight base todo busy { s with lastDrainStatus := status } :=
  h.same (fun _ _ => rfl) le_rfl rfl rfl

theorem InFlight.pop : InFlight base todo busy (bioQueuePop s) := by
  unfold bioQueuePop
  split
  · exact h
  next b rest hq =>
  have hnodup := h.queue
  rw [hq,nodup_cons] at hnodup
  refine h.kept (.of_records (fun c _ => ?_) le_rfl) rfl hnodup.2 ?_ ?_
  · by_cases he : c=b
    · exact ⟨false,(s.bios c).bio.status,by simp [he,onBio]⟩
    · exact ⟨(s.bios c).queued,(s.bios c).bio.status,by simp [onBio,he]⟩
  · intro c hc
    by_cases he : c=b
    · subst he
      simpa [onBio] using hnodup.1
    · have := h.queued c hc
      rw [hq] at this
      simpa [onBio,he] using this
  · intro c hc
    exact h.inQueue c (by rw [hq]; exact mem_cons_of_mem _ hc)

theorem InFlight.pops (n : Nat) :
    InFlight base todo busy (bioQueuePops n s) ∧ (bioQueuePops n s).queue=s.queue.drop n := by
  induction n generalizing s with
  | zero => exact ⟨h,rfl⟩
  | succ n ih =>
    obtain ⟨h1,h2⟩ := ih h.pop
    refine ⟨h1,h2.trans ?_⟩
    unfold bioQueuePop
    cases hq : s.queue with
    | nil => simp [hq]
    | cons b rest => simp

end

def completeSync (head : Nat) (success : Bool) (s : FsState δ) : FsState δ :=
  match (s.heads head).endIo with
  | .writeSync => endBufferWriteSync head success s
  | _ => endBufferReadSync head success s

variable {head : Nat} (success : Bool)

theorem headComplete_sync (h : (s.heads head).endIo.Sync) :
    bufferHeadComplete callback head success s=completeSync head success s := by
  unfold bufferHeadComplete completeSync
  cases he : (s.heads head).endIo with
  | none => rfl
  | readSync => rfl
  | writeSync => rfl
  | module c =>
    rw [he] at h
    cases h

def markDone (bio : Nat) (status : Int) (s : FsState δ) : FsState δ :=
  ((s.onBio bio fun r => { r with
    result := status
    bio := { r.bio with status := if status=0 then 0 else 1 } }).note (.done bio status)).onBio bio
      fun r => { r with completed := true }

variable {bio : Nat}

theorem bioFinishRecord_ready (h : Ready s bio) (status : Int) :
    bioFinishRecord callback bio status s=
      bioPut bio (completeSync (s.bioHead bio) (status=0) (markDone bio status s)) := by
  have hsync : ((markDone bio status s).heads (s.bioHead bio)).endIo.Sync := h.sync
  rw [← headComplete_sync callback _ hsync]
  simp only [bioFinishRecord,bioCallEndIo,bufferHeadBioEndIo,markDone,FsState.bioHead]
  have h1 := h.waiting
  have h2 := h.magic
  have h3 := h.endIo
  simp [onBio,note,h1,h2,h3]

def endSync (success : Bool) (h : BufferHead) : BufferHead :=
  match h.endIo with
  | .writeSync => { h with
      flags := { h.flags with
        uptodate := success
        dirty := if success then false else h.flags.dirty
        writeEio := !success
        lock := false
        req := false }
      refcount := h.refcount-1 }
  | _ => { h with
      flags := { h.flags with uptodate := success,lock := false,req := false }
      refcount := h.refcount-1 }

@[simp] theorem endSync_lock (h : BufferHead) : (endSync success h).flags.lock=false := by
  unfold endSync
  split <;> rfl

@[simp] theorem endSync_refcount {h : BufferHead} : (endSync success h).refcount=h.refcount-1 := by
  unfold endSync
  split <;> rfl

def CacheOnly (s t : FsState δ) : Prop :=
  t={ s with heads := t.heads,cache := t.cache,dirtyCount := t.dirtyCount,trace := t.trace }

theorem CacheOnly.bios (h : CacheOnly s t) : t.bios=s.bios := by
  rw [h]

theorem CacheOnly.queue (h : CacheOnly s t) : t.queue=s.queue := by
  rw [h]

theorem CacheOnly.nextBio (h : CacheOnly s t) : t.nextBio=s.nextBio := by
  rw [h]

theorem setDirty_only (slot : Option Nat) (dirty : Bool) (s : FsState δ) :
    CacheOnly s (bufferCacheSetDirty slot dirty s) := by
  rw [setDirty_eq]
  rfl

theorem CacheOnly.trans {a b c : FsState δ} (h : CacheOnly a b) (k : CacheOnly b c) :
    CacheOnly a c := by
  unfold CacheOnly at h k ⊢
  rw [k,h]

theorem completeSync_only (head : Nat) (success : Bool) (s : FsState δ) :
    CacheOnly s (completeSync head success s) := by
  unfold completeSync
  split
  · unfold endBufferWriteSync
    extract_lets t u
    have h1 : CacheOnly s t := rfl
    have h2 : CacheOnly t u := by
      have hu : u=if success then bufferCacheSetDirty (bufferCacheRecordForHead t head) false t
        else t := rfl
      rw [hu]
      generalize bufferCacheRecordForHead t head=slot
      split
      · exact setDirty_only slot false t
      · rfl
    exact (h1.trans h2).trans rfl
  · rfl

theorem completeSync_heads (head : Nat) (success : Bool) (s : FsState δ) :
    (completeSync head success s).heads=update s.heads head (endSync success (s.heads head)) := by
  unfold completeSync endSync
  cases he : (s.heads head).endIo with
  | writeSync =>
    cases success <;> simp [endBufferWriteSync,FsState.onHead,note,he]
  | none => simp [endBufferReadSync,FsState.onHead,note,he]
  | readSync => simp [endBufferReadSync,FsState.onHead,note,he]
  | module c => simp [endBufferReadSync,FsState.onHead,note,he]

theorem bioPut_unqueued (hm : (s.bios bio).magic=true) (hq : (s.bios bio).queued=false) :
    bioPut bio s=s.onBio bio fun r => { r with magic := false } := by
  simp [bioPut,bioQueueRemove,hm,hq]

theorem InFlight.finish (h : InFlight base (bio::todo) busy s) (hq : bio∉s.queue) (status : Int) :
    InFlight base todo busy (bioFinishRecord callback bio status s) ∧
      (bioFinishRecord callback bio status s).queue=s.queue := by
  have hready := h.ready bio mem_cons_self
  rw [bioFinishRecord_ready callback hready status]
  have honly := completeSync_only (s.bioHead bio) (status=0) (markDone bio status s)
  have hheads := completeSync_heads (s.bioHead bio) (status=0) (markDone bio status s)
  generalize completeSync (s.bioHead bio) (status=0) (markDone bio status s)=u at honly hheads ⊢
  have hbios : u.bios=(markDone bio status s).bios := honly.bios
  have hqueue : u.queue=s.queue := honly.queue
  have hnext : u.nextBio=s.nextBio := honly.nextBio
  have hunq : (s.bios bio).queued=false := by
    rw [← Bool.not_eq_true,h.queued bio mem_cons_self]
    exact hq
  have hmagic : (u.bios bio).magic=true := by
    simp [hbios,markDone,onBio,note,hready.magic]
  have hqueued : (u.bios bio).queued=false := by
    simp [hbios,markDone,onBio,note,hunq]
  rw [bioPut_unqueued hmagic hqueued]
  have hne : ∀ b∈todo,b≠bio := by
    rintro b hb rfl
    exact (nodup_cons.mp h.heads).1 (mem_append_left _ (mem_map_of_mem hb))
  have hother : ∀ b∈todo,((u.onBio bio fun r => { r with magic := false }).bios b)=s.bios b := by
    intro b hb
    simp [onBio,hne b hb,hbios,markDone,note]
  refine ⟨h.change (fun b => mem_cons_of_mem _) (.of_records (fun b hb => ⟨_,_,hother b hb⟩) hnext.ge)
    ?_ (hqueue ▸ h.queue) ?_ ?_,hqueue⟩
  · have hdrop := Held.drop (l := []) h.held (endSync_lock (status=0) _) (endSync_refcount _)
    exact hheads ▸ hdrop
  · intro b hb
    show _ ↔ b∈u.queue
    rw [hother b hb,hqueue]
    exact h.queued b (mem_cons_of_mem _ hb)
  · intro b hb
    have hb' : b∈s.queue := hqueue ▸ hb
    rcases mem_cons.mp (h.inQueue b hb') with h0|h0
    · exact absurd (h0 ▸ hb') hq
    · exact h0

def still (_ : Call) (s : FsState δ) : FsState δ := s

/-- What steers the layer: draining, plugging, the devices, and that no loop was cut off. -/
structure SameSettings (s t : FsState δ) : Prop where
  autoDrain : t.autoDrain=s.autoDrain
  plugDepth : t.plugDepth=s.plugDepth
  hung : t.hung=s.hung
  bindingBdev : t.bindingBdev=s.bindingBdev
  bindingDevice : t.bindingDevice=s.bindingDevice
  mountDevice : t.mountDevice=s.mountDevice
  fileFolio : t.fileFolio=s.fileFolio

open SameSettings

theorem SameSettings.refl (s : FsState δ) : SameSettings s s := ⟨rfl,rfl,rfl,rfl,rfl,rfl,rfl⟩

theorem SameSettings.trans {a b c : FsState δ} (h : SameSettings a b) (k : SameSettings b c) :
    SameSettings a c :=
  ⟨k.autoDrain.trans h.autoDrain,k.plugDepth.trans h.plugDepth,k.hung.trans h.hung,
    k.bindingBdev.trans h.bindingBdev,k.bindingDevice.trans h.bindingDevice,
    k.mountDevice.trans h.mountDevice,k.fileFolio.trans h.fileFolio⟩

theorem SameSettings.device (h : SameSettings s t) (bdev : Nat) :
    blockDeviceForBdev t bdev=blockDeviceForBdev s bdev := by
  simp [blockDeviceForBdev,h.bindingBdev,h.bindingDevice,h.mountDevice]

theorem Transferred.settings (h : Transferred s t) : SameSettings s t := by
  rw [h.rest]
  exact ⟨rfl,rfl,rfl,rfl,rfl,rfl,rfl⟩

theorem CacheOnly.settings (h : CacheOnly s t) : SameSettings s t := by
  rw [h]
  exact ⟨rfl,rfl,rfl,rfl,rfl,rfl,rfl⟩

theorem bioPut_settings {bio : Nat} {s : FsState δ} : SameSettings s (bioPut bio s) := by
  simp only [bioPut,bioQueueRemove]
  split_ifs <;> exact ⟨rfl,rfl,rfl,rfl,rfl,rfl,rfl⟩

theorem bioQueuePops_settings {n : Nat} (s : FsState δ) : SameSettings s (bioQueuePops n s) := by
  induction n generalizing s with
  | zero => exact refl s
  | succ n ih =>
    have hpop : SameSettings s (bioQueuePop s) := by
      unfold bioQueuePop
      split <;> exact ⟨rfl,rfl,rfl,rfl,rfl,rfl,rfl⟩
    exact hpop.trans (ih (bioQueuePop s))

theorem bioFinishRecord_settings (h : Ready s bio) {status : Int} :
    SameSettings s (bioFinishRecord callback bio status s) ∧
      bioFinishRecord callback bio status s=bioFinishRecord still bio status s := by
  rw [bioFinishRecord_ready callback h status,bioFinishRecord_ready still h status]
  have h1 : SameSettings s (markDone bio status s) := ⟨rfl,rfl,rfl,rfl,rfl,rfl,rfl⟩
  have h2 := (completeSync_only (s.bioHead bio) (status=0) (markDone bio status s)).settings
  exact ⟨(h1.trans h2).trans (bioPut_settings),rfl⟩

theorem InFlight.finishes {bios : List Nat} (h : InFlight base (bios++todo) busy s)
    (hq : ∀ b∈bios,b∉s.queue) {status : Int} :
    InFlight base todo busy (bioFinishRecords callback bios status s) ∧
      (bioFinishRecords callback bios status s).queue=s.queue ∧
      SameSettings s (bioFinishRecords callback bios status s) ∧
      bioFinishRecords callback bios status s=bioFinishRecords still bios status s := by
  induction bios generalizing s with
  | nil => exact ⟨h,rfl,refl s,rfl⟩
  | cons b bios ih =>
    obtain ⟨h1,hq1⟩ := h.finish callback (hq b mem_cons_self) status
    obtain ⟨hs1,he1⟩ := bioFinishRecord_settings callback (h.ready b mem_cons_self)
    obtain ⟨h2,hq2,hs2,he2⟩ := ih h1 fun c hc => hq1 ▸ hq c (mem_cons_of_mem _ hc)
    refine ⟨h2,hq2.trans hq1,hs1.trans hs2,?_⟩
    show bioFinishRecords callback bios status (bioFinishRecord callback b status s)=
      bioFinishRecords still bios status (bioFinishRecord still b status s)
    rw [he2,he1]

theorem InFlight.turn (h : InFlight base s.queue busy s) (n : Nat) {x : Prog (FsState δ) Int Unit}
    (hx : Prog.Moves Transferred x) (status : Int) :
    InFlight base (s.queue.take n++s.queue.drop n) busy
        { (x (bioQueuePops n s)).2 with lastDrainStatus := status } ∧
      (x (bioQueuePops n s)).2.queue=s.queue.drop n ∧
      ∀ b∈s.queue.take n,b∉(x (bioQueuePops n s)).2.queue := by
  obtain ⟨h1,hq1⟩ := h.pops n
  have ht := hx (bioQueuePops n s)
  have h2 := (h1.transferred ht).status status
  have hq2 : (x (bioQueuePops n s)).2.queue=s.queue.drop n := by
    rw [ht.rest]
    exact hq1
  rw [← take_append_drop n s.queue] at h2
  refine ⟨h2,hq2,?_⟩
  intro b hb hb'
  rw [hq2] at hb'
  have hnodup := h.queue
  rw [← take_append_drop n s.queue] at hnodup
  exact (nodup_append.mp hnodup).2.2 b hb b hb' rfl

theorem InFlight.drainBatch (h : InFlight base s.queue busy s) {n : Nat}
    {x : Prog (FsState δ) Int Unit} (hx : Prog.Moves Transferred x) :
    InFlight base (s.queue.drop n) busy (drainBatch callback n x s) ∧
      (Fs.drainBatch callback n x s).queue=s.queue.drop n ∧
      SameSettings s (Fs.drainBatch callback n x s) ∧
      Fs.drainBatch callback n x s=Fs.drainBatch still n x s := by
  obtain ⟨h2,hq2,hnot⟩ := h.turn n hx
    (if resultOf (x (bioQueuePops n s)).1≠0 ∧ (x (bioQueuePops n s)).2.lastDrainStatus=0 then
      resultOf (x (bioQueuePops n s)).1 else (x (bioQueuePops n s)).2.lastDrainStatus)
  obtain ⟨h3,hq3,hs3,he3⟩ := h2.finishes callback hnot
  refine ⟨h3,hq3.trans hq2,((bioQueuePops_settings s).trans (hx (bioQueuePops n s)).settings).trans
    ?_,he3⟩
  exact ⟨hs3.autoDrain,hs3.plugDepth,hs3.hung,hs3.bindingBdev,hs3.bindingDevice,hs3.mountDevice,
    hs3.fileFolio⟩

theorem InFlight.drainLoop {fuel : Nat} (h : InFlight base s.queue busy s)
    (hf : s.queue.length≤fuel) :
    InFlight base [] busy (drainLoop env callback fuel s).2 ∧
      (Fs.drainLoop env callback fuel s).2.queue=[] ∧
      SameSettings s (Fs.drainLoop env callback fuel s).2 ∧
      (Fs.drainLoop env callback fuel s).2=(Fs.drainLoop env still fuel s).2 := by
  induction fuel generalizing s with
  | zero =>
    have hq : s.queue=[] := length_eq_zero_iff.mp (by omega)
    have he : ∀ callback : Call → FsState δ → FsState δ, (Fs.drainLoop env callback 0 s).2=s := by
      simp [Fs.drainLoop,hq]
    rw [he callback,he still]
    rw [hq] at h
    exact ⟨h,hq,refl s,rfl⟩
  | succ fuel ih =>
    cases hq : s.queue with
    | nil =>
      have he : ∀ callback : Call → FsState δ → FsState δ,
          (Fs.drainLoop env callback (fuel+1) s).2=s := by
        simp [Fs.drainLoop,hq]
      rw [he callback,he still]
      rw [hq] at h
      exact ⟨h,hq,refl s,rfl⟩
    | cons bio rest =>
      obtain ⟨n,x,hx⟩ := drainOnce_spec env hq
      have he : ∀ callback : Call → FsState δ → FsState δ,(Fs.drainLoop env callback (fuel+1) s).2=
          (Fs.drainLoop env callback fuel (Fs.drainBatch callback n x s)).2 := by
        intro callback
        simp [Fs.drainLoop,hq,hx.turn callback]
      obtain ⟨h1,hq1,hs1,he1⟩ := h.drainBatch callback (n := n) (hx.first hq).transferred
      rw [← hq1] at h1
      have hlen : (Fs.drainBatch callback n x s).queue.length≤fuel := by
        rw [hq1,length_drop]
        have := hx.some
        omega
      obtain ⟨h2,hq2,hs2,he2⟩ := ih h1 hlen
      rw [he callback,he still,← he1]
      exact ⟨h2,hq2,hs1.trans hs2,he2⟩

theorem InFlight.onHead (h : InFlight base todo busy s) (head : Nat) {f : BufferHead → BufferHead}
    (hl : ∀ b,(f b).flags.lock=b.flags.lock) (hr : ∀ b,(f b).refcount=b.refcount)
    (he : ∀ b,(f b).endIo=b.endIo) : InFlight base todo busy (s.onHead head f) := by
  have hsame : ∀ {α : Type} (g : BufferHead → α),(∀ b,g (f b)=g b) →
      ∀ k,g ((s.onHead head f).heads k)=g (s.heads k) := by
    intro α g hg k
    by_cases hk : k=head
    · subst hk
      simp [FsState.onHead,hg]
    · simp [FsState.onHead,hk]
  have hlock := hsame (fun b => b.flags.lock) hl
  have hend := hsame BufferHead.endIo he
  refine ⟨?_,?_,h.heads,h.queue,h.queued,h.inQueue,?_,?_⟩
  · intro b hb
    have hr := h.ready b hb
    exact ⟨hr.magic,hr.waiting,hr.endIo,hr.known,(hend (s.bioHead b)).symm ▸ hr.sync⟩
  · intro k hk
    exact (hend k).symm ▸ h.sync k hk
  · intro k
    exact (hlock k).symm ▸ h.lock k
  · intro k
    exact (hsame BufferHead.refcount hr k).trans (h.refs k)

theorem InFlight.take (h : InFlight base todo busy s) (hfree : (s.heads head).flags.lock=false)
    {f : BufferHead → BufferHead} (hl : ∀ b,(f b).flags.lock=true)
    (hr : ∀ b,(f b).refcount=b.refcount+1) (he : ∀ b,(f b).endIo.Sync) :
    InFlight base todo (head::busy) (s.onHead head f) := by
  exact h.change (fun _ hb => hb) (.of_records (fun _ _ => ⟨_,_,rfl⟩) le_rfl)
    (h.held.take hfree (hl _) (hr _) (he _)) h.queue h.queued h.inQueue

theorem InFlight.drop (h : InFlight base todo (head::busy) s) (success : Bool) :
    InFlight base todo busy (completeSync head success s) ∧
      (completeSync head success s).queue=s.queue ∧
      SameSettings s (completeSync head success s) := by
  have honly := completeSync_only head success s
  have hheads := completeSync_heads head success s
  have hdrop := h.held.drop (endSync_lock success _) (endSync_refcount success)
  refine ⟨h.change (fun _ hb => hb) (.of_records (fun b _ => ⟨_,_,by rw [honly.bios]⟩) honly.nextBio.ge)
    (hheads ▸ hdrop) (honly.queue ▸ h.queue) ?_ (honly.queue ▸ h.inQueue),honly.queue,honly.settings⟩
  rw [honly.bios,honly.queue]
  exact h.queued

end Kobox.Fs
