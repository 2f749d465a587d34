import Kobox.Fs.Finish

namespace Kobox.Fs

open FsState

variable {δ : Type} {env : Env δ} {callback : Call → FsState δ → FsState δ} {s t u : FsState δ}

/-- All is as it was but for status bytes of bios and marks of dirty blocks that are taken back. -/
structure Steady (s t : FsState δ) : Prop where
  pages : t.pages=s.pages
  bindingBdev : t.bindingBdev=s.bindingBdev
  bindingDevice : t.bindingDevice=s.bindingDevice
  mountDevice : t.mountDevice=s.mountDevice
  bios : ∀ bio,∃ status,(t.bios bio).bio={ (s.bios bio).bio with status := status }
  cache : ∀ i,∃ dirty,t.cache i={ s.cache i with dirty := dirty } ∧
    (dirty=true → (s.cache i).dirty=true)
  heads : ∀ head,(t.heads head).endIo=(s.heads head).endIo

open Steady

theorem Steady.refl (s : FsState δ) : Steady s s :=
  ⟨rfl,rfl,rfl,rfl,fun _ => ⟨_,rfl⟩,fun _ => ⟨_,rfl,id⟩,fun _ => rfl⟩

theorem Steady.trans (h : Steady s t) (k : Steady t u) : Steady s u := by
  refine ⟨k.pages.trans h.pages,k.bindingBdev.trans h.bindingBdev,
    k.bindingDevice.trans h.bindingDevice,k.mountDevice.trans h.mountDevice,fun bio => ?_,
    fun i => ?_,fun head => (k.heads head).trans (h.heads head)⟩
  · obtain ⟨a,ha⟩ := h.bios bio
    obtain ⟨b,hb⟩ := k.bios bio
    exact ⟨b,by rw [hb,ha]⟩
  obtain ⟨a,ha,hmono⟩ := h.cache i
  obtain ⟨b,hb,hmono'⟩ := k.cache i
  refine ⟨b,by rw [hb,ha],fun hdirty => hmono ?_⟩
  have hmid := hmono' hdirty
  rw [ha] at hmid
  exact hmid

theorem core_field {α : Type} (f : FsState δ → α) (hf : ∀ u,f u.core=f u) (h : t.core=s.core) :
    f t=f s := by
  rw [← hf t,h,hf s]

structure SameCache (s t : FsState δ) : Prop where
  cache : t.cache=s.cache
  dirtyCount : t.dirtyCount=s.dirtyCount

theorem SameCache.trans (h : SameCache s t) (k : SameCache t u) : SameCache s u :=
  ⟨k.cache.trans h.cache,k.dirtyCount.trans h.dirtyCount⟩

theorem SameCache.of_core (h : t.core=s.core) : SameCache s t :=
  ⟨core_field _ (fun _ => rfl) h,core_field _ (fun _ => rfl) h⟩

theorem Steady.of_core (h : t.core=s.core) : Steady s t :=
  ⟨core_field _ (fun _ => rfl) h,core_field _ (fun _ => rfl) h,core_field _ (fun _ => rfl) h,
    core_field _ (fun _ => rfl) h,
    fun bio => ⟨_,core_field (fun u => (u.bios bio).bio) (fun _ => rfl) h⟩,
    fun i => ⟨_,congrFun (SameCache.of_core h).cache i,id⟩,
    fun head => core_field (fun u => (u.heads head).endIo) (fun _ => rfl) h⟩

theorem Steady.of_transferred (h : Transferred s t) : Steady s t := by
  have hr := h.rest
  refine ⟨by rw [hr],by rw [hr],by rw [hr],by rw [hr],fun bio => ?_,fun i => ⟨(s.cache i).dirty,?_,id⟩,
    fun head => by rw [hr]⟩
  · obtain ⟨status,hs⟩ := h.bios bio
    exact ⟨status,by rw [hs]⟩
  · rw [hr]

theorem steady_onBio (bio : Nat) {f : BioRecord → BioRecord}
    (hf : ∃ status,(f (s.bios bio)).bio={ (s.bios bio).bio with status := status }) :
    Steady s (s.onBio bio f) := by
  refine ⟨rfl,rfl,rfl,rfl,fun b => ?_,fun _ => ⟨_,rfl,id⟩,fun _ => rfl⟩
  by_cases hb : b=bio
  · subst hb
    simpa [onBio] using hf
  · exact ⟨(s.bios b).bio.status,by simp [onBio,hb]⟩

theorem steady_clean {slot : Option Nat} : Steady s (bufferCacheSetDirty slot false s) := by
  cases slot with
  | none => exact refl s
  | some i =>
    by_cases hc : !(s.cache i).active ∨ (s.cache i).dirty=false
    · rw [bufferCacheSetDirty,if_pos hc]
      exact refl s
    rw [bufferCacheSetDirty,if_neg hc]
    refine ⟨rfl,rfl,rfl,rfl,fun _ => ⟨_,rfl⟩,fun j => ?_,fun _ => rfl⟩
    by_cases hj : j=i
    · subst hj
      exact ⟨false,by simp,by simp⟩
    · exact ⟨(s.cache j).dirty,by simp [hj],id⟩

/-- Completion callbacks that are tidy, keep what is steady and take no other bio off the queue. -/
structure Quiet (callback : Call → FsState δ → FsState δ) : Prop where
  tidy : ∀ call,Tidy (callback call)
  steady : ∀ call s,Steady s (callback call s)
  queue : ∀ call s,(∀ c bio,call=.bio c bio → bio∉s.queue) → (callback call s).queue=s.queue

variable {head : Nat}

theorem headComplete_steady (hq : Quiet callback) {success : Bool} {s : FsState δ} :
    Steady s (bufferHeadComplete callback head success s) := by
  apply headComplete_rule
  · exact .of_core (endReadSync_hidden)
  · intro _
    have hclean : Steady s (if success then
        bufferCacheSetDirty (bufferCacheRecordForHead s head) false s else s) := by
      split
      · exact steady_clean
      · exact refl s
    exact hclean.trans (.of_core (endWriteSync_core))
  · exact fun _ => hq.steady _ s

theorem bioPut_steady {bio : Nat} {s : FsState δ} : Steady s (bioPut bio s) := by
  unfold bioPut
  split
  · exact refl s
  · exact (of_core (bioQueueRemove_hidden bio s)).trans (steady_onBio _ ⟨_,rfl⟩)

theorem bioFinishRecord_steady (hq : Quiet callback) {bio : Nat} {status : Int} {s : FsState δ} :
    Steady s (bioFinishRecord callback bio status s) := by
  have h1 : Steady s ((s.onBio bio fun r => { r with
      result := status
      bio := { r.bio with status := if status=0 then 0 else 1 } }).note (.done bio status)) :=
    trans (steady_onBio _ ⟨_,rfl⟩) (of_core (core_note _))
  have h2 := h1.trans (steady_onBio bio (f := fun r => { r with completed := true }) ⟨_,rfl⟩)
  apply bioCallEndIo_rule rfl h1 h2
  · exact fun _ success => h2.trans (headComplete_steady hq)
  · exact fun u hu => hu.trans (bioPut_steady)
  · exact fun _ => h2.trans (hq.steady _ _)

/-- The end of the bio cleans no block, and what it calls leaves the cache alone. -/
structure Reads (callback : Call → FsState δ → FsState δ) (s : FsState δ) (bio : Nat) : Prop where
  head : (s.bios bio).bio.endIo=.bufferHead → (s.heads (s.bios bio).bio.privateData).endIo≠.writeSync
  own : ∀ c t,SameCache t (callback (.bio c bio) t)
  through : ∀ c success t,
    SameCache t (callback (.head c (s.bios bio).bio.privateData success) t)

theorem headComplete_cache {success : Bool} (ht : SameCache s t)
    (h : (t.heads head).endIo≠.writeSync)
    (hc : ∀ c,SameCache t (callback (.head c head success) t)) :
    SameCache s (bufferHeadComplete callback head success t) :=
  headComplete_rule ⟨ht.cache,ht.dirtyCount⟩ (fun he => absurd he h) fun c => ht.trans (hc c)

theorem bioPut_cache {bio : Nat} {s : FsState δ} : SameCache s (bioPut bio s) := by
  have hremoved := SameCache.of_core (bioQueueRemove_hidden bio s)
  unfold bioPut
  split
  · exact ⟨rfl,rfl⟩
  · exact ⟨hremoved.cache,hremoved.dirtyCount⟩

variable {bio : Nat}

theorem bioFinishRecord_cache (status : Int) (h : Reads callback s bio) :
    SameCache s (bioFinishRecord callback bio status s) := by
  apply bioCallEndIo_rule (P := SameCache s) rfl
  · exact ⟨rfl,rfl⟩
  · exact ⟨rfl,rfl⟩
  · intro he success
    refine headComplete_cache ⟨rfl,rfl⟩ ?_ fun c => ?_
    · simpa [note,onBio] using h.head (by simpa [note,onBio] using he)
    · simpa [note,onBio] using h.through c success _
  · exact fun u hu => hu.trans bioPut_cache
  · exact fun c => ⟨(h.own c _).cache,(h.own c _).dirtyCount⟩

theorem setDirty_queue {slot : Option Nat} {dirty : Bool} {s : FsState δ} :
    (bufferCacheSetDirty slot dirty s).queue=s.queue := by
  rw [setDirty_eq]

theorem headComplete_queue (hq : Quiet callback) {success : Bool} {s : FsState δ} :
    (bufferHeadComplete callback head success s).queue=s.queue := by
  apply headComplete_rule (P := fun t => t.queue=s.queue)
  · rfl
  · intro _
    unfold endBufferWriteSync
    dsimp only [onHead]
    split
    · exact setDirty_queue
    · rfl
  · exact fun _ => hq.queue _ s fun _ _ h => by cases h

theorem bioPut_queue (h : bio∉s.queue) : (bioPut bio s).queue=s.queue := by
  unfold bioPut
  split
  · rfl
  · simp only [bioQueueRemove]
    split <;> rfl

theorem bioFinishRecord_queue (hq : Quiet callback) (status : Int) (h : bio∉s.queue) :
    (bioFinishRecord callback bio status s).queue=s.queue := by
  refine bioCallEndIo_rule (P := fun t => t.queue=s.queue) rfl rfl rfl ?_ ?_ ?_
  · exact fun _ _ => headComplete_queue hq
  · intro u hu
    rw [← hu] at h ⊢
    exact bioPut_queue h
  · intro _
    apply hq.queue
    intro _ b hb
    cases hb
    exact h

end Kobox.Fs
