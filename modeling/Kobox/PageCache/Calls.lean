import Kobox.PageCache.Core

namespace Kobox.PageCache

open Quiet

inductive Callback where
  | shrink (gfp : Nat)
  | wait (folio : Nat)
  | writepages (mapping : Nat) (start stop : Int)
  | dirtyFolio (mapping folio : Nat)
  | drain
  | writepage (op folio : Nat)

def PageEnv.after (env : PageEnv) : Callback → PageState → PageState
  | .shrink gfp,s => env.shrink gfp s
  | .wait folio,s => env.wait folio s
  | .writepages mapping start stop,s =>
    match env.writepages mapping with
    | none => s
    | some op => (op start stop s).2
  | .dirtyFolio mapping folio,s =>
    match env.dirtyFolio mapping with
    | none => s
    | some op => (op folio s).2
  | .drain,s => (env.drain s).2
  | .writepage op folio,s => (env.writepage op folio s).2

/-- The calls a file system makes into the page cache, and its writes to memory elsewhere. -/
inductive PageCall where
  | getFolio (mapping index fgp gfp : Nat) (preserve : Bool)
  | put (folio : Nat)
  | lock (folio : Nat)
  | unlock (folio : Nat)
  | endRead (folio : Nat) (success : Bool)
  | truncate (mapping : Nat) (start stop : Int)
  | invalidate (mapping start stop : Nat)
  | markDirty (folio : Nat)
  | blockDirty (mapping folio : Nat)
  | clearDirty (folio : Nat)
  | startWriteback (folio : Nat) (keepWrite : Bool)
  | endWriteback (folio : Nat)
  | tag (mapping start stop : Nat)
  | writeCache (writepage mapping : Nat) (nrToWrite start stop : Int)
  | writeback (mapping : Nat) (start stop : Int)
  | store (mem : Bytes)

def PageCall.run (env : PageEnv) : PageCall → PageState → PageState
  | .getFolio mapping index fgp gfp preserve,s =>
    (filemapGetFolioInternal env mapping index fgp gfp preserve s).2
  | .put folio,s => folioPut env folio s
  | .lock folio,s => folioLock env folio s
  | .unlock folio,s => folioUnlock folio s
  | .endRead folio success,s => folioEndRead folio success s
  | .truncate mapping start stop,s => truncateInodePagesRange env mapping start stop s
  | .invalidate mapping start stop,s => (invalidateMappingPages env mapping start stop s).2
  | .markDirty folio,s => folioMarkDirty env folio s
  | .blockDirty mapping folio,s => (blockDirtyFolio mapping folio s).2
  | .clearDirty folio,s => (folioClearDirtyForIo folio s).2
  | .startWriteback folio keepWrite,s => folioStartWriteback folio keepWrite s
  | .endWriteback folio,s => folioEndWriteback folio s
  | .tag mapping start stop,s => tagPagesForWriteback mapping start stop s
  | .writeCache writepage mapping nrToWrite start stop,s =>
    (writeCachePages env writepage mapping nrToWrite start stop s).2
  | .writeback mapping start stop,s => (filemapWritebackRange env mapping start stop s).2
  | .store mem,s => { s with mem := mem }

def runCalls (env : PageEnv) (calls : List PageCall) (s : PageState) : PageState :=
  calls.foldl (fun s c => c.run env s) s

/-- Callbacks that reach the page cache by runs of its calls only, with callbacks of their own. -/
inductive Reentrant (Fits : PageEnv → List PageCall → PageState → Prop) : PageEnv → Prop
  | intro {env : PageEnv} (inner : Callback → PageState → PageEnv)
      (calls : Callback → PageState → List PageCall)
      (nested : ∀ c s,calls c s≠[] → Reentrant Fits (inner c s))
      (base : ∀ c s,(inner c s).base=env.base)
      (does : ∀ c s,env.after c s=runCalls (inner c s) (calls c s) s)
      (fits : ∀ c s,Fits (inner c s) (calls c s) s) : Reentrant Fits env

theorem Reentrant.keeps {Fits : PageEnv → List PageCall → PageState → Prop} {env : PageEnv}
    {P : Kvm.ArenaBase → PageState → Prop} (h : Reentrant Fits env)
    (hrun : ∀ (env : PageEnv) calls s,(∀ c s,P env.base s → P env.base (env.after c s)) →
      P env.base s → Fits env calls s → P env.base (runCalls env calls s)) :
    ∀ c s,P env.base s → P env.base (env.after c s) := by
  induction h with
  | intro inner calls nested base does fits ih =>
    intro c s hs
    rw [does]
    by_cases hnil : calls c s=[]
    · rw [hnil]
      exact hs
    · have h := hrun _ _ s (ih c s hnil) (by rw [base]; exact hs) (fits c s)
      rw [base] at h
      exact h

theorem stillEnv_after (c : Callback) (s : PageState) : stillEnv.after c s=s := by
  cases c <;> rfl

theorem stillEnv_reentrant (Fits : PageEnv → List PageCall → PageState → Prop)
    (h : ∀ s,Fits stillEnv [] s) : Reentrant Fits stillEnv :=
  .intro (fun _ _ => stillEnv) (fun _ _ => []) (fun _ _ h => absurd rfl h) (fun _ _ => rfl)
    (fun c s => stillEnv_after c s) fun _ s => h s

/-- The step keeps a property of states, and the states on both sides are related. -/
def Keeps (I : PageState → Prop) (R : PageState → PageState → Prop) (s t : PageState) : Prop :=
  I s → I t ∧ R s t

/-- A property that callbacks and the basic steps of the page cache keep. -/
structure Closed (env : PageEnv) (I : PageState → Prop) (R : PageState → PageState → Prop) :
    Prop where
  core : ∀ s,I s → Core env.base s
  refl : ∀ s,R s s
  trans : ∀ {s t u},R s t → R t u → R s u
  callback : ∀ c s,Keeps I R s (env.after c s)
  quiet : ∀ s t,Quiet env.base s t → Keeps I R s t
  marks : ∀ mapping s,Keeps I R s (filemapMappingRefreshMarks mapping s)
  discard : ∀ folio s,Keeps I R s (filemapFolioDiscard env folio s)

variable {env : PageEnv} {I : PageState → Prop} {R : PageState → PageState → Prop}
  {s t u : PageState}

section

variable (hc : Closed env I R)

include hc

theorem Closed.id (s : PageState) : Keeps I R s s :=
  fun h => ⟨h,hc.refl s⟩

theorem Closed.comp (h : Keeps I R s t) (k : Keeps I R t u) : Keeps I R s u :=
  fun hs => ⟨(k (h hs).1).1,hc.trans (h hs).2 (k (h hs).1).2⟩

theorem Closed.foldl {α : Type} {f : PageState → α → PageState} (hf : ∀ s a,Keeps I R s (f s a))
    (l : List α) (s : PageState) : Keeps I R s (l.foldl f s) := by
  induction l generalizing s with
  | nil => exact hc.id s
  | cons a l ih => exact hc.comp (hf s a) (ih (f s a))

theorem Closed.put (folio : Nat) (s : PageState) : Keeps I R s (folioPut env folio s) :=
  fun hs => hc.quiet s _ (folioPut_quiet env (hc.core s hs)) hs

omit hc in
theorem folioUnlock_quiet {base : Kvm.ArenaBase} {folio : Nat} {s : PageState} :
    Quiet base s (folioUnlock folio s) := by
  unfold folioUnlock
  split
  · exact refl base s
  · exact onFolio s folio (fun _ => rfl) (fun _ => rfl) (fun _ => rfl) (fun _ => rfl) Iff.rfl

omit hc in
theorem folioEndRead_quiet {base : Kvm.ArenaBase} {folio : Nat} {success : Bool} {s : PageState} :
    Quiet base s (folioEndRead folio success s) := by
  unfold folioEndRead
  split
  · exact refl base s
  · exact onFolio s folio (fun _ => rfl) (fun _ => rfl) (fun _ => rfl) (fun _ => rfl) Iff.rfl

theorem Closed.lock (folio : Nat) (s : PageState) : Keeps I R s (folioLock env folio s) := by
  unfold folioLock
  split
  · exact hc.id s
  have hwait : Keeps I R s (if (s.folios folio).flags.locked then env.wait folio s else s) := by
    split
    · exact hc.callback (.wait folio) s
    · exact hc.id s
  exact hc.comp hwait (hc.quiet _ _ (onFolio _ folio (fun _ => rfl) (fun _ => rfl)
    (fun _ => rfl) (fun _ => rfl) Iff.rfl))

theorem Closed.writeback (mapping : Nat) (start stop : Int) (s : PageState) :
    Keeps I R s (filemapWritebackRange env mapping start stop s).2 := by
  unfold filemapWritebackRange
  split
  · exact hc.id s
  split
  · exact hc.id s
  have hw := hc.callback (.writepages mapping start stop) s
  simp only [PageEnv.after] at hw
  split
  · exact hc.id s
  · next op hop =>
    rw [hop] at hw
    exact hc.comp (hc.comp hw (hc.callback .drain _)) (hc.marks mapping _)

theorem Closed.writeVictim (i : Nat) (s : PageState) : Keeps I R s (writeVictim env i s).2 := by
  unfold PageCache.writeVictim
  split
  · exact hc.writeback _ _ _ s
  · exact hc.id s

end

/-- What reclaim leaves: the slot that it names is free. -/
def FreeSlot (r : Option Victim × PageState) : Prop :=
  ∀ v,r.1=some v → v.slot<folioCacheMax ∧ (r.2.records v.slot).active=false

variable (hc : Closed env I R)

include hc

variable (preserve : Bool)

theorem Closed.reclaimClean (mapping index : Nat) (hs : I s) :
    (I (reclaimClean env preserve mapping index s).2 ∧
      R s (reclaimClean env preserve mapping index s).2) ∧
      FreeSlot (reclaimClean env preserve mapping index s) := by
  unfold PageCache.reclaimClean
  split
  · exact ⟨hc.id s hs,fun v h => nomatch h⟩
  next i hi =>
  obtain ⟨hlt,hp⟩ := find?_range_some hi
  clear hi
  have hf : (s.records i).folio≠0 := by
    simp [reclaimable] at hp
    tauto
  refine ⟨hc.discard _ s hs,?_⟩
  rintro v ⟨⟩
  exact ⟨hlt,discard_slot env (hc.core s hs) hf⟩

theorem Closed.reclaimDirty (mapping index : Nat) {slots : List Nat}
    (hslots : ∀ i∈slots,i<folioCacheMax) (hs : I s) :
    (I (reclaimDirty env preserve mapping index slots s).2 ∧
      R s (reclaimDirty env preserve mapping index slots s).2) ∧
      FreeSlot (reclaimDirty env preserve mapping index slots s) := by
  induction slots generalizing s with
  | nil => exact ⟨hc.id s hs,fun v h => nomatch h⟩
  | cons i slots ih =>
    have hnext := fun {u} (hu : I u) => ih (fun j hj => hslots j (List.mem_cons_of_mem _ hj)) hu
    unfold PageCache.reclaimDirty
    by_cases h1 : skips s preserve mapping index i=true
    · rw [if_pos h1]
      exact hnext hs
    have hw := hc.writeVictim i s hs
    generalize PageCache.writeVictim env i s=w at hw
    have hlater : (I (PageCache.reclaimDirty env preserve mapping index slots w.2).2 ∧
        R s (PageCache.reclaimDirty env preserve mapping index slots w.2).2) ∧
        FreeSlot (PageCache.reclaimDirty env preserve mapping index slots w.2) := by
      obtain ⟨⟨h2,h3⟩,h4⟩ := hnext hw.1
      exact ⟨⟨h2,hc.trans hw.2 h3⟩,h4⟩
    dsimp only
    split_ifs with h2 h3 h4
    · exact hlater
    · have hfault : Quiet env.base w.2 { w.2 with faulted := true } :=
        elsewhere rfl rfl rfl rfl rfl rfl rfl
      obtain ⟨h4,h5⟩ := hc.quiet _ _ hfault hw.1
      exact ⟨⟨h4,hc.trans hw.2 h5⟩,fun v h => nomatch h⟩
    · exact hlater
    · obtain ⟨h5,h6⟩ := hc.discard (w.2.records i).folio w.2 hw.1
      refine ⟨⟨h5,hc.trans hw.2 h6⟩,?_⟩
      rintro v ⟨⟩
      exact ⟨hslots i List.mem_cons_self,discard_slot env (hc.core _ hw.1) h3⟩

theorem Closed.reclaim (mapping index gfp : Nat) (hs : I s) :
    (I (reclaim env preserve mapping index gfp s).2 ∧
      R s (reclaim env preserve mapping index gfp s).2) ∧
      FreeSlot (reclaim env preserve mapping index gfp s) := by
  have hshrink := hc.callback (.shrink gfp) s hs
  simp only [PageEnv.after] at hshrink
  have hclean := hc.reclaimClean preserve mapping index hshrink.1
  unfold PageCache.reclaim
  split
  · next v u h =>
    rw [h] at hclean
    exact ⟨⟨hclean.1.1,hc.trans hshrink.2 hclean.1.2⟩,hclean.2⟩
  next u h =>
  rw [h] at hclean
  have hslots : ∀ i∈List.range folioCacheMax,i<folioCacheMax := fun i hi =>
    List.mem_range.mp hi
  have hdirty := hc.reclaimDirty preserve mapping index hslots hclean.1.1
  exact ⟨⟨hdirty.1.1,hc.trans (hc.trans hshrink.2 hclean.1.2) hdirty.1.2⟩,hdirty.2⟩

theorem Closed.claim (hs : I s) {preserve : Bool} {mapping index gfp : Nat} {claimed : Option Nat}
    (h : claimFolioSlot env preserve mapping index gfp s=(claimed,t)) :
    (I t ∧ R s t) ∧ ∀ slot,claimed=some slot →
      slot<folioCacheMax ∧ (t.records slot).active=false := by
  unfold claimFolioSlot at h
  split at h
  · next i hi =>
    obtain ⟨hlt,hp⟩ := find?_range_some hi
    cases h
    refine ⟨hc.id s hs,?_⟩
    rintro slot ⟨⟩
    exact ⟨hlt,by simpa using hp⟩
  · obtain ⟨hr,hslot⟩ := hc.reclaim preserve mapping index gfp hs
    obtain ⟨h1,h2⟩ := Prod.mk.inj h
    rw [← h2]
    refine ⟨hr,?_⟩
    intro slot hslot'
    rw [← h1] at hslot'
    obtain ⟨v,hv,rfl⟩ := Option.map_eq_some_iff.mp hslot'
    exact hslot v hv

theorem takeFolio_quiet {fgp folio : Nat} {s : PageState} :
    Keeps I R s (takeFolio env fgp folio s).2 := by
  unfold takeFolio
  split
  · exact hc.id s
  have hmore : Keeps I R s (s.onFolio folio fun f => { f with refcount := f.refcount+1 }) := by
    refine hc.quiet _ _ (onFolio s folio (fun _ => rfl) (fun _ => rfl) (fun _ => rfl)
      (fun _ => rfl) ?_)
    dsimp only
    omega
  split
  · exact hc.comp hmore (hc.lock folio _)
  · exact hmore

theorem Closed.getFolio {mapping index fgp gfp : Nat} {preserve : Bool} (hs : I s)
    (hinsert : mapping≠0 → findKey s mapping index=none → ∀ t slot,I t → R s t →
      slot<folioCacheMax → (t.records slot).active=false → (allocFolioPage env t).1≠0 → I
      (insertFolio slot mapping index fgp (allocFolioPage env t).1 (allocFolioPage env t).2)) :
    I (filemapGetFolioInternal env mapping index fgp gfp preserve s).2 := by
  unfold filemapGetFolioInternal
  split
  · exact hs
  next hm =>
  split
  · exact (takeFolio_quiet hc hs).1
  next hkey =>
  split
  · exact hs
  split
  · next t h => exact (hc.claim hs h).1.1
  next slot t h =>
  obtain ⟨⟨ht,hrel⟩,hslot⟩ := hc.claim hs h
  obtain ⟨hlt,hfree⟩ := hslot slot rfl
  dsimp only
  split
  · next hnull => exact (hc.quiet _ _ ((allocFolioPage_calm env t).2.1 hnull) ht).1
  · next hne => exact hinsert hm hkey t slot ht hrel hlt hfree hne

theorem truncateSlot_keeps {mapping first last : Nat} {s : PageState} {i : Nat} :
    Keeps I R s (truncateSlot env mapping first last s i) := by
  have hzero : ∀ mem,Keeps I R s { s with mem := mem } := fun mem =>
    hc.quiet _ _ (elsewhere rfl rfl rfl rfl rfl rfl rfl)
  simp only [truncateSlot]
  split_ifs <;> first | exact hc.id s | exact hc.discard _ s | exact hzero _

theorem Closed.truncate (mapping : Nat) (start stop : Int) (s : PageState) :
    Keeps I R s (truncateInodePagesRange env mapping start stop s) := by
  unfold truncateInodePagesRange
  split
  · exact hc.id s
  · exact hc.comp (hc.foldl (fun s i => truncateSlot_keeps hc) _ s) (hc.marks _ _)

theorem Closed.invalidate (mapping start stop : Nat) (s : PageState) :
    Keeps I R s (invalidateMappingPages env mapping start stop s).2 := by
  have hloop : ∀ (l : List Nat) (acc : Nat × PageState),
      Keeps I R acc.2 (l.foldl (invalidateSlot env mapping start stop) acc).2 := by
    intro l
    induction l with
    | nil => exact fun acc => hc.id acc.2
    | cons i l ih =>
      intro acc
      have hone : Keeps I R acc.2 (invalidateSlot env mapping start stop acc i).2 := by
        simp only [invalidateSlot]
        split_ifs
        · exact hc.id _
        · exact hc.id _
        · exact hc.discard _ _
      exact hc.comp hone (ih _)
  unfold invalidateMappingPages
  split
  · exact hc.id s
  · exact hc.comp (hloop _ (0,s)) (hc.marks _ _)

omit hc in
theorem nextDirty_active {mapping start stop i : Nat} (h : nextDirty s mapping start stop=some i) :
    (s.records i).active=true := by
  unfold nextDirty at h
  obtain ⟨_,hi,_⟩ := (leastSlot_spec (dirtyIn s mapping start stop) FolioRecord.index s.records
    folioCacheMax).1 i h
  simp [dirtyIn,FolioRecord.caches] at hi
  exact hi.1.1.1.1.1

theorem Closed.writeFolio (writepage : Nat) {i : Nat} (hi : (s.records i).active=true) :
    Keeps I R s (writeFolio env writepage i s).2 := by
  have hheld : Keeps I R s (s.onFolio (s.records i).folio fun f => { f with
      flags := { f.flags with locked := true }
      refcount := if f.refcount≠refcountMax then f.refcount+1 else f.refcount }) := by
    intro hs
    have href := (hc.core s hs).refs i hi
    refine hc.quiet _ _ (onFolio s _ (fun _ => rfl) (fun _ => rfl) (fun _ => rfl)
      (fun _ => rfl) ?_) hs
    dsimp only
    split <;> omega
  have hwrite := hc.comp hheld (hc.callback (.writepage writepage (s.records i).folio) _)
  refine hc.comp ?_ (hc.put _ _)
  split
  · exact hc.comp hwrite (hc.quiet _ _ (folioUnlock_quiet))
  · exact hwrite

theorem Closed.writeCacheLoop (writepage mapping last n cursor : Nat) (s : PageState) :
    Keeps I R s (writeCacheLoop env writepage mapping last n cursor s).2 := by
  induction n generalizing cursor s with
  | zero => exact hc.id s
  | succ n ih =>
    simp only [PageCache.writeCacheLoop]
    split
    · exact hc.id s
    split
    · exact hc.id s
    next i hi =>
    have hw := hc.writeFolio writepage (nextDirty_active hi)
    split_ifs
    · exact hw
    · exact hw
    · exact hc.comp hw (ih _ _)

theorem Closed.writeCache (writepage mapping : Nat) (nrToWrite start stop : Int) (s : PageState) :
    Keeps I R s (writeCachePages env writepage mapping nrToWrite start stop s).2 := by
  unfold writeCachePages
  split
  · exact hc.id s
  · split
    · exact hc.id s
    · exact hc.comp (hc.writeCacheLoop _ _ _ _ _ s) (hc.marks _ _)

theorem Closed.run (hs : I s) (c : PageCall)
    (hnew : ∀ mapping index fgp gfp preserve,c=.getFolio mapping index fgp gfp preserve →
      mapping≠0 → findKey s mapping index=none → ∀ t slot,I t → R s t → slot<folioCacheMax →
      (t.records slot).active=false → (allocFolioPage env t).1≠0 → I
      (insertFolio slot mapping index fgp (allocFolioPage env t).1 (allocFolioPage env t).2))
    (hmark : ∀ folio,c=.markDirty folio → I (folioMarkDirty env folio s))
    (hblock : ∀ mapping folio,c=.blockDirty mapping folio → I (blockDirtyFolio mapping folio s).2)
    (hclear : ∀ folio,I (folioClearDirtyForIo folio s).2)
    (hstart : ∀ folio keepWrite,I (folioStartWriteback folio keepWrite s))
    (hend : ∀ folio,I (folioEndWriteback folio s))
    (htag : ∀ mapping start stop,c=.tag mapping start stop → I (tagPagesForWriteback mapping start stop s)) :
    I (c.run env s) := by
  cases c with
  | getFolio mapping index fgp gfp preserve => exact hc.getFolio hs (hnew _ _ _ _ _ rfl)
  | put folio => exact (hc.put folio s hs).1
  | lock folio => exact (hc.lock folio s hs).1
  | unlock folio => exact (hc.quiet _ _ (folioUnlock_quiet) hs).1
  | endRead folio success => exact (hc.quiet _ _ (folioEndRead_quiet) hs).1
  | truncate mapping start stop => exact (hc.truncate mapping start stop s hs).1
  | invalidate mapping start stop => exact (hc.invalidate mapping start stop s hs).1
  | markDirty folio => exact hmark folio rfl
  | blockDirty mapping folio => exact hblock mapping folio rfl
  | clearDirty folio => exact hclear folio
  | startWriteback folio keepWrite => exact hstart folio keepWrite
  | endWriteback folio => exact hend folio
  | tag mapping start stop => exact htag mapping start stop rfl
  | writeCache writepage mapping nrToWrite start stop =>
    exact (hc.writeCache writepage mapping nrToWrite start stop s hs).1
  | writeback mapping start stop => exact (hc.writeback mapping start stop s hs).1
  | store mem =>
    exact (hc.quiet s { s with mem := mem } (elsewhere rfl rfl rfl rfl rfl rfl rfl) hs).1

end Kobox.PageCache
