import Kobox.Framework.Run
import Kobox.PageCache.Truncation
import Kobox.Vfs.Identity

namespace Kobox.PageCache

theorem NoneLeft.load {s : PageState} {mapping : Nat} (h : NoneLeft s mapping) (index : Nat) :
    filemapXarrayLoad s mapping index=0 := by
  unfold filemapXarrayLoad
  cases hk : findKey s mapping index with
  | none => rfl
  | some i =>
    obtain ⟨_,h1,h2,_⟩ := findKey_some hk
    exact absurd h2 (h i h1)

theorem truncateFinal_kept (env : PageEnv) {s : PageState} (hs : Core env.base s) (mapping : Nat) :
    Core env.base (truncateInodePagesFinal env mapping s) ∧
      ∀ i,((truncateInodePagesFinal env mapping s).records i).active=true →
        (truncateInodePagesFinal env mapping s).records i=s.records i := by
  have hin : Agrees s mapping 0 ulongMax fun pos => 0≤pos ∧ pos≤ulongMax :=
    fun _ _ _ _ _ => Iff.rfl
  rw [truncateInodePagesFinal,truncateInodePagesRange]
  split
  · exact ⟨hs,fun _ _ => rfl⟩
  · have hle : 0≤ulongMax := Nat.zero_le _
    exact ⟨(truncateSlots_truncated env hs hin hle le_rfl).1.untouched (refreshMarks_untouched ..),
      fun i => (truncateSlots_truncated env hs hin hle le_rfl).2.marks.active⟩

end Kobox.PageCache

namespace Kobox.Vfs

open PageCache (PageEnv NoneLeft Positioned Core truncateInodePagesFinal filemapXarrayLoad)

/-- Whatever is cached belongs to a registered inode or to a mapping that is no inode's. -/
structure CacheOwned (base : Kvm.ArenaBase) (other : Nat → Prop) (s : InodeState) : Prop where
  core : Core base s.cache
  owned : ∀ i,(s.cache.records i).active=true → other (s.cache.records i).mapping ∨
    ∃ j < inodeMax,(s.records j).active=true ∧ (s.records j).mapping=(s.cache.records i).mapping

/-- An inode without references stays where it is, and its mapping gets no folio. -/
structure Held (inode slot : Nat) (s t : InodeState) : Prop where
  found : inodeAllocationFind t inode=some slot
  mapping : (t.records slot).mapping=(s.records slot).mapping
  idle : (t.inodes inode).count=0
  superBlock : (t.inodes inode).superBlock=(s.inodes inode).superBlock
  folios : ∀ k,(t.cache.records k).active=true →
    (t.cache.records k).mapping=(s.records slot).mapping → ∃ j,(s.cache.records j).active=true ∧
      (s.cache.records j).mapping=(s.records slot).mapping ∧
      (s.cache.records j).index=(t.cache.records k).index

/-- Where the mapping of the next inode would be. -/
def nextMapping (env : InodeEnv) (sb : Nat) (s : InodeState) : Nat :=
  env.alloc sb s+(if env.native sb then inodeDataOffset else fakeInodeBytes)

/-- What is asked of a file system: folios are for registered inodes, an inode on its way out is left
alone, `evict_inode` removes what a final truncation at its start would, and new memory is nobody's. -/
structure EvictsPages (env : InodeEnv) (pages : PageEnv) (other : Nat → Prop) : Prop where
  keeps : ∀ c s,CacheOwned pages.base other s → CacheOwned pages.base other (env.after c s)
  holds : ∀ c s inode slot,CacheOwned pages.base other s → inodeAllocationFind s inode=some slot →
    (s.inodes inode).count=0 → Held inode slot s (env.after c s)
  evicts : ∀ s inode slot op,CacheOwned pages.base other s →
    env.evictInode (s.inodes inode).superBlock=some op → inodeAllocationFind s inode=some slot →
    NoneLeft (truncateInodePagesFinal pages (s.records slot).mapping s.cache)
      (s.records slot).mapping → NoneLeft (op inode s).cache (s.records slot).mapping
  fresh : ∀ sb s,env.alloc sb s≠0 → ¬other (nextMapping env sb s) ∧
    ∀ j < inodeMax,(s.records j).active=true → (s.records j).mapping≠nextMapping env sb s

/-- When the last reference goes, every cached position of the mapping fits in 64 bits, or nothing is
cached if there is no `evict_inode`; pages are cached only for those that own them. -/
def CacheFits (env : InodeEnv) (base : Kvm.ArenaBase) (other : Nat → Prop) (s : InodeState) :
    InodeCall → Prop
  | .iput inode => ∀ slot,inodeAllocationFind s inode=some slot → (s.inodes inode).count=1 →
      if (env.evictInode (s.inodes inode).superBlock).isSome then
        Positioned s.cache (s.records slot).mapping
      else NoneLeft s.cache (s.records slot).mapping
  | .setCache cache => CacheOwned base other { s with cache := cache }
  | _ => True

section

variable {base : Kvm.ArenaBase} {other : Nat → Prop} {s t u : InodeState} {inode slot : Nat}

theorem CacheOwned.mono (h : CacheOwned base other s) (hcache : t.cache=s.cache)
    (hrec : ∀ j,(s.records j).active=true →
      (t.records j).active=true ∧ (t.records j).mapping=(s.records j).mapping) :
    CacheOwned base other t := by
  refine ⟨hcache ▸ h.core,fun i hi => ?_⟩
  rw [hcache] at hi ⊢
  refine (h.owned i hi).imp_right ?_
  rintro ⟨j,hj,hact,hm⟩
  exact ⟨j,hj,(hrec j hact).1,(hrec j hact).2.trans hm⟩

theorem CacheOwned.onInode (h : CacheOwned base other s) (inode : Nat) (f : Inode → Inode) :
    CacheOwned base other (s.onInode inode f) := h.mono rfl fun _ h => ⟨h,rfl⟩

theorem CacheOwned.onRecord (h : CacheOwned base other s) (i : Nat) {f : InodeRecord → InodeRecord}
    (hf : ∀ r,(f r).active=r.active ∧ (f r).mapping=r.mapping) :
    CacheOwned base other (s.onRecord i f) := by
  refine h.mono rfl fun j hj => ?_
  simp only [InodeState.onRecord,Function.update_apply]
  split
  · next he =>
    subst he
    exact ⟨(hf _).1.trans hj,(hf _).2⟩
  · exact ⟨hj,rfl⟩

theorem Held.refl (hf : inodeAllocationFind s inode=some slot) (hc : (s.inodes inode).count=0) :
    Held inode slot s s := ⟨hf,rfl,hc,rfl,fun k h1 h2 => ⟨k,h1,h2,rfl⟩⟩

theorem Held.trans (h : Held inode slot s t) (k : Held inode slot t u) : Held inode slot s u := by
  refine ⟨k.found,k.mapping.trans h.mapping,k.idle,k.superBlock.trans h.superBlock,?_⟩
  intro i hi hm
  obtain ⟨j,hj,hjm,hji⟩ := k.folios i hi (hm.trans h.mapping.symm)
  obtain ⟨l,hl,hlm,hli⟩ := h.folios j hj (hjm.trans h.mapping)
  exact ⟨l,hl,hlm,hli.trans hji⟩

/-- Nothing is changed that the lookup of the inode and its mapping depend on. -/
theorem Held.frame (hf : inodeAllocationFind s inode=some slot) (hcache : t.cache=s.cache)
    (hrec : ∀ i,(t.records i).active=(s.records i).active ∧
      (t.records i).inode=(s.records i).inode ∧ (t.records i).mapping=(s.records i).mapping)
    (hc : (t.inodes inode).count=0)
    (hsb : (t.inodes inode).superBlock=(s.inodes inode).superBlock) : Held inode slot s t := by
  refine ⟨?_,(hrec slot).2.2,hc,hsb,fun k h1 h2 => ⟨k,hcache ▸ h1,hcache ▸ h2,by rw [hcache]⟩⟩
  rw [← hf]
  unfold inodeAllocationFind
  simp only [(hrec _).1,(hrec _).2.1]

theorem clearDirtyMetadata_held (hf : inodeAllocationFind s inode=some slot)
    (hc : (s.inodes inode).count=0) : Held inode slot s (clearDirtyMetadata inode s) := by
  unfold clearDirtyMetadata
  rw [hf]
  refine .frame hf rfl (fun i => ?_) hc rfl
  simp only [InodeState.onRecord,Function.update_apply]
  split
  · next he =>
    subst he
    exact ⟨rfl,rfl,rfl⟩
  · exact ⟨rfl,rfl,rfl⟩

theorem clearDirtyMetadata_owned (h : CacheOwned base other s) :
    CacheOwned base other (clearDirtyMetadata inode s) := by
  unfold clearDirtyMetadata
  split
  · exact h
  · exact h.onRecord _ fun _ => ⟨rfl,rfl⟩

theorem iputDropped_held (hf : inodeAllocationFind s inode=some slot)
    (hc : (s.inodes inode).count=1) : Held inode slot s (iputDropped inode s) := by
  refine .frame hf rfl (fun _ => ⟨rfl,rfl,rfl⟩) ?_ ?_ <;> simp [iputDropped,InodeState.onInode,hc]

end

section

variable {env : InodeEnv} {pages : PageEnv} {other : Nat → Prop} (henv : EvictsPages env pages other)
  {s : InodeState} (hs : CacheOwned pages.base other s) {inode slot : Nat}

include henv hs

theorem EvictsPages.callback (hf : inodeAllocationFind s inode=some slot)
    (hc : (s.inodes inode).count=0) (c : InodeCallback) :
    CacheOwned pages.base other (env.after c s) ∧ Held inode slot s (env.after c s) :=
  ⟨henv.keeps c s hs,henv.holds c s inode slot hs hf hc⟩

theorem syncInodeMetadata_held (hf : inodeAllocationFind s inode=some slot)
    (hc : (s.inodes inode).count=0) :
    CacheOwned pages.base other (syncInodeMetadata env inode s).2 ∧
      Held inode slot s (syncInodeMetadata env inode s).2 := by
  unfold syncInodeMetadata
  split
  · exact ⟨hs,.refl hf hc⟩
  have hop := henv.callback hs hf hc (.writeInode (s.inodes inode).superBlock inode)
  simp only [InodeEnv.after] at hop
  split
  · exact ⟨clearDirtyMetadata_owned hs,clearDirtyMetadata_held hf hc⟩
  next op h =>
  rw [h] at hop
  obtain ⟨howned,hheld⟩ := hop
  dsimp only
  split
  · exact ⟨clearDirtyMetadata_owned howned,
      hheld.trans (clearDirtyMetadata_held hheld.found hheld.idle)⟩
  · exact ⟨howned,hheld⟩

theorem iputWritten_held (hf : inodeAllocationFind s inode=some slot)
    (hc : (s.inodes inode).count=0) :
    CacheOwned pages.base other (iputWritten env slot inode s) ∧
      Held inode slot s (iputWritten env slot inode s) := by
  unfold iputWritten
  split
  · exact ⟨hs,.refl hf hc⟩
  have hdata : CacheOwned pages.base other (iputData env slot s).2 ∧
      Held inode slot s (iputData env slot s).2 := by
    unfold iputData
    split
    · exact ⟨hs,.refl hf hc⟩
    · exact henv.callback hs hf hc (.writeback _)
  dsimp only
  split
  · obtain ⟨howned,hheld⟩ := syncInodeMetadata_held henv hdata.1 hdata.2.found hdata.2.idle
    exact ⟨howned,hdata.2.trans hheld⟩
  · exact hdata

theorem iputMarked_held (hf : inodeAllocationFind s inode=some slot)
    (hc : (s.inodes inode).count=1) :
    CacheOwned pages.base other (iputMarked env slot inode s) ∧
      Held inode slot s (iputMarked env slot inode s) := by
  have hdrop := iputDropped_held hf hc
  have hdropped : CacheOwned pages.base other (iputDropped inode s) := hs.onInode inode _
  obtain ⟨howned,hheld⟩ := iputWritten_held henv hdropped hdrop.found hdrop.idle
  replace hheld := hdrop.trans hheld
  unfold iputMarked markInodeFreeing
  split
  · exact ⟨howned,hheld⟩
  · refine ⟨howned.onInode inode _,hheld.trans (.frame hheld.found rfl (fun _ => ⟨rfl,rfl,rfl⟩) ?_ ?_)⟩
    all_goals simp [InodeState.onInode,hheld.idle]

/-- A final `iput` frees its inode in a state in which nothing of the mapping is cached. -/
theorem iputEvicted_noneLeft (hf : inodeAllocationFind s inode=some slot)
    (hc : (s.inodes inode).count=1) (hfit : CacheFits env pages.base other s (.iput inode)) :
    CacheOwned pages.base other (iputEvicted env slot inode s) ∧
      Held inode slot s (iputEvicted env slot inode s) ∧
      NoneLeft (iputEvicted env slot inode s).cache (s.records slot).mapping := by
  obtain ⟨howned,hheld⟩ := iputMarked_held henv hs hf hc
  have hfit := hfit slot hf hc
  rw [← hheld.superBlock] at hfit
  have hop := henv.callback howned hheld.found hheld.idle
    (.evictInode ((iputMarked env slot inode s).inodes inode).superBlock inode)
  simp only [InodeEnv.after] at hop
  simp only [iputEvicted]
  split
  · next hnone =>
    rw [hnone] at hfit
    refine ⟨howned,hheld,fun k hk hm => ?_⟩
    obtain ⟨j,hj,hjm,-⟩ := hheld.folios k hk hm
    exact hfit j hj hjm
  next op hsome =>
  rw [hsome] at hop hfit
  obtain ⟨hoped,hkept⟩ := hop
  refine ⟨hoped,hheld.trans hkept,?_⟩
  by_cases hm : (s.records slot).mapping=0
  · rw [hm]
    exact fun k hk => (hoped.core.used k hk).1
  · have hpos : Positioned (iputMarked env slot inode s).cache (s.records slot).mapping := by
      intro k hk hkm
      obtain ⟨j,hj,hjm,hji⟩ := hheld.folios k hk hkm
      exact hji ▸ hfit j hj hjm
    have hev := henv.evicts _ inode slot op howned hsome hheld.found
    rw [hheld.mapping] at hev
    exact hev ((PageCache.truncateFinal_noneLeft pages howned.core hm).mpr hpos)

theorem releaseMemory_owned (native destroy : Bool) (sb inode : Nat) :
    CacheOwned pages.base other (releaseMemory env native destroy sb inode s) := by
  have hlog : ∀ l,CacheOwned pages.base other { s with released := l } :=
    fun _ => hs.mono rfl fun _ h => ⟨h,rfl⟩
  simp only [releaseMemory]
  split_ifs
  · exact hs
  · exact henv.keeps (.releaseInode sb inode destroy) _ (hlog _)
  · exact hlog _

theorem freeFakeInode_owned (hf : inodeAllocationFind s inode=some slot)
    (hnone : NoneLeft s.cache (s.records slot).mapping) :
    CacheOwned pages.base other (freeFakeInode env inode s) := by
  unfold freeFakeInode
  split
  · exact hs
  rw [hf]
  have hclear : CacheOwned pages.base other (s.onRecord slot fun _ => InodeRecord.empty) := by
    refine ⟨hs.core,fun i hi => (hs.owned i hi).imp_right ?_⟩
    rintro ⟨j,hj,hact,hm⟩
    have hne : j≠slot := by
      rintro rfl
      exact hnone i hi hm.symm
    exact ⟨j,hj,by simpa [InodeState.onRecord,hne] using hact,by simpa [InodeState.onRecord,hne] using hm⟩
  exact releaseMemory_owned henv hclear ..

theorem igetLocked_owned (sb number : Nat) :
    CacheOwned pages.base other (igetLocked env sb number s).2 := by
  unfold igetLocked
  split
  · exact hs
  split <;> dsimp only
  · exact hs.onInode _ _
  split
  · exact hs
  split
  · exact releaseMemory_owned henv hs ..
  next slot hslot =>
  -- the claimed record was nobody's
  refine hs.mono rfl fun j hj => ?_
  have hne : j≠slot := by
    rintro rfl
    unfold inodeAllocationClaim at hslot
    obtain ⟨-,hp⟩ := find?_range_some hslot
    simp [hj] at hp
  simp [registerInode,hne,hj]

theorem iput_owned (hfit : CacheFits env pages.base other s (.iput inode)) :
    CacheOwned pages.base other (iput env inode s) := by
  unfold iput
  split
  · exact hs
  next slot hf =>
  split
  · exact hs
  split
  · exact hs.onInode _ _
  next hc =>
  obtain ⟨howned,hheld,hnone⟩ := iputEvicted_noneLeft henv hs hf (not_not.mp hc) hfit
  exact freeFakeInode_owned henv howned hheld.found (hheld.mapping ▸ hnone)

theorem inodeRun_owned (c : InodeCall) (hfit : CacheFits env pages.base other s c) :
    CacheOwned pages.base other (c.run env s) := by
  cases c with
  | igetLocked sb number => exact igetLocked_owned henv hs sb number
  | newInode sb => exact igetLocked_owned henv hs sb 0
  | insertInodeLocked inode =>
    simp only [InodeCall.run,insertInodeLocked]
    split_ifs
    · exact hs
    · exact hs
    · split <;> dsimp only
      · exact hs
      · exact hs.onRecord _ fun _ => ⟨rfl,rfl⟩
  | ihold inode =>
    simp only [InodeCall.run,ihold]
    split
    · exact hs
    · split_ifs
      · exact hs.onInode _ _
      · exact hs
  | igrab inode =>
    simp only [InodeCall.run,igrab]
    split
    · exact hs
    · split_ifs <;> dsimp only
      · exact hs
      · exact hs.onInode _ _
  | iput inode => exact iput_owned henv hs hfit
  | findByIno sb number => exact hs
  | setNumber inode number => exact hs.onInode inode fun x => { x with number := number }
  | setLinks inode nlink => exact hs.onInode inode fun x => { x with nlink := nlink }
  | markDirty inode =>
    simp only [InodeCall.run]
    split
    · exact hs
    · exact hs.onRecord _ fun _ => ⟨rfl,rfl⟩
  | setCache cache => exact hfit

theorem runInodeCalls_owned {calls : List InodeCall}
    (hfit : Meets (fun s c => InodeCall.run env c s) (CacheFits env pages.base other) s calls) :
    CacheOwned pages.base other (runInodeCalls env calls s) := by
  induction calls generalizing s with
  | nil => exact hs
  | cons c calls ih => exact ih (inodeRun_owned henv hs c hfit.1) hfit.2

/-- The mapping of a new inode has nothing in the page cache. -/
theorem igetLocked_sees_none {sb number : Nat} (hnew : cachedInode s sb number=none)
    (hne : (igetLocked env sb number s).1≠0) :
    ∃ slot,((igetLocked env sb number s).2.records slot).active=true ∧
      ((igetLocked env sb number s).2.records slot).inode=(igetLocked env sb number s).1 ∧
      NoneLeft (igetLocked env sb number s).2.cache
        ((igetLocked env sb number s).2.records slot).mapping := by
  have hget : igetLocked env sb number s=if sb=0 then (0,s) else if env.alloc sb s=0 then (0,s)
      else (inodeAllocationClaim s).elim
        (0,releaseMemory env (env.native sb) false sb (env.alloc sb s) s)
        fun slot => (env.alloc sb s,registerInode (env.native sb) slot (env.alloc sb s) sb number s) := by
    unfold igetLocked
    rw [hnew]
    cases inodeAllocationClaim s <;> rfl
  rw [hget] at hne ⊢
  split_ifs at hne ⊢ with hsb halloc
  · exact absurd rfl hne
  · exact absurd rfl hne
  cases hslot : inodeAllocationClaim s with
  | none =>
    rw [hslot] at hne
    exact absurd rfl hne
  | some slot =>
    obtain ⟨hother,hmine⟩ := henv.fresh sb s halloc
    refine ⟨slot,by simp [registerInode],by simp [registerInode],fun i hi hm => ?_⟩
    have hm : (s.cache.records i).mapping=nextMapping env sb s := by
      simpa [registerInode,nextMapping] using hm
    rcases hs.owned i hi with h|⟨j,hj,hact,he⟩
    · exact hother (hm ▸ h)
    · exact hmine j hj hact (he.trans hm)

end

/-- In every run whose calls fit, cached pages have an owner; a final `iput` frees its inode with
nothing of its mapping cached, and a new inode, also at an address used before, sees no folio. -/
theorem evict_empties_mapping (env : InodeEnv) (pages : PageEnv) (other : Nat → Prop)
    (henv : EvictsPages env pages other) (s : InodeState) (hs : CacheOwned pages.base other s)
    (calls : List InodeCall)
    (hfit : Meets (fun s c => InodeCall.run env c s) (CacheFits env pages.base other) s calls) :
    let t := runInodeCalls env calls s
    CacheOwned pages.base other t ∧
    (∀ inode slot,inodeAllocationFind t inode=some slot → (t.inodes inode).count=1 →
      CacheFits env pages.base other t (.iput inode) →
      iput env inode t=freeFakeInode env inode (iputEvicted env slot inode t) ∧
        NoneLeft (iputEvicted env slot inode t).cache (t.records slot).mapping) ∧
    ∀ sb number,cachedInode t sb number=none → (igetLocked env sb number t).1≠0 →
      ∃ slot,((igetLocked env sb number t).2.records slot).active=true ∧
        ((igetLocked env sb number t).2.records slot).inode=(igetLocked env sb number t).1 ∧
        ∀ index,filemapXarrayLoad (igetLocked env sb number t).2.cache
          ((igetLocked env sb number t).2.records slot).mapping index=0 := by
  intro t
  have ht : CacheOwned pages.base other t := runInodeCalls_owned henv hs hfit
  refine ⟨ht,?_,?_⟩
  · intro inode slot hf hc hput
    refine ⟨?_,(iputEvicted_noneLeft henv ht hf hc hput).2.2⟩
    unfold iput
    rw [hf]
    simp [hc]
  · intro sb number hnew hne
    obtain ⟨slot,hact,hinode,hnone⟩ := igetLocked_sees_none henv ht hnew hne
    exact ⟨slot,hact,hinode,hnone.load⟩

/-- The page cache with one page of the mapping at 66560. -/
def onePage : PageCache.PageState := PageCache.folioEndRead 4096 true
    (PageCache.filemapGetFolio PageCache.stillEnv 66560 0 4 0 PageCache.freshPages).2

theorem onePage_core : Core PageCache.stillEnv.base onePage := by
  have hk := (PageCache.stillEnv_reentrant (fun env calls s => PageCache.Marked env.base s →
    PageCache.RunFits env calls s) fun _ _ => trivial).keepsMarks
  have hget := PageCache.run_marked hk PageCache.freshPages_fresh.marked
    (.getFolio 66560 0 4 0 false) trivial
  exact (PageCache.run_marked hk hget (.endRead 4096 true) trivial).toCore

theorem onePage_records {i : Nat} (h : (onePage.records i).active=true) :
    (onePage.records i).mapping=66560 ∧ (onePage.records i).index=0 := by
  have hall : ∀ i < PageCache.folioCacheMax,(onePage.records i).active=true →
      (onePage.records i).mapping=66560 ∧ (onePage.records i).index=0 := by decide +kernel
  exact hall i (onePage_core.small i h) h

@[irreducible] def mappingTaken (s : InodeState) (mapping : Nat) : Bool :=
  (List.range inodeMax).any fun j => (s.records j).active && (s.records j).mapping==mapping

/-- A file system that truncates in `evict_inode` and takes memory whose mapping is nobody's. -/
def truncatingFs : InodeEnv := { plainFs with
  alloc := fun _ s => if mappingTaken s (twoPlaces s+fakeInodeBytes) then 0 else twoPlaces s
  alloc_fresh := by
    intro _ s h
    split at h
    · exact absurd rfl h
    · next hno =>
      rw [if_neg hno]
      exact twoPlaces_fresh s h
  evictInode := fun _ => some fun inode s =>
    match inodeAllocationFind s inode with
    | none => s
    | some slot => { s with
      cache := truncateInodePagesFinal PageCache.stillEnv (s.records slot).mapping s.cache } }

theorem truncatingFs_evicts : EvictsPages truncatingFs PageCache.stillEnv fun _ => False := by
  have hop : ∀ inode slot s,inodeAllocationFind s inode=some slot →
      truncatingFs.after (.evictInode 0 inode) s={ s with
        cache := truncateInodePagesFinal PageCache.stillEnv (s.records slot).mapping s.cache } := by
    intro inode slot s hf
    simp only [InodeEnv.after,truncatingFs,hf]
  refine ⟨?_,?_,?_,?_⟩
  · intro c s h
    cases c with
    | evictInode sb inode =>
      cases hf : inodeAllocationFind s inode with
      | none => simpa only [InodeEnv.after,truncatingFs,hf] using h
      | some slot =>
        obtain ⟨hcore,hkept⟩ := PageCache.truncateFinal_kept _ h.core (s.records slot).mapping
        rw [show truncatingFs.after (.evictInode sb inode) s=_ from hop inode slot s hf]
        refine ⟨hcore,fun i hi => ?_⟩
        have he := hkept i hi
        simp only [he] at hi ⊢
        exact h.owned i hi
    | _ => exact h
  · intro c s inode slot h hf hc
    cases c with
    | evictInode sb other =>
      cases hfo : inodeAllocationFind s other with
      | none =>
        rw [show truncatingFs.after (.evictInode sb other) s=s by
          simp only [InodeEnv.after,truncatingFs,hfo]]
        exact .refl hf hc
      | some k =>
        obtain ⟨-,hkept⟩ := PageCache.truncateFinal_kept _ h.core (s.records k).mapping
        rw [show truncatingFs.after (.evictInode sb other) s=_ from hop other k s hfo]
        refine ⟨?_,rfl,hc,rfl,fun i hi hm => ?_⟩
        · rw [← hf]
          unfold inodeAllocationFind
          rfl
        · have he := hkept i hi
          simp only [he] at hi hm ⊢
          exact ⟨i,hi,hm,rfl⟩
    | _ => exact .refl hf hc
  · intro s inode slot op _ hsome hf hnone
    cases hsome
    simpa only [hf] using hnone
  · intro sb s halloc
    refine ⟨id,fun j hj hact => ?_⟩
    simp only [nextMapping,truncatingFs] at halloc ⊢
    split at halloc
    · exact absurd rfl halloc
    next hno =>
    rw [if_neg hno]
    unfold mappingTaken at hno
    intro he
    exact hno (List.any_eq_true.mpr ⟨j,List.mem_range.mpr hj,by simp [hact,he,plainFs]⟩)

/-- A page of inode 5 is cached, and the inode goes. -/
def evictedRun : List InodeCall := [.igetLocked 4096 5,.setCache onePage,.iput 65536]

theorem evictedRun_fits : Meets (fun s c => InodeCall.run truncatingFs c s)
    (CacheFits truncatingFs PageCache.stillEnv.base fun _ => False) noInodes evictedRun := by
  refine ⟨trivial,⟨onePage_core,fun i hi => Or.inr ⟨0,by decide,?_⟩⟩,?_,trivial⟩
  · rw [(onePage_records hi).1]
    decide +kernel
  · intro slot _ _ i hi _
    show (onePage.records i).index*Fs.pageSize<2^64
    rw [(onePage_records hi).2]
    decide

/-- The next inode, at the address of the one that went. -/
def secondInode : Nat × InodeState :=
  igetLocked truncatingFs 4096 9 (runInodeCalls truncatingFs evictedRun noInodes)

theorem evict_empties_mapping_again : secondInode.1=65536 ∧
    ∃ slot,(secondInode.2.records slot).active=true ∧
      (secondInode.2.records slot).inode=secondInode.1 ∧
      ∀ index,filemapXarrayLoad secondInode.2.cache (secondInode.2.records slot).mapping index=0 :=
  ⟨by decide +kernel,(evict_empties_mapping truncatingFs PageCache.stillEnv (fun _ => False)
    truncatingFs_evicts noInodes ⟨PageCache.freshPages_fresh.core,nofun⟩ evictedRun
    evictedRun_fits).2.2 4096 9 (by decide +kernel) (by decide +kernel)⟩

/-- Without `evict_inode` the page outlives its inode, and the next inode there finds it. -/
theorem folio_outlives_inode :
    let s := runInodeCalls plainFs [.igetLocked 4096 5,.setCache onePage,.iput 65536] noInodes
    s.released=[65536] ∧ (s.records 0).active=false ∧
    (s.cache.records 0).active=true ∧ (s.cache.records 0).mapping=66560 ∧
    (igetLocked plainFs 4096 9 s).1=65536 ∧
    ((igetLocked plainFs 4096 9 s).2.records 0).mapping=66560 ∧
    filemapXarrayLoad (igetLocked plainFs 4096 9 s).2.cache 66560 0=4096 ∧
    (s.cache.folios 4096).flags.uptodate=true := by
  decide +kernel

end Kobox.Vfs
