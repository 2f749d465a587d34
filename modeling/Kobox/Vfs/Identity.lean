import Kobox.Vfs.Inode

namespace Kobox.Vfs

/-- One record an inode, and one hashed inode a key among those that are not going away. -/
structure Registry (s : InodeState) : Prop where
  small : ∀ i,(s.records i).active=true → i < inodeMax
  distinct : ∀ i j,(s.records i).active=true → (s.records j).active=true →
    (s.records i).inode=(s.records j).inode → i=j
  nonzero : ∀ i,(s.records i).active=true → (s.records i).inode≠0
  unique : ∀ sb number i j,number≠0 →
    hasKey s sb number (s.records i)=true → hasKey s sb number (s.records j)=true →
    (s.inodes (s.records i).inode).freeing=false → (s.inodes (s.records j).inode).freeing=false →
    i=j

section

variable {s t : InodeState} {sb number inode i : Nat}

theorem hasKey_iff {r : InodeRecord} : hasKey s sb number r=true ↔
    r.active=true ∧ r.hashed=true ∧ (s.inodes r.inode).superBlock=sb ∧
      (s.inodes r.inode).number=number := by
  simp [hasKey,and_assoc]

theorem inodeAllocationFind_some (h : inodeAllocationFind s inode=some i) :
    i < inodeMax ∧ (s.records i).active=true ∧ (s.records i).inode=inode := by
  unfold inodeAllocationFind at h
  obtain ⟨hlt,hp⟩ := find?_range_some h
  simp at hp
  exact ⟨hlt,hp⟩

theorem inodeAllocationClaim_lt (h : inodeAllocationClaim s=some i) : i < inodeMax := by
  unfold inodeAllocationClaim at h
  exact (find?_range_some h).1

theorem cachedInode_some (h : cachedInode s sb number=some i) :
    number≠0 ∧ hasKey s sb number (s.records i)=true ∧
      (s.inodes (s.records i).inode).count≠0 ∧ (s.inodes (s.records i).inode).count≠countMax := by
  unfold cachedInode at h
  split at h
  · cases h
  · next h0 =>
    obtain ⟨_,hp⟩ := find?_range_some h
    simp only [Bool.and_eq_true,decide_eq_true_eq] at hp
    exact ⟨h0,hp.1.1.1,hp.1.2,hp.2⟩

variable (hs : Registry s)

include hs

theorem cachedInode_none (h : cachedInode s sb number=none) (h0 : number≠0)
    (hi : hasKey s sb number (s.records i)=true) :
    (s.inodes (s.records i).inode).count=0 ∨ (s.inodes (s.records i).inode).count=countMax := by
  have hact := (hasKey_iff.mp hi).1
  unfold cachedInode at h
  rw [if_neg h0] at h
  have hp := find?_range_none h (hs.small i hact)
  simp [hi,hs.nonzero i hact] at hp
  by_cases hc : (s.inodes (s.records i).inode).count=0
  · exact Or.inl hc
  · exact Or.inr (hp hc)

theorem hashedTwin_false (h : hashedTwin s inode=false)
    (hi : hasKey s (s.inodes inode).superBlock (s.inodes inode).number (s.records i)=true)
    (hne : (s.records i).inode≠inode) : (s.inodes (s.records i).inode).freeing=true := by
  have hact := (hasKey_iff.mp hi).1
  unfold hashedTwin at h
  rw [List.any_eq_false] at h
  have hp := h i (List.mem_range.mpr (hs.small i hact))
  simpa [hi,hs.nonzero i hact,hne] using hp

/-- What the registry does not look at may change; an inode may start to go away. -/
theorem Registry.onInode (inode : Nat) {f : Inode → Inode} (hsb : ∀ x,(f x).superBlock=x.superBlock)
    (hn : ∀ x,(f x).number=x.number) (hf : ∀ x,(f x).freeing=false → x.freeing=false) :
    Registry (s.onInode inode f) := by
  have hat : ∀ a,((s.onInode inode f).inodes a).superBlock=(s.inodes a).superBlock ∧
      ((s.onInode inode f).inodes a).number=(s.inodes a).number ∧
      (((s.onInode inode f).inodes a).freeing=false → (s.inodes a).freeing=false) := by
    intro a
    by_cases ha : a=inode
    · subst ha
      simp only [InodeState.onInode,Function.update_self]
      exact ⟨hsb _,hn _,hf _⟩
    · simp [InodeState.onInode,ha]
  have hkey : ∀ sb number r,hasKey (s.onInode inode f) sb number r=hasKey s sb number r := by
    intro sb number r
    simp [hasKey,(hat r.inode).1,(hat r.inode).2.1]
  refine ⟨hs.small,hs.distinct,hs.nonzero,?_⟩
  intro sb number i j h0 hi hj hfi hfj
  rw [hkey] at hi hj
  exact hs.unique sb number i j h0 hi hj ((hat _).2.2 hfi) ((hat _).2.2 hfj)

/-- Record `i` may change if it has no twin afterwards. -/
theorem Registry.patch {u : InodeState} (i : Nat) (hrec : ∀ j,j≠i → u.records j=s.records j)
    (hold : ∀ j,j≠i → (s.records j).active=true →
      u.inodes (s.records j).inode=s.inodes (s.records j).inode)
    (hnew : (u.records i).active=true → i < inodeMax ∧ (u.records i).inode≠0 ∧
      ∀ j,j≠i → (s.records j).active=true → (s.records j).inode≠(u.records i).inode)
    (htwin : ∀ sb number j,number≠0 → j≠i → hasKey u sb number (u.records i)=true →
      hasKey s sb number (s.records j)=true → (u.inodes (u.records i).inode).freeing=false →
      (s.inodes (s.records j).inode).freeing=true) : Registry u := by
  have hkey : ∀ {sb number j},j≠i → hasKey u sb number (u.records j)=true →
      hasKey s sb number (s.records j)=true ∧
        u.inodes (u.records j).inode=s.inodes (s.records j).inode := by
    intro sb number j hj h
    rw [hrec j hj] at h ⊢
    have ho := hold j hj (hasKey_iff.mp h).1
    exact ⟨by simpa only [hasKey,ho] using h,ho⟩
  have hlone : ∀ {sb number j},number≠0 → j≠i → hasKey u sb number (u.records i)=true →
      hasKey u sb number (u.records j)=true → (u.inodes (u.records i).inode).freeing=false →
      (u.inodes (u.records j).inode).freeing=false → False := by
    intro sb number j h0 hj h1 h2 hf1 hf2
    obtain ⟨h2,he⟩ := hkey hj h2
    rw [he,htwin sb number j h0 hj h1 h2 hf1] at hf2
    cases hf2
  refine ⟨?_,?_,?_,?_⟩
  · intro j hj
    by_cases h : j=i
    · exact h ▸ (hnew (h ▸ hj)).1
    · exact hs.small j (hrec j h ▸ hj)
  · intro j k hj hk he
    by_cases h1 : j=i <;> by_cases h2 : k=i
    · exact h1.trans h2.symm
    · rw [h1,hrec k h2] at he
      exact absurd he.symm ((hnew (h1 ▸ hj)).2.2 k h2 (hrec k h2 ▸ hk))
    · rw [h2,hrec j h1] at he
      exact absurd he ((hnew (h2 ▸ hk)).2.2 j h1 (hrec j h1 ▸ hj))
    · rw [hrec j h1] at hj he
      rw [hrec k h2] at hk he
      exact hs.distinct j k hj hk he
  · intro j hj
    by_cases h : j=i
    · exact h ▸ (hnew (h ▸ hj)).2.1
    · rw [hrec j h] at hj ⊢
      exact hs.nonzero j hj
  · intro sb number j k h0 hj hk hfj hfk
    by_cases h1 : j=i <;> by_cases h2 : k=i
    · exact h1.trans h2.symm
    · subst h1
      exact (hlone h0 h2 hj hk hfj hfk).elim
    · subst h2
      exact (hlone h0 h1 hk hj hfk hfj).elim
    obtain ⟨k1,e1⟩ := hkey h1 hj
    obtain ⟨k2,e2⟩ := hkey h2 hk
    exact hs.unique sb number j k h0 k1 k2 (e1 ▸ hfj) (e2 ▸ hfk)

theorem Registry.onRecord (i : Nat) {f : InodeRecord → InodeRecord}
    (ha : ∀ r,(f r).active=true → r.active=true) (hi : ∀ r,(f r).active=true → (f r).inode=r.inode)
    (hh : ∀ r,(f r).hashed=true → r.hashed=true) : Registry (s.onRecord i f) := by
  have hself : (s.onRecord i f).records i=f (s.records i) := by simp [InodeState.onRecord]
  refine hs.patch i (fun j hj => by simp [InodeState.onRecord,hj]) (fun _ _ _ => rfl) ?_ ?_
  · rw [hself]
    intro h
    rw [hi _ h]
    exact ⟨hs.small i (ha _ h),hs.nonzero i (ha _ h),
      fun j hj hact he => hj (hs.distinct j i hact (ha _ h) he)⟩
  · rw [hself]
    intro sb number j h0 hj h1 h2 hf
    obtain ⟨k1,k2,k3,k4⟩ := hasKey_iff.mp h1
    rw [hi _ k1] at k3 k4 hf
    rw [← Bool.not_eq_false]
    exact fun hfj => hj (hs.unique sb number j i h0 h2
      (hasKey_iff.mpr ⟨ha _ k1,hh _ k2,k3,k4⟩) hfj hf)

theorem Registry.recount (inode : Nat) (f : Nat → Nat) :
    Registry (s.onInode inode fun x => { x with count := f x.count }) := by
  apply hs.onInode
  · exact fun _ => rfl
  · exact fun _ => rfl
  · exact fun _ h => h

theorem Registry.released (l : List Nat) : Registry { s with released := l } :=
  ⟨hs.small,hs.distinct,hs.nonzero,hs.unique⟩

theorem registerInode_registry {native : Bool} {slot : Nat} (hlt : slot < inodeMax)
    (hn : inode≠0) (hnew : ∀ i,(s.records i).active=true → (s.records i).inode≠inode)
    (hkey : number≠0 → ∀ i,hasKey s sb number (s.records i)=false) :
    Registry (registerInode native slot inode sb number s) := by
  refine hs.patch slot (fun j hj => by simp [registerInode,hj])
    (fun j _ hact => by simp [registerInode,hnew j hact]) ?_ ?_
  · simp only [registerInode,Function.update_self]
    exact fun _ => ⟨hlt,hn,fun j _ hact => hnew j hact⟩
  · intro sb' number' j h0 _ h1 h2 _
    obtain ⟨_,_,rfl,rfl⟩ := hasKey_iff.mp h1
    simp [registerInode] at h0 h2
    simp [hkey h0 j] at h2

theorem Registry.hash (hfind : inodeAllocationFind s inode=some i)
    (htwin : hashedTwin s inode=false) :
    Registry (s.onRecord i fun r => { r with hashed := true }) := by
  obtain ⟨hlt,hact,rfl⟩ := inodeAllocationFind_some hfind
  have halone : ∀ j,j≠i → (s.records j).active=true →
      (s.records j).inode≠(s.records i).inode :=
    fun j hj hactj he => hj (hs.distinct j i hactj hact he)
  refine hs.patch i (fun j hj => by simp [InodeState.onRecord,hj]) (fun _ _ _ => rfl) ?_ ?_
  · simp only [InodeState.onRecord,Function.update_self]
    exact fun _ => ⟨hlt,hs.nonzero i hact,halone⟩
  · -- whoever has the key of the new one is going away
    intro sb number j _ hj h1 h2 _
    obtain ⟨_,_,rfl,rfl⟩ := hasKey_iff.mp h1
    simp only [InodeState.onRecord,Function.update_self] at h2
    exact hashedTwin_false hs htwin h2 (halone j hj (hasKey_iff.mp h2).1)

end

/-- A lookup by number meets no inode of that key without references or with the greatest count; an
inode is numbered before it is hashed. -/
def InodeCall.Fits (s : InodeState) : InodeCall → Prop
  | .igetLocked sb number => number≠0 → ∀ i,hasKey s sb number (s.records i)=true →
      (s.inodes (s.records i).inode).count≠0 ∧ (s.inodes (s.records i).inode).count≠countMax
  | .findByIno sb number => ∀ i,hasKey s sb number (s.records i)=true →
      (s.inodes (s.records i).inode).freeing=false → (s.inodes (s.records i).inode).count≠0
  | .setNumber inode _ => ∀ i,(s.records i).active=true → (s.records i).inode=inode →
      (s.records i).hashed=false
  | _ => True

def InodeRunFits (env : InodeEnv) : List InodeCall → InodeState → Prop
  | [],_ => True
  | c::calls,s => c.Fits s ∧ InodeRunFits env calls (c.run env s)

def KeepsRegistry (env : InodeEnv) : Prop := ∀ c s,Registry s → Registry (env.after c s)

section

variable {env : InodeEnv} {s t : InodeState} {sb number inode slot : Nat}

section

variable (hs : Registry s)

include hs

theorem insertInodeLocked_registry {inode : Nat} : Registry (insertInodeLocked inode s).2 := by
  unfold insertInodeLocked
  split
  · exact hs
  split
  · exact hs
  · next htwin =>
    split
    · exact hs
    · next i hi => exact hs.hash hi (Bool.not_eq_true _ ▸ htwin)

theorem ihold_registry {inode : Nat} : Registry (ihold inode s) := by
  unfold ihold
  split
  · exact hs
  · split
    · exact hs.recount inode (·+1)
    · exact hs

theorem igrab_registry {inode : Nat} : Registry (igrab inode s).2 := by
  unfold igrab
  split
  · exact hs
  · split
    · exact hs
    · exact hs.recount inode (·+1)

theorem clearDirtyMetadata_registry {inode : Nat} : Registry (clearDirtyMetadata inode s) := by
  unfold clearDirtyMetadata
  split
  · exact hs
  · exact hs.onRecord _ (fun _ h => h) (fun _ _ => rfl) fun _ h => h

theorem markInodeFreeing_registry (inode : Nat) : Registry (markInodeFreeing inode s) := by
  unfold markInodeFreeing
  split
  · exact hs
  · exact hs.onInode inode (fun _ => rfl) (fun _ => rfl) fun _ h => nomatch h

theorem iputDropped_registry (inode : Nat) : Registry (iputDropped inode s) :=
  hs.recount inode (·-1)

theorem clearRecord_registry {i : Nat} :
    Registry (s.onRecord i fun _ => InodeRecord.empty) :=
  hs.onRecord i (fun _ h => nomatch h) (fun _ h => nomatch h) fun _ h => nomatch h

theorem setNumber_registry (hfit : (InodeCall.setNumber inode number).Fits s) :
    Registry (s.onInode inode fun x => { x with number := number }) := by
  refine ⟨hs.small,hs.distinct,hs.nonzero,?_⟩
  have hkey : ∀ {sb number' i},hasKey (s.onInode inode fun x => { x with number := number })
      sb number' (s.records i)=true → (s.records i).inode≠inode := by
    intro sb number' i hi he
    obtain ⟨h1,h2,_⟩ := hasKey_iff.mp hi
    rw [hfit i h1 he] at h2
    cases h2
  intro sb number' i j h0 hi hj hfi hfj
  have h1 := hkey hi
  have h2 := hkey hj
  refine hs.unique sb number' i j h0 ?_ ?_ ?_ ?_
  · simpa [hasKey,InodeState.onInode,h1] using hi
  · simpa [hasKey,InodeState.onInode,h2] using hj
  · simpa [InodeState.onInode,h1] using hfi
  · simpa [InodeState.onInode,h2] using hfj

end

variable (hk : KeepsRegistry env) (hs : Registry s)

include hk hs

theorem Registry.releaseMemory (native destroy : Bool) (sb inode : Nat) :
    Registry (releaseMemory env native destroy sb inode s) := by
  simp only [Vfs.releaseMemory]
  split_ifs
  · exact hs
  · exact hk (.releaseInode sb inode destroy) _ (hs.released _)
  · exact hs.released _

theorem igetLocked_registry (hfit : (InodeCall.igetLocked sb number).Fits s) :
    Registry (igetLocked env sb number s).2 := by
  unfold igetLocked
  split
  · exact hs
  split
  · exact hs.recount _ (·+1)
  next hnone =>
  dsimp only
  split
  · exact hs
  next hn =>
  split
  · exact hs.releaseMemory hk _ _ _ _
  next slot hslot =>
  refine registerInode_registry hs (inodeAllocationClaim_lt hslot) hn
    (fun i hi => env.alloc_fresh sb s hn i (hs.small i hi) hi) ?_
  intro h0 i
  rw [← Bool.not_eq_true]
  intro hi
  obtain ⟨h1,h2⟩ := hfit h0 i hi
  rcases cachedInode_none hs hnone h0 hi with h|h
  · exact h1 h
  · exact h2 h

theorem syncInodeMetadata_registry {inode : Nat} : Registry (syncInodeMetadata env inode s).2 := by
  unfold syncInodeMetadata
  split
  · exact hs
  have hop := hk (.writeInode (s.inodes inode).superBlock inode) s hs
  simp only [InodeEnv.after] at hop
  split
  · exact clearDirtyMetadata_registry hs
  next op h =>
  rw [h] at hop
  dsimp only
  split
  · exact clearDirtyMetadata_registry hop
  · exact hop

theorem iputData_registry (slot : Nat) : Registry (iputData env slot s).2 := by
  unfold iputData
  split
  · exact hs
  · exact hk (.writeback _) s hs

theorem iputMarked_registry (slot inode : Nat) : Registry (iputMarked env slot inode s) := by
  refine markInodeFreeing_registry ?_ inode
  have hdrop := iputDropped_registry hs inode
  have hdata := iputData_registry hk hdrop slot
  unfold iputWritten
  split
  · exact hdrop
  · dsimp only
    split
    · exact syncInodeMetadata_registry hk hdata
    · exact hdata

theorem iputEvicted_registry {slot inode : Nat} : Registry (iputEvicted env slot inode s) := by
  have hmark := iputMarked_registry hk hs slot inode
  have hop := hk (.evictInode ((iputMarked env slot inode s).inodes inode).superBlock inode) _ hmark
  simp only [InodeEnv.after] at hop
  simp only [iputEvicted]
  split
  · exact hmark
  · next op h =>
    rw [h] at hop
    exact hop

theorem freeFakeInode_registry {inode : Nat} : Registry (freeFakeInode env inode s) := by
  unfold freeFakeInode
  split
  · exact hs
  · split
    · exact hs.released _
    · exact (clearRecord_registry hs).releaseMemory hk _ _ _ _

theorem iput_registry {inode : Nat} : Registry (iput env inode s) := by
  unfold iput
  split
  · exact hs
  split
  · exact hs
  · split
    · exact iputDropped_registry hs inode
    · exact freeFakeInode_registry hk (iputEvicted_registry hk hs)

theorem inodeRun_registry {c : InodeCall} (hfit : c.Fits s) :
    Registry (c.run env s) := by
  cases c with
  | igetLocked sb number => exact igetLocked_registry hk hs hfit
  | newInode sb => exact igetLocked_registry hk hs fun h => absurd rfl h
  | insertInodeLocked inode => exact insertInodeLocked_registry hs
  | ihold inode => exact ihold_registry hs
  | igrab inode => exact igrab_registry hs
  | iput inode => exact iput_registry hk hs
  | findByIno sb number => exact hs
  | setNumber inode number => exact setNumber_registry hs hfit
  | setLinks inode nlink =>
    simp only [InodeCall.run]
    apply hs.onInode
    · exact fun _ => rfl
    · exact fun _ => rfl
    · exact fun _ h => h
  | markDirty inode =>
    simp only [InodeCall.run]
    split
    · exact hs
    · exact hs.onRecord _ (fun _ h => h) (fun _ _ => rfl) fun _ h => h
  | setCache cache => exact ⟨hs.small,hs.distinct,hs.nonzero,hs.unique⟩

theorem runInodeCalls_registry {calls : List InodeCall}
    (hfit : InodeRunFits env calls s) : Registry (runInodeCalls env calls s) := by
  induction calls generalizing s with
  | nil => exact hs
  | cons c calls ih => exact ih (inodeRun_registry hk hs hfit.1) hfit.2

end

/-- Callbacks that reach the registry by runs of calls that fit, with callbacks of their own. -/
inductive ReentrantFs : InodeEnv → Prop
  | intro {env : InodeEnv} (inner : InodeCallback → InodeState → InodeEnv)
      (calls : InodeCallback → InodeState → List InodeCall)
      (nested : ∀ c s,calls c s≠[] → ReentrantFs (inner c s))
      (does : ∀ c s,env.after c s=runInodeCalls (inner c s) (calls c s) s)
      (fits : ∀ c s,Registry s → InodeRunFits (inner c s) (calls c s) s) : ReentrantFs env

theorem ReentrantFs.keepsRegistry {env : InodeEnv} (h : ReentrantFs env) : KeepsRegistry env := by
  induction h with
  | intro inner calls nested does fits ih =>
    intro c s hs
    rw [does]
    by_cases hnil : calls c s=[]
    · rw [hnil]
      exact hs
    · exact runInodeCalls_registry (ih c s hnil) hs (fits c s hs)

/-- The callbacks that a call of `iput` makes, each with the state in which it is called. -/
inductive Enters (env : InodeEnv) (inode : Nat) (s : InodeState) :
    InodeCallback → InodeState → Prop
  | writeback {slot : Nat} : inodeAllocationFind s inode=some slot → (s.inodes inode).count=1 →
      (s.inodes inode).nlink≠0 → (s.records slot).mapping≠0 →
      Enters env inode s (.writeback (s.records slot).mapping) (iputDropped inode s)
  | writeInode {slot : Nat} : inodeAllocationFind s inode=some slot → (s.inodes inode).count=1 →
      (s.inodes inode).nlink≠0 → (iputData env slot (iputDropped inode s)).1=0 →
      Enters env inode s
        (.writeInode ((iputData env slot (iputDropped inode s)).2.inodes inode).superBlock inode)
        (iputData env slot (iputDropped inode s)).2
  | evictInode {slot : Nat} : inodeAllocationFind s inode=some slot → (s.inodes inode).count=1 →
      Enters env inode s (.evictInode ((iputMarked env slot inode s).inodes inode).superBlock inode)
        (iputMarked env slot inode s)
  | releaseInode {slot i : Nat} : inodeAllocationFind s inode=some slot → (s.inodes inode).count=1 →
      inodeAllocationFind (iputEvicted env slot inode s) inode=some i →
      Enters env inode s
        (.releaseInode ((iputEvicted env slot inode s).inodes inode).superBlock inode true)
        { (iputEvicted env slot inode s).onRecord i fun _ => InodeRecord.empty with
          released := (iputEvicted env slot inode s).released++[inode] }

theorem Enters.registry {env : InodeEnv} (hk : KeepsRegistry env) {inode : Nat}
    {s x : InodeState} {c : InodeCallback} (hs : Registry s) (h : Enters env inode s c x) :
    Registry x := by
  cases h with
  | writeback => exact iputDropped_registry hs inode
  | writeInode => exact iputData_registry hk (iputDropped_registry hs inode) _
  | evictInode => exact iputMarked_registry hk hs _ inode
  | releaseInode =>
    exact (clearRecord_registry (iputEvicted_registry hk hs)).released _

/-- In every run whose calls fit, one hashed inode a key is not going away; `iget_locked` gives a
referenced or new inode, `find_inode_by_ino_rcu` a referenced one. -/
theorem inodes_identified (env : InodeEnv) (henv : ReentrantFs env) (s : InodeState)
    (hs : Registry s) (calls : List InodeCall) (hfit : InodeRunFits env calls s) :
    let t := runInodeCalls env calls s
    Registry t ∧
    (∀ inode c x,Enters env inode t c x → Registry x) ∧
    (∀ sb number,number≠0 → (InodeCall.igetLocked sb number).Fits t →
      (igetLocked env sb number t).1≠0 →
      (∃ i,hasKey t sb number (t.records i)=true ∧
        (t.records i).inode=(igetLocked env sb number t).1 ∧
        (t.inodes (t.records i).inode).count≠0) ∨
      ((∀ i,hasKey t sb number (t.records i)=false) ∧
        ((igetLocked env sb number t).2.inodes (igetLocked env sb number t).1).count=1)) ∧
    ∀ sb number,(InodeCall.findByIno sb number).Fits t → findInodeByInoRcu t sb number≠0 →
      ∃ i,hasKey t sb number (t.records i)=true ∧
        (t.records i).inode=findInodeByInoRcu t sb number ∧
        (t.inodes (t.records i).inode).count≠0 := by
  intro t
  have hk := henv.keepsRegistry
  have ht : Registry t := runInodeCalls_registry hk hs hfit
  refine ⟨ht,fun inode c x h => h.registry hk ht,?_,?_⟩
  · intro sb number h0 hget hne
    unfold igetLocked at hne ⊢
    split at hne
    · exact absurd rfl hne
    next hsb =>
    rw [if_neg hsb]
    cases hc : cachedInode t sb number with
    | some i =>
      obtain ⟨_,h1,h2,_⟩ := cachedInode_some hc
      exact Or.inl ⟨i,h1,rfl,h2⟩
    | none =>
      rw [hc] at hne
      refine Or.inr ⟨?_,?_⟩
      · intro i
        rw [← Bool.not_eq_true]
        intro hi
        obtain ⟨h1,h2⟩ := hget h0 i hi
        rcases cachedInode_none ht hc h0 hi with h|h
        · exact h1 h
        · exact h2 h
      · dsimp only at hne ⊢
        split at hne
        · exact absurd rfl hne
        next hn =>
        rw [if_neg hn]
        cases hslot : inodeAllocationClaim t with
        | none =>
          rw [hslot] at hne
          exact absurd rfl hne
        | some slot => simp [registerInode]
  · intro sb number hfind hne
    unfold findInodeByInoRcu at hne ⊢
    split at hne
    · exact absurd rfl hne
    next hsb =>
    rw [if_neg hsb]
    split at hne
    · next i hi =>
      obtain ⟨_,hp⟩ := find?_range_some hi
      simp only [Bool.and_eq_true,Bool.not_eq_true'] at hp
      exact ⟨i,hp.1.1,rfl,hfind i hp.1.1 hp.2⟩
    · exact absurd rfl hne

theorem noInodes_registry : Registry noInodes := by
  refine ⟨?_,?_,?_,?_⟩
  · intro i h
    cases h
  · intro i j h
    cases h
  · intro i h
    cases h
  · intro sb number i j _ h
    cases h

/-- No inode of the key is without references or at the greatest count. -/
@[irreducible] def lookupFits (s : InodeState) (sb number : Nat) : Bool :=
  (List.range inodeMax).all fun i => !hasKey s sb number (s.records i) ||
    ((s.inodes (s.records i).inode).count≠0 && (s.inodes (s.records i).inode).count≠countMax)

theorem lookupFits_fits {s : InodeState} {sb number : Nat} (hs : Registry s)
    (h : lookupFits s sb number=true) : (InodeCall.igetLocked sb number).Fits s := by
  intro _ i hi
  unfold lookupFits at h
  have hp := List.all_eq_true.mp h i (List.mem_range.mpr (hs.small i (hasKey_iff.mp hi).1))
  simpa [hi] using hp

/-- A file system that looks inode 7 up while it writes back, where no inode of that number is going
away. -/
def neighbourFs : InodeEnv := { plainFs with
  writeback := fun _ s => (0,if lookupFits s 4096 7 then (igetLocked plainFs 4096 7 s).2 else s) }

def neighbourCalls (c : InodeCallback) (s : InodeState) : List InodeCall :=
  match c with
  | .writeback _ => if lookupFits s 4096 7 then [.igetLocked 4096 7] else []
  | _ => []

theorem plainFs_reentrant : ReentrantFs plainFs :=
  .intro (fun _ _ => plainFs) (fun _ _ => []) (fun _ _ h => absurd rfl h)
    (fun c _ => by cases c <;> rfl) fun _ _ _ => trivial

theorem neighbourFs_reentrant : ReentrantFs neighbourFs := by
  refine .intro (fun _ _ => plainFs) neighbourCalls (fun _ _ _ => plainFs_reentrant) ?_ ?_
  · intro c s
    cases c with
    | writeback mapping =>
      simp only [InodeEnv.after,neighbourFs,neighbourCalls]
      split <;> rfl
    | _ => rfl
  · intro c s hs
    cases c with
    | writeback mapping =>
      simp only [neighbourCalls]
      split
      · next h => exact ⟨lookupFits_fits hs h,trivial⟩
      · trivial
    | _ => trivial

/-- Inode 5 is looked up twice and put twice, the second time for good. -/
def lookupRun : List InodeCall :=
  [.igetLocked 4096 5,.igetLocked 4096 5,.setLinks 65536 1,.iput 65536,.iput 65536]

theorem lookupRun_fits : InodeRunFits neighbourFs lookupRun noInodes := by
  have hfirst : (InodeCall.igetLocked 4096 5).Fits noInodes := by
    intro _ i h
    cases h
  have hs := igetLocked_registry neighbourFs_reentrant.keepsRegistry noInodes_registry hfirst
  exact ⟨hfirst,lookupFits_fits hs (by decide +kernel),trivial,trivial,trivial,trivial⟩

theorem inodes_identified_neighbour : Registry (runInodeCalls neighbourFs lookupRun noInodes) ∧
    (runInodeCalls neighbourFs (lookupRun.take 2) noInodes).inodes 65536=⟨4096,5,2,0,false⟩ ∧
    (runInodeCalls neighbourFs lookupRun noInodes).released=[65536] ∧
    ((runInodeCalls neighbourFs lookupRun noInodes).records 0).active=false ∧
    (runInodeCalls neighbourFs lookupRun noInodes).records 1=⟨true,true,false,131072,132096,false⟩ ∧
    (runInodeCalls neighbourFs lookupRun noInodes).inodes 131072=⟨4096,7,1,0,false⟩ :=
  ⟨(inodes_identified neighbourFs neighbourFs_reentrant noInodes noInodes_registry lookupRun
    lookupRun_fits).1,by decide +kernel⟩

/-- A lookup during the writeback of a final `iput` passes the inode over and makes a second one. -/
theorem iput_makes_twin :
    let s := runInodeCalls lookupFs [.igetLocked 4096 5,.setLinks 65536 1] noInodes
    let x := iputDropped 65536 s
    let y := (lookupFs.writeback (s.records 0).mapping x).2
    (x.inodes 65536).count=0 ∧ findInodeByInoRcu x 4096 5=65536 ∧
    hasKey y 4096 5 (y.records 0)=true ∧ hasKey y 4096 5 (y.records 1)=true ∧
    (y.inodes (y.records 0).inode).freeing=false ∧
    (y.inodes (y.records 1).inode).freeing=false ∧
    (y.inodes (y.records 0).inode).count=0 := by
  decide +kernel

end Kobox.Vfs
