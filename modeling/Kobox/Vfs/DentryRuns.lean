import Kobox.Vfs.DentryRefs

namespace Kobox.Vfs

open List Function

open PageCache (lowOrErrPointer)
open DentryState

def outside (s : DentryState) : List Nat := s.handles++(s.files.map OpenFile.dentry++s.releasing)

structure DentryInv (s : DentryState) : Prop where
  keeps : Keeps s (outside s)
  writers : ∀ inode,s.writecount inode=s.writers inode

section

variable {s t : DentryState} {d : Nat}

theorem SameRest.outside (h : SameRest s t) : Vfs.outside t=Vfs.outside s := by
  simp [Vfs.outside,h.files,h.releasing,h.handles]

theorem SameRest.writers (h : SameRest s t) (hs : DentryInv s) :
    ∀ inode,t.writecount inode=t.writers inode := by
  intro inode
  rw [h.writecount,hs.writers inode,DentryState.writers,DentryState.writers,h.files]

/-- What a call returns is a dentry with one more reference, or nothing happened to the table. -/
def Obtains (s : DentryState) (q : Nat × DentryState) : Prop :=
  SameRest s q.2 ∧ (lowOrErrPointer q.1=true ∧ Keeps q.2 (outside s) ∨
    lowOrErrPointer q.1=false ∧ Keeps q.2 (q.1::outside s))

theorem Obtains.inv {q : Nat × DentryState} (hs : DentryInv s) (h : Obtains s q) :
    DentryInv (obtained q) := by
  obtain ⟨hsame,⟨hlow,hk⟩ | ⟨hlow,hk⟩⟩ := h
  · rw [obtained,if_pos hlow]
    refine ⟨?_,hsame.writers hs⟩
    rw [hsame.outside]
    exact hk
  · rw [obtained,if_neg (by simp [hlow])]
    refine ⟨?_,hsame.writers hs⟩
    rw [← hsame.outside] at hk
    exact hk

theorem Obtains.nothing (hs : DentryInv s) {a : Nat} (ha : lowOrErrPointer a=true) :
    Obtains s (a,s) := ⟨⟨rfl,rfl,rfl,rfl⟩,.inl ⟨ha,hs.keeps⟩⟩

theorem Keeps.address_low {out : List Nat} (h : Keeps s out) {r : Dentry} (hr : r∈s.records) :
    lowOrErrPointer r.address=false := (h.shaped r hr).1

variable {inode : Nat} {calloc : Option Nat}

section

variable (hs : DentryInv s)

include hs

theorem dMakeRoot_obtains (hfresh : Fresh (s.records.map Dentry.address) calloc) :
    Obtains s (s.dMakeRoot inode calloc) := by
  unfold dMakeRoot
  split
  · exact .nothing hs lowOrErrPointer_zero
  cases calloc with
  | none => exact .nothing hs lowOrErrPointer_zero
  | some d =>
    obtain ⟨hlow,hnew⟩ := hfresh d rfl
    dsimp only
    cases hc : s.claim d d inode false with
    | none => exact .nothing hs lowOrErrPointer_zero
    | some t =>
      obtain ⟨hk,hsame⟩ := hs.keeps.claim_root hlow hnew hc
      exact ⟨hsame,.inr ⟨hlow,hk⟩⟩

theorem dAllocLen_obtains {parent : Nat} {named room : Bool}
    (hparent : parent=0 ∨ (s.find parent).isSome=true)
    (hfresh : Fresh (s.records.map Dentry.address) calloc)
    (hmax : ∀ r∈s.records,r.refcount<countSize-1) :
    Obtains s (s.dAllocLen parent named room calloc) := by
  unfold dAllocLen
  split
  · exact .nothing hs lowOrErrPointer_zero
  next hok =>
  have hsome : (s.find parent).isSome=true := hparent.resolve_left fun h0 => hok (.inl h0)
  cases calloc with
  | none => exact .nothing hs lowOrErrPointer_zero
  | some d =>
    obtain ⟨hlow,hnew⟩ := hfresh d rfl
    dsimp only
    rw [hsome]
    split
    · exact .nothing hs lowOrErrPointer_zero
    cases hc : s.claim d parent 0 true with
    | none => exact .nothing hs lowOrErrPointer_zero
    | some t =>
      obtain ⟨hk,hsame⟩ := hs.keeps.claim_child hlow hnew hsome hmax hc
      exact ⟨hsame,.inr ⟨hlow,hk⟩⟩

section

variable (hmax : ∀ r∈s.records,r.refcount<countSize-1)

include hmax

theorem dFindAnyAlias_obtains (inode : Nat) : Obtains s (s.dFindAnyAlias inode) := by
  unfold dFindAnyAlias
  split
  · exact .nothing hs lowOrErrPointer_zero
  cases hf : s.records.find? (fun r => decide (r.inode=inode)) with
  | none => exact .nothing hs lowOrErrPointer_zero
  | some r =>
    have hmem : r∈s.records := mem_of_find?_eq_some hf
    exact ⟨⟨rfl,rfl,rfl,rfl⟩, .inr ⟨hs.keeps.address_low hmem,hs.keeps.counted hf (hmax r hmem)⟩⟩

theorem dObtainAlias_obtains (hinode : inode=0 ∨ errPtr 4095 ≤ inode ∨ lowOrErrPointer inode=false)
    (hfresh : Fresh (s.records.map Dentry.address) calloc) :
    Obtains s (s.dObtainAlias inode calloc) := by
  have herr : ∀ a,errPtr 4096≤a → lowOrErrPointer a=true := by
    intro a ha
    have hlarge : 2^64-4096≤a := ha
    simp only [lowOrErrPointer,hlarge,decide_true,Bool.or_true,Bool.true_or]
  unfold dObtainAlias
  split
  · exact .nothing hs (herr _ (by decide))
  next h0 =>
  split
  · next hlarge => exact .nothing hs (herr _ (by unfold errPtr at hlarge ⊢; omega))
  next hsmall =>
  have hlow : lowOrErrPointer inode=false := (hinode.resolve_left h0).resolve_left hsmall
  have hfind := dFindAnyAlias_obtains hs hmax inode
  unfold dFindAnyAlias at hfind ⊢
  rw [if_neg (by simp [hlow])] at hfind ⊢
  cases hf : s.records.find? (fun r => decide (r.inode=inode)) with
  | some r =>
    rw [hf] at hfind
    have hmem : r∈s.records := mem_of_find?_eq_some hf
    have hne : r.address≠0 := fun he => by
      have hr := hs.keeps.address_low hmem
      rw [he] at hr
      cases hr
    split
    · next heq => exact absurd (Prod.mk.inj heq).1 hne
    · next heq => exact (Prod.mk.inj heq).1 ▸ (Prod.mk.inj heq).2 ▸ hfind
  | none =>
    cases calloc with
    | none => exact .nothing hs (herr _ (by decide))
    | some d =>
      obtain ⟨hd,hnew⟩ := hfresh d rfl
      simp only []
      cases hc : s.claim d d (if lowOrErrPointer inode=true then 0 else inode) false with
      | none => exact .nothing hs (herr _ (by decide))
      | some t =>
        obtain ⟨hk,hsame⟩ := hs.keeps.claim_root hd hnew hc
        exact ⟨hsame,.inr ⟨hd,hk⟩⟩

theorem dgetParent_obtains {d : Nat} : Obtains s (s.dgetParent d) := by
  unfold dgetParent
  cases s.find d with
  | none => exact .nothing hs lowOrErrPointer_zero
  | some r =>
    dsimp only
    cases hp : s.find r.parent with
    | none => exact .nothing hs lowOrErrPointer_zero
    | some p =>
      have hmem : p∈s.records := mem_of_find?_eq_some hp
      have hlow := hs.keeps.address_low hmem
      rw [find_address hp] at hlow
      exact ⟨⟨rfl,rfl,rfl,rfl⟩,.inr ⟨hlow,hs.keeps.count hp (hmax p hmem)⟩⟩

end

omit hs in
theorem pathGet_counts {out : List Nat} (hk : Keeps s out)
    (hmax : ∀ r∈s.records,r.refcount<countSize-1) (hd : (s.find d).isSome=true) :
    s.pathGet d=s.count d ∧ Keeps (s.pathGet d) (d::out) := by
  obtain ⟨r,hr⟩ := Option.isSome_iff_exists.mp hd
  have hlt := hmax r (mem_of_find?_eq_some hr)
  have hget : s.pathGet d=s.count d := by
    unfold pathGet
    rw [hr]
    exact if_pos (by omega)
  rw [hget]
  exact ⟨rfl,hk.count hr hlt⟩

theorem pathGet_obtains (hmax : ∀ r∈s.records,r.refcount<countSize-1) (hd : (s.find d).isSome=true) :
    Obtains s (d,s.pathGet d) := by
  obtain ⟨hget,hk⟩ := pathGet_counts hs.keeps hmax hd
  obtain ⟨r,hr⟩ := Option.isSome_iff_exists.mp hd
  have hlow := hs.keeps.address_low (mem_of_find?_eq_some hr)
  rw [find_address hr] at hlow
  refine ⟨?_,.inr ⟨hlow,hk⟩⟩
  rw [hget]
  exact count_sameRest

omit hs in
theorem dropped_inv {u : DentryState} (hwriters : ∀ inode,s.writecount inode=s.writers inode)
    (h : ∃ up,Keeps u (up++outside s) ∧ u.releasing=up++s.releasing ∧ u.files=s.files ∧
      u.writecount=s.writecount ∧ u.handles=s.handles) : DentryInv u := by
  obtain ⟨up,hk,hrel,hfiles,hcount,hhandles⟩ := h
  refine ⟨hk.perm ?_,fun inode => ?_⟩
  · simp only [outside,hrel,hfiles,hhandles]
    apply perm_iff_count.mpr
    simp only [count_append]
    omega
  · rw [hcount,hwriters inode,DentryState.writers,DentryState.writers,hfiles]

theorem erased_keeps (hd : d∈s.handles) : Keeps {s with handles := s.handles.erase d}
      (d::outside {s with handles := s.handles.erase d}) := by
  refine Keeps.perm (s := {s with handles := s.handles.erase d}) hs.keeps ?_
  exact (perm_cons_erase hd).append_right _

theorem dput_inv (hd : d∈s.handles) : DentryInv ({s with handles := s.handles.erase d}.dput d) :=
  dropped_inv (s := {s with handles := s.handles.erase d}) hs.writers (erased_keeps hs hd).dput

theorem pathPut_inv (hd : d∈s.handles) :
    DentryInv ({s with handles := s.handles.erase d}.pathPut d) :=
  dropped_inv (s := {s with handles := s.handles.erase d}) hs.writers (erased_keeps hs hd).pathPut

theorem unwind_inv : DentryInv s.unwind := by
  unfold unwind
  cases hrel : s.releasing with
  | nil => exact hs
  | cons p ps =>
    have hk : Keeps {s with releasing := ps} (p::outside {s with releasing := ps}) := by
      refine Keeps.perm (s := {s with releasing := ps}) hs.keeps ?_
      simp only [outside,hrel]
      apply perm_iff_count.mpr
      simp only [count_append,count_cons]
      omega
    exact dropped_inv (s := {s with releasing := ps}) hs.writers hk.dput

theorem dInstantiate_inv (hneg : d=0 ∨ ∃ r∈s.find d,r.inode=0) :
    DentryInv (s.dInstantiate d inode) := by
  unfold dInstantiate
  split
  · exact hs
  next hok =>
  simp only [not_or,Bool.not_eq_true] at hok
  obtain ⟨r,hr,hzero⟩ := hneg.resolve_left hok.1
  rw [hr]
  obtain ⟨rest,hold,hchange⟩ := find_change hr
  refine ⟨?_,hs.writers⟩
  have htable := (TableOk.perm hs.keeps hold (Perm.refl _)).instantiate hzero hok.2
  exact htable.perm (hchange fun r => some {r with inode := inode,hashed := true}).symm
    (Perm.refl _)

end

variable {file : OpenFile} {f : Nat}

theorem file_split (hf : s.files.find? (fileAt f)=some file) :
    s.files.Perm (file::s.files.eraseP (fileAt f)) := unlink_perm hf

theorem writers_split {rest : List OpenFile} (h : s.files.Perm (file::rest)) {inode : Nat} :
    s.writers inode=rest.countP (fun file => file.writer && file.inode=inode)+
      if file.writer=true ∧ file.inode=inode then 1 else 0 := by
  unfold DentryState.writers
  rw [h.countP_eq,countP_cons]
  simp

theorem phase_inv (hs : DentryInv s) (hf : s.files.find? (fileAt f)=some file) {phase : FilePhase} :
    DentryInv {s with files := {file with phase := phase}::s.files.eraseP (fileAt f)} := by
  have hsplit := file_split hf
  refine ⟨?_,fun inode => ?_⟩
  · refine Keeps.perm (s := {s with files := _}) hs.keeps ?_
    exact (((hsplit.map OpenFile.dentry).append_right _).append_left _)
  · rw [hs.writers inode,writers_split hsplit]
    simp [DentryState.writers,countP_cons]

theorem fileGone_inv (hs : DentryInv s) (hf : s.files.find? (fileAt f)=some file) :
    DentryInv (({s with files := s.files.eraseP (fileAt f)}.dropWriter file).pathPut file.dentry) := by
  have hsplit := file_split hf
  obtain ⟨u,hu⟩ : ∃ u,{s with files := s.files.eraseP (fileAt f)}.dropWriter file=u := ⟨_,rfl⟩
  have hrest : u.files=s.files.eraseP (fileAt f) ∧ u.handles=s.handles ∧ u.releasing=s.releasing ∧
      u.slots=s.slots ∧ u.given=s.given ∧ u.released=s.released ∧ u.made=s.made := by
    rw [← hu,dropWriter]
    split <;> exact ⟨rfl,rfl,rfl,rfl,rfl,rfl,rfl⟩
  obtain ⟨hfiles,hhandles,hrel,hslots,hgiven,hreleased,hmade⟩ := hrest
  have hwriters : ∀ inode,u.writecount inode=u.writers inode := by
    intro inode
    have hold := hs.writers inode
    rw [writers_split hsplit] at hold
    rw [DentryState.writers,← hu,dropWriter]
    by_cases hw : file.writer=true
    · by_cases hi : file.inode=inode
      · subst hi
        rw [if_pos ⟨hw,rfl⟩] at hold
        rw [if_pos ⟨hw,by dsimp only; omega⟩]
        simp only [update_self]
        omega
      · rw [if_neg (by simp [hi])] at hold
        split
        · simpa [update_of_ne (Ne.symm hi)] using hold
        · exact hold
    · rw [if_neg (by simp [hw])] at hold
      rw [if_neg (by simp [hw])]
      exact hold
  have hk : Keeps u (file.dentry::outside u) := by
    have hkeeps := hs.keeps
    simp only [Keeps,records] at hkeeps ⊢
    rw [hslots,hgiven,hreleased,hmade]
    refine hkeeps.perm (Perm.refl _) ?_
    simp only [outside,hfiles,hhandles,hrel]
    apply perm_iff_count.mpr
    intro a
    have hc := (hsplit.map OpenFile.dentry).count_eq a
    simp only [count_append,map_cons,count_cons] at hc ⊢
    omega
  rw [hu]
  exact dropped_inv hwriters hk.pathPut

theorem openReturns_inv (hs : DentryInv s) {f : Nat} {status : Int} :
    DentryInv (s.openReturns f status) := by
  unfold openReturns
  cases hf : s.files.find? (fileAt f) with
  | none => exact hs
  | some file =>
    dsimp only
    split
    · exact phase_inv hs hf
    · exact fileGone_inv hs hf

theorem fileClose_inv (hs : DentryInv s) {f : Nat} : DentryInv (s.fileClose f).2 := by
  unfold fileClose
  split
  · exact hs
  cases hf : s.files.find? (fileAt f) with
  | none => exact hs
  | some file =>
    dsimp only
    split
    · exact phase_inv hs hf
    · exact hs

theorem closeReturns_inv (hs : DentryInv s) {f : Nat} : DentryInv (s.closeReturns f) := by
  unfold closeReturns
  cases hf : s.files.find? (fileAt f) with
  | none => exact hs
  | some file => exact fileGone_inv hs hf

theorem newFile_inv {u : DentryState} (hsame : SameRest s u) (hs : DentryInv s)
    (hk : Keeps u (d::outside s)) {f inode : Nat} {writer : Bool} :
    DentryInv {u with
      files := ⟨f,d,inode,writer,.opening⟩::u.files,
      writecount := if writer then update u.writecount inode (u.writecount inode+1)
        else u.writecount} := by
  refine ⟨?_,fun i => ?_⟩
  · rw [← hsame.outside] at hk
    refine Keeps.perm (s := {u with files := _,writecount := _}) hk ?_
    simp only [outside]
    apply perm_iff_count.mpr
    simp only [map_cons,count_append,count_cons]
    omega
  · have hold := hsame.writers hs i
    simp only [DentryState.writers] at hold ⊢
    cases writer with
    | false => simpa using hold
    | true =>
      by_cases hi : i=inode
      · subst hi
        simp [hold]
      · simp [update_of_ne hi,hold,Ne.symm hi]

theorem fileOpen_inv (hs : DentryInv s) (hmax : ∀ r∈s.records,r.refcount<countSize-1)
    {i : OpenInput} (hd : lowOrErrPointer d=true ∨ (s.find d).isSome=true) :
    DentryInv (s.fileOpen i d).2 := by
  unfold fileOpen
  split
  · exact hs
  next hargs =>
  have hsome : (s.find d).isSome=true := by
    refine hd.resolve_left fun hlow => hargs ?_
    exact .inr (.inl hlow)
  cases i.calloc with
  | none => exact hs
  | some f =>
    dsimp only
    unfold finishOpen
    split
    · exact hs
    dsimp only
    split
    · exact hs
    obtain ⟨hget,hk⟩ := pathGet_counts hs.keeps hmax hsome
    have hsame : SameRest s (s.pathGet d) := by
      rw [hget]
      exact count_sameRest
    split
    · have hk' : Keeps (s.pathGet d) (d::outside (s.pathGet d)) := by
        rw [hsame.outside]
        exact hk
      exact dropped_inv (hsame.writers hs) hk'.pathPut
    · exact newFile_inv hsame hs hk

theorem step_inv (hs : DentryInv s) {m : DentryMove} (hp : Proper s m) (hc : Countable s m) :
    DentryInv (s.step m) := by
  cases m with
  | makeRoot inode calloc => exact (dMakeRoot_obtains hs hp).inv hs
  | alloc parent named room calloc => exact (dAllocLen_obtains hs hp.1 hp.2 hc).inv hs
  | instantiate d inode => exact dInstantiate_inv hs hp
  | findAnyAlias inode => exact (dFindAnyAlias_obtains hs hc inode).inv hs
  | obtainAlias inode calloc => exact (dObtainAlias_obtains hs hc hp.1 hp.2).inv hs
  | getParent d => exact (dgetParent_obtains hs hc).inv hs
  | pathGet d => exact (pathGet_obtains hs hc hp).inv hs
  | pathPut d => exact pathPut_inv hs hp
  | dput d =>
    by_cases hd : d∈s.handles
    · exact dput_inv hs hd
    · obtain rfl : d=0 := hp.resolve_right hd
      simp only [step,erase_of_not_mem hd]
      exact hs
  | unwind => exact unwind_inv hs
  | fileOpen i d => exact fileOpen_inv hs hc hp.1
  | openReturns f status => exact openReturns_inv hs
  | fileClose f => exact fileClose_inv hs
  | closeReturns f => exact closeReturns_inv hs

end

theorem start_inv : DentryInv start := by
  have hrecords : start.records=[] := inUse_replicate
  refine ⟨?_,fun inode => rfl⟩
  unfold Keeps
  rw [hrecords]
  refine ⟨Tallied.nil,fun r hr => absurd hr (not_mem_nil),?_⟩
  refine ⟨Perm.refl _,nodup_nil,nodup_nil,fun p hp => ?_,fun p hp => ?_⟩ <;> cases hp

theorem DentryInv.kept {s : DentryState} (h : DentryInv s) : DentriesKept s := by
  have hmem : ∀ d,(s.find d).isSome=true ↔ d∈s.references := by
    intro d
    rw [find_isSome,← map_node_key,h.keeps.tallied.mem_iff,ups_node]
    rfl
  refine ⟨hmem,fun r hr => ?_,fun file hf => ?_,⟨?_,h.keeps.ledger.once⟩,h.writers⟩
  · obtain ⟨-,⟨hheld,-⟩ | ⟨-,hself⟩⟩ := h.keeps.shaped r hr
    · rw [hmem]
      refine mem_append_right _ (mem_map.mpr ⟨r,?_,rfl⟩)
      exact mem_filter.mpr ⟨hr,hheld⟩
    · rw [find_isSome,hself]
      exact mem_map_of_mem hr
  · rw [hmem]
    have hin : file.dentry∈s.files.map OpenFile.dentry := mem_map_of_mem hf
    simp only [references,mem_append]
    exact .inl (.inr (.inl hin))
  · have hperm := h.keeps.ledger.perm
    rw [filter_map] at hperm
    exact hperm

/-- In every run of calls in which no count comes to its largest value, references are conserved. -/
theorem dentries_kept (moves : List DentryMove)
    (h : Meets DentryState.step (fun s m => Proper s m ∧ Countable s m) start moves) (n : Nat) :
    DentriesKept (runAll DentryState.step start (moves.take n)) := by
  have hstep : ∀ s m,DentryInv s → Proper s m ∧ Countable s m → DentryInv (s.step m) :=
    fun s m hs hm => step_inv hs hm.1 hm.2
  exact (runAll_invariant hstep start_inv (h.take n)).kept

/-- A file on a new child is opened for writing and closed, the child dropped in between. -/
def openMoves : List DentryMove :=
  [.makeRoot 0x8000 (some 0x4000),.alloc 0x4000 true true (some 0x5000),.instantiate 0x5000 0x9000,
    .fileOpen ⟨0x7000,3,true,some 0x6000,true,true,true⟩ 0x5000,.findAnyAlias 0x9000,
    .openReturns 0x6000 0,.dput 0x5000,.dput 0x4000,.pathPut 0x5000,.fileClose 0x6000,
    .closeReturns 0x6000,.unwind,.obtainAlias 0x9000 (some 0x5000)]

theorem dentries_kept_openMoves :
    (runAll DentryState.step start openMoves).released=[(0,0x8000),(1,0x9000)] ∧
      ∀ n,DentriesKept (runAll DentryState.step start (openMoves.take n)) :=
  ⟨by decide +kernel,dentries_kept openMoves (by decide +kernel)⟩

/-- The root alone, with n references more than the one it was made with. -/
def crowded (n : Nat) : DentryState where
  slots := some ⟨0x4000,0x4000,0x8000,(n+1)%countSize,false,false,0⟩::
    List.replicate (dentryAllocationMax-1) none
  files := []
  writecount := fun _ => 0
  releasing := []
  handles := List.replicate (n+1) 0x4000
  made := 1
  given := [(0,0x8000)]
  released := []

def crowdMoves (n : Nat) : List DentryMove :=
  .makeRoot 0x8000 (some 0x4000)::(List.replicate n (.getParent 0x4000)++[.dput 0x4000])

theorem crowded_records {n : Nat} :
    (crowded n).records=[⟨0x4000,0x4000,0x8000,(n+1)%countSize,false,false,0⟩] := by
  simp [records,crowded]

theorem crowded_find (n : Nat) :
    (crowded n).find 0x4000=some ⟨0x4000,0x4000,0x8000,(n+1)%countSize,false,false,0⟩ := by
  simp [find,crowded_records,isAt]

theorem makeRoot_crowded : start.step (.makeRoot 0x8000 (some 0x4000))=crowded 0 := by
  rfl

theorem getParent_crowded {n : Nat} : (crowded n).step (.getParent 0x4000)=crowded (n+1) := by
  have hlow : lowOrErrPointer 0x4000=false := by decide
  simp only [step,dgetParent,crowded_find,Option.isSome_some,if_true,obtained,hlow]
  simp [DentryState.count,crowded,changeSlot,isAt,replicate_succ]

theorem crowd_meets (n k : Nat) : Meets DentryState.step Proper (crowded k)
      (replicate n (.getParent 0x4000)++[.dput 0x4000]) := by
  induction n generalizing k with
  | zero => exact ⟨.inr (by simp [crowded]),trivial⟩
  | succ n ih =>
    refine ⟨trivial,?_⟩
    rw [getParent_crowded]
    exact ih (k+1)

theorem crowd_run (n k : Nat) :
    runAll DentryState.step (crowded k) (replicate n (.getParent 0x4000)++[.dput 0x4000])=
      (crowded (k+n)).step (.dput 0x4000) := by
  induction n generalizing k with
  | zero => rfl
  | succ n ih =>
    rw [replicate_succ,cons_append,runAll_cons,getParent_crowded,ih (k+1)]
    congr 2
    omega

/-- Once the count has come round to 0, the next dput frees the dentry. -/
theorem crowd_freed {n : Nat} (h : (n+1)%countSize=0) :
    ((crowded n).step (.dput 0x4000)).find 0x4000=none ∧
      ((crowded n).step (.dput 0x4000)).handles=replicate n 0x4000 := by
  obtain ⟨u,hu⟩ : ∃ u,{crowded n with handles := (crowded n).handles.erase 0x4000}=u := ⟨_,rfl⟩
  have hfind : u.find 0x4000=some ⟨0x4000,0x4000,0x8000,0,false,false,0⟩ := by
    have hf := crowded_find n
    rw [h] at hf
    rw [← hu]
    exact hf
  have hslots : u.slots=some ⟨0x4000,0x4000,0x8000,0,false,false,0⟩::
      replicate (dentryAllocationMax-1) none := by
    rw [← hu]
    simp [crowded,h]
  have hhandles : u.handles=replicate n 0x4000 := by
    rw [← hu]
    simp [crowded]
  have hstep : (crowded n).step (.dput 0x4000)=u.dput 0x4000 := by
    rw [← hu]
    rfl
  rw [hstep]
  simp only [dput,hfind]
  refine ⟨?_,hhandles⟩
  simp [find,records,hslots,changeSlot,isAt]

/-- The root gets references until its count wraps; one dput then frees it under all others. -/
theorem wrapped_count_frees : Meets DentryState.step Proper start (crowdMoves (countSize-1)) ∧
      ¬DentriesKept (runAll DentryState.step start (crowdMoves (countSize-1))) := by
  obtain ⟨n,hn⟩ : ∃ n,countSize-1=n := ⟨_,rfl⟩
  have hwrap : (n+1)%countSize=0 := by rw [← hn]; decide
  have hpos : 0<n := by rw [← hn]; decide
  rw [hn]
  constructor
  · refine ⟨fun a ha => ?_,?_⟩
    · obtain rfl : 0x4000=a := by simpa using ha
      refine ⟨by decide,?_⟩
      rw [show start.records=[] from inUse_replicate]
      simp
    · exact crowd_meets n 0
  · intro hkept
    obtain ⟨hfreed,hhandles⟩ := crowd_freed hwrap
    have hrun : runAll step start (crowdMoves n)=(crowded n).step (.dput 0x4000) := by
      rw [crowdMoves,runAll_cons,makeRoot_crowded,crowd_run n 0,Nat.zero_add]
    rw [hrun] at hkept
    have halive := (hkept.alive 0x4000).mpr (by
      simp only [references,hhandles,mem_append,mem_replicate]
      exact .inl (.inl ⟨hpos.ne',trivial⟩))
    rw [hfreed] at halive
    cases halive

end Kobox.Vfs
