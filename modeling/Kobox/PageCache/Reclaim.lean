import Kobox.PageCache.Core

namespace Kobox.PageCache

open List Or
open Fs (enomem)

/-- The folio of a slot is dirty, being written, locked or referenced by somebody. -/
def BusyAt (s : PageState) (i : Nat) : Prop :=
  let f := s.folios (s.records i).folio
  f.flags.dirty=true ∨ f.flags.writeback=true ∨ f.flags.locked=true ∨ 1 < f.refcount

/-- Whoever holds the lock of a cached folio holds a reference, or the folio is to be written. -/
def LockedHeld (s : PageState) : Prop :=
  ∀ i,(s.records i).active=true → (s.folios (s.records i).folio).flags.locked=true →
    (s.folios (s.records i).folio).flags.dirty=true ∨
    (s.folios (s.records i).folio).flags.writeback=true ∨
    1<(s.folios (s.records i).folio).refcount

/-- A slot holds the folio that it held, under the same key. -/
structure SameSlot (s t : PageState) (i : Nat) : Prop where
  active : (t.records i).active=(s.records i).active
  mapping : (t.records i).mapping=(s.records i).mapping
  index : (t.records i).index=(s.records i).index
  folio : (t.records i).folio=(s.records i).folio

/-- A callback empties and fills no slot, and leaves a folio that nobody refers to so and unlocked. -/
structure Leaves (s t : PageState) : Prop where
  slots : ∀ i,SameSlot s t i
  refs : ∀ i,(s.records i).active=true → (s.folios (s.records i).folio).refcount≤1 →
    (t.folios (t.records i).folio).refcount≤1
  locked : LockedHeld s → LockedHeld t

open Leaves

structure Courteous (env : PageEnv) : Prop where
  shrink : ∀ gfp s,Leaves s (env.shrink gfp s)
  writepages : ∀ m op,env.writepages m=some op → ∀ start stop s,Leaves s (op start stop s).2
  drain : ∀ s,Leaves s (env.drain s).2

/-- All slots are in use, as the search for one finds them. -/
structure Full (s : PageState) : Prop where
  active : ∀ i<folioCacheMax,(s.records i).active=true
  used : ∀ i,(s.records i).active=true → (s.records i).mapping≠0 ∧ (s.records i).folio≠0
  distinct : ∀ i j,(s.records i).active=true → (s.records j).active=true →
    (s.records i).folio=(s.records j).folio → i=j
  locked : LockedHeld s

/-- The key is not cached, may be created, and all slots are in use. -/
structure Pressed (s : PageState) (mapping index fgp : Nat) : Prop where
  uncached : mapping≠0 ∧ findKey s mapping index=none
  creat : fgpCreat fgp=true
  full : ∀ i<folioCacheMax,(s.records i).active=true

/-- A call took the folio of this slot out of the cache. -/
def DiscardedAt (s t : PageState) (i : Nat) : Prop := (s.records i).active=true ∧ ¬SameSlot s t i

section

variable (env : PageEnv) {s t : PageState} {mapping index i : Nat}

theorem SameSlot.trans {u : PageState} (h : SameSlot s t i) (k : SameSlot t u i) : SameSlot s u i :=
  ⟨k.active.trans h.active,k.mapping.trans h.mapping,k.index.trans h.index,k.folio.trans h.folio⟩

theorem SameSlot.of_eq (h : t.records i=s.records i) : SameSlot s t i := by
  constructor <;> rw [h]

theorem Leaves.refl (s : PageState) : Leaves s s :=
  ⟨fun _ => .of_eq rfl,fun _ _ h => h,fun h => h⟩

theorem Leaves.trans {u : PageState} (h : Leaves s t) (k : Leaves t u) : Leaves s u := by
  refine ⟨fun i => (h.slots i).trans (k.slots i),?_,fun hl => k.locked (h.locked hl)⟩
  intro i hi hr
  exact k.refs i ((h.slots i).active.trans hi) (h.refs i hi hr)

theorem Full.leaves (hs : Full s) (h : Leaves s t) : Full t := by
  refine ⟨?_,?_,?_,h.locked hs.locked⟩
  · intro i hi
    rw [(h.slots i).active]
    exact hs.active i hi
  · intro i hi
    rw [(h.slots i).active] at hi
    rw [(h.slots i).mapping,(h.slots i).folio]
    exact hs.used i hi
  · intro i j hi hj he
    rw [(h.slots i).active] at hi
    rw [(h.slots j).active] at hj
    rw [(h.slots i).folio,(h.slots j).folio] at he
    exact hs.distinct i j hi hj he

theorem refreshMarks_leaves {m : Nat} {s : PageState} :
    Leaves s (filemapMappingRefreshMarks m s) := by
  unfold filemapMappingRefreshMarks
  split
  · exact refl s
  · exact ⟨fun _ => .of_eq rfl,fun _ _ h => h,fun h => h⟩

theorem writeVictim_leaves (hc : Courteous env) (i : Nat) (s : PageState) :
    Leaves s (writeVictim env i s).2 := by
  unfold writeVictim
  split
  · unfold filemapWritebackRange
    split
    · exact refl s
    split
    · exact refl s
    split
    · exact refl s
    · next op hop =>
      exact ((hc.writepages _ op hop _ _ s).trans (hc.drain _)).trans (refreshMarks_leaves)
  · exact refl s

def passOver (mapping index : Nat) (s : PageState) (i : Nat) : PageState :=
  if skips s false mapping index i then s else (writeVictim env i s).2

theorem passOver_leaves (hc : Courteous env) (mapping index : Nat) (s : PageState) (i : Nat) :
    Leaves s (passOver env mapping index s i) := by
  unfold passOver
  split
  · exact refl s
  · exact writeVictim_leaves env hc i s

theorem passOvers_leaves (hc : Courteous env) (mapping index : Nat) (slots : List Nat)
    (s : PageState) : Leaves s (slots.foldl (passOver env mapping index) s) := by
  induction slots generalizing s with
  | nil => exact refl s
  | cons i slots ih => exact (passOver_leaves env hc mapping index s i).trans (ih _)

/-- A slot's folio is busy, its writeback failed, or it is busy behind its writeback. -/
def PassedOver (s : PageState) (i : Nat) : Prop :=
  BusyAt s i ∨ (writeVictim env i s).1≠0 ∨ BusyAt (writeVictim env i s).2 i

def Victim.Idle (v : Victim) : Prop :=
  v.state.flags.dirty=false ∧ v.state.flags.writeback=false ∧ v.state.flags.locked=false ∧
    v.state.refcount≤1

/-- The folio of a slot was idle and is discarded; every other slot keeps its folio. -/
structure Takes (s t : PageState) (v : Victim) : Prop where
  idle : v.Idle
  slot : v.slot<folioCacheMax
  folio : v.folio=(s.records v.slot).folio
  others : ∀ j,j≠v.slot → SameSlot s t j

theorem Takes.behind {u : PageState} {v : Victim} (h : Leaves s t) (k : Takes t u v) : Takes s u v :=
  ⟨k.idle,k.slot,k.folio.trans (h.slots _).folio,fun j hj => (h.slots j).trans (k.others j hj)⟩

theorem LockedHeld.idle (hs : LockedHeld s) (hi : (s.records i).active=true)
    (hd : (s.folios (s.records i).folio).flags.dirty=false)
    (hw : (s.folios (s.records i).folio).flags.writeback=false)
    (hr : (s.folios (s.records i).folio).refcount≤1) :
    (Victim.mk i (s.records i).folio (s.folios (s.records i).folio)).Idle := by
  refine ⟨hd,hw,?_,hr⟩
  rw [← Bool.not_eq_true]
  intro hl
  rcases hs i hi hl with h|h|h
  · rw [hd] at h
    cases h
  · rw [hw] at h
    cases h
  · omega

theorem Full.discard (hs : Full s) (hi : i<folioCacheMax) :
    (filemapFolioDiscard env (s.records i).folio s).records=
      Function.update s.records i FolioRecord.empty := by
  have hact := hs.active i hi
  obtain ⟨hm,hf⟩ := hs.used i hact
  have hfind : filemapFolioRecord s (s.records i).folio=some i := by
    unfold filemapFolioRecord
    rw [if_neg hf]
    cases hk : (range folioCacheMax).find? _ with
    | none => simpa [hact] using find?_range_none hk hi
    | some j =>
      obtain ⟨-,hp⟩ := find?_range_some hk
      rw [Bool.and_eq_true,beq_iff_eq] at hp
      rw [hs.distinct j i hp.1 hact hp.2]
  simp only [filemapFolioDiscard,if_neg hf,forgetFolio,hfind,filemapRefreshXarrayHead,
    filemapMappingRefreshMarks,if_neg hm,unrefFolio,PageState.onFolio,PageState.onMapping,
    PageState.onRecord]
  split_ifs <;> rfl

theorem Full.takes (hs : Full s) (hi : i<folioCacheMax)
    (hd : (s.folios (s.records i).folio).flags.dirty=false)
    (hw : (s.folios (s.records i).folio).flags.writeback=false)
    (hr : (s.folios (s.records i).folio).refcount≤1) :
    Takes s (filemapFolioDiscard env (s.records i).folio s)
      ⟨i,(s.records i).folio,s.folios (s.records i).folio⟩ := by
  refine ⟨hs.locked.idle (hs.active i hi) hd hw hr,hi,rfl,fun j hj => .of_eq ?_⟩
  rw [hs.discard env hi]
  exact Function.update_of_ne hj _ _

theorem reclaimClean_takes (hs : Full s) {v : Victim}
    (h : (reclaimClean env false mapping index s).1=some v) :
    Takes s (reclaimClean env false mapping index s).2 v := by
  unfold reclaimClean at h ⊢
  split at h
  · cases h
  next i hi =>
  obtain ⟨hlt,hp⟩ := find?_range_some hi
  cases h
  simp [reclaimable,keeps] at hp
  exact hs.takes env hlt hp.1.2 hp.2 hp.1.1.2

theorem Full.skips (hs : Full s) (hi : i<folioCacheMax) : skips s false mapping index i=true ↔
      1<(s.folios (s.records i).folio).refcount ∨
        (s.folios (s.records i).folio).flags.writeback=true := by
  obtain ⟨h1,h2⟩ := hs.used i (hs.active i hi)
  simp [PageCache.skips,keeps,hs.active i hi,h1,h2]

theorem reclaimDirty_spec (hc : Courteous env) (hs : Full s) {slots : List Nat}
    (hslots : ∀ i∈slots,i<folioCacheMax) :
    (∀ v,(reclaimDirty env false mapping index slots s).1=some v →
      Takes s (reclaimDirty env false mapping index slots s).2 v) ∧
    ((reclaimDirty env false mapping index slots s).1=none →
      (reclaimDirty env false mapping index slots s).2=slots.foldl (passOver env mapping index) s ∧
      ∀ pre i post,slots=pre++i::post →
        PassedOver env (pre.foldl (passOver env mapping index) s) i) := by
  induction slots generalizing s with
  | nil =>
    refine ⟨?_,fun _ => ⟨rfl,?_⟩⟩
    · intro v h
      cases h
    · intro pre i post h
      cases pre <;> cases h
  | cons i slots ih =>
    have hi := hslots i mem_cons_self
    have hpass := passOver_leaves env hc mapping index s i
    obtain ⟨ih1,ih2⟩ := ih (hs.leaves hpass) fun j hj => hslots j (mem_cons_of_mem _ hj)
    -- what the rest of the scan says, once slot i is passed over
    have hlater : PassedOver env s i →
        (∀ v,(reclaimDirty env false mapping index slots (passOver env mapping index s i)).1=some v →
          Takes s (reclaimDirty env false mapping index slots (passOver env mapping index s i)).2 v) ∧
        ((reclaimDirty env false mapping index slots (passOver env mapping index s i)).1=none →
          (reclaimDirty env false mapping index slots (passOver env mapping index s i)).2=
            (i::slots).foldl (passOver env mapping index) s ∧
          ∀ pre j post,i::slots=pre++j::post →
            PassedOver env (pre.foldl (passOver env mapping index) s) j) := by
      intro hthis
      refine ⟨fun v hv => (ih1 v hv).behind hpass,fun hnone => ⟨(ih2 hnone).1,?_⟩⟩
      intro pre j post he
      cases pre with
      | nil =>
        cases he
        exact hthis
      | cons k pre =>
        obtain ⟨hk,htail⟩ := cons.inj he
        subst hk
        exact (ih2 hnone).2 pre j post htail
    unfold reclaimDirty
    by_cases hskip : skips s false mapping index i=true
    · have hsame : passOver env mapping index s i=s := by rw [passOver,if_pos hskip]
      rw [hsame] at hlater
      rw [if_pos hskip]
      refine hlater (inl ?_)
      rcases (hs.skips hi).mp hskip with h|h
      · exact inr (inr (inr h))
      · exact inr (inl h)
    · have hsame : passOver env mapping index s i=(writeVictim env i s).2 := by
        rw [passOver,if_neg hskip]
      have hleave := writeVictim_leaves env hc i s
      rw [hsame] at hlater
      have hfull := hs.leaves hleave
      have hcount : ¬1<(s.folios (s.records i).folio).refcount := fun h =>
        hskip ((hs.skips hi).mpr (inl h))
      have hrefs := hleave.refs i (hs.active i hi) (by omega)
      dsimp only
      split_ifs with h1 h2 h3
      · exact hlater (inr (inl h1))
      · exact absurd h2 (hfull.used i (hfull.active i hi)).2
      · refine hlater (inr (inr ?_))
        rcases h3 with h|h
        · exact inl h
        · exact inr (inl h)
      · refine ⟨?_,fun h => nomatch h⟩
        rintro v ⟨⟩
        rw [not_or,Bool.not_eq_true,Bool.not_eq_true] at h3
        exact (hfull.takes env hi h3.1 h3.2 hrefs).behind hleave

theorem reclaimClean_none {u : PageState}
    (h : reclaimClean env false mapping index s=(none,u)) : u=s := by
  unfold reclaimClean at h
  split at h <;> cases h
  rfl

theorem reclaim_takes (hc : Courteous env) (hs : Full s) {gfp : Nat} {v : Victim}
    (hv : (reclaim env false mapping index gfp s).1=some v) :
    Takes s (reclaim env false mapping index gfp s).2 v := by
  have hshrink := hc.shrink gfp s
  have hfull := hs.leaves hshrink
  unfold reclaim at hv ⊢
  split at hv
  · next w u h =>
    cases hv
    have htakes := reclaimClean_takes env hfull (congrArg Prod.fst h)
    rw [h] at htakes
    exact htakes.behind hshrink
  next u h =>
  obtain rfl := reclaimClean_none env h
  exact ((reclaimDirty_spec env hc hfull fun i hi => mem_range.mp hi).1 v hv).behind hshrink

theorem allocFolioPage_records : (allocFolioPage env s).2.records=s.records := by
  unfold allocFolioPage
  split
  · rfl
  · split <;> rfl

/-- A new folio changes no slot but its own. -/
theorem insertFolio_others {slot fgp folio : Nat} (h : i≠slot) :
    SameSlot s (insertFolio slot mapping index fgp folio s) i := by
  apply SameSlot.of_eq
  unfold insertFolio filemapRefreshXarrayHead
  split_ifs <;> exact Function.update_of_ne h _ _

/-- What a lookup that creates does behind the claim of a slot. -/
theorem getFolio_others {fgp gfp slot : Nat} (hm : mapping≠0) (hkey : findKey s mapping index=none)
    (hcreat : fgpCreat fgp=true) (hclaim : claimFolioSlot env false mapping index gfp s=(some slot,t))
    (h : i≠slot) : SameSlot t (filemapGetFolio env mapping index fgp gfp s).2 i := by
  have halloc : SameSlot t (allocFolioPage env t).2 i := .of_eq (by rw [allocFolioPage_records])
  simp only [filemapGetFolio,filemapGetFolioInternal,if_neg hm,hkey,hcreat,hclaim,Bool.not_true,
    Bool.false_eq_true,if_false]
  split_ifs
  · exact halloc
  · exact halloc.trans (insertFolio_others h)

theorem Full.claim (hs : Full s) (mapping index gfp : Nat) :
    claimFolioSlot env false mapping index gfp s=((reclaim env false mapping index gfp s).1.map Victim.slot,
      (reclaim env false mapping index gfp s).2) := by
  unfold claimFolioSlot
  have hnone : ((range folioCacheMax).find? fun i => !(s.records i).active)=none := by
    rw [find?_eq_none]
    intro i hi
    simp [hs.active i (mem_range.mp hi)]
  rw [hnone]

/-- Out of slots every one was passed over, from the first on. -/
theorem reclaim_none (hc : Courteous env) (hs : Full s) {gfp : Nat}
    (hnone : (reclaim env false mapping index gfp s).1=none) :
    Leaves s (reclaim env false mapping index gfp s).2 ∧ ∀ i<folioCacheMax,PassedOver env
      ((List.range i).foldl (passOver env mapping index) (env.shrink gfp s)) i := by
  have hshrink := hc.shrink gfp s
  have hfull := hs.leaves hshrink
  unfold reclaim at hnone ⊢
  split at hnone
  · cases hnone
  next u h =>
  obtain rfl := reclaimClean_none env h
  obtain ⟨hstate,hpassed⟩ :=
    (reclaimDirty_spec env hc hfull fun i hi => mem_range.mp hi).2 hnone
  rw [hstate]
  refine ⟨hshrink.trans (passOvers_leaves env hc mapping index _ _),fun i hi => ?_⟩
  refine hpassed (range i) i ((range (folioCacheMax-i-1)).map (i+1+·)) ?_
  have hsplit : folioCacheMax=(i+1)+(folioCacheMax-i-1) := by omega
  conv_lhs => rw [hsplit]
  rw [range_add,range_succ,append_assoc]
  rfl

end

/-- A page cache with a clean folio in every slot, the first of them locked or not. -/
def fullPages (locked : Bool) : PageState := { freshPages with
  pages := fun p => if p<folioCacheMax then .head 0 else .free
  folios := fun f => ⟨⟨locked && f==4096,false,false,false,false⟩,8192,(f-4096)/64,1⟩
  records := fun i => if i<folioCacheMax then ⟨true,8192,i,4096+i*64,false⟩ else FolioRecord.empty
  mappings := fun _ => ⟨folioCacheMax,4096,false,false,false⟩ }

theorem fullPages_record {locked : Bool} {i : Nat}
    (hi : ((fullPages locked).records i).active=true) :
    i<folioCacheMax ∧ (fullPages locked).records i=⟨true,8192,i,4096+i*64,false⟩ := by
  by_cases hlt : i<folioCacheMax
  · exact ⟨hlt,if_pos hlt⟩
  · have he : (fullPages locked).records i=FolioRecord.empty := if_neg hlt
    rw [he] at hi
    cases hi

theorem fullPages_core {locked : Bool} : Core stillEnv.base (fullPages locked) := by
  refine ⟨fun i hi => (fullPages_record hi).1,?_,?_,?_,?_,fun _ _ => le_rfl,?_⟩
  · intro i hi
    by_cases hlt : i<folioCacheMax
    · have he : (fullPages locked).records i=⟨true,8192,i,4096+i*64,false⟩ := if_pos hlt
      rw [he] at hi
      cases hi
    · exact if_neg hlt
  · intro i hi
    rw [(fullPages_record hi).2]
    simp
  · intro i j hi hj he
    rw [(fullPages_record hi).2,(fullPages_record hj).2] at he
    simp at he
    exact he
  · intro i hi
    rw [(fullPages_record hi).2]
    refine ⟨rfl,?_⟩
    show (4096+i*64-4096)/64=i
    omega
  · intro i hi
    obtain ⟨hlt,hrec⟩ := fullPages_record hi
    have hmax : folioCacheMax≤Kvm.pageRecordMax := by decide
    have hused : (fullPages locked).pages i=.head 0 := if_pos hlt
    rw [hrec]
    refine ⟨i,Kvm.PageArena.indexOf_pageAt stillEnv.base (lt_of_lt_of_le hlt hmax),?_⟩
    rw [hused]
    simp

end Kobox.PageCache
