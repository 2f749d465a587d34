import Kobox.PageCache.State

namespace Kobox.PageCache

open List Function Or
open Kvm (ArenaBase)
open Kvm.PageArena (indexOf pageAt)

/-- One record a folio, and folios that know where they belong and are referenced and stored. -/
structure Core (base : ArenaBase) (s : PageState) : Prop where
  small : ∀ i,(s.records i).active=true → i<folioCacheMax
  blank : ∀ i,(s.records i).active=false → s.records i=FolioRecord.empty
  used : ∀ i,(s.records i).active=true → (s.records i).mapping≠0 ∧ (s.records i).folio≠0
  folios : ∀ i j,(s.records i).active=true → (s.records j).active=true →
    (s.records i).folio=(s.records j).folio → i=j
  linked : ∀ i,(s.records i).active=true →
    (s.folios (s.records i).folio).mapping=(s.records i).mapping ∧
      (s.folios (s.records i).folio).index=(s.records i).index
  refs : ∀ i,(s.records i).active=true → 1≤(s.folios (s.records i).folio).refcount
  stored : ∀ i,(s.records i).active=true →
    ∃ p,indexOf base (s.records i).folio=some p ∧ s.pages p≠.free

/-- What code that leaves the structure of the page cache alone may do. -/
structure Untouched (base : ArenaBase) (s t : PageState) : Prop where
  records : ∀ i,t.records i={ s.records i with towrite := (t.records i).towrite }
  inactive : ∀ i,(s.records i).active=false → t.records i=s.records i
  counts : ∀ m,(t.mappings m).nrpages=(s.mappings m).nrpages
  heads : ∀ m,(t.mappings m).head=(s.mappings m).head
  linked : ∀ i,(s.records i).active=true →
    (t.folios (s.records i).folio).mapping=(s.folios (s.records i).folio).mapping ∧
      (t.folios (s.records i).folio).index=(s.folios (s.records i).folio).index
  refs : ∀ i,(s.records i).active=true → 1≤(s.folios (s.records i).folio).refcount →
    1≤(t.folios (s.records i).folio).refcount
  stored : ∀ i,(s.records i).active=true → ∀ p,indexOf base (s.records i).folio=some p →
    s.pages p≠.free → t.pages p≠.free
  entries : t.entries=s.entries

section

variable {base : ArenaBase} {s t : PageState}

theorem Untouched.refl (base : ArenaBase) (s : PageState) : Untouched base s s :=
  ⟨fun _ => rfl,fun _ _ => rfl,fun _ => rfl,fun _ => rfl,fun _ _ => ⟨rfl,rfl⟩,fun _ _ h => h,
    fun _ _ _ _ h => h,rfl⟩

section

variable (h : Untouched base s t)

include h

theorem Untouched.active (i : Nat) :
    (t.records i).active=(s.records i).active := by rw [h.records i]

theorem Untouched.folio (i : Nat) : (t.records i).folio=(s.records i).folio := by rw [h.records i]

theorem Untouched.mapping (i : Nat) :
    (t.records i).mapping=(s.records i).mapping := by rw [h.records i]

theorem Untouched.index (i : Nat) : (t.records i).index=(s.records i).index := by rw [h.records i]

end

variable {u : PageState}

theorem Untouched.trans (h : Untouched base s t) (k : Untouched base t u) : Untouched base s u := by
  refine ⟨?_,?_,fun m => (k.counts m).trans (h.counts m),fun m => (k.heads m).trans (h.heads m),
    ?_,?_,?_,k.entries.trans h.entries⟩
  · intro i
    rw [k.records i,h.records i]
  · intro i hi
    rw [k.inactive i (by rw [h.active]; exact hi),h.inactive i hi]
  · intro i hi
    have hk := k.linked i (by rw [h.active]; exact hi)
    have hh := h.linked i hi
    rw [h.folio] at hk
    exact ⟨hk.1.trans hh.1,hk.2.trans hh.2⟩
  · intro i hi hr
    have hk := k.refs i (by rw [h.active]; exact hi)
    rw [h.folio] at hk
    exact hk (h.refs i hi hr)
  · intro i hi p hp hu
    have hk := k.stored i (by rw [h.active]; exact hi) p
    rw [h.folio] at hk
    exact hk hp (h.stored i hi p hp hu)

theorem Core.untouched (hs : Core base s) (h : Untouched base s t) : Core base t := by
  refine ⟨?_,?_,?_,?_,?_,?_,?_⟩
  · intro i hi
    exact hs.small i (h.active i ▸ hi)
  · intro i hi
    rw [h.active] at hi
    rw [h.inactive i hi,hs.blank i hi]
  · intro i hi
    rw [h.mapping,h.folio]
    exact hs.used i (h.active i ▸ hi)
  · intro i j hi hj
    rw [h.folio,h.folio]
    exact hs.folios i j (h.active i ▸ hi) (h.active j ▸ hj)
  · intro i hi
    have hi := h.active i ▸ hi
    rw [h.folio,h.mapping,h.index,(h.linked i hi).1,(h.linked i hi).2]
    exact hs.linked i hi
  · intro i hi
    have hi := h.active i ▸ hi
    rw [h.folio]
    exact h.refs i hi (hs.refs i hi)
  · intro i hi
    have hi := h.active i ▸ hi
    obtain ⟨p,hp,hu⟩ := hs.stored i hi
    rw [h.folio]
    exact ⟨p,hp,h.stored i hi p hp hu⟩

/-- What leaves the marks and what they stand for alone as well. -/
structure Calm (base : ArenaBase) (s t : PageState) : Prop where
  records : t.records=s.records
  mappings : t.mappings=s.mappings
  entries : t.entries=s.entries
  flags : ∀ i,(s.records i).active=true →
    (t.folios (s.records i).folio).flags.dirty=(s.folios (s.records i).folio).flags.dirty ∧
      (t.folios (s.records i).folio).flags.writeback=(s.folios (s.records i).folio).flags.writeback
  linked : ∀ i,(s.records i).active=true →
    (t.folios (s.records i).folio).mapping=(s.folios (s.records i).folio).mapping ∧
      (t.folios (s.records i).folio).index=(s.folios (s.records i).folio).index
  refs : ∀ i,(s.records i).active=true → 1≤(s.folios (s.records i).folio).refcount →
    1≤(t.folios (s.records i).folio).refcount
  stored : ∀ i,(s.records i).active=true → ∀ p,indexOf base (s.records i).folio=some p →
    s.pages p≠.free → t.pages p≠.free

theorem Calm.untouched (h : Calm base s t) :
    Untouched base s t where
  records := fun i => by rw [h.records]
  inactive := fun i _ => by rw [h.records]
  counts := fun m => by rw [h.mappings]
  heads := fun m => by rw [h.mappings]
  linked := h.linked
  refs := h.refs
  stored := h.stored
  entries := h.entries

theorem Calm.of_cached (hr : t.records=s.records) (hm : t.mappings=s.mappings)
    (he : t.entries=s.entries)
    (hf : ∀ i,(s.records i).active=true → t.folios (s.records i).folio=s.folios (s.records i).folio)
    (hp : ∀ i,(s.records i).active=true → ∀ p,indexOf base (s.records i).folio=some p →
      s.pages p≠.free → t.pages p≠.free) : Calm base s t := by
  refine ⟨hr,hm,he,?_,?_,?_,hp⟩ <;> intro i hi <;> rw [hf i hi]
  · exact ⟨rfl,rfl⟩
  · exact ⟨rfl,rfl⟩
  · exact id

theorem Calm.refl (base : ArenaBase) (s : PageState) : Calm base s s :=
  Calm.of_cached rfl rfl rfl (fun _ _ => rfl) fun _ _ _ _ h => h

theorem Calm.trans (h : Calm base s t) (k : Calm base t u) : Calm base s u := by
  have hu := h.untouched.trans k.untouched
  refine ⟨k.records.trans h.records,k.mappings.trans h.mappings,hu.entries,?_,hu.linked,hu.refs,
    hu.stored⟩
  intro i hi
  have hk := k.flags i (by rw [h.records]; exact hi)
  rw [h.records] at hk
  exact ⟨hk.1.trans (h.flags i hi).1,hk.2.trans (h.flags i hi).2⟩

/-- A page of the arena that the page cache has not, with what stood there at first. -/
def Unowned (base : ArenaBase) (first : Kvm.PageArena) (s : PageState) (p : Nat) : Prop :=
  s.pages p=first p ∧ (s.folios (pageAt base p)).refcount=0 ∧
    s.taken.count (pageAt base p)=s.freed.count (pageAt base p)

/-- A page that was taken once more than it was given back. -/
def Owned (base : ArenaBase) (first : Kvm.PageArena) (s : PageState) (p : Nat) : Prop :=
  first p=.free ∧ s.pages p=.head 0 ∧ 1≤(s.folios (pageAt base p)).refcount ∧
    s.taken.count (pageAt base p)=s.freed.count (pageAt base p)+1

/-- The page cache has exactly the pages that are referenced. -/
def Ledger (base : ArenaBase) (first : Kvm.PageArena) (s : PageState) : Prop :=
  ∀ p<Kvm.pageRecordMax,Owned base first s p ∨ Unowned base first s p

theorem Ledger.congr {first : Kvm.PageArena} (hs : Ledger base first s) (hp : t.pages=s.pages)
    (ht : t.taken=s.taken) (hf : t.freed=s.freed)
    (hr : ∀ p<Kvm.pageRecordMax,(1≤(t.folios (pageAt base p)).refcount ↔
      1≤(s.folios (pageAt base p)).refcount)) : Ledger base first t := by
  intro p hlt
  have hrp := hr p hlt
  unfold Owned Unowned
  rw [hp,ht,hf]
  rcases hs p hlt with ⟨h1,h2,h3,h4⟩|⟨h1,h2,h3⟩
  · exact inl ⟨h1,h2,hrp.mpr h3,h4⟩
  · exact inr ⟨h1,by omega,h3⟩

/-- What keeps the pages accounted for as well. -/
structure Quiet (base : ArenaBase) (s t : PageState) : Prop extends Calm base s t where
  ledger : ∀ first,Ledger base first s → Ledger base first t

theorem Quiet.untouched (h : Quiet base s t) : Untouched base s t := h.toCalm.untouched

theorem Quiet.refl (base : ArenaBase) (s : PageState) : Quiet base s s :=
  ⟨Calm.refl base s,fun _ h => h⟩

theorem Quiet.trans (h : Quiet base s t) (k : Quiet base t u) : Quiet base s u :=
  ⟨h.toCalm.trans k.toCalm,fun first hs => k.ledger first (h.ledger first hs)⟩

theorem Quiet.elsewhere (hr : t.records=s.records) (hm : t.mappings=s.mappings)
    (he : t.entries=s.entries) (hf : t.folios=s.folios) (hp : t.pages=s.pages)
    (ht : t.taken=s.taken) (hg : t.freed=s.freed) : Quiet base s t :=
  ⟨Calm.of_cached hr hm he (fun _ _ => by rw [hf]) (fun _ _ _ _ h => by rw [hp]; exact h),
    fun _ h => h.congr hp ht hg fun _ _ => by rw [hf]⟩

theorem onFolio_cases {s : PageState} {folio : Nat} {f : Folio → Folio} {g : Nat} :
    (s.onFolio folio f).folios g=s.folios g ∨ (s.onFolio folio f).folios g=f (s.folios g) := by
  by_cases hg : g=folio
  · subst hg
    exact inr (by simp [PageState.onFolio])
  · exact inl (by simp [PageState.onFolio,hg])

theorem Quiet.onFolio (s : PageState) (folio : Nat) {f : Folio → Folio}
    (hd : ∀ x,(f x).flags.dirty=x.flags.dirty) (hw : ∀ x,(f x).flags.writeback=x.flags.writeback)
    (hm : ∀ x,(f x).mapping=x.mapping) (hi : ∀ x,(f x).index=x.index)
    (hr : 1≤(f (s.folios folio)).refcount ↔ 1≤(s.folios folio).refcount) :
    Quiet base s (s.onFolio folio f) := by
  have href : ∀ g,1≤((s.onFolio folio f).folios g).refcount ↔ 1≤(s.folios g).refcount := by
    intro g
    by_cases hg : g=folio
    · subst hg
      simpa [PageState.onFolio] using hr
    · simp [PageState.onFolio,hg]
  refine ⟨⟨rfl,rfl,rfl,?_,?_,fun i _ h => (href _).mpr h,fun _ _ _ _ h => h⟩,
    fun first h => h.congr rfl rfl rfl fun p _ => href _⟩
  · intro i _
    rcases onFolio_cases with h|h <;> rw [h]
    · exact ⟨rfl,rfl⟩
    · exact ⟨hd _,hw _⟩
  · intro i _
    rcases onFolio_cases with h|h <;> rw [h]
    · exact ⟨rfl,rfl⟩
    · exact ⟨hm _,hi _⟩

theorem Untouched.onFolio (s : PageState) (folio : Nat) {f : Folio → Folio}
    (hm : ∀ x,(f x).mapping=x.mapping) (hi : ∀ x,(f x).index=x.index)
    (hr : ∀ x,1≤x.refcount → 1≤(f x).refcount) : Untouched base s (s.onFolio folio f) := by
  refine ⟨fun _ => rfl,fun _ _ => rfl,fun _ => rfl,fun _ => rfl,?_,?_,fun _ _ _ _ h => h,rfl⟩
  · intro i _
    rcases onFolio_cases with h|h <;> rw [h]
    · exact ⟨rfl,rfl⟩
    · exact ⟨hm _,hi _⟩
  · intro i _ h1
    rcases onFolio_cases with h|h <;> rw [h]
    · exact h1
    · exact hr _ h1

theorem Untouched.onMapping (s : PageState) (mapping : Nat) {f : Mapping → Mapping}
    (hn : ∀ x,(f x).nrpages=x.nrpages) (hh : ∀ x,(f x).head=x.head) :
    Untouched base s (s.onMapping mapping f) := by
  refine ⟨fun _ => rfl,fun _ _ => rfl,?_,?_,fun _ _ => ⟨rfl,rfl⟩,fun _ _ h => h,fun _ _ _ _ h => h,
    rfl⟩
  all_goals
    intro m
    by_cases hm : m=mapping
    · subst hm
      simp [PageState.onMapping,hn,hh]
    · simp [PageState.onMapping,hm]

theorem refreshMarks_untouched (mapping : Nat) (s : PageState) :
    Untouched base s (filemapMappingRefreshMarks mapping s) := by
  simp only [filemapMappingRefreshMarks]
  split
  · exact Untouched.refl base s
  · exact Untouched.onMapping s mapping (fun _ => rfl) fun _ => rfl

end

variable (env : PageEnv) {s t : PageState} {folio mapping index i : Nat}

theorem folioRecord_some (h : filemapFolioRecord s folio=some i) :
    (s.records i).active=true ∧ (s.records i).folio=folio ∧ i<folioCacheMax := by
  unfold filemapFolioRecord at h
  split at h
  · cases h
  · have hp := find?_some h
    have hm := mem_range.mp (mem_of_find?_eq_some h)
    simp at hp
    exact ⟨hp.1,hp.2,hm⟩

theorem folioRecord_none (hs : Core env.base s) (hf : folio≠0)
    (h : filemapFolioRecord s folio=none) (hi : (s.records i).active=true) :
    (s.records i).folio≠folio := by
  unfold filemapFolioRecord at h
  rw [if_neg hf,find?_eq_none] at h
  have hn := h i (mem_range.mpr (hs.small i hi))
  simp [hi] at hn
  exact hn

theorem Core.folioRecord (hs : Core env.base s) (hi : (s.records i).active=true) :
    filemapFolioRecord s (s.records i).folio=some i := by
  cases h : filemapFolioRecord s (s.records i).folio with
  | none => exact absurd rfl (folioRecord_none env hs (hs.used i hi).2 h hi)
  | some j =>
    obtain ⟨hj,hf,_⟩ := folioRecord_some h
    rw [hs.folios j i hj hi hf]

variable {base : ArenaBase}

theorem indexOf_inj {f g p : Nat} (hf : indexOf base f=some p) (hg : indexOf base g=some p) :
    f=g := by
  unfold indexOf at hf hg
  split at hf
  · cases hf
  split at hg
  · cases hg
  · cases hf
    have he := Option.some.inj hg
    simp only [Kvm.structPageSize] at *
    omega

theorem indexOf_lt {f p : Nat} (h : indexOf base f=some p) : p<Kvm.pageRecordMax := by
  unfold indexOf at h
  split at h
  · cases h
  · cases h
    simp only [Kvm.structPageSize] at *
    omega

theorem unrefFolio_calm (hn : ∀ i,(s.records i).active=true → (s.records i).folio≠folio) :
    Calm env.base s (unrefFolio env folio s) := by
  simp only [unrefFolio]
  split_ifs
  · exact Calm.refl _ s
  · exact Calm.of_cached rfl rfl rfl (fun i hi => by simp [PageState.onFolio,hn i hi])
      fun _ _ _ _ h => h
  refine Calm.of_cached rfl rfl rfl (fun i hi => by simp [PageState.onFolio,hn i hi]) ?_
  intro i hi p hp hu
  show s.pages.releasePages env.base folio 0 p≠.free
  rw [Kvm.PageArena.releasePages_outside]
  · exact hu
  · rintro ⟨q,hq,h1,h2⟩
    have he : p=q := by simp at h2; omega
    subst he
    exact hn i hi (indexOf_inj hp hq)

theorem unrefFolio_ledger {first : Kvm.PageArena} (hs : Ledger env.base first s) :
    Ledger env.base first (unrefFolio env folio s) := by
  simp only [unrefFolio]
  split_ifs with h0 h1
  · exact hs
  · refine hs.congr rfl rfl rfl ?_
    intro p _
    by_cases hg : pageAt env.base p=folio
    · rw [hg]
      simp [PageState.onFolio]
      omega
    · simp [PageState.onFolio,hg]
  · intro p hlt
    have hindex := Kvm.PageArena.indexOf_pageAt env.base hlt
    by_cases hg : folio=pageAt env.base p
    · subst hg
      rcases hs p hlt with ⟨h2,h3,h4,h5⟩|⟨_,h3,_⟩
      · refine inr ⟨?_,?_,?_⟩
        · show s.pages.releasePages env.base (pageAt env.base p) 0 p=first p
          rw [h2,Kvm.PageArena.releasePages,hindex]
          simp only [Kvm.PageArena.releaseIndex]
          rw [if_neg]
          · simp
          · simp only [not_or]
            refine ⟨by decide,by omega,by simp [h3],?_,by simp [Kvm.PageArena.tailRun]⟩
            omega
        · simp [PageState.onFolio]
          omega
        · simp [PageState.onFolio]
          omega
      · exact absurd h3 h0
    · have hout : s.pages.releasePages env.base folio 0 p=s.pages p := by
        rw [Kvm.PageArena.releasePages_outside]
        rintro ⟨q,hq,h2,h3⟩
        have he : p=q := by simp at h3; omega
        subst he
        exact hg (indexOf_inj hq hindex)
      have hne : pageAt env.base p≠folio := fun h => hg h.symm
      have hcount : (s.freed++[folio]).count (pageAt env.base p)=
          s.freed.count (pageAt env.base p) := by simp [hg]
      unfold Owned Unowned
      simp only [PageState.onFolio,hout,hcount,update_of_ne hne]
      exact hs p hlt

theorem unrefFolio_quiet (hn : ∀ i,(s.records i).active=true → (s.records i).folio≠folio) :
    Quiet env.base s (unrefFolio env folio s) :=
  ⟨unrefFolio_calm env hn,fun _ h => unrefFolio_ledger env h⟩

theorem folioPut_quiet (hs : Core env.base s) : Quiet env.base s (folioPut env folio s) := by
  unfold folioPut
  split
  · exact Quiet.refl _ s
  next hf =>
  split
  · refine Quiet.onFolio s folio (fun _ => rfl) (fun _ => rfl) (fun _ => rfl) (fun _ => rfl) ?_
    dsimp only
    split <;> omega
  · next h => exact unrefFolio_quiet env fun i hi => folioRecord_none env hs hf h hi

def without (i : Nat) (s : PageState) : PageState :=
  let m := (s.records i).mapping
  (filemapRefreshXarrayHead m (s.onRecord i fun _ => FolioRecord.empty)).onMapping m fun x =>
    { x with nrpages := if x.nrpages≠0 then x.nrpages-1 else x.nrpages }

section

variable (hi : (s.records i).mapping≠0)

include hi

theorem without_records : (without i s).records=update s.records i FolioRecord.empty := by
  simp only [without,filemapRefreshXarrayHead,if_neg hi]
  rfl

theorem without_active {j : Nat} (hj : ((without i s).records j).active=true) :
    j≠i ∧ (s.records j).active=true ∧ (without i s).records j=s.records j := by
  rw [without_records hi] at hj ⊢
  by_cases he : j=i
  · subst he
    simp [FolioRecord.empty] at hj
  · rw [update_of_ne he] at hj ⊢
    exact ⟨he,hj,rfl⟩

theorem without_folios :
    (without i s).folios=s.folios ∧ (without i s).pages=s.pages ∧
      (without i s).entries=s.entries := by
  simp only [without,filemapRefreshXarrayHead,if_neg hi]
  exact ⟨rfl,rfl,rfl⟩

end

theorem Core.without (hs : Core env.base s) (hi : (s.records i).active=true) :
    Core env.base (without i s) := by
  have hm := (hs.used i hi).1
  have hkeep := fun {j} => without_active (s := s) (i := i) (j := j) hm
  obtain ⟨hfol,hpages,_⟩ := without_folios (s := s) hm
  have hrec := without_records (s := s) hm
  refine ⟨?_,?_,?_,?_,?_,?_,?_⟩
  · intro j hj
    exact hs.small j (hkeep hj).2.1
  · intro j hj
    rw [hrec] at hj ⊢
    by_cases he : j=i
    · rw [he,update_self]
    · rw [update_of_ne he] at hj ⊢
      exact hs.blank j hj
  · intro j hj
    obtain ⟨_,h1,h2⟩ := hkeep hj
    rw [h2]
    exact hs.used j h1
  · intro j k hj hk
    obtain ⟨_,h1,h2⟩ := hkeep hj
    obtain ⟨_,h3,h4⟩ := hkeep hk
    rw [h2,h4]
    exact hs.folios j k h1 h3
  · intro j hj
    obtain ⟨_,h1,h2⟩ := hkeep hj
    rw [h2,hfol]
    exact hs.linked j h1
  · intro j hj
    obtain ⟨_,h1,h2⟩ := hkeep hj
    rw [h2,hfol]
    exact hs.refs j h1
  · intro j hj
    obtain ⟨_,h1,h2⟩ := hkeep hj
    rw [h2,hpages]
    exact hs.stored j h1

theorem discard_steps (hs : Core env.base s) (hf : folio≠0) :
    ∃ u,(u=s ∨ ∃ i,(s.records i).active=true ∧ (s.records i).folio=folio ∧
        u=filemapMappingRefreshMarks (s.records i).mapping (PageCache.without i s)) ∧
      (∀ j,(u.records j).active=true → (u.records j).folio≠folio) ∧
      Quiet env.base u (filemapFolioDiscard env folio s) := by
  have hrest : ∀ u : PageState,(∀ j,(u.records j).active=true → (u.records j).folio≠folio) →
      Quiet env.base u (unrefFolio env folio (u.onFolio folio fun f => { f with mapping := 0 })) := by
    intro u hnone
    have hclear : Quiet env.base u (u.onFolio folio fun f => { f with mapping := 0 }) := by
      refine ⟨Calm.of_cached rfl rfl rfl (fun i hi => by simp [PageState.onFolio,hnone i hi])
        fun _ _ _ _ h => h,fun first h => h.congr rfl rfl rfl ?_⟩
      intro p _
      rcases onFolio_cases with h|h <;>
        rw [h]
    exact hclear.trans (unrefFolio_quiet env hnone)
  unfold filemapFolioDiscard
  rw [if_neg hf]
  cases h : filemapFolioRecord s folio with
  | none =>
    have he : forgetFolio folio s=s := by simp [forgetFolio,h]
    have hnone := fun j (hj : (s.records j).active=true) =>
      folioRecord_none env hs hf h hj
    rw [he]
    exact ⟨s,inl rfl,hnone,hrest s hnone⟩
  | some i =>
    obtain ⟨hi,rfl,_⟩ := folioRecord_some h
    have hm := (hs.used i hi).1
    have hmarks : Untouched env.base (without i s) _ :=
      refreshMarks_untouched (s.records i).mapping (without i s)
    have hforget : forgetFolio (s.records i).folio s=
        filemapMappingRefreshMarks (s.records i).mapping (without i s) := by
      unfold forgetFolio
      rw [h]
      dsimp only
      rw [if_neg hm]
      rfl
    have hnone : ∀ j,((filemapMappingRefreshMarks (s.records i).mapping
        (without i s)).records j).active=true →
        ((filemapMappingRefreshMarks (s.records i).mapping
          (without i s)).records j).folio≠(s.records i).folio := by
      intro j hj
      rw [hmarks.active] at hj
      obtain ⟨hne,hj,hrec⟩ := without_active hm hj
      rw [hmarks.folio,hrec]
      exact fun h0 => hne (hs.folios j i hj hi h0)
    rw [hforget]
    exact ⟨_,inr ⟨i,hi,rfl,rfl⟩,hnone,hrest _ hnone⟩

theorem discard_keeps {I : PageState → Prop} (hs : Core env.base s) (h0 : I s)
    (hgone : ∀ i,(s.records i).active=true →
      I (filemapMappingRefreshMarks (s.records i).mapping (PageCache.without i s)))
    (hq : ∀ u t,Quiet env.base u t → I u → I t) {folio : Nat} :
    I (filemapFolioDiscard env folio s) := by
  by_cases hf : folio=0
  · have he : filemapFolioDiscard env folio s=s := by simp [filemapFolioDiscard,hf]
    rw [he]
    exact h0
  · obtain ⟨u,hu,_,hquiet⟩ := discard_steps env hs hf
    refine hq u _ hquiet ?_
    rcases hu with rfl|⟨i,hi,_,rfl⟩
    · exact h0
    · exact hgone i hi

structure Reduced (s t : PageState) : Prop where
  kept : ∀ j,(t.records j).active=true → (s.records j).active=true ∧
    t.records j={ s.records j with towrite := (t.records j).towrite }
  entries : t.entries=s.entries

theorem Reduced.refl (s : PageState) : Reduced s s := ⟨fun _ h => ⟨h,rfl⟩,rfl⟩

theorem Reduced.trans {u : PageState} (h : Reduced s t) (k : Reduced t u) : Reduced s u := by
  refine ⟨?_,k.entries.trans h.entries⟩
  intro j hj
  obtain ⟨h1,h2⟩ := k.kept j hj
  obtain ⟨h3,h4⟩ := h.kept j h1
  refine ⟨h3,?_⟩
  rw [h2,h4]

theorem Untouched.reduced (h : Untouched base s t) : Reduced s t :=
  ⟨fun j hj => ⟨h.active j ▸ hj,h.records j⟩,h.entries⟩

theorem discard_core (hs : Core env.base s) {folio : Nat} :
    Core env.base (filemapFolioDiscard env folio s) ∧
      Reduced s (filemapFolioDiscard env folio s) ∧
      (folio≠0 → ∀ j,((filemapFolioDiscard env folio s).records j).active=true →
        ((filemapFolioDiscard env folio s).records j).folio≠folio) := by
  by_cases hf : folio=0
  · have he : filemapFolioDiscard env folio s=s := by simp [filemapFolioDiscard,hf]
    rw [he]
    exact ⟨hs,Reduced.refl s,fun h => absurd hf h⟩
  obtain ⟨u,hu,hnone,hquiet⟩ := discard_steps env hs hf
  have hgone : Core env.base u ∧ Reduced s u := by
    rcases hu with rfl|⟨i,hi,_,rfl⟩
    · exact ⟨hs,Reduced.refl _⟩
    have hm := (hs.used i hi).1
    have hmarks : Untouched env.base (without i s) _ :=
      refreshMarks_untouched (s.records i).mapping (without i s)
    have hless : Reduced s (without i s) := by
      refine ⟨?_,(without_folios hm).2.2⟩
      intro j hj
      obtain ⟨_,h1,h2⟩ := without_active hm hj
      exact ⟨h1,by rw [h2]⟩
    exact ⟨(hs.without env hi).untouched hmarks,hless.trans hmarks.reduced⟩
  have hall := hquiet.untouched
  refine ⟨hgone.1.untouched hall,hgone.2.trans hall.reduced,?_⟩
  intro _ j hj
  rw [hall.folio]
  exact hnone j (hall.active j ▸ hj)

theorem discard_slot (hs : Core env.base s) (hf : (s.records i).folio≠0) :
    ((filemapFolioDiscard env (s.records i).folio s).records i).active=false := by
  obtain ⟨_,hless,hnone⟩ := discard_core env hs
  rw [← Bool.not_eq_true]
  intro ha
  have hsame := (hless.kept i ha).2
  apply hnone hf i ha
  rw [hsame]

theorem allocFolioPage_calm (s : PageState) :
    Calm env.base s (allocFolioPage env s).2 ∧
      ((allocFolioPage env s).1=0 → Quiet env.base s (allocFolioPage env s).2) ∧
      ((allocFolioPage env s).1≠0 → ∃ p,indexOf env.base (allocFolioPage env s).1=some p ∧
        s.pages p=.free ∧ (allocFolioPage env s).2.pages p≠.free) := by
  have hcount : Quiet env.base s { s with allocations := s.allocations+1 } :=
    Quiet.elsewhere rfl rfl rfl rfl rfl rfl rfl
  unfold allocFolioPage
  split
  · exact ⟨hcount.toCalm,fun _ => hcount,fun h => absurd rfl h⟩
  split
  · exact ⟨hcount.toCalm,fun _ => hcount,fun h => absurd rfl h⟩
  next p pages hp =>
  obtain ⟨hle,hfree,rfl⟩ := Kvm.PageArena.allocPages_spec hp
  have hne : pageAt env.base p≠0 := by
    have := env.base.recordsPos
    unfold pageAt
    omega
  refine ⟨Calm.of_cached rfl rfl rfl (fun _ _ => rfl) ?_,fun h => absurd h hne,?_⟩
  · intro i hi q hq hu
    show s.pages.mark p 0 q≠.free
    rw [Kvm.PageArena.mark_outside]
    · exact hu
    · exact fun h => hu (hfree q h.1 h.2)
  · intro _
    refine ⟨p,Kvm.PageArena.indexOf_pageAt env.base (by omega),hfree p le_rfl (by omega),?_⟩
    exact Kvm.PageArena.mark_inside _ le_rfl (by omega)

theorem findKey_some (h : findKey s mapping index=some i) :
    i<folioCacheMax ∧ (s.records i).active=true ∧ (s.records i).mapping=mapping ∧
      (s.records i).index=index := by
  obtain ⟨hlt,hp⟩ := find?_range_some h
  simp at hp
  exact ⟨hlt,hp.1.1,hp.1.2,hp.2⟩

theorem findKey_none (hs : Core base s) (h : findKey s mapping index=none)
    (hi : (s.records i).active=true) (hm : (s.records i).mapping=mapping) :
    (s.records i).index≠index := by
  have hp := find?_range_none h (hs.small i hi)
  simp [hi,hm] at hp
  exact hp

structure Insertable (s : PageState) (slot mapping folio : Nat) : Prop where
  small : slot<folioCacheMax
  free : (s.records slot).active=false
  mapped : mapping≠0
  page : folio≠0
  unused : ∀ i,(s.records i).active=true → (s.records i).folio≠folio
  stored : ∃ p,indexOf env.base folio=some p ∧ s.pages p≠.free

variable {slot : Nat}

variable (hs : Core env.base s)

include hs

theorem Core.insertable (hlt : slot<folioCacheMax) (hfree : (s.records slot).active=false)
    (hm : mapping≠0) (ha : (allocFolioPage env s).1≠0) :
    Insertable env (allocFolioPage env s).2 slot mapping (allocFolioPage env s).1 := by
  obtain ⟨hquiet,_,hpage⟩ := allocFolioPage_calm env s
  obtain ⟨p,hp,hfreed,hused⟩ := hpage ha
  refine ⟨hlt,by rw [hquiet.records]; exact hfree,hm,ha,?_,⟨p,hp,hused⟩⟩
  intro i hi he
  rw [hquiet.records] at hi he
  obtain ⟨q,hq,hu⟩ := hs.stored i hi
  rw [he,hp] at hq
  cases hq
  exact hu hfreed

theorem insertFolio_records (h : Insertable env s slot mapping folio) (index fgp : Nat) :
    (insertFolio slot mapping index fgp folio s).records=
      update s.records slot ⟨true,mapping,index,folio,false⟩ := by
  simp only [insertFolio,filemapRefreshXarrayHead,if_neg h.mapped,hs.blank slot h.free]
  rfl

omit hs in
theorem insertFolio_folios (h : Insertable env s slot mapping folio) (index fgp : Nat) :
    (insertFolio slot mapping index fgp folio s).folios=update s.folios folio
      ⟨⟨fgpLock fgp,false,false,false,false⟩,mapping,index,2⟩ := by
  simp only [insertFolio,filemapRefreshXarrayHead,if_neg h.mapped]
  rfl

omit hs in
theorem insertFolio_pages (slot mapping index fgp folio : Nat) (s : PageState) :
    (insertFolio slot mapping index fgp folio s).pages=s.pages ∧
      (insertFolio slot mapping index fgp folio s).entries=s.entries := by
  simp only [insertFolio,filemapRefreshXarrayHead]
  split_ifs <;> exact ⟨rfl,rfl⟩

theorem insertFolio_cases (h : Insertable env s slot mapping folio) (index fgp : Nat) {j : Nat}
    (hj : ((insertFolio slot mapping index fgp folio s).records j).active=true) :
    (j=slot ∧ (insertFolio slot mapping index fgp folio s).records j=
        ⟨true,mapping,index,folio,false⟩) ∨
      (j≠slot ∧ (s.records j).active=true ∧
        (insertFolio slot mapping index fgp folio s).records j=s.records j) := by
  rw [insertFolio_records env hs h] at hj ⊢
  by_cases he : j=slot
  · subst he
    exact inl ⟨rfl,update_self ..⟩
  · rw [update_of_ne he] at hj ⊢
    exact inr ⟨he,hj,rfl⟩

theorem insertFolio_core (h : Insertable env s slot mapping folio) (index fgp : Nat) :
    Core env.base (insertFolio slot mapping index fgp folio s) := by
  have hcase := fun {j} => insertFolio_cases env hs h index fgp (j := j)
  have hfolios := insertFolio_folios env h index fgp
  obtain ⟨hpages,_⟩ := insertFolio_pages slot mapping index fgp folio s
  have hsame : ∀ j,(s.records j).active=true →
      (insertFolio slot mapping index fgp folio s).folios (s.records j).folio=
        s.folios (s.records j).folio := by
    intro j hj
    rw [hfolios,update_of_ne (h.unused j hj)]
  refine ⟨?_,?_,?_,?_,?_,?_,?_⟩
  · intro j hj
    rcases hcase hj with ⟨rfl,_⟩|⟨_,h1,_⟩
    · exact h.small
    · exact hs.small j h1
  · intro j hj
    rw [insertFolio_records env hs h] at hj ⊢
    by_cases he : j=slot
    · rw [he,update_self] at hj
      cases hj
    · rw [update_of_ne he] at hj ⊢
      exact hs.blank j hj
  · intro j hj
    rcases hcase hj with ⟨_,h2⟩|⟨_,h1,h2⟩ <;> rw [h2]
    · exact ⟨h.mapped,h.page⟩
    · exact hs.used j h1
  · intro j k hj hk
    rcases hcase hj with ⟨e1,h2⟩|⟨_,h1,h2⟩ <;> rcases hcase hk with ⟨e2,h4⟩|⟨_,h3,h4⟩ <;> rw [h2,h4]
    · exact fun _ => e1.trans e2.symm
    · exact fun hf => absurd hf.symm (h.unused k h3)
    · exact fun hf => absurd hf (h.unused j h1)
    · exact hs.folios j k h1 h3
  · intro j hj
    rcases hcase hj with ⟨_,h2⟩|⟨_,h1,h2⟩ <;> rw [h2]
    · rw [hfolios]
      simp
    · rw [hsame j h1]
      exact hs.linked j h1
  · intro j hj
    rcases hcase hj with ⟨_,h2⟩|⟨_,h1,h2⟩ <;> rw [h2]
    · rw [hfolios]
      simp
    · rw [hsame j h1]
      exact hs.refs j h1
  · intro j hj
    rw [hpages]
    rcases hcase hj with ⟨_,h2⟩|⟨_,h1,h2⟩ <;> rw [h2]
    · exact h.stored
    · exact hs.stored j h1

end Kobox.PageCache
