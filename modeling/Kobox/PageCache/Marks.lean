import Kobox.PageCache.Shape

namespace Kobox.PageCache

open Function FolioRecord Or
open PageState (onMapping onRecord)

open Kvm (ArenaBase)

section

variable (s : PageState) (m : Nat)

def HasDirty : Prop := ∃ i,(s.records i).active=true ∧ (s.records i).mapping=m ∧
    (s.folios (s.records i).folio).flags.dirty=true

def HasWriteback : Prop := ∃ i,(s.records i).active=true ∧ (s.records i).mapping=m ∧
    (s.folios (s.records i).folio).flags.writeback=true

def HasTowrite : Prop :=
  ∃ i,(s.records i).active=true ∧ (s.records i).mapping=m ∧ (s.records i).towrite=true

structure ExactAt : Prop where
  dirty : (s.mappings m).dirty=true ↔ HasDirty s m
  writeback : (s.mappings m).writeback=true ↔ HasWriteback s m
  towrite : (s.mappings m).towrite=true ↔ HasTowrite s m

end

/-- The records are in order and all marks exact. -/
structure Marked (base : ArenaBase) (s : PageState) : Prop extends Core base s where
  exact : ∀ m,m≠0 → ExactAt s m

section

variable {base : ArenaBase} {s t : PageState} {m : Nat}

theorem ExactAt.congr (h : ExactAt s m) (hmap : (t.mappings m).dirty=(s.mappings m).dirty ∧
      (t.mappings m).writeback=(s.mappings m).writeback ∧
      (t.mappings m).towrite=(s.mappings m).towrite)
    (hrec : ∀ i,(t.records i).active=true ∧ (t.records i).mapping=m ↔
      (s.records i).active=true ∧ (s.records i).mapping=m)
    (hsame : ∀ i,(s.records i).active=true → (s.records i).mapping=m →
      (t.records i).towrite=(s.records i).towrite ∧
      (t.folios (t.records i).folio).flags.dirty=(s.folios (s.records i).folio).flags.dirty ∧
      (t.folios (t.records i).folio).flags.writeback=
        (s.folios (s.records i).folio).flags.writeback) : ExactAt t m := by
  obtain ⟨h1,h2,h3⟩ := hmap
  refine ⟨?_,?_,?_⟩
  · rw [h1,h.dirty]
    refine exists_congr fun i => ?_
    rw [← and_assoc,← and_assoc,hrec i]
    refine and_congr_right fun hi => ?_
    rw [(hsame i hi.1 hi.2).2.1]
  · rw [h2,h.writeback]
    refine exists_congr fun i => ?_
    rw [← and_assoc,← and_assoc,hrec i]
    refine and_congr_right fun hi => ?_
    rw [(hsame i hi.1 hi.2).2.2]
  · rw [h3,h.towrite]
    refine exists_congr fun i => ?_
    rw [← and_assoc,← and_assoc,hrec i]
    refine and_congr_right fun hi => ?_
    rw [(hsame i hi.1 hi.2).1]

theorem Marked.calm (hs : Marked base s) (h : Calm base s t) : Marked base t := by
  refine ⟨hs.toCore.untouched h.untouched,?_⟩
  intro m hm
  refine (hs.exact m hm).congr ?_ ?_ ?_
  · rw [h.mappings]
    exact ⟨rfl,rfl,rfl⟩
  · intro i
    rw [h.records]
  · intro i hi _
    rw [h.records]
    exact ⟨rfl,h.flags i hi⟩

theorem Core.anySlot_caches (hs : Core base s) {q : FolioRecord → Bool} :
    anySlot (fun r => r.caches m && q r) s.records folioCacheMax=true ↔
      ∃ i,(s.records i).active=true ∧ (s.records i).mapping=m ∧ q (s.records i)=true := by
  rw [anySlot_iff]
  constructor
  · rintro ⟨i,_,hi⟩
    simp [caches] at hi
    exact ⟨i,hi.1.1.1,hi.1.1.2,hi.2⟩
  · rintro ⟨i,hi,hm,hq⟩
    refine ⟨i,hs.small i hi,?_⟩
    simp [caches,hi,hm,hq,(hs.used i hi).2]

theorem Core.refreshMarks (hs : Core base s) (hother : ∀ n,n≠0 → n≠m → ExactAt s n) :
    Marked base (filemapMappingRefreshMarks m s) := by
  refine ⟨hs.untouched (refreshMarks_untouched m s),?_⟩
  intro n hn
  unfold filemapMappingRefreshMarks
  split
  · next hm =>
    exact hother n hn (by rw [hm]; exact hn)
  by_cases he : n=m
  · subst he
    refine ⟨?_,?_,?_⟩
    · simp only [onMapping,update_self]
      exact hs.anySlot_caches
    · simp only [onMapping,update_self]
      exact hs.anySlot_caches
    · simp only [onMapping,update_self]
      exact hs.anySlot_caches
  · refine (hother n hn he).congr ?_ (fun _ => Iff.rfl) fun _ _ _ => ⟨rfl,rfl,rfl⟩
    simp [onMapping,he]

theorem Marked.refreshMarks (hs : Marked base s) (m : Nat) :
    Marked base (filemapMappingRefreshMarks m s) :=
  hs.toCore.refreshMarks fun n hn _ => hs.exact n hn

end

section

variable (env : PageEnv) {s t : PageState} {folio mapping index m i : Nat}

theorem without_exact (hs : Marked env.base s) (hi : (s.records i).active=true) (hm : m≠0)
    (hne : m≠(s.records i).mapping) : ExactAt (without i s) m := by
  have hmap := (hs.used i hi).1
  have hrec := without_records (s := s) hmap
  obtain ⟨hfol,_,_⟩ := without_folios (s := s) hmap
  refine (hs.exact m hm).congr ?_ ?_ ?_
  · simp only [without,filemapRefreshXarrayHead,if_neg hmap]
    simp [onMapping,onRecord,hne]
  · intro j
    rw [hrec]
    by_cases hj : j=i
    · subst hj
      simp [empty]
      exact fun _ => Ne.symm hne
    · rw [update_of_ne hj]
  · intro j _ hj
    have hji : j≠i := by
      rintro rfl
      exact hne hj.symm
    rw [hrec,update_of_ne hji,hfol]
    exact ⟨rfl,rfl,rfl⟩

theorem discard_marked (hs : Marked env.base s) {folio : Nat} :
    Marked env.base (filemapFolioDiscard env folio s) :=
  discard_keeps env hs.toCore hs (fun _ hi => (hs.toCore.without env hi).refreshMarks
    fun _ hn hne => without_exact env hs hi hn hne) (fun _ _ h k => k.calm h.toCalm)

theorem insertFolio_marked (hs : Marked env.base s) {slot : Nat}
    (h : Insertable env s slot mapping folio) {index fgp : Nat} :
    Marked env.base (insertFolio slot mapping index fgp folio s) := by
  refine ⟨insertFolio_core env hs.toCore h index fgp,?_⟩
  intro m hm
  have hrec := insertFolio_records env hs.toCore h index fgp
  have hfolios := insertFolio_folios env h index fgp
  generalize hu : insertFolio slot mapping index fgp folio s=u at hrec hfolios
  have hmarks : (u.mappings m).dirty=(s.mappings m).dirty ∧
      (u.mappings m).writeback=(s.mappings m).writeback ∧
      (u.mappings m).towrite=(s.mappings m).towrite := by
    rw [← hu]
    simp only [insertFolio,filemapRefreshXarrayHead,if_neg h.mapped]
    by_cases he : m=mapping
    · subst he
      simp [onMapping]
    · simp [onMapping,he]
  obtain ⟨h1,h2,h3⟩ := hmarks
  -- a record is old, or the new one, which none of the three marks is about
  have hsplit : ∀ (q : PageState → FolioRecord → Prop),
      (∀ i,(s.records i).active=true → (q u (s.records i) ↔ q s (s.records i))) →
      ¬q u ⟨true,mapping,index,folio,false⟩ →
      ((∃ i,(u.records i).active=true ∧ (u.records i).mapping=m ∧ q u (u.records i)) ↔
        ∃ i,(s.records i).active=true ∧ (s.records i).mapping=m ∧ q s (s.records i)) := by
    intro q hq hnew
    constructor
    · rintro ⟨i,hi,hmi,hqi⟩
      rw [hrec] at hi hmi hqi
      by_cases he : i=slot
      · subst he
        rw [update_self] at hqi
        exact absurd hqi hnew
      · rw [update_of_ne he] at hi hmi hqi
        exact ⟨i,hi,hmi,(hq i hi).mp hqi⟩
    · rintro ⟨i,hi,hmi,hqi⟩
      have he : i≠slot := by
        rintro rfl
        rw [h.free] at hi
        cases hi
      refine ⟨i,?_⟩
      rw [hrec,update_of_ne he]
      exact ⟨hi,hmi,(hq i hi).mpr hqi⟩
  refine ⟨?_,?_,?_⟩
  · rw [h1,(hs.exact m hm).dirty]
    refine (hsplit (fun x r => (x.folios r.folio).flags.dirty=true) ?_ ?_).symm
    · intro i hi
      rw [hfolios,update_of_ne (h.unused i hi)]
    · simp [hfolios]
  · rw [h2,(hs.exact m hm).writeback]
    refine (hsplit (fun x r => (x.folios r.folio).flags.writeback=true) ?_ ?_).symm
    · intro i hi
      rw [hfolios,update_of_ne (h.unused i hi)]
    · simp [hfolios]
  · rw [h3,(hs.exact m hm).towrite]
    exact (hsplit (fun _ r => r.towrite=true) (fun _ _ => Iff.rfl) (by simp)).symm

def KeepsMarks (env : PageEnv) : Prop := ∀ c s,Marked env.base s → Marked env.base (env.after c s)

theorem marked_closed (hk : KeepsMarks env) : Closed env (Marked env.base) fun _ _ => True where
  core := fun _ hs => hs.toCore
  refl := fun _ => trivial
  trans := fun _ _ => trivial
  callback := fun c _ hs => ⟨hk c _ hs,trivial⟩
  quiet := fun _ _ h hs => ⟨hs.calm h.toCalm,trivial⟩
  marks := fun m _ hs => ⟨hs.refreshMarks m,trivial⟩
  discard := fun _ _ hs => ⟨discard_marked env hs,trivial⟩

end

section

variable {base : ArenaBase} {s : PageState} {folio mapping m : Nat}

section

variable (hs : Marked base s)

include hs

theorem Marked.onFolio (f : Folio → Folio)
    (hn : ∀ i,(s.records i).active=true → (s.records i).folio≠folio) :
    Marked base (s.onFolio folio f) :=
  hs.calm (Calm.of_cached rfl rfl rfl (fun i hi => by simp [PageState.onFolio,hn i hi])
    fun _ _ _ _ h => h)

theorem Marked.reflags {t : PageState} (h : Reflags folio s t) : Marked base t := by
  cases h with
  | idle => exact hs
  | flags h0 flags f hf =>
  have hcore := hs.toCore.untouched (Untouched.onFolio s folio
    (f := fun x => { x with flags := flags x }) (fun _ => rfl) (fun _ => rfl) fun _ h => h)
  generalize (fun x : Folio => { x with flags := flags x })=g at hcore
  have hsame : filemapFolioRecord (s.onFolio folio g) folio=filemapFolioRecord s folio := rfl
  unfold PageCache.onCached
  rw [hsame]
  cases h : filemapFolioRecord s folio with
  | none =>
    refine hs.onFolio g ?_
    intro i hi
    unfold filemapFolioRecord at h
    rw [if_neg h0] at h
    have hn := find?_range_none h (hs.small i hi)
    simp [hi] at hn
    exact hn
  | some i =>
    obtain ⟨hact,hfol,_⟩ := folioRecord_some h
    have hrec : Untouched base (s.onFolio folio g) ((s.onFolio folio g).onRecord i f) :=
      Untouched.onRecord _ hact hf
    refine (hcore.untouched hrec).refreshMarks ?_
    intro n hn hne
    refine (hs.exact n hn).congr ⟨rfl,rfl,rfl⟩ ?_ ?_
    · intro j
      rw [hrec.active,hrec.mapping]
      rfl
    intro j hj hjn
    have hji : j≠i := by
      rintro rfl
      exact hne hjn.symm
    have hfj : (s.records j).folio≠folio := by
      rw [← hfol]
      exact fun he => hji (hs.folios j i hj hact he)
    simp [onRecord,PageState.onFolio,hji,hfj]

end

/-- The mapping that gets the mark has a dirty folio; other mappings of the folio have the mark. -/
def DirtyFits (s : PageState) (mapping folio : Nat) : Prop :=
  (∃ i,(s.records i).active=true ∧ (s.records i).mapping=mapping ∧
    ((s.records i).folio=folio ∨ (s.folios (s.records i).folio).flags.dirty=true)) ∧
  ∀ i,(s.records i).active=true → (s.records i).folio=folio →
    (s.records i).mapping=mapping ∨ (s.mappings (s.records i).mapping).dirty=true

theorem Core.dirtyFits (hs : Core base s) {i : Nat} (hi : (s.records i).active=true)
    (hf : (s.records i).folio=folio) : DirtyFits s (s.records i).mapping folio := by
  refine ⟨⟨i,hi,rfl,inl hf⟩,?_⟩
  intro j hj hfj
  rw [hs.folios j i hj hi (hfj.trans hf.symm)]
  exact inl rfl

theorem dirtyFolio_marked (hs : Marked base s)
    (hfit : lowOrErrPointer mapping=false → lowOrErrPointer folio=false →
      DirtyFits s mapping folio) :
    Marked base (filemapDirtyFolio mapping folio s).2 := by
  refine ⟨hs.toCore.untouched (dirtyFolio_untouched s),?_⟩
  unfold filemapDirtyFolio
  split
  · exact hs.exact
  next hlow =>
  rw [not_or,Bool.not_eq_true,Bool.not_eq_true] at hlow
  obtain ⟨⟨k,hk,hkm,hkd⟩,hothers⟩ := hfit hlow.1 hlow.2
  intro m hm
  generalize hu : (s.onFolio folio fun f => { f with flags := { f.flags with dirty := true } })=u
  have hrec : u.records=s.records := by rw [← hu]; rfl
  have hmap : u.mappings=s.mappings := by rw [← hu]; rfl
  have hdirty : ∀ g,(u.folios g).flags.dirty=true ↔ g=folio ∨ (s.folios g).flags.dirty=true := by
    intro g
    rw [← hu]
    by_cases hg : g=folio
    · subst hg
      simp [PageState.onFolio]
    · simp [PageState.onFolio,hg]
  have hwb : ∀ g,(u.folios g).flags.writeback=(s.folios g).flags.writeback := by
    intro g
    rw [← hu]
    by_cases hg : g=folio
    · subst hg
      simp [PageState.onFolio]
    · simp [PageState.onFolio,hg]
  have hexact := hs.exact m hm
  have hother : ∀ g : Mapping → Bool,(∀ x,g { x with dirty := true }=g x) →
      g ((u.onMapping mapping fun x => { x with dirty := true }).mappings m)=g (s.mappings m) := by
    intro g hg
    simp only [onMapping,hmap]
    by_cases he : m=mapping
    · subst he
      simp [hg]
    · simp [he]
  refine ⟨?_,?_,?_⟩
  · unfold HasDirty
    simp only [onMapping,hdirty,hrec]
    by_cases he : m=mapping
    · subst he
      simp only [update_self,true_iff]
      exact ⟨k,hk,hkm,hkd⟩
    rw [update_of_ne he,hmap]
    constructor
    · intro h
      obtain ⟨i,hi,hmi,hdi⟩ := hexact.dirty.mp h
      exact ⟨i,hi,hmi,inr hdi⟩
    rintro ⟨i,hi,hmi,hf|hd⟩
    · rcases hothers i hi hf with h|h
      · exact absurd (hmi.symm.trans h) he
      · rw [← hmi]
        exact h
    · exact hexact.dirty.mpr ⟨i,hi,hmi,hd⟩
  · rw [hother Mapping.writeback fun _ => rfl,hexact.writeback]
    unfold HasWriteback
    simp [onMapping,hwb,hrec]
  · rw [hother Mapping.towrite fun _ => rfl,hexact.towrite]
    unfold HasTowrite
    simp [onMapping,hrec]

/-- Something is dirty in the range, or nothing of the mapping is tagged. -/
def TagFits (s : PageState) (mapping start stop : Nat) : Prop :=
  (∃ i,(s.records i).active=true ∧ (s.records i).mapping=mapping ∧ start≤(s.records i).index ∧
    (s.records i).index ≤ stop ∧ (s.folios (s.records i).folio).flags.dirty=true) ∨
  ¬HasTowrite s mapping

theorem Core.anySlot_dirtyIn (hs : Core base s) (mapping start stop : Nat) :
    anySlot (dirtyIn s mapping start stop) s.records folioCacheMax=true ↔
      ∃ i,(s.records i).active=true ∧ (s.records i).mapping=mapping ∧ start≤(s.records i).index ∧
        (s.records i).index ≤ stop ∧ (s.folios (s.records i).folio).flags.dirty=true := by
  rw [anySlot_iff]
  constructor
  · rintro ⟨i,_,hi⟩
    simp [dirtyIn,caches] at hi
    exact ⟨i,hi.1.1.1.1.1,hi.1.1.1.1.2,hi.1.1.2,hi.1.2,hi.2⟩
  · rintro ⟨i,hi,hm,h1,h2,h3⟩
    refine ⟨i,hs.small i hi,?_⟩
    simp [dirtyIn,caches,hi,hm,h1,h2,h3,(hs.used i hi).2]

theorem tagPages_marked (hs : Marked base s) {start stop : Nat}
    (hfit : mapping≠0 → TagFits s mapping start stop) :
    Marked base (tagPagesForWriteback mapping start stop s) := by
  have hany := hs.toCore.anySlot_dirtyIn mapping start stop
  refine ⟨hs.toCore.untouched (tagPages_untouched s),?_⟩
  unfold tagPagesForWriteback
  split
  · exact hs.exact
  next hm0 =>
  intro m hm
  have hexact := hs.exact m hm
  -- records change in their tags only, and only in this mapping
  have hact : ∀ i,((if i<folioCacheMax ∧ dirtyIn s mapping start stop (s.records i)=true then
      { s.records i with towrite := true } else s.records i).active=(s.records i).active ∧
      (if i<folioCacheMax ∧ dirtyIn s mapping start stop (s.records i)=true then
      { s.records i with towrite := true } else s.records i).mapping=(s.records i).mapping ∧
      (if i<folioCacheMax ∧ dirtyIn s mapping start stop (s.records i)=true then
      { s.records i with towrite := true } else s.records i).folio=(s.records i).folio) := by
    intro i
    split <;> exact ⟨rfl,rfl,rfl⟩
  by_cases he : m=mapping
  · subst he
    refine ⟨?_,?_,?_⟩
    · simp only [onMapping,update_self,HasDirty,(hact _).1,(hact _).2.1, (hact _).2.2]
      exact hexact.dirty
    · simp only [onMapping,update_self,HasWriteback,(hact _).1,(hact _).2.1, (hact _).2.2]
      exact hexact.writeback
    simp only [onMapping,update_self,HasTowrite,(hact _).1,(hact _).2.1]
    rw [hany]
    constructor
    · rintro ⟨i,hi,hmi,h1,h2,h3⟩
      have hd : dirtyIn s m start stop (s.records i)=true := by
        simp [dirtyIn,caches,hi,hmi,h1,h2,h3,(hs.used i hi).2]
      refine ⟨i,hi,hmi,?_⟩
      rw [if_pos ⟨hs.small i hi,hd⟩]
    · rintro ⟨i,hi,hmi,ht⟩
      rcases hfit hm0 with h|h
      · exact h
      · split at ht
        · next hd => exact hany.mp (anySlot_iff.mpr ⟨i,hd.1,hd.2⟩)
        · exact absurd ⟨i,hi,hmi,ht⟩ h
  · refine hexact.congr ?_ ?_ ?_
    · simp [onMapping,he]
    · intro i
      simp [onMapping,(hact _).1,(hact _).2.1]
    · intro i hi hmi
      have hn : dirtyIn s mapping start stop (s.records i)=false := by
        simp [dirtyIn,caches,hmi,he]
      simp [onMapping,hn]

end

/-- A dirty mark goes where a dirty folio is; a tagged range has one, or nothing is tagged. -/
def PageCall.MarksFit (env : PageEnv) (s : PageState) : PageCall → Prop
  | .markDirty folio =>
    (s.folios folio).mapping=0 ∨ env.dirtyFolio (s.folios folio).mapping≠none ∨
      lowOrErrPointer (s.folios folio).mapping=true ∨ lowOrErrPointer folio=true ∨
      DirtyFits s (s.folios folio).mapping folio
  | .blockDirty mapping folio =>
    lowOrErrPointer mapping=true ∨ lowOrErrPointer folio=true ∨ DirtyFits s mapping folio
  | .tag mapping start stop => mapping=0 ∨ TagFits s mapping start stop
  | _ => True

def RunFits (env : PageEnv) : List PageCall → PageState → Prop
  | [],_ => True
  | c::calls,s => c.MarksFit env s ∧ RunFits env calls (c.run env s)

section

variable {env : PageEnv} {s : PageState}

theorem folioMarkDirty_marked (hk : KeepsMarks env) (hs : Marked env.base s) {folio : Nat}
    (hfit : (PageCall.markDirty folio).MarksFit env s) :
    Marked env.base (folioMarkDirty env folio s) := by
  unfold folioMarkDirty
  split
  · exact hs
  split
  · next h0 =>
    refine hs.onFolio _ ?_
    rintro i hi rfl
    rw [(hs.linked i hi).1] at h0
    exact (hs.used i hi).1 h0
  · next hm =>
    have hop := hk (.dirtyFolio (s.folios folio).mapping folio) s hs
    simp only [PageEnv.after] at hop
    split
    · next hnone =>
      refine dirtyFolio_marked hs ?_
      intro h1 h2
      rcases hfit with h|h|h|h|h
      · exact absurd h hm
      · exact absurd hnone h
      · rw [h1] at h
        cases h
      · rw [h2] at h
        cases h
      · exact h
    · next op h =>
      rw [h] at hop
      exact hop

theorem run_marked (hk : KeepsMarks env) (hs : Marked env.base s) (c : PageCall)
    (hfit : c.MarksFit env s) : Marked env.base (c.run env s) := by
  refine (marked_closed env hk).run hs c ?_ ?_ ?_ ?_ ?_ ?_ ?_
  · intro mapping index fgp gfp preserve _ hm _ t slot ht _ hlt hfree hpage
    exact insertFolio_marked env (ht.calm (allocFolioPage_calm env t).1)
      (ht.toCore.insertable env hlt hfree hm hpage)
  · rintro folio rfl
    exact folioMarkDirty_marked hk hs hfit
  · rintro mapping folio rfl
    refine dirtyFolio_marked hs ?_
    intro h1 h2
    rcases hfit with h|h|h
    · rw [h1] at h
      cases h
    · rw [h2] at h
      cases h
    · exact h
  · exact fun folio => hs.reflags (clearForIo_reflags s folio)
  · exact fun folio keepWrite => hs.reflags (startWriteback_reflags s folio)
  · exact fun folio => hs.reflags (endWriteback_reflags s folio)
  · rintro mapping start stop rfl
    refine tagPages_marked hs ?_
    intro hm
    rcases hfit with h|h
    · exact absurd h hm
    · exact h

theorem runCalls_marked (hk : KeepsMarks env) (hs : Marked env.base s) {calls : List PageCall}
    (hfit : RunFits env calls s) : Marked env.base (runCalls env calls s) := by
  induction calls generalizing s with
  | nil => exact hs
  | cons c calls ih => exact ih (run_marked hk hs c hfit.1) hfit.2

end

theorem Reentrant.keepsMarks {env : PageEnv}
    (h : Reentrant (fun env calls s => Marked env.base s → RunFits env calls s) env) :
    KeepsMarks env :=
  h.keeps fun _ _ _ hk hs hfit => runCalls_marked hk hs (hfit hs)

theorem Fresh.marked {base : ArenaBase} {s : PageState} (h : Fresh s) : Marked base s := by
  refine ⟨h.core,?_⟩
  intro m _
  have hno : ∀ i,(s.records i).active=true → False := by
    intro i hi
    rw [h.records] at hi
    cases hi
  refine ⟨?_,?_,?_⟩ <;> rw [h.mappings]
  · exact iff_of_false (by simp) fun ⟨i,hi,_⟩ => hno i hi
  · exact iff_of_false (by simp) fun ⟨i,hi,_⟩ => hno i hi
  · exact iff_of_false (by simp) fun ⟨i,hi,_⟩ => hno i hi

/-- In every run whose calls fit, those of callbacks too, marks are exact, and writeback of a
mapping with a dirty folio is not skipped. -/
theorem marks_exact (env : PageEnv)
    (henv : Reentrant (fun env calls s => Marked env.base s → RunFits env calls s) env)
    (s : PageState) (hs : Fresh s) (calls : List PageCall) (hfit : RunFits env calls s) :
    let t := runCalls env calls s
    (∀ m,m≠0 → ((t.mappings m).dirty=true ↔ HasDirty t m) ∧
      ((t.mappings m).writeback=true ↔ HasWriteback t m) ∧
      ((t.mappings m).towrite=true ↔ HasTowrite t m)) ∧
    ∀ m start stop op,m≠0 → 0 ≤ start → start ≤ stop → HasDirty t m → env.writepages m=some op →
      (filemapWritebackRange env m start stop t).2=
        filemapMappingRefreshMarks m (env.drain (op start stop t).2).2 := by
  have ht := runCalls_marked henv.keepsMarks hs.marked hfit
  refine ⟨fun m hm => ⟨(ht.exact m hm).dirty,(ht.exact m hm).writeback,(ht.exact m hm).towrite⟩,?_⟩
  intro m start stop op hm h1 h2 hdirty hop
  have hmark := (ht.exact m hm).dirty.mpr hdirty
  have hargs : ¬(m=0 ∨ start<0 ∨ stop<start) := by omega
  unfold filemapWritebackRange
  rw [if_neg hargs,hmark,hop]
  rfl

/-- A dirty folio that is tagged, written and clean again. -/
def writtenFolio : List PageCall :=
  [.getFolio 8192 0 4 0 false,.markDirty 4096,.tag 8192 0 3,.startWriteback 4096 true]

theorem marks_exact_written : RunFits stillEnv writtenFolio freshPages ∧
    ((runCalls stillEnv writtenFolio freshPages).mappings 8192).towrite=true ∧
    HasTowrite (runCalls stillEnv writtenFolio freshPages) 8192 := by
  have hstill := stillEnv_reentrant (fun env calls s => Marked env.base s → RunFits env calls s)
    fun _ _ => trivial
  have hfit : RunFits stillEnv writtenFolio freshPages := by
    refine ⟨trivial,?_,?_,trivial,trivial⟩
    · have hget := run_marked hstill.keepsMarks freshPages_fresh.marked
        (.getFolio 8192 0 4 0 false) trivial
      have hact : (((PageCall.getFolio 8192 0 4 0 false).run stillEnv freshPages).records
          0).active=true := by decide +kernel
      have hfol : (((PageCall.getFolio 8192 0 4 0 false).run stillEnv freshPages).records
          0).folio=4096 := by decide +kernel
      have hmap := (hget.linked 0 hact).1
      rw [hfol] at hmap
      refine inr (inr (inr (inr ?_)))
      rw [hmap]
      exact hget.toCore.dirtyFits hact hfol
    · exact inr (inl ⟨0,by decide +kernel⟩)
  have hmark : ((runCalls stillEnv writtenFolio freshPages).mappings 8192).towrite=true := by
    decide +kernel
  exact ⟨hfit,hmark,(((marks_exact stillEnv hstill freshPages freshPages_fresh
    writtenFolio hfit).1 8192 (by decide)).2.2).mp hmark⟩

/-- A second range without a dirty folio takes the mark of the first away. -/
theorem tag_clears_mark :
    let t := runCalls stillEnv [.getFolio 8192 0 4 0 false,.markDirty 4096,.tag 8192 0 0,
      .tag 8192 5 5] freshPages
    (t.records 0).active=true ∧ (t.records 0).mapping=8192 ∧ (t.records 0).towrite=true ∧
      (t.mappings 8192).towrite=false := by
  decide +kernel

end Kobox.PageCache
