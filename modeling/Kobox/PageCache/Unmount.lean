import Kobox.PageCache.Marks

namespace Kobox.PageCache

open Kvm (ArenaBase pageRecordMax)
open Kvm.PageArena (indexOf pageAt)

section

variable (env : PageEnv)

def putSlot (s : PageState) (i : Nat) : PageState :=
  if (s.records i).active=true ∧ (s.records i).folio≠0 then folioPut env (s.records i).folio s else s

@[irreducible] def putFolios (s : PageState) : PageState :=
  (List.range folioCacheMax).foldl (putSlot env) s

def clearRecords (s : PageState) : PageState := { s with records := fun _ => FolioRecord.empty }

/-- Without the buffer cache: every cached folio is put, then the table is cleared. -/
def clearMountProbeObjects (s : PageState) : PageState := clearRecords (putFolios env s)

/-- One mount: what is called while it lasts, and what unmounting calls. -/
structure Cycle where
  calls : List PageCall
  unmount : List PageCall

/-- The state in which the folios are put. -/
def Cycle.unmounted (c : Cycle) (s : PageState) : PageState :=
  runCalls env c.unmount (runCalls env c.calls s)

def Cycle.run (c : Cycle) (s : PageState) : PageState :=
  clearMountProbeObjects env (c.unmounted env s)

def runCycles (cycles : List Cycle) (s : PageState) : PageState :=
  cycles.foldl (fun s c => c.run env s) s

end

structure Accounted (first : Kvm.PageArena) (base : ArenaBase) (s : PageState) : Prop
    extends Core base s where
  ledger : Ledger base first s

structure SamePages (s t : PageState) : Prop where
  pages : t.pages=s.pages
  taken : t.taken=s.taken
  freed : t.freed=s.freed
  refs : ∀ f,(t.folios f).refcount=(s.folios f).refcount

open SamePages

section

variable {base : ArenaBase} {first : Kvm.PageArena} {s t : PageState} {folio mapping : Nat}

theorem SamePages.refl (s : PageState) : SamePages s s := ⟨rfl,rfl,rfl,fun _ => rfl⟩

theorem SamePages.trans {u : PageState} (h : SamePages s t) (k : SamePages t u) : SamePages s u :=
  ⟨k.pages.trans h.pages,k.taken.trans h.taken,k.freed.trans h.freed,
    fun f => (k.refs f).trans (h.refs f)⟩

theorem Ledger.samePages (hs : Ledger base first s) (h : SamePages s t) : Ledger base first t :=
  hs.congr h.pages h.taken h.freed fun p _ => by rw [h.refs]

theorem SamePages.onFolio (s : PageState) (folio : Nat) {f : Folio → Folio}
    (hf : ∀ x,(f x).refcount=x.refcount) : SamePages s (s.onFolio folio f) := by
  refine ⟨rfl,rfl,rfl,?_⟩
  intro g
  rcases onFolio_cases with h|h <;> rw [h]
  exact hf _

theorem refreshMarks_samePages {m : Nat} {s : PageState} :
    SamePages s (filemapMappingRefreshMarks m s) := by
  unfold filemapMappingRefreshMarks
  split <;> exact ⟨rfl,rfl,rfl,fun _ => rfl⟩

theorem onCached_samePages {folio : Nat} {f : FolioRecord → FolioRecord} {s : PageState} :
    SamePages s (onCached folio f s) := by
  unfold onCached
  split
  · exact refl s
  · next i _ =>
    have hrec : SamePages s (s.onRecord i f) := ⟨rfl,rfl,rfl,fun _ => rfl⟩
    exact hrec.trans (refreshMarks_samePages)

theorem dirtyFolio_samePages {mapping folio : Nat} {s : PageState} :
    SamePages s (filemapDirtyFolio mapping folio s).2 := by
  unfold filemapDirtyFolio
  split
  · exact refl s
  · have h : SamePages s (s.onFolio folio fun f => { f with
        flags := { f.flags with dirty := true } }) := onFolio s folio fun _ => rfl
    exact ⟨h.pages,h.taken,h.freed,h.refs⟩

theorem Reflags.samePages (h : Reflags folio s t) : SamePages s t := by
  cases h with
  | idle => exact refl s
  | flags =>
    refine trans ?_ (onCached_samePages)
    exact onFolio s folio fun _ => rfl

theorem tagPages_samePages {mapping start stop : Nat} {s : PageState} :
    SamePages s (tagPagesForWriteback mapping start stop s) := by
  unfold tagPagesForWriteback
  split <;> exact ⟨rfl,rfl,rfl,fun _ => rfl⟩

end

section

variable (env : PageEnv) {first : Kvm.PageArena} {s t : PageState} {folio mapping slot i : Nat}

theorem without_samePages (hm : (s.records i).mapping≠0) : SamePages s (without i s) := by
  simp only [without,filemapRefreshXarrayHead,if_neg hm]
  exact ⟨rfl,rfl,rfl,fun _ => rfl⟩

theorem discard_accounted (hs : Accounted first env.base s) {folio : Nat} :
    Accounted first env.base (filemapFolioDiscard env folio s) :=
  ⟨(discard_core env hs.toCore).1,discard_keeps env hs.toCore
    hs.ledger (fun i hi => hs.ledger.samePages ((without_samePages (hs.used i hi).1).trans
      (refreshMarks_samePages))) (fun _ _ h k => h.ledger first k)⟩

theorem insertFolio_ledger (hs : Ledger env.base first s) (hm : mapping≠0) {index fgp : Nat}
    (hpage : (allocFolioPage env s).1≠0) :
    Ledger env.base first (insertFolio slot mapping index fgp (allocFolioPage env s).1
      (allocFolioPage env s).2) := by
  have hins : ∀ folio u,(insertFolio slot mapping index fgp folio u).pages=u.pages ∧
      (insertFolio slot mapping index fgp folio u).taken=u.taken ∧
      (insertFolio slot mapping index fgp folio u).freed=u.freed ∧
      (insertFolio slot mapping index fgp folio u).folios=Function.update u.folios folio
        ⟨⟨fgpLock fgp,false,false,false,false⟩,mapping,index,2⟩ := by
    intro folio u
    simp only [insertFolio,filemapRefreshXarrayHead,if_neg hm]
    exact ⟨rfl,rfl,rfl,rfl⟩
  obtain ⟨h1,h2,h3,h4⟩ := hins (allocFolioPage env s).1 (allocFolioPage env s).2
  generalize insertFolio slot mapping index fgp (allocFolioPage env s).1
    (allocFolioPage env s).2=u at h1 h2 h3 h4
  unfold allocFolioPage at h1 h2 h3 h4 hpage
  split at hpage
  · exact absurd rfl hpage
  next hok =>
  rw [if_neg hok] at h1 h2 h3 h4
  split at hpage
  · exact absurd rfl hpage
  next p pages hp =>
  rw [hp] at h1 h2 h3 h4
  obtain ⟨hle,hfree,rfl⟩ := Kvm.PageArena.allocPages_spec hp
  simp only at h1 h2 h3 h4
  intro q hq
  unfold Owned Unowned
  rw [h1,h2,h3,h4]
  by_cases he : q=p
  · subst he
    rcases hs q hq with ⟨_,h5,_⟩|⟨h5,_,h7⟩
    · rw [hfree q le_rfl (by omega)] at h5
      cases h5
    refine Or.inl ⟨?_,by simp [Kvm.PageArena.mark],by simp,?_⟩
    · rw [← h5]
      exact hfree q le_rfl (by omega)
    · rw [List.count_append,h7]
      simp
  · have hne : pageAt env.base q≠pageAt env.base p := by
      unfold pageAt Kvm.structPageSize
      omega
    have hmark : s.pages.mark p 0 q=s.pages q := Kvm.PageArena.mark_outside _ (by simp; omega)
    have hcount : (s.taken++[pageAt env.base p]).count (pageAt env.base q)=
        s.taken.count (pageAt env.base q) := by
      simp [hne.symm]
    rw [hmark,hcount,Function.update_of_ne hne]
    exact hs q hq

theorem accounted_closed
    (hk : ∀ c s,Accounted first env.base s → Accounted first env.base (env.after c s)) :
    Closed env (Accounted first env.base) fun _ _ => True where
  core := fun _ hs => hs.toCore
  refl := fun _ => trivial
  trans := fun _ _ => trivial
  callback := fun c _ hs => ⟨hk c _ hs,trivial⟩
  quiet := fun _ _ h hs => ⟨⟨hs.toCore.untouched h.untouched,h.ledger first hs.ledger⟩,trivial⟩
  marks := fun m _ hs => ⟨⟨hs.toCore.untouched (refreshMarks_untouched m _),
    hs.ledger.samePages (refreshMarks_samePages)⟩,trivial⟩
  discard := fun _ _ hs => ⟨discard_accounted env hs,trivial⟩

variable {env}

variable (hk : ∀ c s,Accounted first env.base s → Accounted first env.base (env.after c s))

include hk

theorem run_accounted (hs : Accounted first env.base s) {c : PageCall} :
    Accounted first env.base (c.run env s) := by
  have hsame : ∀ {t},Untouched env.base s t → SamePages s t → Accounted first env.base t :=
    fun h k => ⟨hs.toCore.untouched h,hs.ledger.samePages k⟩
  have hflags : ∀ {folio t},Reflags folio s t → Accounted first env.base t :=
    fun h => hsame h.untouched h.samePages
  refine (accounted_closed env hk).run hs c ?_ ?_ ?_ ?_ ?_ ?_ ?_
  · intro mapping index fgp gfp preserve _ hm _ t slot ht _ hlt hfree hpage
    have hcore := ht.toCore.untouched (allocFolioPage_calm env t).1.untouched
    exact ⟨insertFolio_core env hcore (ht.toCore.insertable env hlt hfree hm hpage) index fgp,
      insertFolio_ledger env ht.ledger hm hpage⟩
  · intro folio _
    have hop := hk (.dirtyFolio (s.folios folio).mapping folio) s hs
    simp only [PageEnv.after] at hop
    unfold folioMarkDirty
    split
    · exact hs
    split
    · exact hsame (Untouched.onFolio s folio (fun _ => rfl) (fun _ => rfl) fun _ h => h)
        (onFolio s folio fun _ => rfl)
    split
    · exact hsame (dirtyFolio_untouched s) (dirtyFolio_samePages)
    · next op h =>
      rw [h] at hop
      exact hop
  · exact fun mapping folio _ => hsame (dirtyFolio_untouched s)
      (dirtyFolio_samePages)
  · exact fun folio => hflags (clearForIo_reflags s folio)
  · exact fun folio keepWrite => hflags (startWriteback_reflags s folio)
  · exact fun folio => hflags (endWriteback_reflags s folio)
  · exact fun mapping start stop _ => hsame (tagPages_untouched s)
      (tagPages_samePages)

theorem runCalls_accounted (hs : Accounted first env.base s) {calls : List PageCall} :
    Accounted first env.base (runCalls env calls s) := by
  induction calls generalizing s with
  | nil => exact hs
  | cons c calls ih => exact ih (run_accounted hk hs)

omit hk in
theorem Reentrant.accounted (h : Reentrant (fun _ _ _ => True) env) :
    ∀ c s,Accounted first env.base s → Accounted first env.base (env.after c s) :=
  h.keeps fun _ _ _ hk hs _ => runCalls_accounted hk hs

omit hk in
theorem putSlot_keeps (hs : Core env.base s) {i : Nat} :
    Quiet env.base s (putSlot env s i) ∧ (putSlot env s i).pages=s.pages ∧
      (putSlot env s i).taken=s.taken ∧ (putSlot env s i).freed=s.freed := by
  unfold putSlot
  split
  · next h =>
    refine ⟨folioPut_quiet env hs,?_⟩
    unfold folioPut
    rw [if_neg h.2,hs.folioRecord env h.1]
    exact ⟨rfl,rfl,rfl⟩
  · exact ⟨Quiet.refl _ s,rfl,rfl,rfl⟩

omit hk in
theorem putSlots_keeps (hs : Core env.base s) {slots : List Nat} :
    Quiet env.base s (slots.foldl (putSlot env) s) ∧ (slots.foldl (putSlot env) s).pages=s.pages ∧
      (slots.foldl (putSlot env) s).taken=s.taken ∧
      (slots.foldl (putSlot env) s).freed=s.freed := by
  induction slots generalizing s with
  | nil => exact ⟨Quiet.refl _ s,rfl,rfl,rfl⟩
  | cons i slots ih =>
    obtain ⟨h1,h2,h3,h4⟩ := putSlot_keeps hs
    obtain ⟨k1,k2,k3,k4⟩ := ih (hs.untouched h1.untouched)
    exact ⟨h1.trans k1,k2.trans h2,k3.trans h3,k4.trans h4⟩

omit hk in
theorem putFolios_keeps (hs : Core env.base s) :
    Quiet env.base s (putFolios env s) ∧ (putFolios env s).pages=s.pages ∧
      (putFolios env s).taken=s.taken ∧ (putFolios env s).freed=s.freed := by
  unfold putFolios
  exact putSlots_keeps hs

omit hk in
theorem clearRecords_accounted (hs : Ledger env.base first s) :
    Accounted first env.base (clearRecords s) := by
  have hno : ∀ i,((clearRecords s).records i).active=true → False := fun _ h => nomatch h
  refine ⟨⟨fun i hi => (hno i hi).elim,fun i _ => rfl,fun i hi => (hno i hi).elim,
    fun i _ hi => (hno i hi).elim,fun i hi => (hno i hi).elim,fun i hi => (hno i hi).elim,
    fun i hi => (hno i hi).elim⟩,?_⟩
  exact hs.congr rfl rfl rfl fun _ _ => Iff.rfl

omit hk in
theorem clearRecords_pages {s : PageState} :
    (clearRecords s).pages=s.pages ∧ (clearRecords s).taken=s.taken ∧
      (clearRecords s).freed=s.freed := ⟨rfl,rfl,rfl⟩

omit hk in
theorem clearMount_accounted (hs : Accounted first env.base s) :
    Accounted first env.base (clearMountProbeObjects env s) :=
  clearRecords_accounted ((putFolios_keeps hs.toCore).1.ledger first hs.ledger)

theorem Cycle.unmounted_accounted (hs : Accounted first env.base s) (c : Cycle) :
    Accounted first env.base (c.unmounted env s) :=
  runCalls_accounted hk (runCalls_accounted hk hs)

omit hk in
theorem runCycles_cons {c : Cycle} {cycles : List Cycle} :
    runCycles env (c::cycles) s=runCycles env cycles (c.run env s) := by
  rw [runCycles,runCycles,List.foldl_cons]

theorem runCycles_accounted (hs : Accounted first env.base s) {cycles : List Cycle} :
    Accounted first env.base (runCycles env cycles s) := by
  induction cycles generalizing s with
  | nil => exact hs
  | cons c cycles ih =>
    rw [runCycles_cons]
    refine ih ?_
    exact clearMount_accounted (c.unmounted_accounted hk hs)

end

def OnlyCache (s : PageState) (f : Nat) : Prop := (s.folios f).refcount=0 ∨
    ((s.folios f).refcount=1 ∧ ∃ i,(s.records i).active=true ∧ (s.records i).folio=f)

/-- Before the first mount no page is referenced. -/
structure Booted (base : ArenaBase) (s : PageState) : Prop extends Fresh s where
  unreferenced : ∀ p<pageRecordMax,(s.folios (pageAt base p)).refcount=0
  taken : s.taken=[]
  freed : s.freed=[]

theorem Booted.accounted {base : ArenaBase} {s : PageState} (h : Booted base s) :
    Accounted s.pages base s := by
  refine ⟨h.toFresh.core,?_⟩
  intro p hp
  exact Or.inr ⟨rfl,h.unreferenced p hp,by rw [h.taken,h.freed]⟩

/-- Over any mounts, pages that only the page cache refers to are given back, once each time taken,
exactly when unmounting leaves none cached. -/
theorem unmount_returns_pages (env : PageEnv) (henv : Reentrant (fun _ _ _ => True) env)
    (s : PageState) (hs : Booted env.base s) (cycles : List Cycle) (c : Cycle) :
    let u := c.unmounted env (runCycles env cycles s)
    let t := c.run env (runCycles env cycles s)
    ((∀ p<pageRecordMax,pageAt env.base p∈u.taken → OnlyCache u (pageAt env.base p) →
        t.freed.count (pageAt env.base p)=t.taken.count (pageAt env.base p)) ↔
      ∀ i,(u.records i).active=true → (u.folios (u.records i).folio).refcount≠1) ∧
    ((∀ i,(u.records i).active=true → (u.folios (u.records i).folio).refcount≠1) →
      (∀ p<pageRecordMax,OnlyCache u (pageAt env.base p)) →
      ∀ p<pageRecordMax,t.pages p=s.pages p) := by
  intro u t
  have hk : ∀ c v,Accounted s.pages env.base v → Accounted s.pages env.base (env.after c v) :=
    henv.accounted
  have hu : Accounted s.pages env.base u :=
    c.unmounted_accounted hk (runCycles_accounted hk hs.accounted)
  obtain ⟨_,hpages,htaken,hfreed⟩ := putFolios_keeps hu.toCore
  obtain ⟨hpages',htaken',hfreed'⟩ := clearRecords_pages
  have hpages : t.pages=u.pages := hpages'.trans hpages
  have htaken : t.taken=u.taken := htaken'.trans htaken
  have hfreed : t.freed=u.freed := hfreed'.trans hfreed
  rw [hpages,htaken,hfreed]
  refine ⟨⟨?_,?_⟩,?_⟩
  · intro hall i hi hone
    obtain ⟨p,hp,_⟩ := hu.stored i hi
    have hlt := indexOf_lt hp
    have he : pageAt env.base p=(u.records i).folio :=
      indexOf_inj (Kvm.PageArena.indexOf_pageAt env.base hlt) hp
    rcases hu.ledger p hlt with ⟨_,_,_,hcount⟩|⟨_,hzero,_⟩
    · have hmem : pageAt env.base p∈u.taken := by
        apply List.count_pos_iff.mp
        omega
      have := hall p hlt hmem (Or.inr ⟨by rw [he]; exact hone,i,hi,he.symm⟩)
      omega
    · rw [he] at hzero
      omega
  · intro hnone p hp _ honly
    rcases honly with hzero|⟨hone,i,hi,he⟩
    · rcases hu.ledger p hp with ⟨_,_,h3,_⟩|⟨_,_,h3⟩
      · omega
      · exact h3.symm
    · rw [← he] at hone
      exact absurd hone (hnone i hi)
  · intro hnone honly p hp
    rcases honly p hp with hzero|⟨hone,i,hi,he⟩
    · rcases hu.ledger p hp with ⟨_,_,h3,_⟩|⟨h3,_,_⟩
      · omega
      · exact h3
    · rw [← he] at hone
      exact absurd hone (hnone i hi)

theorem freshPages_booted : Booted stillEnv.base freshPages :=
  ⟨freshPages_fresh,fun _ _ => rfl,rfl,rfl⟩

/-- A mount that reads one page, and an unmount that truncates its mapping. -/
def truncatedFolio : Cycle := ⟨[.getFolio 8192 0 4 0 false,.put 4096],[.truncate 8192 0 (-1)]⟩

def truncatedPages : PageState :=
  truncateSlot stillEnv 8192 0 ulongMax (runCalls stillEnv truncatedFolio.calls freshPages) 0

theorem truncatedFolio_unmounted : truncatedFolio.unmounted stillEnv freshPages=
    filemapMappingRefreshMarks 8192 truncatedPages := by
  -- the other slots are empty, so the first turn does it all
  have hrest : ∀ i<2047,(truncatedPages.records (i+1)).caches 8192=false := by decide +kernel
  have hfold : ((List.range 2047).map Nat.succ).foldl (truncateSlot stillEnv 8192 0 ulongMax)
      truncatedPages=truncatedPages := by
    rw [List.foldl_map]
    refine List.foldlRecOn _ _ (motive := fun s => s=truncatedPages) rfl fun s hs i hi => ?_
    rw [hs,truncateSlot]
    simp [hrest i (List.mem_range.mp hi)]
  have hslots : List.range folioCacheMax=0::(List.range 2047).map Nat.succ := List.range_succ_eq_map
  have hlast : (if (-1 : Int)<0 then ulongMax else (-1 : Int).toNat)=ulongMax := rfl
  show truncateInodePagesRange stillEnv 8192 0 (-1) _=_
  rw [truncateInodePagesRange,if_neg (by decide)]
  dsimp only
  rw [hslots,hlast,Int.toNat_zero,List.foldl_cons]
  exact congrArg (filemapMappingRefreshMarks 8192) hfold

theorem unmount_returns_pages_truncated :
    let u := truncatedFolio.unmounted stillEnv freshPages
    let t := truncatedFolio.run stillEnv freshPages
    u.taken=[4096] ∧ (∀ p<pageRecordMax,pageAt stillEnv.base p∈u.taken →
      OnlyCache u (pageAt stillEnv.base p) → t.freed.count (pageAt stillEnv.base p)=
        t.taken.count (pageAt stillEnv.base p)) ∧
    ∀ p<pageRecordMax,t.pages p=freshPages.pages p := by
  have hu : Accounted freshPages.pages stillEnv.base (truncatedFolio.unmounted stillEnv freshPages) :=
    truncatedFolio.unmounted_accounted (stillEnv_reentrant _ fun _ => trivial).accounted
      freshPages_booted.accounted
  have hlog : (truncatedFolio.unmounted stillEnv freshPages).taken=[4096] ∧
      (truncatedFolio.unmounted stillEnv freshPages).freed=[4096] := by
    rw [truncatedFolio_unmounted]
    decide +kernel
  have hall := unmount_returns_pages stillEnv (stillEnv_reentrant _ fun _ => trivial) freshPages
    freshPages_booted [] truncatedFolio
  rw [show runCycles stillEnv [] freshPages=freshPages from rfl] at hall
  generalize truncatedFolio.unmounted stillEnv freshPages=u at hu hlog hall ⊢
  generalize truncatedFolio.run stillEnv freshPages=t at hall ⊢
  have hzero : ∀ p<pageRecordMax,(u.folios (pageAt stillEnv.base p)).refcount=0 := by
    intro p hp
    rcases hu.ledger p hp with ⟨_,_,_,hcount⟩|⟨_,hz,_⟩
    · rw [hlog.1,hlog.2] at hcount
      omega
    · exact hz
  have hnone : ∀ i,(u.records i).active=true → (u.folios (u.records i).folio).refcount≠1 := by
    intro i hi
    obtain ⟨p,hp,_⟩ := hu.stored i hi
    have he : pageAt stillEnv.base p=(u.records i).folio :=
      indexOf_inj (Kvm.PageArena.indexOf_pageAt stillEnv.base (indexOf_lt hp)) hp
    rw [← he,hzero p (indexOf_lt hp)]
    decide
  exact ⟨hlog.1,hall.1.mpr hnone,hall.2 hnone fun p hp => Or.inl (hzero p hp)⟩

/-- A mount that reads one page and an unmount that calls nothing. -/
def oneFolio : Cycle := ⟨[.getFolio 8192 0 4 0 false,.put 4096],[]⟩

/-- The page that only the cache refers to is not given back. -/
theorem unmount_loses_page :
    let u := oneFolio.unmounted stillEnv freshPages
    let t := oneFolio.run stillEnv freshPages
    (u.records 0).active=true ∧ (u.records 0).folio=4096 ∧ (u.folios 4096).refcount=1 ∧
      t.taken=[4096] ∧ t.freed=[] ∧ t.pages 0=.head 0 ∧ ∀ i,(t.records i).active=false := by
  intro u t
  have hu : Accounted freshPages.pages stillEnv.base u :=
    oneFolio.unmounted_accounted (stillEnv_reentrant _ fun _ => trivial).accounted
      freshPages_booted.accounted
  obtain ⟨_,hpages,htaken,hfreed⟩ := putFolios_keeps hu.toCore
  obtain ⟨hpages',htaken',hfreed'⟩ := clearRecords_pages
  have hstate : (u.records 0).active=true ∧ (u.records 0).folio=4096 ∧
      (u.folios 4096).refcount=1 ∧ u.taken=[4096] ∧ u.freed=[] ∧ u.pages 0=.head 0 := by
    decide +kernel
  obtain ⟨h1,h2,h3,h4,h5,h6⟩ := hstate
  refine ⟨h1,h2,h3,htaken'.trans (htaken.trans h4),hfreed'.trans (hfreed.trans h5),?_,fun _ => rfl⟩
  rw [← h6]
  exact congrFun (hpages'.trans hpages) 0

end Kobox.PageCache
