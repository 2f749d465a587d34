import Kobox.PageCache.Calls

namespace Kobox.PageCache

open List Function Untouched
open FolioRecord (empty)

open Kvm (ArenaBase)

/-- The page cache is in order: one record a key, and mappings that count and find them. -/
structure Shape (base : ArenaBase) (s : PageState) : Prop extends Core base s where
  inside : ∀ i,(s.records i).active=true → (s.records i).index<ulongMax
  keys : ∀ i j,(s.records i).active=true → (s.records j).active=true →
    (s.records i).mapping=(s.records j).mapping → (s.records i).index=(s.records j).index → i=j
  counted : ∀ m,m≠0 → (s.mappings m).nrpages=filemapMappingFolioCount s m
  headed : ∀ m,m≠0 → (s.mappings m).head=headOf s m
  loads : s.entries=fun _ _ => 0

section

variable {base : ArenaBase} {s t : PageState}

theorem Untouched.caches (h : Untouched base s t) (m i : Nat) :
    (t.records i).caches m=(s.records i).caches m := by
  simp [FolioRecord.caches,h.active,h.mapping,h.folio]

theorem Untouched.headOf (h : Untouched base s t) (m : Nat) : headOf t m=headOf s m := by
  have hsame := leastSlot_congr (fun r => r.caches m && r.index<ulongMax) FolioRecord.index
    (n := folioCacheMax) (t := s.records) (u := t.records) fun i _ => ⟨by simp only [h.caches,h.index],fun _ => h.index i⟩
  unfold Kobox.PageCache.headOf
  rw [hsame]
  cases leastSlot (fun r => r.caches m && r.index<ulongMax) FolioRecord.index s.records
      folioCacheMax with
  | none => rfl
  | some i => exact h.folio i

theorem Untouched.count (h : Untouched base s t) (m : Nat) :
    filemapMappingFolioCount t m=filemapMappingFolioCount s m :=
  slotCount_congr fun i _ => by simp [h.active,h.mapping]

theorem Shape.untouched (hs : Shape base s) (h : Untouched base s t) : Shape base t := by
  refine ⟨hs.toCore.untouched h,?_,?_,?_,?_,?_⟩
  · intro i hi
    rw [h.index]
    exact hs.inside i (h.active i ▸ hi)
  · intro i j hi hj
    rw [h.mapping,h.mapping,h.index,h.index]
    exact hs.keys i j (h.active i ▸ hi) (h.active j ▸ hj)
  · intro m hm
    rw [h.counts,h.count]
    exact hs.counted m hm
  · intro m hm
    rw [h.heads,h.headOf]
    exact hs.headed m hm
  · rw [h.entries]
    exact hs.loads

end

section

variable (env : PageEnv) {s t : PageState} {folio mapping index i : Nat}

theorem headOf_congr {u : PageState} {m : Nat} (h : s.records=u.records) :
    headOf s m=headOf u m := by
  unfold headOf
  rw [h]

theorem headOf_other {u : PageState} {m : Nat} (hrec : ∀ j,j≠i → u.records j=s.records j)
    (hold : (s.records i).caches m=false) (hnew : (u.records i).caches m=false) :
    headOf u m=headOf s m := by
  have hsame := leastSlot_congr (fun r => r.caches m && r.index<ulongMax) FolioRecord.index
    (n := folioCacheMax) (t := s.records) (u := u.records) (by
      intro j _
      by_cases hj : j=i
      · subst hj
        simp [hold,hnew]
      · rw [hrec j hj]
        exact ⟨rfl,fun _ => rfl⟩)
  unfold headOf
  rw [hsame]
  have hspec := (leastSlot_spec (fun r => r.caches m && r.index<ulongMax) FolioRecord.index
    s.records folioCacheMax).1
  cases hl : leastSlot (fun r => r.caches m && r.index<ulongMax) FolioRecord.index s.records
      folioCacheMax with
  | none => rfl
  | some j =>
    obtain ⟨_,hj,_⟩ := hspec j hl
    have hne : j≠i := by
      rintro rfl
      simp [hold] at hj
    exact congrArg FolioRecord.folio (hrec j hne)

theorem Shape.recount {base : ArenaBase} {v : PageState} {r : FolioRecord} {m : Nat} {g : Nat → Nat}
    (hs : Shape base s) (hm : m≠0) (hlt : i<folioCacheMax) (hrec : v.records=update s.records i r)
    (hmap : v.mappings=s.mappings) (hold : (s.records i).active=true → (s.records i).mapping=m)
    (hnew : r.active=true → r.mapping=m)
    (hg : ∀ n k,n≤folioCacheMax → k+(if (s.records i).active then 1 else 0)=
      n+(if r.active then 1 else 0) → g n=k) :
    let u := (filemapRefreshXarrayHead m v).onMapping m fun x => { x with nrpages := g x.nrpages }
    ∀ k,k≠0 → (u.mappings k).nrpages=filemapMappingFolioCount u k ∧
      (u.mappings k).head=headOf u k := by
  intro u k hk
  have hu : u.records=update s.records i r := by
    simp only [u,filemapRefreshXarrayHead,if_neg hm]
    exact hrec
  have hcount := slotCount_update (p := fun r : FolioRecord => r.active && r.mapping==k)
    (t := s.records) hlt r
  have hcounted := hs.counted k hk
  have hmax : filemapMappingFolioCount s k≤folioCacheMax := slotCount_le
  rw [← hu] at hcount
  unfold filemapMappingFolioCount at hcounted hmax ⊢
  by_cases he : k=m
  · subst he
    have hown : ∀ r : FolioRecord,(r.active=true → r.mapping=k) →
        (r.active && r.mapping==k)=r.active := by
      intro r hr
      cases ha : r.active <;> simp [hr,ha]
    simp only [hown _ hold,hown _ hnew] at hcount
    have hmaps : u.mappings k={ s.mappings k with
        head := headOf v k,nrpages := g (s.mappings k).nrpages } := by
      simp [u,filemapRefreshXarrayHead,hk,PageState.onMapping,hmap]
    rw [hmaps]
    dsimp only
    refine ⟨?_,headOf_congr (hrec.trans hu.symm)⟩
    rw [hcounted]
    exact hg _ _ hmax hcount
  · have hnone : ∀ r : FolioRecord,(r.active=true → r.mapping=m) →
        (r.active && r.mapping==k)=false := by
      intro r hr
      cases ha : r.active <;> simp [hr,ha,Ne.symm he]
    simp only [hnone _ hold,hnone _ hnew,Bool.false_eq_true,if_false,Nat.add_zero] at hcount
    have hmaps : u.mappings k=s.mappings k := by
      simp [u,filemapRefreshXarrayHead,hm,PageState.onMapping,he,hmap]
    rw [hmaps,hs.headed k hk]
    refine ⟨by rw [hcounted,hcount],
      (headOf_other (i := i) (fun j hj => by rw [hu,update_of_ne hj]) ?_ ?_).symm⟩
    · simp [FolioRecord.caches,hnone _ hold]
    · simp [hu,FolioRecord.caches,hnone _ hnew]

theorem Shape.without (hs : Shape env.base s) (hi : (s.records i).active=true) :
    Shape env.base (without i s) := by
  have hm := (hs.used i hi).1
  have hkeep := fun {j} => without_active (s := s) (i := i) (j := j) hm
  obtain ⟨_,_,hentries⟩ := without_folios (s := s) hm
  have hmaps := hs.recount (v := s.onRecord i fun _ => empty) hm (hs.small i hi) rfl rfl
    (fun _ => rfl) nofun (g := fun n => if n≠0 then n-1 else n) (by
      intro n k _ hn
      simp [hi,empty] at hn
      split <;> omega)
  refine ⟨hs.toCore.without env hi,?_,?_,fun m hm0 => (hmaps m hm0).1,
    fun m hm0 => (hmaps m hm0).2,?_⟩
  · intro j hj
    obtain ⟨_,h1,h2⟩ := hkeep hj
    rw [h2]
    exact hs.inside j h1
  · intro j k hj hk
    obtain ⟨_,h1,h2⟩ := hkeep hj
    obtain ⟨_,h3,h4⟩ := hkeep hk
    rw [h2,h4]
    exact hs.keys j k h1 h3
  · rw [hentries]
    exact hs.loads

theorem discard_shape (hs : Shape env.base s) {folio : Nat} :
    Shape env.base (filemapFolioDiscard env folio s) :=
  discard_keeps env hs.toCore hs (fun _ hi => (hs.without env hi).untouched
    (refreshMarks_untouched _ _)) (fun _ _ h k => k.untouched h.untouched)

theorem insertFolio_shape {slot : Nat} (hs : Shape env.base s) {fgp : Nat}
    (h : Insertable env s slot mapping folio) (hindex : index<ulongMax)
    (hfresh : ∀ i,(s.records i).active=true → (s.records i).mapping=mapping →
      (s.records i).index≠index) : Shape env.base (insertFolio slot mapping index fgp folio s) := by
  have hcase := fun {j} => insertFolio_cases env hs.toCore h index fgp (j := j)
  have hmaps := hs.recount (v := { s with
      folios := update s.folios folio ⟨⟨fgpLock fgp,false,false,false,false⟩,mapping,index,2⟩
      records := update s.records slot { s.records slot with
        active := true,mapping := mapping,index := index,folio := folio } }) h.mapped h.small rfl rfl
    (by simp [h.free]) (fun _ => rfl) (g := fun n => if n≠ulongMax then n+1 else n) (by
      intro n k hn hk
      simp only [folioCacheMax] at hn
      simp [h.free] at hk
      rw [if_pos (by simp only [ulongMax]; omega),hk])
  refine ⟨insertFolio_core env hs.toCore h index fgp,?_,?_,fun m hm => (hmaps m hm).1,
    fun m hm => (hmaps m hm).2,?_⟩
  · intro j hj
    rcases hcase hj with ⟨_,h2⟩|⟨_,h1,h2⟩ <;> rw [h2]
    · exact hindex
    · exact hs.inside j h1
  · intro j k hj hk
    rcases hcase hj with ⟨e1,h2⟩|⟨_,h1,h2⟩ <;> rcases hcase hk with ⟨e2,h4⟩|⟨_,h3,h4⟩ <;> rw [h2,h4]
    · exact fun _ _ => e1.trans e2.symm
    · exact fun hm hi => absurd hi.symm (hfresh k h3 hm.symm)
    · exact fun hm hi => absurd hi (hfresh j h1 hm)
    · exact hs.keys j k h1 h3
  · rw [(insertFolio_pages slot mapping index fgp folio s).2]
    exact hs.loads

def KeepsShape (env : PageEnv) : Prop := ∀ c s,Untouched env.base s (env.after c s)

theorem shape_closed (hk : KeepsShape env) : Closed env (Shape env.base) Reduced where
  core := fun _ hs => hs.toCore
  refl := Reduced.refl
  trans := fun h k => h.trans k
  callback := fun c _ hs => ⟨hs.untouched (hk c _),(hk c _).reduced⟩
  quiet := fun _ _ h hs => ⟨hs.untouched h.untouched,h.untouched.reduced⟩
  marks := fun m s hs =>
    have h : Untouched env.base s (filemapMappingRefreshMarks m s) := refreshMarks_untouched m s
    ⟨hs.untouched h,h.reduced⟩
  discard := fun _ _ hs => ⟨discard_shape env hs, (discard_core env hs.toCore).2.1⟩

end

section

variable {base : ArenaBase} (s : PageState)

theorem dirtyFolio_untouched {mapping folio : Nat} :
    Untouched base s (filemapDirtyFolio mapping folio s).2 := by
  unfold filemapDirtyFolio
  split
  · exact refl base s
  · dsimp only
    refine trans ?_ (onMapping _ mapping (fun _ => rfl) fun _ => rfl)
    exact onFolio s folio (fun _ => rfl) (fun _ => rfl) fun _ h => h

theorem folioMarkDirty_untouched {env : PageEnv} (hk : KeepsShape env) {folio : Nat} :
    Untouched env.base s (folioMarkDirty env folio s) := by
  unfold folioMarkDirty
  split
  · exact refl _ s
  split
  · exact onFolio s folio (fun _ => rfl) (fun _ => rfl) fun _ h => h
  have hop := hk (.dirtyFolio (s.folios folio).mapping folio) s
  simp only [PageEnv.after] at hop
  split
  · exact dirtyFolio_untouched s
  · next op h =>
    rw [h] at hop
    exact hop

variable {f : FolioRecord → FolioRecord}

theorem Untouched.onRecord {i : Nat} (hi : (s.records i).active=true)
    (hf : ∀ r,f r={ r with towrite := (f r).towrite }) : Untouched base s (s.onRecord i f) := by
  have hother : ∀ j,j≠i → (s.onRecord i f).records j=s.records j := by
    intro j hj
    simp [PageState.onRecord,hj]
  have hat : (s.onRecord i f).records i=f (s.records i) := by simp [PageState.onRecord]
  refine ⟨?_,?_,fun _ => rfl,fun _ => rfl,fun _ _ => ⟨rfl,rfl⟩,fun _ _ h => h,fun _ _ _ _ h => h,rfl⟩
  · intro j
    by_cases hj : j=i
    · subst hj
      rw [hat]
      exact hf _
    · rw [hother j hj]
  · intro j hj
    have hne : j≠i := by
      rintro rfl
      rw [hi] at hj
      cases hj
    exact hother j hne

variable (folio : Nat)

theorem onCached_untouched (hf : ∀ r,f r={ r with towrite := (f r).towrite }) :
    Untouched base s (onCached folio f s) := by
  unfold onCached
  split
  · exact refl base s
  · next i hi =>
    exact (onRecord s (folioRecord_some hi).1 hf).trans (refreshMarks_untouched _ _)

/-- A step that changes the flags of one folio and whether its record is to be written. -/
inductive Reflags (s : PageState) : PageState → Prop
  | idle : Reflags s s
  | flags (h0 : folio≠0) (g : Folio → FolioFlags) (f : FolioRecord → FolioRecord)
      (hf : ∀ r,f r={ r with towrite := (f r).towrite }) :
      Reflags s (onCached folio f (s.onFolio folio fun x => { x with flags := g x }))

theorem clearForIo_reflags : Reflags folio s (folioClearDirtyForIo folio s).2 := by
  unfold folioClearDirtyForIo
  split
  · exact .idle
  · next h0 => exact .flags h0 _ _ fun _ => rfl

theorem startWriteback_reflags {keepWrite : Bool} :
    Reflags folio s (folioStartWriteback folio keepWrite s) := by
  unfold folioStartWriteback
  split
  · exact .idle
  · next h0 => exact .flags h0 _ _ fun _ => rfl

theorem endWriteback_reflags : Reflags folio s (folioEndWriteback folio s) := by
  unfold folioEndWriteback
  split
  · exact .idle
  · next h0 => exact .flags h0 _ _ fun _ => rfl

theorem Reflags.untouched {s t : PageState} {folio : Nat} (h : Reflags folio s t) :
    Untouched base s t := by
  cases h with
  | idle => exact refl base s
  | flags _ g f hf =>
    refine trans ?_ (onCached_untouched _ folio hf)
    exact onFolio s folio (fun _ => rfl) (fun _ => rfl) fun _ h => h

theorem tagPages_untouched {mapping start stop : Nat} :
    Untouched base s (tagPagesForWriteback mapping start stop s) := by
  unfold tagPagesForWriteback
  split
  · exact refl base s
  refine trans ?_ (onMapping _ mapping (fun _ => rfl) fun _ => rfl)
  refine ⟨?_,?_,fun _ => rfl,fun _ => rfl,fun _ _ => ⟨rfl,rfl⟩,fun _ _ h => h,fun _ _ _ _ h => h,
    rfl⟩
  · intro i
    dsimp only
    split <;> rfl
  · intro i hi
    have hn : dirtyIn s mapping start stop (s.records i)=false := by
      simp [dirtyIn,FolioRecord.caches,hi]
    simp [hn]

end

/-- The indices that the page cache can find again. -/
def PageCall.Inside : PageCall → Prop
  | .getFolio _ index _ _ _ => index<ulongMax
  | _ => True

section

variable {env : PageEnv} {s : PageState}

theorem run_shape (hk : KeepsShape env) (hs : Shape env.base s) {c : PageCall} (hc : c.Inside) :
    Shape env.base (c.run env s) := by
  refine (shape_closed env hk).run hs c ?_ ?_ ?_ ?_ ?_ ?_ ?_
  · rintro mapping index fgp gfp preserve rfl hm hkey t slot ht hless hlt hfree hpage
    have hcalm := (allocFolioPage_calm env t).1.untouched
    refine insertFolio_shape env (ht.untouched hcalm)
      (ht.toCore.insertable env hlt hfree hm hpage) hc ?_
    intro i hi hmap
    obtain ⟨h1,h2⟩ := (hless.trans hcalm.reduced).kept i hi
    rw [h2] at hmap ⊢
    exact findKey_none hs.toCore hkey h1 hmap
  · exact fun folio _ => hs.untouched (folioMarkDirty_untouched s hk)
  · exact fun mapping folio _ => hs.untouched (dirtyFolio_untouched s)
  · exact fun folio => hs.untouched (clearForIo_reflags s folio).untouched
  · exact fun folio keepWrite => hs.untouched (startWriteback_reflags s folio).untouched
  · exact fun folio => hs.untouched (endWriteback_reflags s folio).untouched
  · exact fun mapping start stop _ =>
      hs.untouched (tagPages_untouched s)

theorem runCalls_shape (hk : KeepsShape env) (hs : Shape env.base s) {calls : List PageCall}
    (hcalls : ∀ c∈calls,c.Inside) : Shape env.base (runCalls env calls s) := by
  induction calls generalizing s with
  | nil => exact hs
  | cons c calls ih =>
    exact ih (run_shape hk hs (hcalls c mem_cons_self)) fun d hd =>
      hcalls d (mem_cons_of_mem _ hd)

structure Fresh (s : PageState) : Prop where
  records : ∀ i,s.records i=FolioRecord.empty
  mappings : ∀ m,s.mappings m=⟨0,0,false,false,false⟩
  entries : s.entries=fun _ _ => 0

theorem Fresh.core {base : ArenaBase} (h : Fresh s) : Core base s := by
  have hno : ∀ i,(s.records i).active=true → False := by
    intro i hi
    rw [h.records] at hi
    cases hi
  exact ⟨fun i hi => (hno i hi).elim,fun i _ => h.records i,fun i hi => (hno i hi).elim,
    fun i _ hi => (hno i hi).elim,fun i hi => (hno i hi).elim,fun i hi => (hno i hi).elim,
    fun i hi => (hno i hi).elim⟩

theorem Fresh.shape {base : ArenaBase} (h : Fresh s) : Shape base s := by
  have hno : ∀ i,(s.records i).active=true → False := by
    intro i hi
    rw [h.records] at hi
    cases hi
  refine ⟨h.core,fun i hi => (hno i hi).elim,fun i _ hi => (hno i hi).elim,?_,?_,h.entries⟩
  · intro m _
    rw [h.mappings]
    refine (slotCount_zero ?_).symm
    intro i _
    rw [h.records]
    rfl
  · intro m _
    rw [h.mappings]
    have hspec := (leastSlot_spec (fun r => r.caches m && r.index<ulongMax) FolioRecord.index
      s.records folioCacheMax).1
    unfold headOf
    cases hl : leastSlot (fun r => r.caches m && r.index<ulongMax) FolioRecord.index s.records
        folioCacheMax with
    | none => rfl
    | some j =>
      have hj := (hspec j hl).2.1
      rw [h.records] at hj
      cases hj

end

theorem Shape.head_least {base : ArenaBase} {s : PageState} (hs : Shape base s) {m : Nat} (hm : m≠0) :
    ((∀ i,(s.records i).active=true → (s.records i).mapping≠m) ∧ (s.mappings m).head=0) ∨
      ∃ i,(s.records i).active=true ∧ (s.records i).mapping=m ∧
        (s.mappings m).head=(s.records i).folio ∧
        ∀ j,(s.records j).active=true → (s.records j).mapping=m →
          (s.records i).index≤(s.records j).index := by
  have hfound : ∀ j,(s.records j).active=true → (s.records j).mapping=m →
      ((s.records j).caches m && (s.records j).index<ulongMax)=true := by
    intro j hj hmap
    simp [FolioRecord.caches,hj,hmap,(hs.used j hj).2,hs.inside j hj]
  obtain ⟨hsome,hnone⟩ := leastSlot_spec (fun r => r.caches m && r.index<ulongMax)
    FolioRecord.index s.records folioCacheMax
  rw [hs.headed m hm]
  unfold headOf
  cases hl : leastSlot (fun r => r.caches m && r.index<ulongMax) FolioRecord.index s.records
      folioCacheMax with
  | none =>
    refine Or.inl ⟨?_,rfl⟩
    intro j hj hmap
    have h1 := hnone hl j (hs.small j hj)
    rw [hfound j hj hmap] at h1
    cases h1
  | some i =>
    obtain ⟨_,hi,hleast⟩ := hsome i hl
    simp [FolioRecord.caches] at hi
    exact Or.inr ⟨i,hi.1.1.1,hi.1.1.2,rfl,fun j hj hmap =>
      hleast j (hs.small j hj) (hfound j hj hmap)⟩

theorem Shape.xaLoad_eq {base : ArenaBase} {s : PageState} (hs : Shape base s) (m index : Nat) :
    (∀ i,(s.records i).active=true → (s.records i).mapping=m → (s.records i).index=index →
      xaLoad s m index=(s.records i).folio) ∧
    ((∀ i,(s.records i).active=true → (s.records i).mapping=m → (s.records i).index≠index) →
      xaLoad s m index=0) := by
  have hload : xaLoad s m index=filemapXarrayLoad s m index := by simp [xaLoad,hs.loads]
  rw [hload]
  unfold filemapXarrayLoad
  cases h : findKey s m index with
  | none =>
    refine ⟨?_,fun _ => rfl⟩
    intro i hi hmap hindex
    exact absurd hindex (findKey_none hs.toCore h hi hmap)
  | some j =>
    obtain ⟨_,hj,hmap,hindex⟩ := findKey_some h
    refine ⟨?_,fun hno => absurd hindex (hno j hj hmap)⟩
    intro i hi hmi hii
    rw [hs.keys i j hi hj (hmi.trans hmap.symm) (hii.trans hindex.symm)]

/-- With callbacks that leave the page cache alone, one record a key, page counts and xarray heads
as the records say, and every cached folio referenced. -/
theorem page_cache_agrees (env : PageEnv) (hk : KeepsShape env) (s : PageState) (hs : Fresh s)
    (calls : List PageCall) (hcalls : ∀ c∈calls,c.Inside) :
    let t := runCalls env calls s
    (∀ i j,(t.records i).active=true → (t.records j).active=true →
      (t.records i).mapping=(t.records j).mapping → (t.records i).index=(t.records j).index → i=j) ∧
    (∀ m,m≠0 → (t.mappings m).nrpages=filemapMappingFolioCount t m) ∧
    (∀ m,m≠0 → ((∀ i,(t.records i).active=true → (t.records i).mapping≠m) ∧ (t.mappings m).head=0) ∨
      ∃ i,(t.records i).active=true ∧ (t.records i).mapping=m ∧
        (t.mappings m).head=(t.records i).folio ∧
        ∀ j,(t.records j).active=true → (t.records j).mapping=m →
          (t.records i).index≤(t.records j).index) ∧
    (∀ m index,
      (∀ i,(t.records i).active=true → (t.records i).mapping=m → (t.records i).index=index →
        xaLoad t m index=(t.records i).folio) ∧
      ((∀ i,(t.records i).active=true → (t.records i).mapping=m → (t.records i).index≠index) →
        xaLoad t m index=0)) ∧
    ∀ i,(t.records i).active=true → 1≤(t.folios (t.records i).folio).refcount := by
  have ht := runCalls_shape hk hs.shape hcalls
  exact ⟨ht.keys,ht.counted,fun m hm => ht.head_least hm,ht.xaLoad_eq,ht.refs⟩

theorem freshPages_fresh : Fresh freshPages := ⟨fun _ => rfl,fun _ => rfl,rfl⟩

/-- Two folios of one mapping; the first put back and truncated. -/
def twoFolios : List PageCall :=
  [.getFolio 8192 3 6 0 false,.getFolio 8192 1 4 0 false,.put 4096,.truncate 8192 12288 (-1)]

theorem page_cache_agrees_two : (∀ c∈twoFolios,c.Inside) ∧
    ((runCalls stillEnv twoFolios freshPages).mappings 8192).nrpages=
      filemapMappingFolioCount (runCalls stillEnv twoFolios freshPages) 8192 := by
  have hinside : ∀ c∈twoFolios,c.Inside := by
    intro c hc
    simp only [twoFolios,mem_cons,not_mem_nil,or_false] at hc
    rcases hc with rfl|rfl|rfl|rfl
    · show 3<ulongMax
      decide
    · show 1<ulongMax
      decide
    · trivial
    · trivial
  have hstill : KeepsShape stillEnv := by
    intro c s
    rw [stillEnv_after]
    exact refl _ s
  exact ⟨hinside,(page_cache_agrees stillEnv hstill freshPages freshPages_fresh twoFolios
    hinside).2.1 8192 (by decide)⟩

end Kobox.PageCache
