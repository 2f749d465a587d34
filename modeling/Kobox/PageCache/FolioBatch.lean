import Kobox.PageCache.Reclaim

namespace Kobox.PageCache

open List Function

def folioBatchMax : Nat := 31

/-- The tags of `filemap_get_folios_tag`; `filemap_get_folios` takes every folio. -/
inductive Tag where
  | every
  | dirty
  | writeback
  | towrite
  | unknown

def Tag.matches (s : PageState) (r : FolioRecord) : Tag → Bool
  | .every => true
  | .dirty => (s.folios r.folio).flags.dirty
  | .writeback => (s.folios r.folio).flags.writeback
  | .towrite => r.towrite && (s.folios r.folio).flags.dirty
  | .unknown => false

variable (tag : Tag) (mapping stop : Nat)

def wanted (s : PageState) (cursor : Nat) (r : FolioRecord) : Bool :=
  r.caches mapping && cursor ≤ r.index && r.index ≤ stop && tag.matches s r

@[irreducible] def nextFolio (s : PageState) (cursor : Nat) : Option Nat :=
  leastSlot (wanted tag mapping stop s cursor) FolioRecord.index s.records folioCacheMax

/-- The loop with n places left in the batch: the folios, each with a reference, and the cursor. -/
def gatherFolios : Nat → Nat → PageState → List Nat × Nat × PageState
  | 0,cursor,s => ([],cursor,s)
  | n+1,cursor,s =>
    if stop < cursor then ([],cursor,s) else
    match nextFolio tag mapping stop s cursor with
    | none => ([],cursor,s)
    | some i =>
      let folio := (s.records i).folio
      let t := s.onFolio folio fun f => {f with
        refcount := if f.refcount≠refcountMax then f.refcount+1 else f.refcount}
      if (s.records i).index=ulongMax then ([folio],ulongMax,t) else
      let r := gatherFolios n ((s.records i).index+1) t
      (folio::r.1,r.2)

/-- The batch, the new start and the state; `filemap_get_folios` is the tag `every`. -/
def filemapGetFoliosTag (start : Nat) (s : PageState) : List Nat × Nat × PageState :=
  if mapping=0 then ([],start,s) else
  let r := gatherFolios tag mapping stop folioBatchMax start s
  (r.1,if r.1.length=folioBatchMax then r.2.1 else if stop=ulongMax then ulongMax else stop+1,r.2.2)

def folioBatchRelease (env : PageEnv) (batch : List Nat) (s : PageState) : PageState :=
  batch.foldl (fun s folio => folioPut env folio s) s

/-- Calls with the new start until one returns 0: the batches. -/
def allBatches : Nat → Nat → PageState → Option (List (List Nat) × PageState)
  | 0,_,_ => none
  | fuel+1,start,s =>
    let r := filemapGetFoliosTag tag mapping stop start s
    if r.1=[] then some ([],r.2.2)
    else (allBatches fuel r.2.1 r.2.2).map fun a => (r.1::a.1,a.2)

/-- The slots are those of the wanted folios from index c up to c', in the order of the indices. -/
structure Listed (s : PageState) (c c' : Nat) (slots : List Nat) : Prop where
  order : slots.Pairwise fun i j => (s.records i).index < (s.records j).index
  mem : ∀ i,i∈slots ↔ i < folioCacheMax ∧ wanted tag mapping stop s c (s.records i)=true ∧
    (s.records i).index < c'

variable {tag mapping stop} {env : PageEnv} {s : PageState} {c c' c'' : Nat} {is js : List Nat}

theorem wanted_iff {r : FolioRecord} : wanted tag mapping stop s c r=true ↔
    c ≤ r.index ∧ wanted tag mapping stop s 0 r=true := by
  simp [wanted]
  tauto

theorem wanted_active {r : FolioRecord} (h : wanted tag mapping stop s c r=true) :
    r.active=true ∧ r.mapping=mapping ∧ r.index ≤ stop := by
  simp only [wanted,FolioRecord.caches,Bool.and_eq_true,beq_iff_eq,decide_eq_true_eq] at h
  exact ⟨h.1.1.1.1.1,h.1.1.1.1.2,h.1.2⟩

theorem Listed.append (h : Listed tag mapping stop s c c' is)
    (k : Listed tag mapping stop s c' c'' js) (h1 : c ≤ c') (h2 : c' ≤ c'') :
    Listed tag mapping stop s c c'' (is++js) := by
  constructor
  · refine pairwise_append.mpr ⟨h.order,k.order,fun i hi j hj => ?_⟩
    have hi := ((h.mem i).mp hi).2.2
    have hj := (wanted_iff.mp ((k.mem j).mp hj).2.1).1
    omega
  · intro i
    rw [mem_append,h.mem,k.mem,wanted_iff,wanted_iff (c := c')]
    grind

theorem Listed.nil (h : ∀ i < folioCacheMax,wanted tag mapping stop s c (s.records i)=false) :
    Listed tag mapping stop s c c' [] :=
  ⟨.nil,fun i => by simpa using fun hi hw => by simp [h i hi] at hw⟩

def OneRecord (s : PageState) : Prop :=
  ∀ i j,(s.records i).active=true → (s.records j).active=true →
    (s.records i).mapping=(s.records j).mapping → (s.records i).index=(s.records j).index → i=j

theorem Listed.least {i : Nat} (hk : OneRecord s) (h : nextFolio tag mapping stop s c=some i) :
    wanted tag mapping stop s c (s.records i)=true ∧
      Listed tag mapping stop s c ((s.records i).index+1) [i] := by
  unfold nextFolio at h
  obtain ⟨hi,hw,hleast⟩ := (leastSlot_spec _ _ _ _).1 i h
  refine ⟨hw,?_⟩
  refine ⟨pairwise_singleton _ _,fun j => ?_⟩
  constructor
  · intro hj
    obtain rfl := mem_singleton.mp hj
    exact ⟨hi,hw,by omega⟩
  · rintro ⟨hj,hwj,hlt⟩
    have hle := hleast j hj hwj
    obtain ⟨ha,hm,_⟩ := wanted_active hw
    obtain ⟨haj,hmj,_⟩ := wanted_active hwj
    exact mem_singleton.mpr (hk j i haj ha (hmj.trans hm.symm) (by omega))

abbrev foliosOf (s : PageState) (slots : List Nat) : List Nat :=
  slots.map fun i => (s.records i).folio

def held (s : PageState) (folios : List Nat) : PageState :=
  {s with folios := fun g => {s.folios g with
    refcount := (s.folios g).refcount+folios.count g}}

@[simp] theorem held_nil (s : PageState) : held s []=s := by simp [held]

variable {ds : List Nat}

@[simp] theorem held_records {s : PageState} : (held s ds).records=s.records := rfl

theorem nextFolio_held : nextFolio tag mapping stop (held s ds)=
    nextFolio tag mapping stop s := by
  unfold nextFolio
  rfl

theorem held_onFolio {folio : Nat} (hd : folio∉ds) (hr : (s.folios folio).refcount < refcountMax) :
    ((held s ds).onFolio folio fun f => {f with
      refcount := if f.refcount≠refcountMax then f.refcount+1 else f.refcount})=
      held s (ds++[folio]) := by
  have hf : (update (held s ds).folios folio {(held s ds).folios folio with
      refcount := if ((held s ds).folios folio).refcount≠refcountMax
        then ((held s ds).folios folio).refcount+1 else ((held s ds).folios folio).refcount})=
      (held s (ds++[folio])).folios := by
    funext g
    by_cases hg : g=folio
    · subst hg
      simp [held,count_eq_zero_of_not_mem hd,hr.ne]
    · simp [held,hg,Ne.symm hg,count_singleton]
  simp only [PageState.onFolio,hf]
  rfl

section

variable (hs : Core env.base s) (hk : OneRecord s)
  (hr : ∀ i,(s.records i).active=true → (s.folios (s.records i).folio).refcount < refcountMax)
  (hstop : stop < ulongMax)

include hs hk hr hstop

/-- The wanted folios from the cursor on, up to the new one if the batch is full, all otherwise. -/
theorem gatherFolios_listed (n c : Nat) (ds : List Nat) (hc : c ≤ stop+1)
    (hd : ∀ i,wanted tag mapping stop s c (s.records i)=true → (s.records i).folio∉ds) :
    ∃ is c',gatherFolios tag mapping stop n c (held s ds)=
        (foliosOf s is,c',held s (ds++foliosOf s is)) ∧
      Listed tag mapping stop s c (if is.length=n then c' else stop+1) is ∧ c ≤ c' ∧ c' ≤ stop+1 ∧
      (is≠[] → c < c') := by
  induction n generalizing c ds with
  | zero =>
    refine ⟨[],c,by simp [gatherFolios],⟨.nil,fun i => ?_⟩,le_rfl,hc,by simp⟩
    rw [wanted_iff]
    simp
    omega
  | succ n ih =>
    have hstopped : Listed tag mapping stop s c (stop+1) [] →
        ∃ is c',(([],c,held s ds) : List Nat × Nat × PageState)=
          (foliosOf s is,c',held s (ds++foliosOf s is)) ∧
        Listed tag mapping stop s c (if is.length=n+1 then c' else stop+1) is ∧ c ≤ c' ∧
        c' ≤ stop+1 ∧ (is≠[] → c < c') := fun h => ⟨[],c,by simp,by simpa using h,le_rfl,hc,by simp⟩
    rw [gatherFolios,nextFolio_held]
    by_cases hlt : stop < c
    · rw [if_pos hlt]
      refine hstopped (.nil fun i _ => ?_)
      by_contra hw
      have hw := Bool.not_eq_false _ ▸ hw
      have := (wanted_iff.mp hw).1
      have := (wanted_active hw).2.2
      omega
    · rw [if_neg hlt]
      cases hl : nextFolio tag mapping stop s c with
      | none =>
        unfold nextFolio at hl
        exact hstopped (.nil ((leastSlot_spec _ _ _ _).2 hl))
      | some i =>
        obtain ⟨hw,hleast⟩ := Listed.least hk hl
        obtain ⟨ha,hm,hi⟩ := wanted_active hw
        have hlow := (wanted_iff.mp hw).1
        obtain ⟨is,c',hg,hlist,h1,h2,_⟩ := ih ((s.records i).index+1)
          (ds++[(s.records i).folio]) (by omega) fun j hj => by
            have hj' := wanted_iff.mp hj
            have haj := wanted_active hj
            rw [mem_append,mem_singleton,not_or]
            refine ⟨hd j (wanted_iff.mpr ⟨by omega,hj'.2⟩),fun he => ?_⟩
            obtain rfl := hs.folios j i haj.1 ha he
            omega
        refine ⟨i::is,c',?_,?_,by omega,h2,fun _ => by omega⟩
        · have hmax : (s.records i).index≠ulongMax := by omega
          simp only [held_records,held_onFolio (hd i hw) (hr i ha),if_neg hmax,hg]
          simp
        · have := hleast.append hlist (by omega) (by split <;> omega)
          simpa using this

theorem getFoliosTag_listed {c : Nat}
    (hd : ∀ i,wanted tag mapping stop s c (s.records i)=true → (s.records i).folio∉ds) :
    ∃ is c',filemapGetFoliosTag tag mapping stop c (held s ds)=
        (foliosOf s is,c',held s (ds++foliosOf s is)) ∧
      Listed tag mapping stop s c (if is=[] then stop+1 else c') is ∧
      (is≠[] → c < c' ∧ c' ≤ stop+1) := by
  by_cases hm : mapping=0
  · refine ⟨[],c,by simp [filemapGetFoliosTag,hm],.nil fun i _ => ?_,by simp⟩
    by_contra hw
    have ha := wanted_active (Bool.not_eq_false _ ▸ hw)
    exact (hs.used i ha.1).1 (ha.2.1.trans hm)
  by_cases hc : c ≤ stop+1
  · obtain ⟨is,c',hg,hl,h1,h2,h3⟩ := gatherFolios_listed hs hk hr hstop folioBatchMax c ds hc hd
    refine ⟨is,if is.length=folioBatchMax then c' else stop+1,?_,?_,?_⟩
    · simp [filemapGetFoliosTag,hm,hg,hstop.ne]
    · split
      · next he => simpa [he,folioBatchMax] using hl
      · exact hl
    · intro hne
      have := h3 hne
      split <;> omega
  · refine ⟨[],stop+1,?_,.nil fun i _ => ?_,by simp⟩
    · rw [filemapGetFoliosTag,if_neg hm,folioBatchMax,gatherFolios,if_pos (by omega)]
      simp [hstop.ne]
    by_contra hw
    have hw := Bool.not_eq_false _ ▸ hw
    have := (wanted_iff.mp hw).1
    have := (wanted_active hw).2.2
    omega

theorem allBatches_listed {tag : Tag} (mapping fuel c : Nat) (ds : List Nat) (h1 : 1≤fuel) (hf : stop+2≤fuel+c)
    (hd : ∀ i,wanted tag mapping stop s c (s.records i)=true → (s.records i).folio∉ds) :
    ∃ is batches,allBatches tag mapping stop fuel c (held s ds)=
        some (batches,held s (ds++batches.flatten)) ∧
      batches.flatten=foliosOf s is ∧
      Listed tag mapping stop s c (stop+1) is := by
  induction fuel generalizing c ds with
  | zero => omega
  | succ fuel ih =>
    obtain ⟨is,c',hg,hl,hlt⟩ := getFoliosTag_listed hs hk hr hstop hd
    rw [allBatches,hg]
    by_cases he : is=[]
    · refine ⟨[],[],by simp [he],rfl,?_⟩
      simpa [he] using hl
    obtain ⟨hc,hstop'⟩ := hlt he
    rw [if_neg he] at hl
    have hd' : ∀ j,wanted tag mapping stop s c' (s.records j)=true →
        (s.records j).folio∉ds++foliosOf s is := by
      intro j hj
      have hj' := wanted_iff.mp hj
      rw [mem_append,not_or]
      refine ⟨hd j (wanted_iff.mpr ⟨by omega,hj'.2⟩),fun hmem => ?_⟩
      obtain ⟨i,hi,hfi⟩ := mem_map.mp hmem
      have hi := (hl.mem i).mp hi
      obtain rfl := hs.folios i j (wanted_active hi.2.1).1 (wanted_active hj).1 hfi
      omega
    obtain ⟨js,batches,hb,hflat,hjs⟩ := ih c' _ (by omega) (by omega) hd'
    refine ⟨is++js,(foliosOf s is)::batches,?_,?_, hl.append hjs hc.le hstop'⟩
    · simp [he,hb]
    · simp [hflat]

omit hk hr hstop in
theorem folioPut_held {i : Nat} (hi : (s.records i).active=true) :
    folioPut env (s.records i).folio (held s ((s.records i).folio::ds))=held s ds := by
  have hrec : filemapFolioRecord (held s ((s.records i).folio::ds)) (s.records i).folio=some i :=
    hs.folioRecord env hi
  have hone := hs.refs i hi
  have hf : update (held s ((s.records i).folio::ds)).folios (s.records i).folio
      {(held s ((s.records i).folio::ds)).folios (s.records i).folio with
        refcount := if 1 < ((held s ((s.records i).folio::ds)).folios (s.records i).folio).refcount
          then ((held s ((s.records i).folio::ds)).folios (s.records i).folio).refcount-1
          else ((held s ((s.records i).folio::ds)).folios (s.records i).folio).refcount}=
      (held s ds).folios := by
    funext g
    by_cases hg : g=(s.records i).folio
    · subst hg
      simp [held]
      omega
    · simp [held,hg,Ne.symm hg]
  rw [folioPut,if_neg (hs.used i hi).2,hrec]
  simp only [PageState.onFolio,hf]
  rfl

omit hk hr hstop in
theorem release_held {is : List Nat} (ha : ∀ i∈is,(s.records i).active=true) :
    folioBatchRelease env (foliosOf s is) (held s (foliosOf s is))=s := by
  induction is with
  | nil => simp [folioBatchRelease]
  | cons i is ih =>
    obtain ⟨hi,his⟩ := forall_mem_cons.mp ha
    rw [folioBatchRelease,foliosOf,map_cons,foldl_cons,folioPut_held hs hi]
    exact ih his

end

/-- Calls until one returns 0 give every wanted folio once, in order, with one reference each, which
releasing the batches gives back. -/
theorem batches_enumerate (env : PageEnv) (s : PageState) (tag : Tag) (mapping start stop : Nat)
    (hs : Core env.base s) (hk : OneRecord s)
    (hr : ∀ i,(s.records i).active=true → (s.folios (s.records i).folio).refcount < refcountMax)
    (hstop : stop < ulongMax) (fuel : Nat) (hfuel : stop+2≤fuel) :
    ∃ slots : List Nat,∃ batches,
      allBatches tag mapping stop fuel start s=some (batches,held s batches.flatten) ∧
      batches.flatten=foliosOf s slots ∧
      (slots.Pairwise fun i j => (s.records i).index < (s.records j).index) ∧
      (∀ i,i∈slots ↔ i < folioCacheMax ∧ wanted tag mapping stop s start (s.records i)=true) ∧
      batches.flatten.Nodup ∧
      batches.foldl (fun t batch => folioBatchRelease env batch t) (held s batches.flatten)=s := by
  obtain ⟨is,batches,hb,hflat,hl⟩ := allBatches_listed hs hk hr hstop mapping fuel start []
    (by omega) (by omega) (by simp)
  have hmem : ∀ i,i∈is ↔ i < folioCacheMax ∧
      wanted tag mapping stop s start (s.records i)=true := by
    intro i
    rw [hl.mem]
    refine ⟨fun h => ⟨h.1,h.2.1⟩,fun h => ⟨h.1,h.2,?_⟩⟩
    have := (wanted_active h.2).2.2
    omega
  have ha : ∀ i∈is,(s.records i).active=true := fun i hi => (wanted_active ((hmem i).mp hi).2).1
  refine ⟨is,batches,by simpa using hb,hflat,hl.order,hmem,?_,?_⟩
  · rw [hflat,Nodup,pairwise_map]
    refine hl.order.imp_of_mem fun hi hj hlt he => ?_
    rw [hs.folios _ _ (ha _ hi) (ha _ hj) he] at hlt
    exact lt_irrefl _ hlt
  · have hrel := release_held hs ha
    rw [← hflat,folioBatchRelease,foldl_flatten] at hrel
    exact hrel

theorem batches_enumerate_full : ∃ batches, allBatches .every 8192 40 42 3 (fullPages false)=
      some (batches,held (fullPages false) batches.flatten) ∧ batches.flatten.Nodup := by
  obtain ⟨_,batches,hb,_,_,_,hn,_⟩ := batches_enumerate stillEnv (fullPages false) .every 8192 3 40
    (fullPages_core)
    (fun i j hi hj _ he => by
      rw [(fullPages_record hi).2,(fullPages_record hj).2] at he
      exact he)
    (fun _ _ => show 1 < refcountMax by decide) (by decide) 42 (by decide)
  exact ⟨batches,hb,hn⟩

end Kobox.PageCache
