import Kobox.Fs.BufferUser

namespace Kobox.Fs

open List Function Emits CacheRecord
open Kvm.PageArena (Covers indexOf pageAt)

section

variable {δ : Type} (env : Env δ) (callback : Call → FsState δ → FsState δ)
  {s t : FsState δ} {holds : List Hold} {fuel : Nat}

theorem FreesOk.fewer {more : List Hold} (h : FreesOk (holds++more) s t) : FreesOk holds s t :=
  mono h fun _ he =>
    ⟨he.1,he.2.1,he.2.2.1,he.2.2.2.1,fun a ha => he.2.2.2.2 a (mem_append_left _ ha)⟩

section

variable (h : UserOk env ⟨s,holds⟩)

include h

theorem UserOk.sameBlock {a c : Hold} (ha : a∈holds) (hc : c∈holds) (he : a.head=c.head) :
    a.block=c.block := by
  obtain ⟨i,hi,hia,hfa⟩ := h.held a ha
  obtain ⟨j,hj,hjc,hfc⟩ := h.held c hc
  obtain rfl := h.cache.heads i j hi hj (by rw [hia,hjc,he])
  obtain ⟨x,y⟩ := a
  obtain ⟨z,w⟩ := c
  cases y
  cases w
  simp only [Block.mk.injEq]
  exact ⟨hfa.1.symm.trans hfc.1,hfa.2.1.symm.trans hfc.2.1,hfa.2.2.symm.trans hfc.2.2⟩

theorem UserOk.countable {b : Block} {head : Nat} (hcount : Countable 2 s b)
    (ht : UserOk env ⟨t,holds++[⟨head,b⟩]⟩) : (t.heads head).refcount≠refcountMax := by
  obtain ⟨i,hi,hh,hfor⟩ := ht.held ⟨head,b⟩ (by simp)
  have hrefs := ht.refs i hi
  rw [hh,countP_append] at hrefs
  have hone : [(⟨head,b⟩ : Hold)].countP (fun a => a.head=head)=1 := by simp
  rw [hone] at hrefs
  have hrefs : (t.heads head).refcount=holds.countP (fun a => a.head=head)+1 := hrefs
  rw [hrefs]
  by_cases hz : holds.countP (fun a => a.head=head)=0
  · rw [hz]
    decide
  obtain ⟨a,ha,hah⟩ := countP_pos_iff.mp (Nat.pos_of_ne_zero hz)
  have hah : a.head=head := by simpa using hah
  have hblock : a.block=b := ht.sameBlock env (mem_append_left _ ha) (c := ⟨head,b⟩) (by simp) hah
  obtain ⟨j,hj,hjh,hjf⟩ := h.held a ha
  rw [hblock] at hjf
  have hmax := hcount _ (h.cache.cachedHead hj hjf)
  have hsrefs := h.refs j hj
  rw [hjh,hah] at hsrefs
  rw [hjh,hah] at hmax
  have hsrefs : (s.heads head).refcount=holds.countP (fun a => a.head=head) := hsrefs
  omega

theorem breadGfp_ok {b : Block} (hf : bufferCacheMax≤fuel) (hroom : Room s b)
    (hcount : Countable 2 s b) : AfterCall env holds s
      (User.got ⟨s,holds⟩ b (breadGfp env callback fuel b.bdev b.number b.size s)) := by
  have hpos : 0<fuel := lt_of_lt_of_le (by decide) hf
  obtain ⟨h1,h2⟩ := bdevGetblk_ok env h hroom fun head hc => by
    have := hcount head hc
    omega
  unfold breadGfp
  generalize bdevGetblk env b.bdev b.number b.size s=r at h1 h2 ⊢
  by_cases hz : r.1=0
  · rw [if_pos hz]
    rw [User.got,if_pos hz] at h1
    exact ⟨h1,h2⟩
  have hgot := h1
  rw [User.got,if_neg hz] at h1
  rw [if_neg hz]
  by_cases hup : (r.2.heads r.1).flags.uptodate=true
  · rw [if_pos hup]
    exact ⟨hgot,h2⟩
  rw [if_neg hup]
  have hlock := lockBuffer_free env callback fuel (h1.unlocked r.1)
  rw [hlock]
  have hup' : ¬((setLock r.1 true r.2).heads r.1).flags.uptodate=true := by
    simpa [setLock,FsState.onHead] using hup
  rw [if_neg hup']
  obtain ⟨h3,h4⟩ := bhRead_finished env callback 0 (h1.idle env) h1.prompt hpos
    (h.countable env hcount h1)
  have hkept : BuffersKept r.2 (bhRead env callback fuel r.1 0 true (setLock r.1 true r.2)).2 := by
    rw [h4]
    exact BuffersKept.trans _ _ _ ((buffersKept_ioClosed env).lock r.2 r.1 true)
      (bhRead_moves (buffersKept_ioClosed env) fuel r.1 0 true _)
  obtain ⟨h5,h6⟩ := h1.io env h3 hkept
  generalize bhRead env callback fuel r.1 0 true (setLock r.1 true r.2)=u at h5 h6 ⊢
  have h7 := trans _ _ _ h2 h6.fewer
  by_cases hbad : u.1≠0
  · rw [if_pos hbad]
    obtain ⟨h8,h9⟩ := h5.put env (i := holds.length) (a := ⟨r.1,b⟩) (by simp)
    rw [eraseIdx_append_of_length_le le_rfl] at h8
    exact ⟨by simpa [User.got] using h8,trans _ _ _ h7 h9.fewer⟩
  · rw [if_neg hbad]
    refine ⟨?_,h7⟩
    show UserOk env ⟨u.2,if r.1=0 then holds else holds++[⟨r.1,b⟩]⟩
    rw [if_neg hz]
    exact h5

theorem use_ok {f : Nat → FsState δ → FsState δ} {i : Nat}
    (hf : ∀ a∈holds,AfterCall env holds s ⟨f a.head s,holds⟩) :
    AfterCall env holds s (User.use ⟨s,holds⟩ i f) := by
  unfold User.use
  cases hi : holds[i]? with
  | none => exact ⟨h,refl s⟩
  | some a => exact hf a (mem_of_getElem? hi)

theorem release_ok {f : Nat → FsState δ → FsState δ} {i : Nat}
    (hf : ∀ a,holds[i]?=some a → AfterCall env holds s ⟨f a.head s,holds.eraseIdx i⟩) :
    AfterCall env holds s (User.release ⟨s,holds⟩ i f) := by
  unfold User.release
  cases hi : holds[i]? with
  | none => exact ⟨h,refl s⟩
  | some a => exact hf a hi

end

theorem UserOk.step (hf : bufferCacheMax≤fuel) {u : User δ} (h : UserOk env u) {c : UserCall}
    (hc : u.Fits c) : AfterCall env u.holds u.fs (u.step env callback fuel c) := by
  cases c with
  | getblk b => exact bdevGetblk_ok env h hc.1 hc.2
  | bread b => exact breadGfp_ok env callback h hf hc.1 hc.2
  | findGet b => exact findGetBlock_ok env h hc
  | put i => exact release_ok env h fun a ha => h.put env ha
  | mark i =>
    exact use_ok env h fun a ha => h.mark env ha
  | forget i =>
    exact release_ok env h fun a ha => h.forget env ha
  | write i opFlags =>
    simp only [User.step]
    exact use_ok env h fun a _ => h.write env callback hf opFlags
  | sync i =>
    simp only [User.step]
    exact use_ok env h fun a _ => h.sync env callback hf
  | flush =>
    exact h.flush env callback hf
  | invalidate bdev => exact invalidateBdev_ok env h
  | setBlocksize bdev size =>
    exact setBlocksize_ok env callback h hf

/-- Nothing is cached or waits to be written, the layer is idle, and the page cache has its
pages. -/
structure Boot (env : Env δ) (s : FsState δ) : Prop where
  prompt : Prompt s
  unlocked : ∀ h,(s.heads h).flags.lock=false
  empty : ∀ i,(s.cache i).active=false
  files : ∀ f,s.fileFolio f=true → ∀ p,indexOf env.base f=some p → s.pages p≠.free
  written : ∀ h,pending s.trace h=false

theorem Boot.ok {env : Env δ} (h : Boot env s) : UserOk env ⟨s,[]⟩ := by
  have hno : ∀ {i},(s.cache i).active=true → False := by
    intro i hi
    rw [h.empty i] at hi
    cases hi
  refine ⟨h.prompt,h.unlocked,.intro ?_ ?_ ?_ ?_ ?_,fun _ hi => (hno hi).elim,forall_mem_nil _⟩
  · exact fun _ hi => (hno hi).elim
  · exact fun _ _ hi => (hno hi).elim
  · exact fun _ hi => (hno hi).elim
  · intro k hk
    rw [show pending s.trace k=false from h.written k] at hk
    cases hk
  · exact fun f hf p hp => ⟨h.files f hf p hp,fun _ hi => (hno hi).elim⟩

/-- One buffer for a held block, one record for a cached one; a held buffer is there, counted, and
the one asked for; no two records share a page. -/
structure Identity (env : Env δ) (u : User δ) : Prop where
  same : ∀ a∈u.holds,∀ c∈u.holds,a.block=c.block → a.head=c.head
  once : ∀ i j,(u.fs.cache i).active=true → (u.fs.cache j).active=true →
    (u.fs.cache i).SameKey (u.fs.cache j) → i=j
  held : ∀ a∈u.holds,u.fs.headLive a.head=true ∧ 0<(u.fs.heads a.head).refcount ∧
    (u.fs.heads a.head).bdev=a.block.bdev ∧ (u.fs.heads a.head).blockNumber=a.block.number ∧
    (u.fs.heads a.head).blockSize=a.block.size
  storage : ∀ i j,(u.fs.cache i).active=true → (u.fs.cache j).active=true →
    ∀ p,Covers env.base (u.fs.cache i).folio (u.fs.cache i).folioOrder p →
      Covers env.base (u.fs.cache j).folio (u.fs.cache j).folioOrder p → i=j

theorem UserOk.identity {u : User δ} (h : UserOk env u) : Identity env u := by
  refine ⟨?_,h.cache.keys,?_,h.cache.apart⟩
  · intro a ha c hc hblock
    obtain ⟨i,hi,hia,hfa⟩ := h.held a ha
    obtain ⟨j,hj,hjc,hfc⟩ := h.held c hc
    rw [hblock] at hfa
    obtain rfl := h.cache.keys i j hi hj ⟨hfa.1.trans hfc.1.symm,hfa.2.1.trans hfc.2.1.symm,
      hfa.2.2.trans hfc.2.2.symm⟩
    rw [← hia,← hjc]
  · intro a ha
    obtain ⟨i,hi,hia,hfa⟩ := h.held a ha
    have hrefs := h.refs i hi
    have hdesc := h.cache.describes i hi
    have hlive := h.cache.live i hi
    rw [hia] at hrefs hdesc hlive
    refine ⟨hlive,?_,hdesc.1.trans hfa.1,hdesc.2.1.trans hfa.2.1,hdesc.2.2.1.trans hfa.2.2⟩
    rw [hrefs]
    exact countP_pos_of_held ha

/-- In every run whose lookups fit, buffers are what they are taken for, and only idle, clean
buffers that nobody holds are freed. -/
theorem buffer_identity (hf : bufferCacheMax≤fuel) (hb : Boot env s) (calls : List UserCall)
    (hm : Meets (User.step env callback fuel) User.Fits ⟨s,[]⟩ calls) (n : Nat) :
    let u := runAll (User.step env callback fuel) ⟨s,[]⟩ (calls.take n)
    Identity env u ∧
      ∀ c,calls[n]?=some c → FreesOk u.holds u.fs (u.step env callback fuel c).fs := by
  intro u
  have hu : UserOk env u :=
    runAll_invariant (fun v c hv hc => (hv.step env callback hf hc).1) hb.ok (hm.take n)
  refine ⟨hu.identity env,?_⟩
  intro c hc
  exact (hu.step env callback hf (hm.get hc)).2

end

theorem bootState_boot {d : BlockDevice} : Boot sampleEnv (bootState d) :=
  ⟨⟨rfl,rfl,rfl⟩,fun _ => rfl,fun _ => rfl,fun _ hf => absurd hf (by simp [bootState]),fun _ => rfl⟩

def lookTwice : List UserCall := [.getblk ⟨1,3,512⟩,.mark 0,.getblk ⟨1,3,512⟩]

theorem buffer_identity_twice :
    (runAll (User.step sampleEnv still 512) ⟨bootState sampleDevice,[]⟩ lookTwice).holds=
      [⟨1,⟨1,3,512⟩⟩,⟨1,⟨1,3,512⟩⟩] ∧
    Identity sampleEnv
      (runAll (User.step sampleEnv still 512) ⟨bootState sampleDevice,[]⟩ lookTwice) :=
  ⟨by decide +kernel,(buffer_identity sampleEnv still le_rfl (bootState_boot)
    lookTwice (by decide +kernel) 3).1⟩

/-- Lookup number k: a block of its own for each slot of the cache, then one block for all. -/
def fillBlock (k : Nat) : Block := ⟨1,min k bufferCacheMax,512⟩

def fillPayload (k : Nat) : Nat := sampleEnv.base.payloads+k*pageSize

def fillRecord (k : Nat) : CacheRecord :=
  ⟨true,1,k,512,2*k+1,pageAt sampleEnv.base k,fillPayload k,0,false⟩

/-- The layer behind the first n lookups: each has page k and the buffer at 2k+1. -/
def filledFs (n : Nat) : FsState Bytes := { bootState sampleDevice with
  pages := fun p => if p<n then .head 0 else .free
  heads := fun h => if h%2=1 ∧ h<2*n then
      freshHead 1 (min (h/2) bufferCacheMax) 512 (pageAt sampleEnv.base (h/2)) (fillPayload (h/2))
    else (bootState sampleDevice).heads h
  headLive := fun h => h%2=1 && h<2*n
  cache := fun i => if i < min n bufferCacheMax then fillRecord i else CacheRecord.empty
  allocations := 2*n }

theorem filledFs_cached {n i : Nat} (h : i < min n bufferCacheMax) :
    (filledFs n).cache i=fillRecord i := if_pos h

theorem filledFs_uncached {n i : Nat} (h : ¬i < min n bufferCacheMax) :
    (filledFs n).cache i=CacheRecord.empty := if_neg h

theorem filledFs_head {n i : Nat} (h : i<n) :
    (filledFs n).heads (2*i+1)=freshHead 1 (min i bufferCacheMax) 512 (pageAt sampleEnv.base i)
      (fillPayload i) := by
  have hodd : (2*i+1)%2=1 ∧ 2*i+1<2*n := by omega
  have hhalf : (2*i+1)/2=i := by omega
  show (if _ then _ else _)=_
  rw [if_pos hodd,hhalf]

variable (n : Nat)

theorem filledFs_cachedHead :
    cachedHead (filledFs n) (fillBlock n).bdev (fillBlock n).number (fillBlock n).size=none := by
  have hnone : (range bufferCacheMax).find? (fun i => ((filledFs n).cache i).hasKey
      (fillBlock n).bdev (fillBlock n).number (fillBlock n).size)=none := by
    rw [find?_eq_none]
    intro i hi
    by_cases hn : i < min n bufferCacheMax
    · rw [filledFs_cached hn]
      simp [fillRecord,hasKey,fillBlock,hn.ne]
    · rw [filledFs_uncached hn]
      simp [empty,hasKey]
  unfold cachedHead
  rw [hnone]

theorem filledFs_claimSlot :
    claimSlot sampleEnv (filledFs n)=(min n bufferCacheMax,filledFs n) := by
  unfold claimSlot
  by_cases hn : n<bufferCacheMax
  · have hfree : freeSlot (filledFs n)=some n := by
      unfold freeSlot
      rw [find?_range_eq_some]
      refine ⟨?_,mem_range.mpr hn,?_⟩
      · rw [filledFs_uncached (by omega)]
        rfl
      · intro j hj
        rw [filledFs_cached (by omega)]
        rfl
    rw [hfree,Nat.min_eq_left hn.le]
  · have hall : ∀ i∈range bufferCacheMax,i < min n bufferCacheMax := by
      intro i hi
      have := mem_range.mp hi
      omega
    have hfree : freeSlot (filledFs n)=none := by
      unfold freeSlot
      rw [find?_eq_none]
      intro i hi
      rw [filledFs_cached (hall i hi)]
      simp [fillRecord]
    have hvictim : victimSlot (filledFs n)=none := by
      unfold victimSlot
      rw [find?_eq_none]
      intro i hi
      obtain ⟨k,_,hk⟩ := mem_map.mp hi
      have hi : i < min n bufferCacheMax := hall i (mem_range.mpr (hk ▸ Nat.mod_lt _ (by decide)))
      unfold evictable
      rw [filledFs_cached hi]
      simp [fillRecord,filledFs_head (show i<n by omega),freshHead]
    rw [hfree,hvictim,Nat.min_eq_right (by omega)]

theorem filledFs_search {n c fuel : Nat} (hn : n<Kvm.pageRecordMax) (hc : c≤n) (hf : n-c<fuel) :
    Kvm.PageArena.search (filledFs n).pages 1 fuel c=some n := by
  induction fuel generalizing c with
  | zero => omega
  | succ fuel ih =>
    have hle : ¬Kvm.pageRecordMax-1<c := by omega
    rw [Kvm.PageArena.search,if_neg hle]
    by_cases he : c=n
    · subst he
      have hfree : (filledFs c).pages c=.free := if_neg (by omega)
      simp [Kvm.PageArena.freeRun,hfree]
    · have hused : (filledFs n).pages c=.head 0 := if_pos (by omega)
      have hrun : Kvm.PageArena.freeRun (filledFs n).pages c 1=0 := by
        simp [Kvm.PageArena.freeRun,hused]
      simp only [hrun]
      exact ih (by omega) (by omega)

theorem filledFs_allocPages {n : Nat} (hn : n<Kvm.pageRecordMax) :
    allocPages sampleEnv 0 { filledFs n with allocations := 2*n+1 }=
      (.ok (pageAt sampleEnv.base n),{ filledFs n with
        allocations := 2*n+2,pages := (filledFs (n+1)).pages }) := by
  have hmark : (filledFs n).pages.mark n 0=(filledFs (n+1)).pages := by
    funext p
    unfold Kvm.PageArena.mark filledFs
    dsimp only
    split_ifs <;> first | rfl | omega
  have halloc : (filledFs n).pages.allocPages 0=some (n,(filledFs (n+1)).pages) := by
    rw [← hmark]
    show Option.map _ (Kvm.PageArena.search _ 1 _ 0)=_
    rw [filledFs_search hn (Nat.zero_le n) (by omega)]
    rfl
  have hmem : ∀ a k,(filledFs n).mem.fill a k 0=(filledFs n).mem := by
    intro a k
    funext i
    show (if _ then (0 : UInt8) else (0 : UInt8))=0
    split <;> rfl
  unfold allocPages
  rw [if_neg (by simp [sampleEnv])]
  rw [halloc]
  dsimp only
  rw [hmem]

theorem filledFs_heads_succ :
    update (filledFs n).heads (2*n+1) (freshHead 1 (min n bufferCacheMax) 512
      (pageAt sampleEnv.base n) (fillPayload n))=(filledFs (n+1)).heads := by
  funext h
  by_cases he : h=2*n+1
  · rw [he,update_self,filledFs_head (Nat.lt_succ_self n)]
  · rw [update_of_ne he]
    have hiff : (h%2=1 ∧ h<2*n) ↔ (h%2=1 ∧ h<2*(n+1)) := by omega
    simp only [filledFs,hiff]

theorem filledFs_headLive_succ :
    update (filledFs n).headLive (2*n+1) true=(filledFs (n+1)).headLive := by
  funext h
  rw [Bool.eq_iff_iff,update_apply]
  split <;> simp [filledFs] <;> omega

theorem filledFs_cache_succ : (if min n bufferCacheMax=bufferCacheMax then (filledFs n).cache else
      update (filledFs n).cache (min n bufferCacheMax) ⟨true,1,min n bufferCacheMax,512,
        2*n+1,pageAt sampleEnv.base n,fillPayload n,folioOrderFor 512,false⟩)=
      (filledFs (n+1)).cache := by
  by_cases hn : n<bufferCacheMax
  · rw [if_neg (by omega),Nat.min_eq_left hn.le]
    funext i
    by_cases hi : i=n
    · rw [hi,update_self,filledFs_cached (by omega)]
      rfl
    · rw [update_of_ne hi]
      by_cases hlt : i<n
      · rw [filledFs_cached (by omega),filledFs_cached (by omega)]
      · rw [filledFs_uncached (by omega),filledFs_uncached (by omega)]
  · rw [if_pos (by omega)]
    funext i
    by_cases hlt : i<bufferCacheMax
    · rw [filledFs_cached (by omega),filledFs_cached (by omega)]
    · rw [filledFs_uncached (by omega),filledFs_uncached (by omega)]

theorem filledFs_getblk {n : Nat} (hn : n<Kvm.pageRecordMax) :
    bdevGetblk sampleEnv (fillBlock n).bdev (fillBlock n).number (fillBlock n).size (filledFs n)=
      (2*n+1,filledFs (n+1)) := by
  have halloc : allocPages sampleEnv (folioOrderFor (fillBlock n).size)
      { filledFs n with allocations := (filledFs n).allocations+1 }=_ := filledFs_allocPages hn
  have hne : pageAt sampleEnv.base n≠0 := by
    have hpos := sampleEnv.base.recordsPos
    unfold pageAt
    omega
  have hhead : sampleEnv.allocHead (filledFs n).headLive (filledFs n).allocations=2*n+1 := by
    show (if (filledFs n).headLive (2*n+1) then 0 else 2*n+1)=2*n+1
    simp [filledFs]
  have hdevice : ¬(blockDeviceForBdev (filledFs n) (fillBlock n).bdev).isNone=true := by
    simp [blockDeviceForBdev,filledFs,bootState]
  have hpayload : payloadOf sampleEnv { filledFs n with
      allocations := 2*n+2,pages := (filledFs (n+1)).pages } (pageAt sampleEnv.base n) 512=
      fillPayload n := by
    have hused : (filledFs (n+1)).pages n=.head 0 := if_pos (Nat.lt_succ_self n)
    unfold payloadOf
    rw [if_neg hne]
    unfold Kvm.PageArena.pagePayload
    rw [Kvm.PageArena.indexOf_pageAt _ hn]
    have hroom : ¬Kvm.pageRecordMax-n<1 := by omega
    simp [Kvm.pageSize,hroom,Kvm.PageArena.usedRun,hused,fillPayload,pageSize]
  unfold bdevGetblk
  rw [if_neg (by simp [fillBlock]),if_neg hdevice,filledFs_cachedHead n,filledFs_claimSlot n]
  dsimp only
  unfold createBuffer
  rw [hhead]
  rw [halloc]
  have hdata : fillPayload n≠0 := by
    have hpos := sampleEnv.base.payloadsPos
    unfold fillPayload
    omega
  dsimp only
  unfold adoptBuffer
  have hsize : (fillBlock n).size=512 := rfl
  rw [hsize,hpayload]
  rw [if_neg (by simp [hne,hdata])]
  refine Prod.ext rfl ?_
  have hheads := filledFs_heads_succ n
  have hlive := filledFs_headLive_succ n
  have hcache := filledFs_cache_succ n
  show { filledFs n with
    allocations := 2*n+2
    pages := (filledFs (n+1)).pages
    heads := update (filledFs n).heads (2*n+1) (freshHead 1 (min n bufferCacheMax) 512
      (pageAt sampleEnv.base n) (fillPayload n))
    headLive := update (filledFs n).headLive (2*n+1) true
    cache := if min n bufferCacheMax=bufferCacheMax then (filledFs n).cache else
      update (filledFs n).cache (min n bufferCacheMax) ⟨true,1,min n bufferCacheMax,512,
        2*n+1,pageAt sampleEnv.base n,fillPayload n,folioOrderFor 512,false⟩ }=filledFs (n+1)
  rw [hheads,hlive,hcache]
  rfl

def fillCalls (n : Nat) : List UserCall := (List.range n).map fun k => .getblk (fillBlock k)

theorem fillCalls_run {n : Nat} (hn : n≤Kvm.pageRecordMax) :
    runAll (User.step sampleEnv still 512) ⟨bootState sampleDevice,[]⟩ (fillCalls n)=
      ⟨filledFs n,(range n).map fun k => ⟨2*k+1,fillBlock k⟩⟩ := by
  induction n with
  | zero =>
    have hzero : filledFs 0=bootState sampleDevice := by simp [filledFs,bootState]
    rw [hzero]
    rfl
  | succ n ih =>
    have hcalls : fillCalls (n+1)=fillCalls n++[.getblk (fillBlock n)] := by
      simp [fillCalls,range_succ]
    rw [hcalls,runAll_append,ih (by omega)]
    show User.got _ _ (bdevGetblk _ _ _ _ _)=_
    rw [filledFs_getblk (by omega)]
    simp [User.got,range_succ]

/-- With every slot of the cache held, two lookups of one more block have different buffers. -/
theorem buffer_identity_lost :
    let u := runAll (User.step sampleEnv still 512) ⟨bootState sampleDevice,[]⟩
      (fillCalls (bufferCacheMax+2))
    ∃ a∈u.holds,∃ c∈u.holds,a.block=c.block ∧ a.head≠c.head := by
  have hlost : ∀ n,bufferCacheMax+2≤n → n≤Kvm.pageRecordMax →
      let u := runAll (User.step sampleEnv still 512) ⟨bootState sampleDevice,[]⟩ (fillCalls n)
      ∃ a∈u.holds,∃ c∈u.holds,a.block=c.block ∧ a.head≠c.head := by
    intro n h1 h2 u
    have hu : u=⟨filledFs n,(range n).map fun k => ⟨2*k+1,fillBlock k⟩⟩ := fillCalls_run h2
    have hmem : ∀ k,k<n → (⟨2*k+1,fillBlock k⟩ : Hold)∈u.holds := by
      intro k hk
      rw [hu]
      exact mem_map.mpr ⟨k,mem_range.mpr hk,rfl⟩
    refine ⟨_,hmem bufferCacheMax (by omega),_,hmem (bufferCacheMax+1) (by omega),?_,by simp⟩
    simp [fillBlock]
  exact hlost _ le_rfl (by decide)

end Kobox.Fs
