import Kobox.Fs.BufferCache
import Kobox.Framework.Run

namespace Kobox.Fs

open List Function FsState Emits CacheRecord Or
open Kvm.PageArena (Covers indexOf pageAt)

structure Block where
  bdev : Nat
  number : Nat
  size : Nat
  deriving DecidableEq

structure Hold where
  head : Nat
  block : Block
  deriving DecidableEq

/-- The layer and what its user holds of it, oldest first. -/
structure User (δ : Type) where
  fs : FsState δ
  holds : List Hold

/-- Calls of a user. Buffers are named by their place among the results that are held. -/
inductive UserCall
  | getblk (block : Block)
  | bread (block : Block)
  | findGet (block : Block)
  | put (i : Nat)
  | mark (i : Nat)
  | forget (i : Nat)
  | write (i opFlags : Nat)
  | sync (i : Nat)
  | flush
  | invalidate (bdev : Nat)
  | setBlocksize (bdev size : Nat)
  deriving DecidableEq

variable {δ : Type} (env : Env δ) (callback : Call → FsState δ → FsState δ) (fuel : Nat)

/-- The result of a lookup is held unless it is NULL. -/
def User.got (u : User δ) (block : Block) (r : Nat × FsState δ) : User δ :=
  ⟨r.2,if r.1=0 then u.holds else u.holds++[⟨r.1,block⟩]⟩

def User.use (u : User δ) (i : Nat) (f : Nat → FsState δ → FsState δ) : User δ :=
  match u.holds[i]? with
  | none => u
  | some h => ⟨f h.head u.fs,u.holds⟩

def User.release (u : User δ) (i : Nat) (f : Nat → FsState δ → FsState δ) : User δ :=
  match u.holds[i]? with
  | none => u
  | some h => ⟨f h.head u.fs,u.holds.eraseIdx i⟩

def User.step (u : User δ) : UserCall → User δ
  | .getblk b => u.got b (bdevGetblk env b.bdev b.number b.size u.fs)
  | .bread b => u.got b (breadGfp env callback fuel b.bdev b.number b.size u.fs)
  | .findGet b => u.got b (findGetBlock env b.bdev b.number b.size u.fs)
  | .put i => u.release i bufferHeadPut
  | .mark i => u.use i markBufferDirty
  | .forget i => u.release i bforget
  | .write i opFlags => u.use i fun head s => writeDirtyBuffer env callback fuel head opFlags s
  | .sync i => u.use i fun head s => (syncDirtyBuffer env callback fuel head s).2
  | .flush => ⟨(flushDirtyBuffers env callback fuel u.fs).2,u.holds⟩
  | .invalidate bdev => ⟨invalidateBdev env bdev u.fs,u.holds⟩
  | .setBlocksize bdev size => ⟨(setBlocksize env callback fuel bdev size u.fs).2,u.holds⟩

/-- A block that is not cached finds a slot. -/
def Room (s : FsState δ) (b : Block) : Prop :=
  cachedHead s b.bdev b.number b.size=none → (freeSlot s).isSome ∨ (victimSlot s).isSome

/-- A cached block can take n more references. -/
def Countable (n : Nat) (s : FsState δ) (b : Block) : Prop :=
  ∀ head,cachedHead s b.bdev b.number b.size=some head → (s.heads head).refcount+n ≤ refcountMax

/-- Lookups find room in the cache, and no reference count overflows. -/
def User.Fits (u : User δ) : UserCall → Prop
  | .getblk b => Room u.fs b ∧ Countable 1 u.fs b
  | .bread b => Room u.fs b ∧ Countable 2 u.fs b
  | .findGet b => Countable 1 u.fs b
  | _ => True

instance (s : FsState δ) (b : Block) : Decidable (Room s b) := inferInstanceAs (Decidable (_ → _))

instance (n : Nat) (s : FsState δ) (b : Block) : Decidable (Countable n s b) :=
  decidable_of_iff (∀ head∈(cachedHead s b.bdev b.number b.size).toList,
    (s.heads head).refcount+n ≤ refcountMax) (by simp [Countable])

instance User.decidableFits (u : User δ) : (c : UserCall) → Decidable (u.Fits c)
  | .getblk _ => inferInstanceAs (Decidable (_ ∧ _))
  | .bread _ => inferInstanceAs (Decidable (_ ∧ _))
  | .findGet b => inferInstanceAs (Decidable (Countable 1 u.fs b))
  | .put _ => isTrue trivial
  | .mark _ => isTrue trivial
  | .forget _ => isTrue trivial
  | .write _ _ => isTrue trivial
  | .sync _ => isTrue trivial
  | .flush => isTrue trivial
  | .invalidate _ => isTrue trivial
  | .setBlocksize _ _ => isTrue trivial

section

variable {s t : FsState δ} {holds : List Hold}

def CacheRecord.IsFor (r : CacheRecord) (b : Block) : Prop :=
  r.bdev=b.bdev ∧ r.blockNumber=b.number ∧ r.blockSize=b.size

/-- Between two calls the layer is idle, its cache in order, what is held cached, references
counted. -/
structure UserOk (env : Env δ) (u : User δ) : Prop where
  prompt : Prompt u.fs
  unlocked : ∀ h,(u.fs.heads h).flags.lock=false
  cache : CacheOk env.base u.fs
  refs : ∀ i,(u.fs.cache i).active=true → (u.fs.heads (u.fs.cache i).bufferHead).refcount=
    u.holds.countP (fun a => a.head=(u.fs.cache i).bufferHead)
  held : ∀ a∈u.holds,∃ i,(u.fs.cache i).active=true ∧ (u.fs.cache i).bufferHead=a.head ∧
    (u.fs.cache i).IsFor a.block

/-- What may be freed while `holds` are held: clean, unlocked buffers without references. -/
def FreedOk (holds : List Hold) (e : Nat × BufferHead × Bool) : Prop :=
  e.2.1.flags.dirty=false ∧ e.2.2=false ∧ e.2.1.flags.lock=false ∧ e.2.1.refcount=0 ∧
    ∀ a∈holds,a.head≠e.1

def FreesOk (holds : List Hold) (s t : FsState δ) : Prop :=
  Emits (fun s => freedIn (FsState.trace s)) (FreedOk holds) s t

/-- A call leaves things in order and frees only what it may. -/
structure AfterCall (env : Env δ) (holds : List Hold) (s : FsState δ) (u : User δ) : Prop where
  ok : UserOk env u
  frees : FreesOk holds s u.fs

theorem AfterCall.got {env : Env δ} {head : Nat} {b : Block} (hne : head≠0)
    (h : AfterCall env holds s ⟨t,holds++[⟨head,b⟩]⟩) :
    AfterCall env holds s (User.got ⟨s,holds⟩ b (head,t)) := by
  simpa [User.got,hne] using h

theorem AfterCall.next {env : Env δ} {more : List Hold} {u : User δ}
    (h : AfterCall env holds s ⟨t,more⟩) (hu : AfterCall env holds t u) : AfterCall env holds s u :=
  ⟨hu.ok,trans _ _ _ h.frees hu.frees⟩

variable {a : Hold} {i : Nat} {b : Block} {head : Nat} {base : Kvm.ArenaBase}

theorem Idle.of_unlocked (hq : s.queue=[]) (hl : ∀ h,(s.heads h).flags.lock=false) :
    Idle (fun h => (s.heads h).refcount) s where
  ready := fun _ hb => absurd hb not_mem_nil
  sync := fun _ hb => absurd hb not_mem_nil
  heads := by simp
  queue := by simp [hq]
  queued := fun _ hb => absurd hb not_mem_nil
  inQueue := by simp [hq]
  lock := by simp [hl]
  refs := by simp

theorem countP_pos_of_held (ha : a∈holds) : 0<holds.countP (fun b => b.head=a.head) :=
  countP_pos_iff.mpr ⟨a,ha,by simp⟩

theorem countP_eraseIdx (ha : holds[i]?=some a) {p : Hold → Bool} :
    holds.countP p=(holds.eraseIdx i).countP p+if p a then 1 else 0 := by
  obtain ⟨hi,rfl⟩ := List.getElem?_eq_some_iff.mp ha
  rw [← (getElem_cons_eraseIdx_perm hi).countP_eq p,countP_cons]

theorem cachedHead_some (hc : cachedHead s b.bdev b.number b.size=some head) :
    ∃ i,(s.cache i).active=true ∧ (s.cache i).bufferHead=head ∧ (s.cache i).IsFor b := by
  unfold cachedHead at hc
  split at hc
  · cases hc
  next i hi =>
  split at hc
  · have hkey := find?_some hi
    simp only [hasKey,Bool.and_eq_true,beq_iff_eq] at hkey
    exact ⟨i,hkey.1.1.1,Option.some.inj hc,hkey.1.1.2,hkey.1.2,hkey.2⟩
  · cases hc

theorem setDirty_cache (dirty : Bool) (hi : (s.cache i).active=true) :
    (bufferCacheSetDirty (some i) dirty s).cache=
      update s.cache i { s.cache i with dirty := dirty } := by
  simp only [bufferCacheSetDirty]
  split
  · next h =>
    rcases h with h|h
    · simp [hi] at h
    · rw [← h,update_eq_self]
  · rfl

def markHead (head : Nat) (s : FsState δ) : FsState δ :=
  (s.onHead head fun h => { h with flags := { h.flags with dirty := true } }).note (.marked head)

theorem markBufferDirty_eq (head : Nat) (s : FsState δ) : markBufferDirty head s=
      if (markHead head s).fileFolio ((markHead head s).heads head).folio then markHead head s
      else bufferCacheSetDirty (bufferCacheRecordForHead (markHead head s) head) true
        (markHead head s) := rfl

theorem markHead_settings {head : Nat} {s : FsState δ} : SameSettings s (markHead head s) :=
  ⟨rfl,rfl,rfl,rfl,rfl,rfl,rfl⟩

theorem allocPages_cases {order : Nat} {s : FsState δ} :
    ∃ folio t pages mem,allocPages env order s=(.ok folio,t) ∧
      t={ s with allocations := s.allocations+1,pages := pages,mem := mem } ∧
      ((folio=0 ∧ pages=s.pages) ∨
        ∃ index,folio=pageAt env.base index ∧ index+2^order≤Kvm.pageRecordMax ∧
          (∀ p,index≤p → p < index+2^order → s.pages p=.free) ∧
          pages=s.pages.mark index order) := by
  unfold allocPages
  split
  · exact ⟨0,_,_,_,rfl,rfl,inl ⟨rfl,rfl⟩⟩
  cases ha : s.pages.allocPages order with
  | none => exact ⟨0,_,_,_,rfl,rfl,inl ⟨rfl,rfl⟩⟩
  | some r =>
    obtain ⟨index,pages⟩ := r
    obtain ⟨h1,h2,h3⟩ := Kvm.PageArena.allocPages_spec ha
    exact ⟨_,_,_,_,rfl,rfl,inr ⟨index,rfl,h1,h2,h3⟩⟩

theorem folioOrderFor_fits {size : Nat} (h : size≤65536) : size≤2^folioOrderFor size*pageSize := by
  unfold folioOrderFor
  cases hf : (range 8).find? fun order => size≤pageSize*2^order with
  | none =>
    have hbig := find?_eq_none.mp hf 7 (by simp)
    simp only [decide_eq_true_eq] at hbig
    exact absurd (h.trans (by decide)) hbig
  | some order =>
    have := find?_some hf
    simp only [decide_eq_true_eq] at this
    rw [Nat.mul_comm]
    exact this

theorem pagePayload_eq {pages : Kvm.PageArena} {page size p : Nat} (hp : indexOf base page=some p)
    (hne : pages.pagePayload base page size≠0) :
    pages.pagePayload base page size=base.payloads+p*pageSize := by
  unfold Kvm.PageArena.pagePayload at hne ⊢
  rw [hp] at hne ⊢
  dsimp only at hne ⊢
  split at hne
  · exact absurd rfl hne
  · next hok =>
    rw [if_neg hok]
    rfl

section

variable (h : CacheOk base s)

include h

theorem cachedHead_none (hc : cachedHead s b.bdev b.number b.size=none) :
    ∀ i,(s.cache i).active=true → ¬(s.cache i).IsFor b := by
  intro i hi hfor
  unfold cachedHead at hc
  split at hc
  · next hnone =>
    rw [find?_eq_none] at hnone
    apply hnone i (mem_range.mpr (h.small i hi))
    simp [hasKey,hi,hfor.1,hfor.2.1,hfor.2.2]
  · next j hj =>
    have hkey := find?_some hj
    simp only [hasKey,Bool.and_eq_true] at hkey
    rw [if_pos (h.used j hkey.1.1.1)] at hc
    cases hc

variable (hi : (s.cache i).active=true)

include hi

theorem CacheOk.cachedHead (hfor : (s.cache i).IsFor b) :
    cachedHead s b.bdev b.number b.size=some (s.cache i).bufferHead := by
  cases hc : Fs.cachedHead s b.bdev b.number b.size with
  | none => exact absurd hfor (cachedHead_none h hc i hi)
  | some head =>
    obtain ⟨j,hj,rfl,hfor'⟩ := cachedHead_some hc
    rw [h.keys i j hi hj ⟨hfor.1.trans hfor'.1.symm,hfor.2.1.trans hfor'.2.1.symm,
      hfor.2.2.trans hfor'.2.2.symm⟩]

theorem CacheOk.recordForHead : bufferCacheRecordForHead s (s.cache i).bufferHead=some i := by
  cases hc : bufferCacheRecordForHead s (s.cache i).bufferHead with
  | none =>
    have := find?_eq_none.mp hc i (mem_range.mpr (h.small i hi))
    simp [hi] at this
  | some j =>
    have hj := find?_some hc
    simp only [Bool.and_eq_true,beq_iff_eq] at hj
    rw [h.heads j i hj.1 hi hj.2]

theorem markBufferDirty_cached : markBufferDirty (s.cache i).bufferHead s=
      bufferCacheSetDirty (some i) true (markHead (s.cache i).bufferHead s) := by
  have hfind : bufferCacheRecordForHead (markHead (s.cache i).bufferHead s)
    (s.cache i).bufferHead=some i := h.recordForHead hi
  have hfile : s.fileFolio (s.heads (s.cache i).bufferHead).folio=false := by
    rw [(h.describes i hi).2.2.2.1]
    exact h.fileFolio hi
  rw [markBufferDirty_eq,if_neg (by simpa [markHead,onHead,note] using hfile),hfind]

theorem markBufferDirty_kept :
    BuffersKept s (bufferCacheSetDirty (some i) true (markHead (s.cache i).bufferHead s)) := by
  have honly := setDirty_only (some i) true (markHead (s.cache i).bufferHead s)
  have hcache := setDirty_cache (s := markHead (s.cache i).bufferHead s) true hi
  have hheads := setDirty_heads (some i) true (markHead (s.cache i).bufferHead s)
  have htrace : (bufferCacheSetDirty (some i) true (markHead (s.cache i).bufferHead s)).trace=
      s.trace++[.marked (s.cache i).bufferHead] := by
    simp only [bufferCacheSetDirty]
    split <;> rfl
  generalize bufferCacheSetDirty (some i) true (markHead (s.cache i).bufferHead s)=u
    at honly hcache hheads htrace ⊢
  have hcache : u.cache=update s.cache i { s.cache i with dirty := true } := hcache
  have hsame : ∀ j,j≠i → u.cache j=s.cache j := by
    intro j hj
    rw [hcache,update_of_ne hj]
  have hown : u.cache i={ s.cache i with dirty := true } := by rw [hcache,update_self]
  refine ⟨by rw [honly]; rfl,by rw [honly]; rfl,by rw [honly]; rfl,?_,?_,?_,?_,?_⟩
  · intro j
    by_cases hj : j=i
    · rw [hj,hown]
    · rw [hsame j hj]
  · intro k
    rw [hheads]
    by_cases hk : k=(s.cache i).bufferHead
    · subst hk
      simp [markHead,onHead,note]
    · simp [markHead,onHead,note,hk]
  · rw [htrace]
    exact freedIn_note rfl
  · intro hd j hj hdirty
    by_cases he : j=i
    · rw [he,hown]
    rw [hsame j he] at hj hdirty ⊢
    -- the buffer of another record is another buffer
    have hne : (s.cache j).bufferHead≠(s.cache i).bufferHead := fun h0 => he (h.heads j i hj hi h0)
    apply hd j hj
    rw [hheads] at hdirty
    simpa [markHead,onHead,note,hne] using hdirty
  · intro hk k hpend
    rw [htrace,pending_note] at hpend
    by_cases hown' : k=(s.cache i).bufferHead
    · exact ⟨i,by rw [hown]; exact hi,by rw [hown]; exact hown'.symm,by rw [hown]⟩
    have hpend : pending s.trace k=true := by
      simpa [Event.pends,Ne.symm hown'] using hpend
    obtain ⟨j,h1,h2,h3⟩ := hk k hpend
    have hne : j≠i := by
      rintro rfl
      exact hown' h2.symm
    rw [← hsame j hne] at h1 h2 h3
    exact ⟨j,h1,h2,h3⟩

end

variable (h : UserOk env ⟨s,holds⟩)

include h

theorem UserOk.idle : Idle (fun h => (s.heads h).refcount) s :=
  Idle.of_unlocked h.prompt.queue h.unlocked

theorem UserOk.change {holds' : List Hold} (hk : BuffersKept s t) (hs : SameSettings s t)
    (hq : t.queue=s.queue) (hl : ∀ k,(t.heads k).flags.lock=false)
    (hr : ∀ i,(s.cache i).active=true → (t.heads (s.cache i).bufferHead).refcount=
      holds'.countP (fun a => a.head=(s.cache i).bufferHead))
    (hh : ∀ a∈holds',∃ i,(s.cache i).active=true ∧ (s.cache i).bufferHead=a.head ∧
      (s.cache i).IsFor a.block) : AfterCall env holds s ⟨t,holds'⟩ := by
  refine ⟨⟨h.prompt.settings hs hq,hl,h.cache.kept hk hs.fileFolio,?_,?_⟩,silent hk.freed⟩
  · intro i hi
    rw [hk.bufferHead i]
    exact hr i (hk.active i ▸ hi)
  · intro a ha
    obtain ⟨i,h1,h2,h3⟩ := hh a ha
    refine ⟨i,(hk.active i).trans h1,(hk.bufferHead i).trans h2,?_⟩
    rw [hk.cache i]
    exact h3

theorem UserOk.same (hk : BuffersKept s t) (hs : SameSettings s t) (hq : t.queue=s.queue)
    (hsame : ∀ k,(t.heads k).flags.lock=false ∧ (t.heads k).refcount=(s.heads k).refcount) :
    AfterCall env holds s ⟨t,holds⟩ := by
  refine h.change env hk hs hq (fun k => (hsame k).1) (fun i hi => ?_) h.held
  rw [(hsame _).2]
  exact h.refs i hi

theorem UserOk.unlocked_onHead {f : BufferHead → BufferHead}
    (hf : ∀ b,(f b).flags.lock=b.flags.lock ∧ (f b).refcount=b.refcount) (k : Nat) :
    ((s.onHead head f).heads k).flags.lock=false ∧
      ((s.onHead head f).heads k).refcount=(s.heads k).refcount :=
  (forall_update_iff _ fun k (b : BufferHead) => b.flags.lock=false ∧
    b.refcount=(s.heads k).refcount).mpr ⟨⟨(hf _).1.trans (h.unlocked _),(hf _).2⟩,fun k _ => ⟨h.unlocked k,rfl⟩⟩ k

theorem UserOk.io (hf : Finished (fun h => (s.heads h).refcount) s t) (hk : BuffersKept s t) :
    AfterCall env holds s ⟨t,holds⟩ :=
  h.same env hk hf.settings (hf.prompt.queue.trans h.prompt.queue.symm) fun k =>
    ⟨Idle.lock hf.idle k,Idle.refs hf.idle k⟩

theorem UserOk.unheld (hi : (s.cache i).active=true) (hr : (s.heads (s.cache i).bufferHead).refcount=0) :
    ∀ a∈holds,a.head≠(s.cache i).bufferHead := by
  intro a ha h0
  have hpos := countP_pos_of_held ha
  rw [h0,← h.refs i hi,hr] at hpos
  exact absurd hpos (lt_irrefl 0)

theorem UserOk.drop (hi : (s.cache i).active=true)
    (hd : (s.cache i).dirty=false) (hr : (s.heads (s.cache i).bufferHead).refcount=0) :
    AfterCall env holds s ⟨dropRecord env i s,holds⟩ := by
  have hunheld := h.unheld env hi hr
  have hclean : (s.heads (s.cache i).bufferHead).flags.dirty=false := by
    rw [← Bool.not_eq_true]
    intro h0
    have hdirty := h.cache.dirty i hi h0
    rw [show (s.cache i).dirty=false from hd] at hdirty
    cases hdirty
  refine ⟨⟨⟨h.prompt.autoDrain,h.prompt.plugDepth,h.prompt.queue⟩,h.unlocked,h.cache.drop env hi hd,
    ?_,?_⟩,?_⟩
  · intro j hj
    obtain ⟨_,hj,hc⟩ := dropRecord_active env hj
    rw [hc]
    exact h.refs j hj
  · intro a ha
    obtain ⟨j,h1,h2,h3⟩ := h.held a ha
    have hne : j≠i := by
      rintro rfl
      exact hunheld a ha h2.symm
    have hc : (dropRecord env i s).cache j=s.cache j := by simp [dropRecord,hne]
    refine ⟨j,?_⟩
    rw [hc]
    exact ⟨h1,h2,h3⟩
  · refine one (e := ((s.cache i).bufferHead,s.heads (s.cache i).bufferHead,
      (s.cache i).dirty)) ?_ ⟨hclean,hd,h.unlocked _,hr,hunheld⟩
    simp [dropRecord,freedIn]

theorem UserOk.morePages (hc : t.cache=s.cache) (ht : t.trace=s.trace)
    (hh : t.heads=s.heads) (hl : t.headLive=s.headLive) (hs : SameSettings s t)
    (hq : t.queue=s.queue) (hp : ∀ p,s.pages p≠.free → t.pages p≠.free) : UserOk env ⟨t,holds⟩ := by
  refine ⟨h.prompt.settings hs hq,?_,h.cache.morePages hc ht hh hl hs.fileFolio hp,?_,?_⟩
  · rw [hh]
    exact h.unlocked
  · rw [hc]
    intro i hi
    rw [hh]
    exact h.refs i hi
  · intro a ha
    rw [hc]
    exact h.held a ha

theorem claimSlot_ok (hroom : (freeSlot s).isSome ∨ (victimSlot s).isSome) :
    (claimSlot env s).1<bufferCacheMax ∧
      ((claimSlot env s).2.cache (claimSlot env s).1).active=false ∧
      AfterCall env holds s ⟨(claimSlot env s).2,holds⟩ ∧
      ∀ i,((claimSlot env s).2.cache i).active=true →
        (s.cache i).active=true ∧ (claimSlot env s).2.cache i=s.cache i := by
  unfold claimSlot
  cases hf : freeSlot s with
  | some i =>
    have hi := find?_some hf
    have hlt := mem_range.mp (mem_of_find?_eq_some hf)
    simp only [Bool.not_eq_true'] at hi
    exact ⟨hlt,hi,⟨h,refl s⟩,fun _ hj => ⟨hj,rfl⟩⟩
  | none =>
    cases hv : victimSlot s with
    | none =>
      rw [hf,hv] at hroom
      simp at hroom
    | some i =>
      have hi := find?_some hv
      obtain ⟨k,_,hk⟩ := mem_map.mp (mem_of_find?_eq_some hv)
      have hlt : i<bufferCacheMax := by
        rw [← hk]
        exact Nat.mod_lt _ (by decide)
      -- without a free slot every slot is active
      have hact : (s.cache i).active=true := by
        have := find?_eq_none.mp hf i (mem_range.mpr hlt)
        simpa using this
      simp only [evictable,Bool.and_eq_true,Bool.not_eq_true', beq_iff_eq] at hi
      obtain ⟨h1,h2⟩ := h.drop env hact hi.1.1 hi.2
      refine ⟨hlt,?_,⟨?_,h2⟩,?_⟩
      · simp [dropRecord,empty]
      · exact h1.morePages env rfl rfl rfl rfl ⟨rfl,rfl,rfl,rfl,rfl,rfl,rfl⟩ rfl fun _ hp => hp
      · intro j hj
        obtain ⟨_,hj,hc⟩ := dropRecord_active env hj
        exact ⟨hj,hc⟩

theorem UserOk.adopt {slot head : Nat} {r : CacheRecord} {b : BufferHead} {block : Block}
    (ha : Adopts env.base slot head r b s t) (hs : SameSettings s t) (hq : t.queue=s.queue)
    (hlock : b.flags.lock=false) (hone : b.refcount=1) (hfor : r.IsFor block) :
    UserOk env ⟨t,holds++[⟨head,block⟩]⟩ := by
  have hnew : ∀ a∈holds,a.head≠head := by
    intro a hin
    obtain ⟨i,h1,h2,_⟩ := h.held a hin
    rw [← h2]
    exact ha.other h.cache h1
  refine ⟨h.prompt.settings hs hq,?_,h.cache.adopt ha,?_,?_⟩
  · rw [ha.heads]
    exact (forall_update_iff _ fun _ (b : BufferHead) => b.flags.lock=false).mpr
      ⟨hlock,fun k _ => h.unlocked k⟩
  · intro i hi
    rw [ha.heads]
    rcases ha.cases hi with ⟨_,hc⟩|⟨_,hi',hc⟩
    · rw [hc,ha.own,update_self,hone]
      have hzero : holds.countP (fun a => a.head=head)=0 :=
        countP_eq_zero.mpr fun a hin => by simpa using hnew a hin
      simp [hzero]
    · have hne := ha.other h.cache hi'
      rw [hc,update_of_ne hne]
      have hrefs := h.refs i hi'
      simpa [Ne.symm hne] using hrefs
  · intro a hin
    rcases mem_append.mp hin with h0|h0
    · obtain ⟨i,h1,h2,h3⟩ := h.held a h0
      refine ⟨i,?_⟩
      rw [ha.old h1]
      exact ⟨h1,h2,h3⟩
    · obtain rfl : a=⟨head,block⟩ := by simpa using h0
      have hc : t.cache slot=r := by rw [ha.cache,update_self]
      refine ⟨slot,?_⟩
      rw [hc]
      exact ⟨ha.active,ha.own,hfor⟩

theorem createBuffer_ok {slot : Nat} (hsize : 0<b.size ∧ b.size≤65536) (hslot : slot<bufferCacheMax)
    (hempty : (s.cache slot).active=false)
    (hnew : ∀ i,(s.cache i).active=true → ¬(s.cache i).IsFor b) :
    AfterCall env holds s
      (User.got ⟨s,holds⟩ b (createBuffer env slot b.bdev b.number b.size s)) := by
  obtain ⟨folio,t,pages,mem,ht,hrest,hpages⟩ := allocPages_cases env
  have hcreate : createBuffer env slot b.bdev b.number b.size s=
      adoptBuffer env slot b.bdev b.number b.size (env.allocHead s.headLive s.allocations) folio
        t := by
    unfold createBuffer
    rw [ht]
  rw [hcreate]
  have hfresh := env.allocHead_fresh s.headLive s.allocations
  generalize env.allocHead s.headLive s.allocations=head at hfresh ⊢
  obtain ⟨data,hdata⟩ : ∃ data,payloadOf env t folio b.size=data := ⟨_,rfl⟩
  by_cases hbad : head=0 ∨ folio=0 ∨ data=0
  · have hadopt : adoptBuffer env slot b.bdev b.number b.size head folio t=
        (0,freePages env folio (folioOrderFor b.size) t) := by
      unfold adoptBuffer
      rw [hdata,if_pos hbad]
    rw [hadopt]
    subst hrest
    refine ⟨h.morePages env rfl rfl rfl rfl ⟨rfl,rfl,rfl,rfl,rfl,rfl,rfl⟩ rfl fun p hp => ?_,
      silent rfl⟩
    show pages.releasePages env.base folio (folioOrderFor b.size) p≠.free
    rcases hpages with ⟨h0,hsame⟩|⟨index,hfolio,hmax,hfree,hmark⟩
    · rw [Kvm.PageArena.releasePages_outside,hsame]
      · exact hp
      · rw [h0]
        rintro ⟨k,hk,_⟩
        simp [indexOf,env.base.recordsPos] at hk
    · have hpos := Nat.two_pow_pos (folioOrderFor b.size)
      have hout : ¬(index≤p ∧ p < index+2^folioOrderFor b.size) := fun h0 => hp (hfree p h0.1 h0.2)
      rw [Kvm.PageArena.releasePages_outside,hmark,Kvm.PageArena.mark_outside _ hout]
      · exact hp
      · rw [hfolio,Kvm.PageArena.covers_pageAt (by omega)]
        exact hout
  · have hhead : head≠0 := fun h0 => hbad (inl h0)
    have hadopt : adoptBuffer env slot b.bdev b.number b.size head folio t=(head,{ t with
        heads := update t.heads head (freshHead b.bdev b.number b.size folio data)
        headLive := update t.headLive head true
        cache := update t.cache slot ⟨true,b.bdev,b.number,b.size,head,folio,data,
          folioOrderFor b.size,false⟩ }) := by
      unfold adoptBuffer
      rw [hdata,if_neg hbad,if_neg hslot.ne]
    rw [hadopt]
    subst hrest
    refine .got hhead ⟨?_,silent rfl⟩
    rcases hpages with ⟨h0,_⟩|⟨index,hfolio,hmax,hfree,hmark⟩
    · exact absurd (inr (inl h0)) hbad
    have hpos := Nat.two_pow_pos (folioOrderFor b.size)
    have hindex : index<Kvm.pageRecordMax := by omega
    have hcov : ∀ p,Covers env.base (pageAt env.base index) (folioOrderFor b.size) p ↔
        index≤p ∧ p < index+2^folioOrderFor b.size :=
      fun p => Kvm.PageArena.covers_pageAt hindex
    have hne : data≠0 := fun h0 => hbad (inr (inr h0))
    refine h.adopt env (r := ⟨true,b.bdev,b.number,b.size,head,folio,data,folioOrderFor b.size,false⟩)
      ⟨hslot,hempty,rfl,rfl,⟨hhead,hne⟩,hfresh.resolve_left hhead,⟨rfl,rfl,rfl,rfl,rfl⟩,rfl,?_,
      ⟨hsize.1,hsize.2,folioOrderFor_fits hsize.2⟩,?_,?_,?_,?_,rfl,rfl,rfl,rfl,rfl⟩
      ⟨rfl,rfl,rfl,rfl,rfl,rfl,rfl⟩ rfl rfl rfl ⟨rfl,rfl,rfl⟩
    · intro i hi hkey
      exact hnew i hi ⟨hkey.1.symm,hkey.2.1.symm,hkey.2.2.symm⟩
    · intro p hp
      have hfolio0 : folio≠0 := fun h0 => hbad (inr (inl h0))
      rw [← hdata] at hne ⊢
      unfold payloadOf at hne ⊢
      rw [if_neg hfolio0] at hne ⊢
      exact pagePayload_eq hp hne
    · exact ⟨index,by rw [hfolio]; exact Kvm.PageArena.indexOf_pageAt env.base hindex⟩
    · intro p hp
      rw [hfolio,hcov p] at hp
      refine ⟨hfree p hp.1 hp.2,?_⟩
      rw [hmark]
      exact Kvm.PageArena.mark_inside _ hp.1 hp.2
    · intro p hp
      show pages p≠.free
      rw [hmark,Kvm.PageArena.mark_outside _ fun h0 => hp (hfree p h0.1 h0.2)]
      exact hp

theorem UserOk.hold (hi : (s.cache i).active=true) (hfor : (s.cache i).IsFor b)
    {f : BufferHead → BufferHead}
    (hf : f (s.heads (s.cache i).bufferHead)={ s.heads (s.cache i).bufferHead with refcount :=
      (s.heads (s.cache i).bufferHead).refcount+1 }) :
    AfterCall env holds s
      ⟨s.onHead (s.cache i).bufferHead f,holds++[⟨(s.cache i).bufferHead,b⟩]⟩ := by
  have hon : s.onHead (s.cache i).bufferHead f=s.onHead (s.cache i).bufferHead fun h =>
      { h with refcount := h.refcount+1 } := by
    simp [onHead,hf]
  have hk : BuffersKept s (s.onHead (s.cache i).bufferHead fun h =>
      { h with refcount := h.refcount+1 }) :=
    BuffersKept.onHead s _ (fun _ => rfl) fun _ hd => hd
  rw [hon]
  apply h.change env hk ⟨rfl,rfl,rfl,rfl,rfl,rfl,rfl⟩ rfl
  · exact (forall_update_iff _ fun _ (b : BufferHead) => b.flags.lock=false).mpr
      ⟨h.unlocked _,fun k _ => h.unlocked k⟩
  · intro j hj
    have hrefs := h.refs j hj
    by_cases he : (s.cache j).bufferHead=(s.cache i).bufferHead
    · rw [he] at hrefs ⊢
      simpa [onHead] using hrefs
    · simpa [onHead,he,Ne.symm he] using hrefs
  · intro a ha
    rcases mem_append.mp ha with h0|h0
    · exact h.held a h0
    · obtain rfl : a=⟨(s.cache i).bufferHead,b⟩ := by simpa using h0
      exact ⟨i,hi,rfl,hfor⟩

theorem bdevGetblk_ok (hroom : Room s b) (hcount : Countable 1 s b) :
    AfterCall env holds s (User.got ⟨s,holds⟩ b (bdevGetblk env b.bdev b.number b.size s)) := by
  unfold bdevGetblk
  split
  · exact ⟨h,refl s⟩
  split
  · exact ⟨h,refl s⟩
  cases hc : cachedHead s b.bdev b.number b.size with
  | some head =>
    obtain ⟨i,hi,rfl,hfor⟩ := cachedHead_some hc
    have hne := (h.cache.used i hi).1
    have hmax := hcount _ hc
    refine .got hne (h.hold env hi hfor (f := fun h => { h with
      refcount := (h.refcount+1)%2^32 }) ?_)
    rw [Nat.mod_eq_of_lt]
    unfold refcountMax at hmax
    omega
  | none =>
    obtain ⟨h1,h2,h3,h4⟩ := claimSlot_ok env h (hroom hc)
    have hnone := cachedHead_none h.cache hc
    generalize claimSlot env s=claim at h1 h2 h3 h4
    refine h3.next (createBuffer_ok env (b := b) h3.ok (by omega) h1 h2 fun i hi hfor => ?_)
    obtain ⟨hi,he⟩ := h4 i hi
    rw [he] at hfor
    exact hnone i hi hfor

theorem findGetBlock_ok (hcount : Countable 1 s b) :
    AfterCall env holds s (User.got ⟨s,holds⟩ b (findGetBlock env b.bdev b.number b.size s)) := by
  unfold findGetBlock
  split
  · exact ⟨h,refl s⟩
  split
  · exact ⟨h,refl s⟩
  next i hi =>
  have hkey := find?_some hi
  simp only [hasKey,Bool.and_eq_true,beq_iff_eq,decide_eq_true_eq] at hkey
  obtain ⟨⟨⟨⟨⟨hact,h1⟩,h2⟩,h3⟩,hne⟩,_⟩ := hkey
  have hfor : (s.cache i).IsFor b := ⟨h1,h2,h3⟩
  have hmax := hcount _ (h.cache.cachedHead hact hfor)
  have hlt : (s.heads (s.cache i).bufferHead).refcount≠refcountMax := Nat.ne_of_lt hmax
  exact .got hne (h.hold env hact hfor (f := fun h => { h with
    refcount := if h.refcount=refcountMax then h.refcount else h.refcount+1 }) (by simp [hlt]))

theorem UserOk.put (ha : holds[i]?=some a) :
    AfterCall env holds s ⟨bufferHeadPut a.head s,holds.eraseIdx i⟩ := by
  have hk : BuffersKept s (bufferHeadPut a.head s) :=
    BuffersKept.onHead s _ (fun _ => rfl) fun _ hd => hd
  apply h.change env hk ⟨rfl,rfl,rfl,rfl,rfl,rfl,rfl⟩ rfl
  · exact (forall_update_iff _ fun _ (b : BufferHead) => b.flags.lock=false).mpr
      ⟨h.unlocked _,fun k _ => h.unlocked k⟩
  · intro j hj
    have hrefs := h.refs j hj
    simp only [countP_eraseIdx ha] at hrefs
    by_cases he : (s.cache j).bufferHead=a.head
    · rw [he] at hrefs ⊢
      simp only [bufferHeadPut,onHead,update_self]
      simp at hrefs
      omega
    · simpa [bufferHeadPut,onHead,he,Ne.symm he] using hrefs
  · intro c hc
    exact h.held c (mem_of_mem_eraseIdx hc)

theorem UserOk.mark (ha : a∈holds) : AfterCall env holds s ⟨markBufferDirty a.head s,holds⟩ := by
  obtain ⟨i,hi,hh,_⟩ := h.held a ha
  rw [← show (s.cache i).bufferHead=a.head from hh,markBufferDirty_cached h.cache hi]
  have hkept := markBufferDirty_kept h.cache hi
  have honly := setDirty_only (some i) true (markHead (s.cache i).bufferHead s)
  have hheads := setDirty_heads (some i) true (markHead (s.cache i).bufferHead s)
  refine h.same env hkept ((markHead_settings).trans honly.settings) honly.queue ?_
  rw [hheads]
  exact h.unlocked_onHead env (f := fun b => { b with flags := { b.flags with dirty := true } })
    fun _ => ⟨rfl,rfl⟩

theorem UserOk.clean :
    let t := (s.onHead a.head fun h => { h with flags := { h.flags with dirty := false } }).note
      (.forgot a.head)
    AfterCall env holds s
      ⟨bufferCacheSetDirty (bufferCacheRecordForHead t a.head) false t,holds⟩ := by
  intro t
  have h1 : BuffersKept s t := by
    refine BuffersKept.trans _ _ _ (BuffersKept.onHead s a.head (fun _ => rfl) (by simp))
      (BuffersKept.note _ rfl ?_)
    intro k p hp
    simp only [Event.pends,Bool.and_eq_true] at hp
    exact hp.2
  have hdone : pending t.trace a.head=false := by
    show pending (s.trace++[.forgot a.head]) a.head=false
    rw [pending_note]
    simp [Event.pends]
  have h2 := BuffersKept.setDirty t a.head (by simp [t,onHead,note]) hdone
  have hs : SameSettings s t := ⟨rfl,rfl,rfl,rfl,rfl,rfl,rfl⟩
  have hq : t.queue=s.queue := rfl
  generalize bufferCacheRecordForHead t a.head=slot at h2 ⊢
  have honly := setDirty_only slot false t
  have hheads := setDirty_heads slot false t
  refine h.same env (h1.trans _ _ _ h2) (hs.trans honly.settings) (honly.queue.trans hq) ?_
  rw [hheads]
  exact h.unlocked_onHead env (f := fun b => { b with flags := { b.flags with dirty := false } })
    fun _ => ⟨rfl,rfl⟩

theorem UserOk.forget (ha : holds[i]?=some a) :
    AfterCall env holds s ⟨bforget a.head s,holds.eraseIdx i⟩ :=
  (h.clean env (a := a)).next ((h.clean env).ok.put env ha)

theorem UserOk.headsApart : HeadsApart s := h.cache.heads

theorem invalidateBdev_ok {bdev : Nat} : AfterCall env holds s ⟨invalidateBdev env bdev s,holds⟩ := by
  unfold invalidateBdev
  split
  · exact ⟨h,refl s⟩
  generalize range bufferCacheMax=slots
  induction slots generalizing s with
  | nil => exact ⟨h,refl s⟩
  | cons i slots ih =>
    rw [foldl_cons]
    dsimp only
    split
    · exact ih h
    next hskip =>
    split
    · exact ih h
    next hbusy =>
    simp only [not_or,Bool.not_eq_true',Bool.not_eq_false,Bool.not_eq_true,
      Decidable.not_not] at hskip hbusy
    have h1 := h.drop env hskip.1 hskip.2.2.1 hbusy.1
    exact h1.next (ih h1.ok)

variable {fuel : Nat} (hf : bufferCacheMax≤fuel)

include hf

theorem UserOk.write (opFlags : Nat) :
    AfterCall env holds s ⟨writeDirtyBuffer env callback fuel head opFlags s,holds⟩ := by
  have hpos : 0<fuel := lt_of_lt_of_le (by decide) hf
  obtain ⟨h1,h2⟩ := writeDirty_finished env callback head opFlags (h.idle env) h.prompt hpos
  apply h.io env h1
  rw [h2]
  exact writeDirty_moves (buffersKept_ioClosed env) fuel head opFlags s

theorem UserOk.sync :
    AfterCall env holds s ⟨(syncDirtyBuffer env callback fuel head s).2,holds⟩ := by
  have hpos : 0<fuel := lt_of_lt_of_le (by decide) hf
  obtain ⟨h1,h2⟩ := syncDirtyBuffer_finished env callback head (h.idle env) h.prompt hpos
  apply h.io env h1
  rw [h2]
  exact syncDirtyBuffer_moves (buffersKept_ioClosed env) fuel

theorem UserOk.flush :
    AfterCall env holds s ⟨(flushDirtyBuffers env callback fuel s).2,holds⟩ := by
  obtain ⟨h1,h2⟩ := flushDirty_finished env callback (h.idle env) h.prompt (h.headsApart env) hf
  apply h.io env h1
  rw [h2]
  exact flushDirty_moves (buffersKept_ioClosed env) fuel s

theorem setBlocksize_ok {bdev size : Nat} :
    AfterCall env holds s ⟨(setBlocksize env callback fuel bdev size s).2,holds⟩ := by
  unfold setBlocksize
  split
  · exact ⟨h,refl s⟩
  split
  · exact ⟨h,refl s⟩
  split
  · exact ⟨h,refl s⟩
  obtain ⟨h1,h2⟩ := h.flush env callback hf
  unfold changeBlocksize
  generalize flushDirtyBuffers env callback fuel s=r at h1 h2 ⊢
  dsimp only
  split
  · exact ⟨h1,h2⟩
  have h3 := h1.morePages env (t := { r.2 with
    blockBits := update r.2.blockBits bdev (some (Nat.log2 size)) }) rfl rfl rfl rfl
    ⟨rfl,rfl,rfl,rfl,rfl,rfl,rfl⟩ rfl fun _ hp => hp
  exact AfterCall.next ⟨h3,h2⟩ (invalidateBdev_ok env h3)

end

end Kobox.Fs
