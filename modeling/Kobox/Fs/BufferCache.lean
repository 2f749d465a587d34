import Kobox.Fs.BufferCalls

namespace Kobox.Fs

open Function
open Kvm (ArenaBase)
open Kvm.PageArena (Covers indexOf pageAt)

def CacheRecord.SameKey (a b : CacheRecord) : Prop :=
  a.bdev=b.bdev ∧ a.blockNumber=b.blockNumber ∧ a.blockSize=b.blockSize

def CacheRecord.Describes (r : CacheRecord) (h : BufferHead) : Prop :=
  h.bdev=r.bdev ∧ h.blockNumber=r.blockNumber ∧ h.blockSize=r.blockSize ∧ h.folio=r.folio ∧
    h.data=r.data

variable {δ : Type} (env : Env δ) {base : ArenaBase} {s : FsState δ}

/-- One record a block, one buffer and run of pages a record, in use and large enough, dirty buffers
known as such, the page cache elsewhere. -/
structure CacheOk (base : ArenaBase) (s : FsState δ) : Prop where
  small : ∀ i,(s.cache i).active=true → i<bufferCacheMax
  used : ∀ i,(s.cache i).active=true → (s.cache i).bufferHead≠0 ∧ (s.cache i).data≠0
  live : ∀ i,(s.cache i).active=true → s.headLive (s.cache i).bufferHead=true
  describes : ∀ i,(s.cache i).active=true → (s.cache i).Describes (s.heads (s.cache i).bufferHead)
  heads : HeadsApart s
  keys : ∀ i j,(s.cache i).active=true → (s.cache j).active=true →
    (s.cache i).SameKey (s.cache j) → i=j
  dirty : DirtyOk s
  known : DirtyKnown s
  sized : ∀ i,(s.cache i).active=true → 0<(s.cache i).blockSize ∧ (s.cache i).blockSize≤65536 ∧
    (s.cache i).blockSize≤2^(s.cache i).folioOrder*pageSize
  data : ∀ i,(s.cache i).active=true → ∀ p,indexOf base (s.cache i).folio=some p →
    (s.cache i).data=base.payloads+p*pageSize
  owns : ∀ i,(s.cache i).active=true → ∃ p,indexOf base (s.cache i).folio=some p
  storage : ∀ i,(s.cache i).active=true →
    ∀ p,Covers base (s.cache i).folio (s.cache i).folioOrder p → s.pages p≠.free
  apart : ∀ i j,(s.cache i).active=true → (s.cache j).active=true →
    ∀ p,Covers base (s.cache i).folio (s.cache i).folioOrder p →
      Covers base (s.cache j).folio (s.cache j).folioOrder p → i=j
  files : ∀ f,s.fileFolio f=true → ∀ p,indexOf base f=some p → s.pages p≠.free ∧
      ∀ i,(s.cache i).active=true → ¬Covers base (s.cache i).folio (s.cache i).folioOrder p

variable {i : Nat}

theorem CacheOk.fileFolio (h : CacheOk base s) (hi : (s.cache i).active=true) :
    s.fileFolio (s.cache i).folio=false := by
  rw [← Bool.not_eq_true]
  intro hf
  obtain ⟨p,hp⟩ := h.owns i hi
  have hpos := Nat.two_pow_pos (s.cache i).folioOrder
  exact (h.files _ hf p hp).2 i hi ⟨p,hp,le_rfl,by omega⟩

/-- What the cache asks of the record in slot i. -/
structure RecordOk (base : ArenaBase) (s : FsState δ) (i : Nat) (r : CacheRecord) : Prop where
  small : i<bufferCacheMax
  used : r.bufferHead≠0 ∧ r.data≠0
  live : s.headLive r.bufferHead=true
  describes : r.Describes (s.heads r.bufferHead)
  sized : 0 < r.blockSize ∧ r.blockSize≤65536 ∧ r.blockSize≤2^r.folioOrder*pageSize
  data : ∀ p,indexOf base r.folio=some p → r.data=base.payloads+p*pageSize
  owns : ∃ p,indexOf base r.folio=some p
  storage : ∀ p,Covers base r.folio r.folioOrder p → s.pages p≠.free

def CacheRecord.Clash (base : ArenaBase) (a b : CacheRecord) : Prop :=
  a.bufferHead=b.bufferHead ∨ a.SameKey b ∨
    ∃ p,Covers base a.folio a.folioOrder p ∧ Covers base b.folio b.folioOrder p

theorem CacheOk.record (h : CacheOk base s) (hi : (s.cache i).active=true) :
    RecordOk base s i (s.cache i) :=
  ⟨h.small i hi,h.used i hi,h.live i hi,h.describes i hi,h.sized i hi,h.data i hi,h.owns i hi,
    h.storage i hi⟩

theorem CacheOk.alone (h : CacheOk base s) {j : Nat} (hi : (s.cache i).active=true)
    (hj : (s.cache j).active=true) (hc : (s.cache i).Clash base (s.cache j)) : i=j := by
  rcases hc with hc|hc|⟨p,hp,hq⟩
  · exact h.heads i j hi hj hc
  · exact h.keys i j hi hj hc
  · exact h.apart i j hi hj p hp hq

theorem CacheOk.intro (hr : ∀ i,(s.cache i).active=true → RecordOk base s i (s.cache i))
    (ha : ∀ i j,(s.cache i).active=true → (s.cache j).active=true →
      (s.cache i).Clash base (s.cache j) → i=j) (hd : DirtyOk s) (hk : DirtyKnown s)
    (hf : ∀ f,s.fileFolio f=true → ∀ p,indexOf base f=some p → s.pages p≠.free ∧
      ∀ i,(s.cache i).active=true → ¬Covers base (s.cache i).folio (s.cache i).folioOrder p) :
    CacheOk base s where
  small := fun i hi => (hr i hi).small
  used := fun i hi => (hr i hi).used
  live := fun i hi => (hr i hi).live
  describes := fun i hi => (hr i hi).describes
  heads := fun i j hi hj h => ha i j hi hj (Or.inl h)
  keys := fun i j hi hj h => ha i j hi hj (Or.inr (Or.inl h))
  dirty := hd
  known := hk
  sized := fun i hi => (hr i hi).sized
  data := fun i hi => (hr i hi).data
  owns := fun i hi => (hr i hi).owns
  storage := fun i hi => (hr i hi).storage
  apart := fun i j hi hj p hp hq => ha i j hi hj (Or.inr (Or.inr ⟨p,hp,hq⟩))
  files := hf

theorem RecordOk.carry {t : FsState δ} {r : CacheRecord} (h : RecordOk base s i r)
    (hl : t.headLive r.bufferHead=s.headLive r.bufferHead)
    (hh : r.Describes (s.heads r.bufferHead) → r.Describes (t.heads r.bufferHead))
    (hp : ∀ p,Covers base r.folio r.folioOrder p → s.pages p≠.free → t.pages p≠.free) :
    RecordOk base t i r :=
  { h with
    live := hl.trans h.live
    describes := hh h.describes
    storage := fun p hq => hp p hq (h.storage p hq) }

theorem CacheOk.kept {t : FsState δ} (h : CacheOk base s) (hk : BuffersKept s t)
    (hf : t.fileFolio=s.fileFolio) : CacheOk base t := by
  have ha := hk.active
  refine .intro ?_ ?_ (hk.dirty h.dirty) (hk.known h.known) ?_
  · intro i hi
    have hr := h.record (ha i ▸ hi)
    rw [hk.cache i]
    have hr : RecordOk base s i { s.cache i with dirty := (t.cache i).dirty } := { hr with }
    refine hr.carry (by rw [hk.headLive]) ?_ (fun p _ hp => by rw [hk.pages]; exact hp)
    rw [hk.heads]
    exact id
  · intro i j hi hj hc
    rw [hk.cache i,hk.cache j] at hc
    exact h.alone (ha i ▸ hi) (ha j ▸ hj) hc
  · intro f hff p hp
    rw [hf] at hff
    obtain ⟨h1,h2⟩ := h.files f hff p hp
    rw [hk.pages]
    refine ⟨h1,?_⟩
    intro i hi
    rw [hk.cache i]
    exact h2 i (ha i ▸ hi)

theorem dropRecord_active {i j : Nat} (hj : ((dropRecord env i s).cache j).active=true) :
    j≠i ∧ (s.cache j).active=true ∧ (dropRecord env i s).cache j=s.cache j := by
  by_cases he : j=i
  · subst he
    simp [dropRecord,CacheRecord.empty] at hj
  · have hc : (dropRecord env i s).cache j=s.cache j := by simp [dropRecord,he]
    exact ⟨he,hc ▸ hj,hc⟩

theorem CacheOk.drop (h : CacheOk env.base s) (hi : (s.cache i).active=true)
    (hclean : (s.cache i).dirty=false) : CacheOk env.base (dropRecord env i s) := by
  have hpages : ∀ p,¬Covers env.base (s.cache i).folio (s.cache i).folioOrder p →
      (dropRecord env i s).pages p=s.pages p := by
    intro p hp
    simp only [dropRecord]
    split
    · rfl
    · exact Kvm.PageArena.releasePages_outside hp
  refine .intro ?_ ?_ ?_ ?_ ?_
  · intro j hj
    obtain ⟨hne,hj,hc⟩ := dropRecord_active env hj
    rw [hc]
    refine (h.record hj).carry ?_ id ?_
    · exact update_of_ne (fun h0 => hne (h.heads j i hj hi h0)) ..
    · intro p hp hu
      rwa [hpages p fun h0 => hne (h.apart j i hj hi p hp h0)]
  · intro j k hj hk hjk
    obtain ⟨_,hj,hc⟩ := dropRecord_active env hj
    obtain ⟨_,hk,hd⟩ := dropRecord_active env hk
    rw [hc,hd] at hjk
    exact h.alone hj hk hjk
  · intro j hj hdirty
    obtain ⟨_,hj,hc⟩ := dropRecord_active env hj
    rw [hc] at hdirty ⊢
    exact h.dirty j hj hdirty
  · intro k hk
    have hk : pending s.trace k=true := by
      have hk : pending (s.trace++[.freed (s.cache i).bufferHead (s.heads (s.cache i).bufferHead)
        (s.cache i).dirty]) k=true := hk
      rwa [pending_note] at hk
    obtain ⟨j,h1,h2,h3⟩ := h.known k hk
    have hne : j≠i := by
      rintro rfl
      rw [hclean] at h3
      cases h3
    refine ⟨j,?_⟩
    rw [show (dropRecord env i s).cache j=s.cache j by simp [dropRecord,hne]]
    exact ⟨h1,h2,h3⟩
  · intro f hf p hp
    obtain ⟨h1,h2⟩ := h.files f hf p hp
    rw [hpages p (h2 i hi)]
    refine ⟨h1,?_⟩
    intro j hj
    obtain ⟨_,hj,hc⟩ := dropRecord_active env hj
    rw [hc]
    exact h2 j hj

theorem CacheOk.morePages {t : FsState δ} (h : CacheOk base s) (hc : t.cache=s.cache)
    (ht : t.trace=s.trace) (hh : t.heads=s.heads) (hl : t.headLive=s.headLive) (hf : t.fileFolio=s.fileFolio)
    (hp : ∀ p,s.pages p≠.free → t.pages p≠.free) : CacheOk base t := by
  refine .intro ?_ (hc ▸ fun i j => h.alone) ?_ ?_ ?_
  · intro i hi
    rw [hc] at hi ⊢
    exact (h.record hi).carry (by rw [hl]) (by rw [hh]; exact id) fun p _ => hp p
  · unfold DirtyOk
    rw [hc,hh]
    exact h.dirty
  · unfold DirtyKnown
    rw [hc,ht]
    exact h.known
  · rw [hc,hf]
    exact fun f hff p hq => ⟨hp p (h.files f hff p hq).1,(h.files f hff p hq).2⟩

/-- A new record r in a free slot, over a buffer and pages that were free. -/
structure Adopts (base : ArenaBase) (slot head : Nat) (r : CacheRecord) (b : BufferHead)
    (s t : FsState δ) : Prop where
  inCache : slot<bufferCacheMax
  empty : (s.cache slot).active=false
  active : r.active=true
  own : r.bufferHead=head
  used : head≠0 ∧ r.data≠0
  fresh : s.headLive head=false
  describes : r.Describes b
  clean : b.flags.dirty=false
  newKey : ∀ i,(s.cache i).active=true → ¬r.SameKey (s.cache i)
  sized : 0 < r.blockSize ∧ r.blockSize≤65536 ∧ r.blockSize≤2^r.folioOrder*pageSize
  data : ∀ p,indexOf base r.folio=some p → r.data=base.payloads+p*pageSize
  owns : ∃ p,indexOf base r.folio=some p
  taken : ∀ p,Covers base r.folio r.folioOrder p → s.pages p=.free ∧ t.pages p≠.free
  pages : ∀ p,s.pages p≠.free → t.pages p≠.free
  cache : t.cache=Function.update s.cache slot r
  heads : t.heads=Function.update s.heads head b
  headLive : t.headLive=Function.update s.headLive head true
  fileFolio : t.fileFolio=s.fileFolio
  trace : t.trace=s.trace

section

variable {slot head : Nat} {r : CacheRecord} {b : BufferHead} {t : FsState δ}

theorem Adopts.cases (ha : Adopts base slot head r b s t) (hi : (t.cache i).active=true) :
    (i=slot ∧ t.cache i=r) ∨ (i≠slot ∧ (s.cache i).active=true ∧ t.cache i=s.cache i) := by
  by_cases he : i=slot
  · exact Or.inl ⟨he,by rw [ha.cache,he,update_self]⟩
  · have hc : t.cache i=s.cache i := by rw [ha.cache,update_of_ne he]
    exact Or.inr ⟨he,hc ▸ hi,hc⟩

theorem Adopts.old (ha : Adopts base slot head r b s t) (hi : (s.cache i).active=true) :
    t.cache i=s.cache i := by
  have hne : i≠slot := by
    rintro rfl
    rw [ha.empty] at hi
    cases hi
  rw [ha.cache,update_of_ne hne]

theorem Adopts.other (ha : Adopts base slot head r b s t) (h : CacheOk base s)
    (hi : (s.cache i).active=true) : (s.cache i).bufferHead≠head := by
  intro h0
  have hl := h.live i hi
  rw [h0,ha.fresh] at hl
  cases hl

theorem Adopts.record (ha : Adopts base slot head r b s t) : RecordOk base t slot r := by
  obtain rfl := ha.own
  exact ⟨ha.inCache,ha.used,by rw [ha.headLive,update_self],by rw [ha.heads,update_self]; exact ha.describes,
    ha.sized,ha.data,ha.owns,fun p hp => (ha.taken p hp).2⟩

theorem Adopts.apart (ha : Adopts base slot head r b s t) (h : CacheOk base s)
    (hi : (s.cache i).active=true) : ¬r.Clash base (s.cache i) := by
  rintro (hc|hc|⟨p,hp,hq⟩)
  · exact ha.other h hi (hc.symm.trans ha.own)
  · exact ha.newKey i hi hc
  · exact h.storage i hi p hq (ha.taken p hp).1

theorem CacheRecord.Clash.symm {a b : CacheRecord} : a.Clash base b → b.Clash base a := by
  rintro (hc|⟨h1,h2,h3⟩|⟨p,hp,hq⟩)
  · exact Or.inl hc.symm
  · exact Or.inr (Or.inl ⟨h1.symm,h2.symm,h3.symm⟩)
  · exact Or.inr (Or.inr ⟨p,hq,hp⟩)

theorem CacheOk.adopt (h : CacheOk base s) (ha : Adopts base slot head r b s t) :
    CacheOk base t := by
  have hsame : ∀ i,(s.cache i).active=true →
      t.heads (s.cache i).bufferHead=s.heads (s.cache i).bufferHead := by
    intro i hi
    rw [ha.heads,update_of_ne (ha.other h hi)]
  refine .intro ?_ ?_ ?_ ?_ ?_
  · intro i hi
    rcases ha.cases hi with ⟨rfl,hc⟩|⟨_,hs,hc⟩
    · exact hc ▸ ha.record
    · rw [hc]
      refine (h.record hs).carry ?_ (by rw [hsame i hs]; exact id) fun p _ => ha.pages p
      rw [ha.headLive,update_of_ne (ha.other h hs)]
  · intro i j hi hj hij
    rcases ha.cases hi with ⟨he,hc⟩|⟨_,hs,hc⟩ <;> rcases ha.cases hj with ⟨he',hc'⟩|⟨_,hs',hc'⟩
    · exact he.trans he'.symm
    · rw [hc,hc'] at hij
      exact absurd hij (ha.apart h hs')
    · rw [hc,hc'] at hij
      exact absurd hij.symm (ha.apart h hs)
    · rw [hc,hc'] at hij
      exact h.alone hs hs' hij
  · intro i hi hd
    rcases ha.cases hi with ⟨_,hc⟩|⟨_,hs,hc⟩
    · rw [hc,ha.own,ha.heads,update_self,ha.clean] at hd
      cases hd
    · rw [hc,hsame i hs] at hd
      rw [hc]
      exact h.dirty i hs hd
  · intro k hk
    rw [ha.trace] at hk
    obtain ⟨i,h1,h2,h3⟩ := h.known k hk
    refine ⟨i,?_⟩
    rw [ha.old h1]
    exact ⟨h1,h2,h3⟩
  · intro f hf p hp
    rw [ha.fileFolio] at hf
    obtain ⟨h1,h2⟩ := h.files f hf p hp
    refine ⟨ha.pages p h1,?_⟩
    intro i hi hcov
    rcases ha.cases hi with ⟨_,hc⟩|⟨_,hs,hc⟩
    · rw [hc] at hcov
      exact h1 (ha.taken p hcov).1
    · rw [hc] at hcov
      exact h2 i hs hcov

end

end Kobox.Fs
