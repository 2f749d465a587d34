import Kobox.Fs.BufferIdentity
import Kobox.Fs.Stored

namespace Kobox.Fs

open List FsState Emits
open Kvm.PageArena (Covers indexOf pageAt)

section

variable {δ : Type} (env : Env δ) (callback : Call → FsState δ → FsState δ) (fuel : Nat)
  {base : Nat → Nat} {s t : FsState δ} {d : BlockDevice} {head i : Nat}

/-- The write of a buffer, queued and not drained, leaves the others alone. -/
structure Queued (head : Nat) (s t : FsState δ) : Prop where
  heads : ∀ k,k≠head → t.heads k=s.heads k
  cache : t.cache=s.cache
  allocations : ∃ k ≤ 1,t.allocations=s.allocations+k
  bios : ∀ b,b ≤ s.nextBio → t.bios b=s.bios b
  queue : ∀ b∈s.queue,b∈t.queue

theorem Queued.refl (head : Nat) (s : FsState δ) : Queued head s s :=
  ⟨fun _ _ => rfl,rfl,⟨0,Nat.zero_le 1,rfl⟩,fun _ _ => rfl,fun _ hb => hb⟩

theorem Queued.after {f : BufferHead → BufferHead} (h : Queued head (s.onHead head f) t) :
    Queued head s t := by
  refine ⟨?_,h.cache,h.allocations,h.bios,h.queue⟩
  intro k hk
  rw [h.heads k hk]
  simp [onHead,hk]

theorem headComplete_queued (hsync : (s.heads head).endIo=.writeSync) :
    Queued head s (bufferHeadComplete callback head false s) := by
  rw [show bufferHeadComplete callback head false s=endBufferWriteSync head false s by
    simp only [bufferHeadComplete,hsync]]
  refine ⟨?_,?_,?_,?_,?_⟩
  · intro k hk
    simp [endBufferWriteSync,onHead,note,hk]
  · simp [endBufferWriteSync,onHead,note]
  · exact ⟨0,Nat.zero_le 1,by simp [endBufferWriteSync,onHead,note]⟩
  · simp [endBufferWriteSync,onHead,note]
  · simp [endBufferWriteSync,onHead,note]

theorem submitBio_queued {bio : Nat} (hm : (s.bios bio).magic=true)
    (hauto : s.autoDrain=false) (hq : (s.bios bio).queued=false) :
    kbFsSubsystemSubmitBio env callback fuel bio s=enqueue bio s := by
  have hoff : ¬((enqueue bio s).autoDrain=true ∧ (enqueue bio s).plugDepth=0) := by
    rw [enqueue_new hq]
    simp [hauto]
  simp only [kbFsSubsystemSubmitBio,hm]
  exact if_neg hoff

theorem issueBh_queued {opf : Nat} (hsync : (s.heads head).endIo=.writeSync)
    (hauto : s.autoDrain=false) : Queued head s (issueBh env callback fuel opf head s) := by
  rcases issueBh_cases env fuel opf head s with ⟨-,hnone⟩|⟨bio,t,hb,hbio⟩
  · rw [hnone]
    exact headComplete_queued callback hsync
  rw [hbio]
  split
  · have hdone : Queued head t (bufferHeadComplete callback head false t) :=
      headComplete_queued callback (by rw [hb.buffers.heads]; exact hsync)
    refine ⟨?_,hdone.cache.trans hb.buffers.cache,?_,?_,?_⟩
    · intro k hk
      rw [hdone.heads k hk,hb.buffers.heads]
    · have hsame : (bufferHeadComplete callback head false t).allocations=t.allocations := by
        simp [bufferHeadComplete,hb.buffers.heads,hsync,endBufferWriteSync,onHead, note]
      exact ⟨1,le_rfl,by rw [hsame,hb.allocations]⟩
    · intro b hle
      rw [hdone.bios b (hle.trans hb.next),hb.old b hle]
    · intro b hin
      exact hdone.queue b (by rw [hb.queue]; exact hin)
  · rcases hb.made with ⟨h0,_⟩|⟨hbio,hnext,_,p,o,_,hrec⟩
    · contradiction
    have hnew : (t.bios bio).queued=false := by rw [hrec]; rfl
    rw [submitBio_queued env callback fuel (by rw [hrec]; rfl)
      (by rw [hb.settings.autoDrain,hauto]) hnew,enqueue_new hnew]
    refine ⟨?_,hb.buffers.cache,⟨1,le_rfl,hb.allocations⟩,?_,?_⟩
    · intro k _
      rw [hb.buffers.heads]
    · intro b hle
      have hne : b≠bio := by omega
      simp only [Function.update_of_ne hne]
      exact hb.old b hle
    · intro b hin
      exact mem_append_left _ (by rw [hb.queue]; exact hin)

theorem issueBh_bio {page offset : Nat} (hready : bufferHeadReady s (s.heads head)=true) (hauto : s.autoDrain=false)
    (hbuild : Buildable env s head page offset) :
    let t := issueBh env callback fuel opWrite head s
    s.nextBio+1∈t.queue ∧ (t.bios (s.nextBio+1)).bio=
      (headRecord opWrite head page offset (s.heads head)).bio ∧ t.pages=s.pages ∧
      SameSettings s t := by
  rcases issueBh_cases env fuel opWrite head s with ⟨hr,-⟩|⟨bio,t,hb,hissue⟩
  · exact absurd ⟨hready,Or.inr rfl⟩ hr
  rw [hissue]
  rcases hb.made with ⟨_,hno⟩|⟨hbio,hnext,_,p,o,hplace,hrec⟩
  · exact absurd hbuild (hno page offset)
  have hsame : (p,o)=(page,offset) := Option.some.inj (hplace.symm.trans hbuild.2.1)
  cases hsame
  have hne : bio≠0 := by omega
  have hnew : (t.bios bio).queued=false := by rw [hrec]; rfl
  rw [if_neg hne,submitBio_queued env callback fuel (by rw [hrec]; rfl)
    (by rw [hb.settings.autoDrain,hauto]) hnew,enqueue_new hnew,← hbio]
  refine ⟨by simp,by simp [hrec],hb.buffers.pages,hb.settings.trans ⟨rfl,rfl,rfl,rfl,rfl,rfl,rfl⟩⟩

/-- The buffer of a dirty locked buffer as `issueBh` finds it. -/
def takenHead (h : BufferHead) : BufferHead := { h with
  flags := { h.flags with dirty := false,lock := true,req := true,writeEio := false }
  refcount := h.refcount+1
  endIo := .writeSync }

section

variable (hfree : (s.heads head).flags.lock=false)

include hfree

theorem writeDirty_dirty (hdirty : (s.heads head).flags.dirty=true)
    (hroom : (s.heads head).refcount≠refcountMax) :
    writeDirtyBuffer env callback fuel head 0 s=
      issueBh env callback fuel opWrite head (s.onHead head takenHead) := by
  unfold writeDirtyBuffer
  rw [lockBuffer_free env callback fuel hfree]
  unfold writeIfDirty
  rw [if_neg (by simp [setLock,onHead,hdirty,hroom])]
  show issueBh env callback fuel opWrite head (startBh opWrite head ((setLock head true s).onHead
    head fun h => { h with
      flags := { h.flags with dirty := false }
      refcount := h.refcount+1
      endIo := .writeSync }))=_
  rw [setLock,startBh,onHead_onHead,onHead_onHead]
  rfl

theorem writeDirty_clean
    (hskip : (s.heads head).flags.dirty=false ∨ (s.heads head).refcount=refcountMax) :
    writeDirtyBuffer env callback fuel head 0 s=s := by
  unfold writeDirtyBuffer
  rw [lockBuffer_free env callback fuel hfree]
  unfold writeIfDirty
  rw [if_pos (by simpa [setLock,onHead] using hskip),unlock_lock hfree]

theorem writeDirty_queued (hauto : s.autoDrain=false) :
    Queued head s (writeDirtyBuffer env callback fuel head 0 s) := by
  by_cases hskip : (s.heads head).flags.dirty=false ∨ (s.heads head).refcount=refcountMax
  · rw [writeDirty_clean env callback fuel hfree hskip]
    exact Queued.refl head s
  · rw [not_or,Bool.not_eq_false] at hskip
    rw [writeDirty_dirty env callback fuel hfree hskip.1 hskip.2]
    exact Queued.after (issueBh_queued env callback fuel
      (s := s.onHead head takenHead) (by simp [onHead,takenHead]) hauto)

end

theorem CacheOk.bioPage (h : CacheOk env.base s) (hi : (s.cache i).active=true)
    (hsize : (s.cache i).blockSize≤pageSize) :
    bioPageOf env s (s.heads (s.cache i).bufferHead)=some ((s.cache i).folio,0) ∧
      (s.cache i).folio≠0 ∧ pagePayload env s (s.cache i).folio=(s.cache i).data ∧
      (s.cache i).data<wordSize := by
  obtain ⟨p,hp⟩ := h.owns i hi
  have hdata := h.data i hi p hp
  have hused := h.storage i hi p ⟨p,hp,le_rfl,by have := Nat.two_pow_pos (s.cache i).folioOrder; omega⟩
  have hdesc := h.describes i hi
  have hbase := env.base.recordsPos
  have hword := env.base.inWord
  have hplace : (s.cache i).folio≠0 ∧ p<Kvm.pageRecordMax := by
    unfold indexOf at hp
    split at hp
    · cases hp
    · cases hp
      simp only [Kvm.structPageSize] at *
      omega
  have hpayload : folioPagePayload env s (s.cache i).folio=(s.cache i).data := by
    unfold folioPagePayload Kvm.PageArena.pagePayload
    rw [hp]
    have hroom : ¬Kvm.pageRecordMax-p<1 := by omega
    simp [Kvm.pageSize,pageSize,hroom,Kvm.PageArena.usedRun,hused,hdata]
  have hne := (h.used i hi).2
  refine ⟨?_,hplace.1,by simp [pagePayload,hpayload,hne],?_⟩
  · unfold bioPageOf
    rw [hdesc.2.2.2.1,hdesc.2.2.2.2,hdesc.2.2.1,if_neg hplace.1]
    rw [hpayload]
    have hfits : ¬((s.cache i).data=0 ∨ (s.cache i).data<(s.cache i).data ∨
        pageSize ≤ (s.cache i).data-(s.cache i).data ∨
        pageSize-((s.cache i).data-(s.cache i).data)<(s.cache i).blockSize) := by
      simp only [pageSize] at *
      omega
    rw [if_neg hfits,Nat.sub_self]
  · simp only [Kvm.pageSize,pageSize,wordSize] at *
    omega

/-- The dirty flag of the buffer is still set, and its write can be put into a bio. -/
structure Flushable (env : Env δ) (s : FsState δ) (head : Nat) : Prop where
  dirty : (s.heads head).flags.dirty=true
  room : (s.heads head).refcount≠refcountMax
  device : (blockDeviceForBdev s (s.heads head).bdev).isSome
  size : (s.heads head).blockSize≤pageSize
  aligned : (s.heads head).blockNumber*(s.heads head).blockSize%512=0
  small : (s.heads head).blockNumber*(s.heads head).blockSize<wordSize
  memory : ∀ k<bufferCacheMax,env.allocOk (s.allocations+k)=true

def BufferHead.offset (h : BufferHead) : Nat := h.blockNumber*h.blockSize

structure Waits (env : Env δ) (d : BlockDevice) (i : Nat) (s : FsState δ) : Prop where
  active : (s.cache i).active=true
  record : (s.cache i).dirty=true
  flushable : Flushable env s (s.cache i).bufferHead
  device : blockDeviceForBdev s (s.heads (s.cache i).bufferHead).bdev=some d

/-- The scan behind the slots in `visited`, and the buffer of slot i. -/
structure Aimed (env : Env δ) (d : BlockDevice) (i : Nat) (visited : List Nat)
    (s t : FsState δ) : Prop where
  cache : t.cache=s.cache
  allocations : ∃ k ≤ visited.length,t.allocations=s.allocations+k
  before : i∉visited → t.heads (s.cache i).bufferHead=s.heads (s.cache i).bufferHead
  queued : i∈visited → ∃ b∈t.queue,OneWrite env t b d (s.heads (s.cache i).bufferHead).offset
    (s.heads (s.cache i).bufferHead).data (s.heads (s.cache i).bufferHead).blockSize

section

variable (hok : CacheOk env.base s)

include hok

theorem writeDirty_bio {h : BufferHead} (hi : (s.cache i).active=true)
    (hh : s.heads (s.cache i).bufferHead=h) (hfree : h.flags.lock=false) (hauto : s.autoDrain=false)
    (hdirty : h.flags.dirty=true) (hroom : h.refcount≠refcountMax)
    (hdevice : blockDeviceForBdev s h.bdev=some d) (hsize : h.blockSize≤pageSize)
    (haligned : h.offset%512=0) (hsmall : h.offset<wordSize)
    (hmemory : env.allocOk s.allocations=true) :
    let t := writeDirtyBuffer env callback fuel (s.cache i).bufferHead 0 s
    ∃ b∈t.queue,OneWrite env t b d h.offset h.data h.blockSize := by
  have hdesc := hok.describes i hi
  rw [hh] at hdesc
  obtain ⟨hplace,hfolio,hpayload,hword⟩ := hok.bioPage env hi (hdesc.2.2.1 ▸ hsize)
  rw [hh] at hplace
  have hsized := hok.sized i hi
  have hused := (hok.used i hi).2
  rw [writeDirty_dirty env callback fuel (hh ▸ hfree) (hh ▸ hdirty) (hh ▸ hroom)]
  generalize hu : s.onHead (s.cache i).bufferHead takenHead=u
  have hhead : u.heads (s.cache i).bufferHead=takenHead h := by
    rw [← hu,← hh]
    simp [onHead]
  have hsame : SameSettings s u := by
    rw [← hu]
    exact ⟨rfl,rfl,rfl,rfl,rfl,rfl,rfl⟩
  have hpages : u.pages=s.pages := by rw [← hu]; rfl
  have halloc : u.allocations=s.allocations := by rw [← hu]; rfl
  have hready : bufferHeadReady u (u.heads (s.cache i).bufferHead)=true := by
    have hdata : h.data≠0 := hdesc.2.2.2.2 ▸ hused
    have hpos : h.blockSize≠0 := by
      rw [hdesc.2.2.1]
      omega
    have hend : h.blockNumber*h.blockSize<wordSize := hsmall
    rw [hhead]
    simp [bufferHeadReady,takenHead,hsame.device,hdevice,hdata,hpos,hend]
  have hpay : pagePayload env u (s.cache i).folio=(s.cache i).data := by
    rw [← hpayload]
    unfold pagePayload folioPagePayload
    rw [hpages]
  have hmod : ((s.cache i).data+0)%wordSize=(s.cache i).data := Nat.mod_eq_of_lt hword
  have hbuild : Buildable env u (s.cache i).bufferHead (s.cache i).folio 0 := by
    refine ⟨by rw [halloc]; exact hmemory,?_,?_,?_,hfolio,?_,by decide⟩
    · rw [hhead,← hplace]
      unfold bioPageOf folioPagePayload takenHead
      rw [hpages]
    · rw [hhead]
      exact haligned
    · rw [hhead]
      simp only [takenHead,pageSize] at *
      omega
    · rw [hpay,hmod]
      exact hused
  obtain ⟨hin,hbio,hpg,hset⟩ := issueBh_bio env callback fuel hready
    (hsame.autoDrain.trans hauto) hbuild
  refine ⟨_,hin,?_,?_,?_,?_,?_,⟨(s.cache i).folio,h.blockSize,0⟩,?_,?_,rfl⟩
  · rw [hbio]
    rfl
  · rw [hbio]
    show opWrite.testBit 17=false
    decide
  · rw [hbio]
    show opWrite.testBit 18=false
    decide
  · rw [hset.device,hbio,hsame.device,hhead]
    exact hdevice
  · rw [hbio,hhead]
    exact Nat.div_mul_cancel (Nat.dvd_of_mod_eq_zero haligned)
  · rw [hbio,hhead]
    rfl
  have hfinal : pagePayload env (issueBh env callback fuel opWrite (s.cache i).bufferHead u)
      (s.cache i).folio=(s.cache i).data := by
    rw [← hpay]
    unfold pagePayload folioPagePayload
    rw [hpg]
  show (pagePayload env _ (s.cache i).folio+0)%wordSize=_
  rw [hfinal,hmod,hdesc.2.2.2.2]

variable (hfuel : bufferCacheMax≤fuel) (hwait : Waits env d i s)

include hfuel hwait

theorem flushSlot_aimed {visited : List Nat} {acc : FsState δ × List Nat × Int} {j : Nat}
    (hauto : s.autoDrain=false) (hs : Scanned base visited s acc.1)
    (h : Aimed env d i visited s acc.1) (hj : j∉visited) (hlen : visited.length<bufferCacheMax) :
    Aimed env d i (visited++[j]) s (flushSlot env callback fuel acc j).1 := by
  have hfree : (s.cache j).active=true → (acc.1.heads (s.cache j).bufferHead).flags.lock=false := by
    intro hact
    rw [← Bool.not_eq_true]
    intro hlock
    obtain ⟨k,hk,hk1,hk2⟩ := hs.lock _ hlock
    exact hj (hok.heads k j hk1 hact hk2 ▸ hk)
  have hauto' : acc.1.autoDrain=false := hs.settings.autoDrain.trans hauto
  unfold flushSlot
  dsimp only
  rw [h.cache]
  by_cases hskip : (!(s.cache j).active)=true ∨ (!(s.cache j).dirty)=true
  · rw [if_pos hskip]
    have hne : i≠j := by
      rintro rfl
      simp [hwait.active,hwait.record] at hskip
    refine ⟨h.cache,?_,?_,?_⟩
    · obtain ⟨k,hk,ha⟩ := h.allocations
      exact ⟨k,by simp; omega,ha⟩
    · intro hn
      exact h.before fun h0 => hn (mem_append_left _ h0)
    · intro hin
      exact h.queued (by simpa [hne] using hin)
  · rw [if_neg hskip]
    have hact : (s.cache j).active=true := by
      simp at hskip
      exact hskip.1
    have hq := writeDirty_queued env callback fuel (hfree hact) hauto'
    have hwrite : Aimed env d i (visited++[j]) s
        (writeDirtyBuffer env callback fuel (s.cache j).bufferHead 0 acc.1) := by
      refine ⟨hq.cache.trans h.cache,?_,?_,?_⟩
      · obtain ⟨k,hk,ha⟩ := h.allocations
        obtain ⟨l,hl,hb⟩ := hq.allocations
        exact ⟨k+l,by simp; omega,by rw [hb]; omega⟩
      · intro hn
        rw [mem_append,not_or,mem_singleton] at hn
        rw [hq.heads _ fun h0 => hn.2 (hok.heads i j hwait.active hact h0),h.before hn.1]
      intro hin
      by_cases hij : i=j
      · subst hij
        have hsame := h.before hj
        have hacc : CacheOk env.base acc.1 := hok.kept hs.kept hs.settings.fileFolio
        have hf := hwait.flushable
        have hbio := writeDirty_bio env callback fuel hacc (by rw [h.cache]; exact hwait.active)
          (by rw [h.cache]; exact hsame) (hsame ▸ hfree hact) hauto' hf.dirty hf.room
          (by rw [hs.settings.device]; exact hwait.device) hf.size hf.aligned hf.small (by
            obtain ⟨k,hk,ha⟩ := h.allocations
            rw [ha]
            exact hf.memory k (hk.trans_lt hlen))
        rw [h.cache] at hbio
        exact hbio
      · obtain ⟨b,hb,hw⟩ := h.queued (by simpa [hij] using hin)
        have hdone := writeDirty_done env callback 0 hs.flight (hfree hact)
          (hs.length.trans_lt (hlen.trans_le hfuel))
        have hkept := writeDirty_moves (buffersKept_ioClosed env) fuel
          (s.cache j).bufferHead 0 acc.1
        rw [← hdone.still] at hkept
        refine ⟨b,hq.queue b hb,hw.moved ⟨(acc.1.bios b).bio.status,?_⟩ hkept.pages
          ((setLock_settings _ true _).trans hdone.settings)⟩
        rw [hq.bios b (hs.flight.ready b hb).known]
    split
    · exact hwrite
    · split <;> exact hwrite

theorem flushScan_aimed (hauto : s.autoDrain=false) (hidle : InFlight base s.queue [] s)
    (hq : s.queue=[]) : Aimed env d i (range bufferCacheMax) s
      (flushScan env callback fuel (range bufferCacheMax) s).1 := by
  refine (foldl_visited (P := fun visited (acc : FsState δ × _) => Scanned base visited s acc.1 ∧
    Aimed env d i visited s acc.1) ?_ ⟨.start hidle hq,?_⟩ nodup_range length_range.le).2
  · rintro visited j acc hj hlen ⟨hscan,hacc⟩
    exact ⟨(flushSlot_scanned env callback hscan hj hok.heads (hlen.trans_le hfuel)).1,
      flushSlot_aimed env callback fuel hok hfuel hwait hauto hscan hacc hj hlen⟩
  · exact ⟨rfl,⟨0,le_rfl,rfl⟩,fun _ => rfl,fun h0 => absurd h0 not_mem_nil⟩

omit hok hfuel hwait in
theorem flushWait_error {heads : List Nat} {error : Int} (he : error≠0) :
    (flushWait env callback fuel heads s error).1≠0 := by
  unfold flushWait
  induction heads generalizing s with
  | nil => exact he
  | cons head heads ih =>
    have hone : (flushWaitOne env callback fuel (error,s) head).1=error := by
      simp [flushWaitOne,he]
    rw [foldl_cons,show flushWaitOne env callback fuel (error,s) head=
      (error,(flushWaitOne env callback fuel (error,s) head).2) from Prod.ext hone rfl]
    exact ih

theorem flushDirty_stores {h : BufferHead} (hp : Prompt s) (hidle : Idle base s)
    (hh : s.heads (s.cache i).bufferHead=h) (h0 : (flushDirtyBuffers env callback fuel s).1=0) :
    Stored d h.offset h.data h.blockSize s (flushDirtyBuffers env callback fuel s).2 := by
  generalize hu : ({ s with autoDrain := false } : FsState δ)=u
  have hsame : SameBuffers s u := by
    rw [← hu]
    exact ⟨rfl,rfl,rfl,rfl,rfl,rfl,rfl⟩
  have hok' : CacheOk env.base u := hok.kept (BuffersKept.same hsame) (by rw [← hu])
  have hq : u.queue=[] := by
    rw [← hu]
    exact hp.queue
  have hflight : InFlight base u.queue [] u := by
    rw [← hu]
    exact (hp.flight hidle).same (fun _ _ => rfl) le_rfl rfl rfl
  have hwait' : Waits env d i u := by
    rw [← hu]
    exact {hwait with flushable := {hwait.flushable with}}
  have haim := flushScan_aimed env callback fuel hok' hfuel hwait' (by rw [← hu]) hflight hq
  have hlen : (range bufferCacheMax).length≤fuel := by
    rw [length_range]
    exact hfuel
  obtain ⟨hscan,hstill⟩ := flushScan_scanned env callback hflight hq nodup_range hok'.heads hlen
  have hbefore := flushScan_moves (remembers_ioClosed env) fuel (range bufferCacheMax) u
  rw [← hstill] at hbefore
  obtain ⟨b,hb,hw⟩ := haim.queued (mem_range.mpr (hok.small i hwait.active))
  rw [hsame.cache,hsame.heads,hh] at hw
  unfold flushDirtyBuffers at h0 ⊢
  rw [hu] at h0 ⊢
  generalize flushScan env callback fuel (range bufferCacheMax) u=scan at h0 hbefore hscan hb hw ⊢
  have hdrain : (kbFsSubsystemBioDrain env callback fuel scan.1).2.lastDrainStatus=0 := by
    by_contra hne
    refine flushWait_error env callback fuel ?_ h0
    split
    · exact hne
    · next h1 => exact fun h2 => h1 ⟨hne,h2⟩
  have hstored : Stored d h.offset h.data h.blockSize
      ({ scan.1 with lastDrainStatus := 0 } : FsState δ)
      (kbFsSubsystemBioDrain env callback fuel scan.1).2 :=
    drainLoop_stores (hscan.flight.status 0) (hscan.length.trans hlen) rfl hdrain hb
      (hw.moved ⟨_,rfl⟩ rfl ⟨rfl,rfl,rfl,rfl,rfl,rfl,rfl⟩)
  obtain ⟨hidle',_,_,_⟩ := hscan.flight.drain env callback (hscan.length.trans hlen)
  have hend : Idle base ({ (kbFsSubsystemBioDrain env callback fuel scan.1).2 with
      autoDrain := s.autoDrain } : FsState δ) :=
    InFlight.same hidle' (fun _ _ => rfl) le_rfl rfl rfl
  rw [(flushWait_idle env callback hend _).1]
  have hstart : Remembers s ({ scan.1 with lastDrainStatus := 0 } : FsState δ) :=
    trans _ _ _ (silent hsame.trace) (trans _ _ _ hbefore (silent rfl))
  exact (Stored.before hstart hstored).after (silent rfl)

end

/-- If lookups fit, a flush that returns 0 writes every waiting buffer still dirty that fits in a
bio. -/
theorem flush_means_written (hfuel : bufferCacheMax≤fuel) (hb : Boot env s) (calls : List UserCall)
    (hm : Meets (User.step env callback fuel) User.Fits ⟨s,[]⟩ calls) :
    let u := (runAll (User.step env callback fuel) ⟨s,[]⟩ calls).fs
    (flushDirtyBuffers env callback fuel u).1=0 → ∀ head,pending u.trace head=true →
      Flushable env u head → ∃ d,blockDeviceForBdev u (u.heads head).bdev=some d ∧
        Stored d (u.heads head).offset (u.heads head).data (u.heads head).blockSize u
          (flushDirtyBuffers env callback fuel u).2 := by
  intro u h0 head hpend hf
  have hu : UserOk env (runAll (User.step env callback fuel) ⟨s,[]⟩ calls) :=
    runAll_invariant (fun v c hv hc => (hv.step env callback hfuel hc).1) hb.ok hm
  obtain ⟨i,hi,rfl,hrec⟩ := hu.cache.known head hpend
  obtain ⟨d,hd⟩ := Option.isSome_iff_exists.mp hf.device
  exact ⟨d,hd,flushDirty_stores env callback fuel hu.cache hfuel ⟨hi,hrec,hf,hd⟩ hu.prompt
    (UserOk.idle env hu) rfl h0⟩

end

def markOne : List UserCall := [.getblk ⟨1,3,512⟩,.mark 0]

theorem flush_means_written_once :
    let u := (runAll (User.step sampleEnv still 512) ⟨bootState sampleDevice,[]⟩ markOne).fs
    (flushDirtyBuffers sampleEnv still 512 u).1=0 ∧
      ∃ d,blockDeviceForBdev u (u.heads 1).bdev=some d ∧
        Stored d (u.heads 1).offset (u.heads 1).data (u.heads 1).blockSize u
          (flushDirtyBuffers sampleEnv still 512 u).2 :=
  ⟨by decide +kernel,flush_means_written sampleEnv still 512 le_rfl (bootState_boot)
    markOne (by decide +kernel) (by decide +kernel) 1 (by decide +kernel)
    ⟨by decide +kernel,by decide +kernel,by decide +kernel,by decide +kernel,by decide +kernel,
      by decide +kernel,fun _ _ => rfl⟩⟩

/-- Behind a write of the block that failed, a flush returns 0 and asks the disk for nothing. -/
theorem flush_skips_failed_write :
    let u := (runAll (User.step brokenEnv still 512) ⟨bootState sampleDevice,[]⟩
      (markOne++[.write 0 0])).fs
    (flushDirtyBuffers brokenEnv still 512 u).1=0 ∧ pending u.trace 1=true ∧
      ∀ d,¬Stored d (u.heads 1).offset (u.heads 1).data (u.heads 1).blockSize u
        (flushDirtyBuffers brokenEnv still 512 u).2 := by
  intro u
  refine ⟨by decide +kernel,by decide +kernel,?_⟩
  rintro d ⟨es,hes,e,he,_⟩
  have hlen : (flushDirtyBuffers brokenEnv still 512 u).2.trace.length=u.trace.length := by
    decide +kernel
  rw [hes,length_append] at hlen
  have := length_pos_of_mem he
  omega

end Kobox.Fs
