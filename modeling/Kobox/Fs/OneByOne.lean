import Kobox.Fs.Turns

namespace Kobox.Fs

open List CacheRecord Steady

section

variable {δ : Type} (env : Env δ) (callback : Call → FsState δ → FsState δ) (s : FsState δ)

/-- The disk serves the reads, aligned and inside the device, into buffers apart from one another
and from dirty blocks; no completion cleans a block. -/
structure ReadsFit (d : BlockDevice) (bios : List Nat) (rs : List IoRequest) : Prop where
  one : ∀ r∈rs,ServesRead env d r
  batch : ServesReads env d rs
  sound : ∀ r∈rs,Sound d r
  apart : rs.Pairwise fun a b => a.span.Apart b.span
  clear : s.bindingDevice=some d → ∀ r∈rs,∀ i<bufferCacheMax,(s.cache i).dirty=true →
    r.span.Apart (s.cache i).span
  ends : ∀ bio∈bios,Reads callback s bio

/-- Writes that do: no write changes, through the cache, the bytes of a later one. -/
structure WritesFit (d : BlockDevice) (rs : List IoRequest) : Prop where
  serves : ServesWrites env d rs
  sound : ∀ r∈rs,Sound d r
  clear : s.bindingDevice=some d → rs.Pairwise fun a b => ∀ i<bufferCacheMax,
    ∀ p,(s.cache i).patched a=some p → p.Apart b.span

/-- The batch that the loop would form of two bios or more at the head of this queue, if any. -/
structure TurnFits (queue : List Nat) : Prop where
  reads : ∀ d,(readRun env s batchMax none queue).1=some d →
    2≤(readRun env s batchMax none queue).2.length →
    ReadsFit env callback s d (queue.take (readRun env s batchMax none queue).2.length)
      (readRun env s batchMax none queue).2
  writes : ∀ d,(writeRun env s batchMax none queue).1=some d →
    2≤(writeRun env s batchMax none queue).2.1 →
    WritesFit env s d (writeRun env s batchMax none queue).2.2

/-- How many bios the turn at the head of this queue completes. -/
def turnSize (queue : List Nat) : Nat :=
  let reads := readRun env s batchMax none queue
  let writes := writeRun env s batchMax none queue
  if reads.1.isSome ∧ 2 ≤ reads.2.length then reads.2.length
  else if writes.1.isSome ∧ 2≤writes.2.2.length then writes.2.1 else 1

/-- Turn for turn the batch fits. -/
inductive TurnsFit : List Nat → Prop
  | done : TurnsFit []
  | turn {queue : List Nat} (head : TurnFits env callback s queue)
      (tail : TurnsFit (queue.drop (turnSize env s queue))) : TurnsFit queue

/-- A queue of different bios in which every batch of the drain fits. -/
structure Drainable : Prop where
  nodup : s.queue.Nodup
  fits : TurnsFit env callback s s.queue

end

section

variable {δ : Type} {env : Env δ} {callback : Call → FsState δ → FsState δ} {s t : FsState δ}
  {d : BlockDevice} {rs : List IoRequest}

theorem vectorRequests_pages (h : t.pages=s.pages) (offset : Nat) {vs : List BioVec} :
    vectorRequests env t offset vs=vectorRequests env s offset vs := by
  have hpayload : ∀ page,pagePayload env t page=pagePayload env s page := by
    intro page
    unfold pagePayload folioPagePayload
    rw [h]
  induction vs generalizing offset with
  | nil => rfl
  | cons v vs ih => simp [vectorRequests,BioVec.buffer,hpayload,ih]

section

variable (h : Steady s t)

include h

theorem Steady.device (bdev : Nat) : blockDeviceForBdev t bdev=blockDeviceForBdev s bdev := by
  simp [blockDeviceForBdev,h.bindingBdev,h.bindingDevice,h.mountDevice]

theorem Steady.prepare (bio : Nat) :
    bioPrepareReadRequest env t bio=bioPrepareReadRequest env s bio := by
  obtain ⟨status,hb⟩ := h.bios bio
  simp only [bioPrepareReadRequest,hb,h.device,BioVec.buffer,pagePayload,folioPagePayload,h.pages]
  rfl

theorem Steady.append (bio capacity : Nat) :
    bioAppendWriteRequests env t bio capacity=bioAppendWriteRequests env s bio capacity := by
  obtain ⟨status,hb⟩ := h.bios bio
  simp only [bioAppendWriteRequests,hb,h.device,vectorRequests_pages h.pages]
  rfl

theorem Steady.readRun (k : Nat) (device : Option BlockDevice) (queue : List Nat) :
    readRun env t k device queue=readRun env s k device queue := by
  induction k generalizing device queue with
  | zero => rfl
  | succ k ih =>
    cases queue with
    | nil => rfl
    | cons bio rest => simp [Fs.readRun,h.prepare,ih]

theorem Steady.writeRun (capacity : Nat) (device : Option BlockDevice) (queue : List Nat) :
    writeRun env t capacity device queue=writeRun env s capacity device queue := by
  induction queue generalizing capacity device with
  | nil => rfl
  | cons bio rest ih => simp [Fs.writeRun,h.append,ih]

theorem Steady.reads {bio : Nat} (hr : Reads callback s bio) : Reads callback t bio := by
  obtain ⟨status,hb⟩ := h.bios bio
  refine ⟨?_,hr.own,?_⟩ <;> simp only [hb,h.heads]
  · exact hr.head
  · exact hr.through

theorem Steady.readsFit {bios : List Nat} (hf : ReadsFit env callback s d bios rs) :
    ReadsFit env callback t d bios rs := by
  refine ⟨hf.one,hf.batch,hf.sound,hf.apart,?_,fun bio hb => h.reads (hf.ends bio hb)⟩
  intro hd r hr i hi hdirty
  obtain ⟨dirty,hc,hmono⟩ := h.cache i
  rw [hc] at hdirty ⊢
  rw [h.bindingDevice] at hd
  exact hf.clear hd r hr i hi (hmono hdirty)

theorem Steady.writesFit (hf : WritesFit env s d rs) : WritesFit env t d rs := by
  refine ⟨hf.serves,hf.sound,fun hd => ?_⟩
  rw [h.bindingDevice] at hd
  refine (hf.clear hd).imp ?_
  intro a b hab i hi p hp
  obtain ⟨dirty,hc,-⟩ := h.cache i
  rw [hc] at hp
  exact hab i hi p hp

theorem Steady.turnFits {queue : List Nat} (hf : TurnFits env callback s queue) :
    TurnFits env callback t queue := by
  refine ⟨?_,?_⟩
  · rw [h.readRun]
    exact fun d hd hlen => h.readsFit (hf.reads d hd hlen)
  · rw [h.writeRun]
    exact fun d hd hlen => h.writesFit (hf.writes d hd hlen)

theorem Steady.turnsFit {queue : List Nat} (hf : TurnsFit env callback s queue) :
    TurnsFit env callback t queue := by
  induction hf with
  | done => exact .done
  | turn head _ ih =>
    refine .turn (h.turnFits head) ?_
    unfold turnSize at ih ⊢
    rwa [h.readRun,h.writeRun]

end

theorem TurnsFit.cut {queue : List Nat} (h : TurnsFit env callback s queue) (hne : queue≠[]) :
    TurnFits env callback s queue ∧
      TurnsFit env callback s (queue.drop (turnSize env s queue)) := by
  cases h with
  | done => exact absurd rfl hne
  | turn head tail => exact ⟨head,tail⟩

theorem drainOnce_size (env : Env δ) (callback : Call → FsState δ → FsState δ) (s : FsState δ)
    (bio : Nat) : (drainOnce env callback bio s).1=turnSize env s s.queue := by
  unfold drainOnce turnSize
  generalize readRun env s batchMax none s.queue=reads
  generalize writeRun env s batchMax none s.queue=writes
  obtain ⟨_|d,rs⟩ := reads <;> obtain ⟨_|e,n,ws⟩ := writes <;> simp <;> split_ifs <;> rfl

theorem steady_io {s : FsState δ} {disks : Nat → δ} {mem : Bytes} : Steady s (s.io disks mem) :=
  ⟨rfl,rfl,rfl,rfl,fun _ => ⟨_,rfl⟩,fun _ => ⟨_,rfl,id⟩,fun _ => rfl⟩

section

variable (hq : Quiet callback)

include hq

theorem reads_turn (hn : s.queue.Nodup) {bios rest : List Nat} (hqueue : s.queue=bios++rest)
    (h2 : 2 ≤ rs.length) (hmax : rs.length≤batchMax)
    (hpairs : Forall₂ (fun bio r => bioPrepareReadRequest env s bio=some (d,r)) bios rs)
    (hf : ReadsFit env callback s d bios rs) :
    (drainBatch callback bios.length (kbFsBlockDeviceReadBatch env d rs) s).core=
      (oneByOne env callback bios s).core ∧
    (oneByOne env callback bios s).queue=rest := by
  have hsound : ∀ r∈rs,Sound d r ∧ ServesRead env d r := fun r hr => ⟨hf.sound r hr,hf.one r hr⟩
  -- the overlay of a read depends on the cache, which the completions of reads keep
  have hsingles := oneByOne_effects env hq (t := s)
    (R := fun t => Steady s t ∧ SameCache s t)
    (e := readEffect env s d)
    (fun t u hu ht => ⟨ht.1.trans (.of_core hu),ht.2.trans (.of_core hu)⟩)
    (fun t disks mem ht => ⟨ht.1.trans (steady_io),ht.2.cache,ht.2.dirtyCount⟩)
    (fun bio r t hrel ht => by
      exact ⟨ht.1.trans (bioFinishRecord_steady hq),
        ht.2.trans (bioFinishRecord_cache 0 (ht.1.reads hrel.2.1))⟩)
    (fun bio r t hrel ht => by
      have hpatch : readPatch t d r=readPatch s d r :=
        readPatch_congr ht.1.bindingDevice ht.2.cache ht.2.dirtyCount
      obtain ⟨hok,hcore⟩ := submit_read ((ht.1.prepare bio).trans hrel.1) hrel.2.2.1 hrel.2.2.2
      simp only [readEffect,hpatch] at hcore
      exact ⟨hok,0,hcore⟩)
    (forall₂_and hpairs hf.ends hsound) ⟨refl s,rfl,rfl⟩ hqueue hn
  refine ⟨?_,hsingles.2⟩
  obtain ⟨hok,hcore⟩ := readBatch_sound hf.sound hf.batch h2 hmax s
  rw [hsingles.1,reads_merge hf.apart hf.clear]
  exact batch_effect hq (deviceReadBatch_rule (sees_rules) d rs) hqueue hok hcore

theorem writes_turn (hn : s.queue.Nodup) {bios rest : List Nat} {gs : List (List IoRequest)}
    (hqueue : s.queue=bios++rest) (hne : gs.flatten≠[]) (hmax : gs.flatten.length≤batchMax)
    (hgroups : Forall₂ (fun bio g => ∃ k≤batchMax, bioAppendWriteRequests env s bio k=some (d,g)) bios gs)
    (hf : WritesFit env s d gs.flatten) :
    (drainBatch callback bios.length (kbFsBlockDeviceWriteBatch env d gs.flatten) s).core=
      (oneByOne env callback bios s).core ∧
    (oneByOne env callback bios s).queue=rest := by
  have hsound : ∀ g∈gs,(∀ r∈g,Sound d r) ∧ ServesWrites env d g := fun g hg =>
    ⟨fun r hr => hf.sound r (mem_flatten.mpr ⟨g,hg,hr⟩),hf.serves.sub (sublist_flatten_of_mem hg)⟩
  have hsingles := oneByOne_effects env hq (t := s) (R := Steady s) (e := writeEffect env s d)
    (fun t u hu ht => ht.trans (.of_core hu))
    (fun t disks mem ht => ht.trans (steady_io))
    (fun bio g t _ ht => ht.trans (bioFinishRecord_steady hq))
    (fun bio g t hrel ht => by
      obtain ⟨⟨k,hk,hp⟩,-,hg,hserves⟩ := hrel
      have hpatch : ∀ r,writePatch t d r=writePatch s d r := fun r =>
        writePatch_congr ht.bindingDevice fun i => (ht.cache i).imp fun _ h => h.1
      obtain ⟨⟨-,-,-,hvs,-,hlen⟩,-,-,stop,hreq⟩ := writeRequests_some hp
      have hcount := vectorRequests_length hreq
      have hgne : g≠[] := by
        rintro rfl
        exact hvs (length_eq_zero_iff.mp hcount.symm)
      obtain ⟨hres,status,hsub⟩ := submit_write ((ht.append bio k).trans hp) hk
      obtain ⟨hok,hcore⟩ := writeBatch_sound hg hserves hgne (by omega) t
      simp only [hpatch] at hcore
      exact ⟨hres.trans hok,status,hsub.trans ((setStatus_sees).congr hcore)⟩)
    (forall₂_and (P := fun _ => True) hgroups (fun _ _ => trivial) hsound) (refl s) hqueue hn
  refine ⟨?_,hsingles.2⟩
  obtain ⟨hok,hcore⟩ := writeBatch_sound hf.sound hf.serves hne hmax s
  rw [hsingles.1,writes_merge hf.clear]
  exact batch_effect hq (deviceWriteBatch_rule (sees_rules) d gs.flatten) hqueue hok hcore

theorem write_turn {bio capacity : Nat} {rest : List Nat} {g : List IoRequest}
    (hqueue : s.queue=bio::rest) (hp : bioAppendWriteRequests env s bio capacity=some (d,g))
    (hcap : capacity≤batchMax) :
    (drainBatch callback 1 (kbFsBlockDeviceWriteBatch env d g) s).core=
      (drainBatch callback 1 (bioSubmitNow env bio) s).core := by
  obtain ⟨hres,status,hcore⟩ := submit_write hp hcap
  have htidy := bioFinishRecord_tidy hq.tidy bio (resultOf (kbFsBlockDeviceWriteBatch env d g s).1)
  rw [drainBatch_core hq (deviceWriteBatch_rule (sees_rules) d g),
    drainBatch_core hq (bioSubmitNow_sees),take_one hqueue,hres]
  have hsame := htidy.sees.congr hcore
  rw [bioFinishRecord_setStatus] at hsame
  exact hsame.symm

theorem drainOnce_serial (hd : Drainable env callback s) {bio : Nat} {rest : List Nat}
    (hqueue : s.queue=bio::rest) :
    (drainOnce env callback bio s).2.core=
      (oneByOne env callback (s.queue.take (drainOnce env callback bio s).1) s).core ∧
    (oneByOne env callback (s.queue.take (drainOnce env callback bio s).1) s).queue=
      s.queue.drop (drainOnce env callback bio s).1 := by
  have hfits := (hd.fits.cut (by simp [hqueue])).1
  have hsplit := fun n => (take_append_drop n s.queue).symm
  rcases drainOnce_cases env s bio with ⟨d,hdev,hlen,h⟩|⟨d,hdev,hlen,h⟩|h
  · rw [h callback]
    obtain ⟨hmax,hpairs⟩ := readRun_pairs none s.queue hdev
    have hturn := reads_turn hq hd.nodup (hsplit _) hlen hmax hpairs (hfits.reads d hdev hlen)
    rw [hpairs.length_eq] at hturn
    exact hturn
  · rw [h callback]
    obtain ⟨hmax,gs,hgs,hcount,hgroups⟩ := writeRun_groups batchMax none hdev
    have hne : gs.flatten≠[] := by
      rw [← hgs]
      exact ne_nil_of_length_pos (by omega)
    by_cases h2 : 2≤(writeRun env s batchMax none s.queue).2.1
    · have hfit := hfits.writes d hdev h2
      rw [hgs] at hfit hmax
      have hturn := writes_turn hq hd.nodup (hsplit _) hne hmax hgroups hfit
      rw [hgroups.length_eq,← hcount,← hgs] at hturn
      exact hturn
    · have hgne : gs≠[] := by
        rintro rfl
        exact hne rfl
      have hpos := length_pos_iff.mpr hgne
      have hone : (writeRun env s batchMax none s.queue).2.1=1 := by omega
      rw [hone,take_one hqueue] at hgroups
      obtain ⟨g,hg⟩ := length_eq_one_iff.mp (hcount.symm.trans hone)
      rw [hg] at hgroups hgs
      rw [flatten_singleton] at hgs
      cases hgroups with
      | cons hp _ =>
        obtain ⟨k,hk,hp⟩ := hp
        rw [hone,hgs]
        rw [take_one hqueue]
        exact ⟨write_turn hq hqueue hp hk,
          drainBatch_queue hq (bioSubmitNow_transferred) hd.nodup⟩
  · rw [h callback]
    rw [take_one hqueue]
    exact ⟨rfl,drainBatch_queue hq (bioSubmitNow_transferred) hd.nodup⟩

omit hq in
theorem oneByOne_congr (env : Env δ) (hq : Quiet callback) (bios rest : List Nat) (hcore : t.core=s.core)
    (ht : t.queue=bios++rest) (hs : s.queue=bios++rest) (hn : s.queue.Nodup) :
    (oneByOne env callback bios t).core=(oneByOne env callback bios s).core ∧
    (oneByOne env callback bios s).queue=rest := by
  induction bios generalizing s t with
  | nil => exact ⟨hcore,hs⟩
  | cons bio bios ih =>
    have hqueue : ∀ u : FsState δ,u.queue=bio::(bios++rest) → u.queue.Nodup →
        (drainBatch callback 1 (bioSubmitNow env bio) u).queue=bios++rest := by
      intro u hu hnu
      rw [drainBatch_queue hq (bioSubmitNow_transferred) hnu,hu]
      rfl
    have hnt : t.queue.Nodup := by
      rw [ht,← hs]
      exact hn
    apply ih
    · rw [drainBatch_core hq (bioSubmitNow_sees),drainBatch_core hq (bioSubmitNow_sees)]
      obtain ⟨hres,hsub⟩ := (bioSubmitNow_sees : SeesProg (bioSubmitNow env bio)).congr hcore
      rw [ht,hs,hres]
      exact (bioFinishRecords_tidy hq _ _).sees.congr hsub
    · exact hqueue t ht hnt
    · exact hqueue s hs hn
    · rw [hqueue s hs hn]
      rw [hs] at hn
      exact (nodup_cons.mp hn).2

omit hq in
theorem Drainable.after (hd : Drainable env callback s) (hsteady : Steady s t) {n : Nat}
    (hqueue : t.queue=s.queue.drop n) (hfits : TurnsFit env callback s (s.queue.drop n)) :
    Drainable env callback t := by
  refine ⟨?_,hqueue ▸ hsteady.turnsFit hfits⟩
  rw [hqueue]
  exact hd.nodup.sublist (drop_sublist n _)

theorem drainLoop_serial (hd : Drainable env callback s) {fuel : Nat} (hfuel : s.queue.length≤fuel) :
    (drainLoop env callback fuel s).2.core=(oneByOne env callback s.queue s).core ∧
    (drainLoop env callback fuel s).2.queue=[] := by
  induction fuel generalizing s with
  | zero =>
    have hnil : s.queue=[] := length_eq_zero_iff.mp (by omega)
    simp only [drainLoop,hnil,if_true,and_true]
    rfl
  | succ fuel ih =>
    cases hqueue : s.queue with
    | nil =>
      simp only [drainLoop,hqueue,and_true]
      rfl
    | cons bio rest =>
      obtain ⟨n,x,hturn⟩ := drainOnce_spec env hqueue
      obtain ⟨hcore,hserial⟩ := drainOnce_serial hq hd hqueue
      have hmoves := (hturn.first hqueue).transferred
      have hsome := hturn.some
      rw [hturn.turn callback] at hcore hserial
      have hleft : (drainBatch callback n x s).queue=s.queue.drop n :=
        drainBatch_queue hq hmoves hd.nodup
      have hsteady : Steady s (drainBatch callback n x s) := drainBatch_steady hq hmoves n s
      have hshort : (drainBatch callback n x s).queue.length≤fuel := by
        rw [hleft,length_drop]
        omega
      have hfits : TurnsFit env callback s (s.queue.drop n) := by
        have hsize := drainOnce_size env callback s bio
        rw [hturn.turn callback] at hsize
        have hcut := (hd.fits.cut (by simp [hqueue])).2
        rwa [← hsize] at hcut
      obtain ⟨hrest,hempty⟩ := ih (hd.after hsteady hleft hfits) hshort
      simp only [drainLoop,hqueue,hturn.turn callback]
      refine ⟨?_,hempty⟩
      rw [hrest,hleft]
      have hnodup : (oneByOne env callback (s.queue.take n) s).queue.Nodup := by
        rw [hserial]
        exact hd.nodup.sublist (drop_sublist n _)
      have hsame := oneByOne_congr env hq _ [] hcore
        (hleft.trans (append_nil _).symm) (hserial.trans (append_nil _).symm) hnodup
      rw [hsame.1,← oneByOne_append,take_append_drop,hqueue]

/-- With quiet callbacks and batches that fit, the drain empties the queue and leaves what
`bio_submit_now` on one bio after the other does. -/
theorem drain_serializable (hd : Drainable env callback s) {fuel : Nat} (hfuel : s.queue.length≤fuel) :
    (kbFsSubsystemBioDrain env callback fuel s).2.queue=[] ∧
    (kbFsSubsystemBioDrain env callback fuel s).2.disks=(oneByOne env callback s.queue s).disks ∧
    (kbFsSubsystemBioDrain env callback fuel s).2.mem=(oneByOne env callback s.queue s).mem ∧
    ∀ bio,((kbFsSubsystemBioDrain env callback fuel s).2.bios bio).result=
        ((oneByOne env callback s.queue s).bios bio).result ∧
      ((kbFsSubsystemBioDrain env callback fuel s).2.bios bio).bio.status=
        ((oneByOne env callback s.queue s).bios bio).bio.status := by
  obtain ⟨u,hu⟩ : ∃ u : FsState δ,{ s with lastDrainStatus := 0 }=u := ⟨_,rfl⟩
  have hcore : u.core=s.core := by
    rw [← hu]
    rfl
  have hqueue : u.queue=s.queue := by rw [← hu]
  obtain ⟨hloop,hempty⟩ := drainLoop_serial hq (hd.after (n := 0) (.of_core hcore) hqueue hd.fits)
    (hqueue ▸ hfuel)
  have hstart := (oneByOne_congr env hq s.queue [] hcore
    (by rw [hqueue,append_nil]) (by rw [append_nil]) hd.nodup).1
  rw [hqueue,hstart] at hloop
  unfold kbFsSubsystemBioDrain
  rw [hu]
  refine ⟨hempty,core_field FsState.disks (fun _ => rfl) hloop,
    core_field FsState.mem (fun _ => rfl) hloop,fun bio => ⟨?_,?_⟩⟩
  · exact core_field (fun v => (v.bios bio).result) (fun _ => rfl) hloop
  · exact core_field (fun v => (v.bios bio).bio.status) (fun _ => rfl) hloop

end

def putBio : Call → FsState δ → FsState δ
  | .bio _ bio,s => bioPut bio s
  | _,s => s

theorem putBio_quiet : Quiet (putBio : Call → FsState δ → FsState δ) where
  tidy call := by
    cases call with
    | bio c bio => exact bioPut_tidy
    | head c head success => exact Tidy.of_hidden fun _ => rfl
    | deferred => exact Tidy.of_hidden fun _ => rfl
  steady call s := by
    cases call with
    | bio c bio => exact bioPut_steady
    | head c head success => exact refl s
    | deferred => exact refl s
  queue call s h := by
    cases call with
    | bio c bio => exact bioPut_queue (h c bio rfl)
    | head c head success => rfl
    | deferred => rfl

end

def sampleBio (op sector page : Nat) : BioRecord :=
  ⟨⟨1,op,sector,512,0,[⟨page,512,0⟩],1,.module 0,0⟩,true,einprogress,1,true,false⟩

def mixedQueue : FsState Bytes :=
  { bootState sampleDevice with
    mem := fun a => UInt8.ofNat (a/1000)
    bios := fun bio => [sampleBio opRead 0 0,sampleBio opRead 0 1000,sampleBio opRead 1 2000,
      sampleBio opWrite 2 3000,sampleBio opWrite 2 4000,sampleBio opFlush 0 0].getD bio
        (sampleBio opRead 0 0)
    queue := [1,2,3,4,5]
    queueDepth := 5 }

theorem serialReads_sample (disk : Bytes) (parts : List (Nat × Nat)) :
    serialReads sampleEnv disk parts=(parts.map fun p => disk.slice (p.1*512) p.2,disk) := by
  induction parts with
  | nil => rfl
  | cons p parts ih =>
    rw [serialReads,show (sampleEnv.reply disk (.read p.1 p.2)).2=disk from rfl,ih]
    rfl

theorem sampleEnv_reads {d : BlockDevice} {rs : List IoRequest} : ServesReads sampleEnv d rs := by
  intro disk parts _
  rw [serialReads_sample]
  exact ⟨rfl,fun _ => rfl,rfl⟩

theorem sampleEnv_writes {d : BlockDevice} {rs : List IoRequest} : ServesWrites sampleEnv d rs :=
  ⟨fun _ _ _ _ _ => rfl,fun _ _ _ => ⟨rfl,rfl⟩⟩

theorem turnFits_short {δ : Type} {env : Env δ} {callback : Call → FsState δ → FsState δ}
    {s : FsState δ} {queue : List Nat} (h : (readRun env s batchMax none queue).2.length<2 ∧
      (writeRun env s batchMax none queue).2.1<2) : TurnFits env callback s queue :=
  ⟨fun _ _ _ => by omega,fun _ _ _ => by omega⟩

theorem mixedQueue_clean {i : Nat} : mixedQueue.cache i=CacheRecord.empty := rfl

theorem mixedQueue_reads : TurnFits sampleEnv putBio mixedQueue [1,2,3,4,5] := by
  have hrun : readRun sampleEnv mixedQueue batchMax none [1,2,3,4,5]=
      (some sampleDevice,[⟨0,1000,512⟩,⟨512,2000,512⟩]) := by decide +kernel
  have hwrites : (writeRun sampleEnv mixedQueue batchMax none [1,2,3,4,5]).2.1=0 := by
    decide +kernel
  refine ⟨fun d hd _ => ?_,fun d _ h => by omega⟩
  rw [hrun] at hd ⊢
  cases hd
  refine ⟨fun _ _ _ => rfl,sampleEnv_reads,by decide,by decide,?_,?_⟩
  · intro _ r _ i _ hdirty
    cases hdirty
  · intro bio hbio
    refine ⟨fun hend => ?_,fun _ _ => bioPut_cache,fun _ _ _ => ⟨rfl,rfl⟩⟩
    have hmem : bio=1 ∨ bio=2 := by simpa using hbio
    rcases hmem with rfl|rfl <;> cases hend

theorem mixedQueue_writes : TurnFits sampleEnv putBio mixedQueue [3,4,5] := by
  have hreads : (readRun sampleEnv mixedQueue batchMax none [3,4,5]).2.length=0 := by
    decide +kernel
  have hrun : writeRun sampleEnv mixedQueue batchMax none [3,4,5]=
      (some sampleDevice,2,[⟨1024,3000,512⟩,⟨1024,4000,512⟩]) := by decide +kernel
  refine ⟨fun d _ h => by omega,fun d hd _ => ?_⟩
  rw [hrun] at hd ⊢
  cases hd
  refine ⟨sampleEnv_writes,by decide,fun _ => ?_⟩
  simp [mixedQueue_clean,patched,overlap,empty]

theorem mixedQueue_drainable : Drainable sampleEnv putBio mixedQueue where
  nodup := by decide
  fits := by
    have hsizes : turnSize sampleEnv mixedQueue [1,2,3,4,5]=2 ∧
        turnSize sampleEnv mixedQueue [3,4,5]=2 ∧ turnSize sampleEnv mixedQueue [5]=1 := by
      decide +kernel
    have hlast : TurnsFit sampleEnv putBio mixedQueue [5] := by
      refine .turn (turnFits_short (by decide +kernel)) ?_
      rw [hsizes.2.2]
      exact .done
    have hwrites : TurnsFit sampleEnv putBio mixedQueue [3,4,5] := by
      refine .turn mixedQueue_writes ?_
      rwa [hsizes.2.1]
    show TurnsFit sampleEnv putBio mixedQueue [1,2,3,4,5]
    refine .turn mixedQueue_reads ?_
    rwa [hsizes.1]

theorem drain_serializable_mixedQueue :
    (kbFsSubsystemBioDrain sampleEnv putBio 5 mixedQueue).2.queue=[] ∧
    (kbFsSubsystemBioDrain sampleEnv putBio 5 mixedQueue).2.disks=
      (oneByOne sampleEnv putBio mixedQueue.queue mixedQueue).disks ∧
    (kbFsSubsystemBioDrain sampleEnv putBio 5 mixedQueue).2.mem=
      (oneByOne sampleEnv putBio mixedQueue.queue mixedQueue).mem ∧
    ∀ bio,((kbFsSubsystemBioDrain sampleEnv putBio 5 mixedQueue).2.bios bio).result=
        ((oneByOne sampleEnv putBio mixedQueue.queue mixedQueue).bios bio).result ∧
      ((kbFsSubsystemBioDrain sampleEnv putBio 5 mixedQueue).2.bios bio).bio.status=
        ((oneByOne sampleEnv putBio mixedQueue.queue mixedQueue).bios bio).bio.status :=
  drain_serializable putBio_quiet mixedQueue_drainable (by decide)

/-- Two reads in the queue, the second behind the end of the device. -/
def strayRead : FsState Bytes :=
  { bootState sampleDevice with
    bios := fun bio => [sampleBio opRead 0 0,sampleBio opRead 0 1000,sampleBio opRead 8 2000].getD bio
      (sampleBio opRead 0 0)
    queue := [1,2]
    queueDepth := 2 }

/-- One by one only the second fails, with ERANGE; drained together both fail with EINVAL. -/
theorem strayRead_fails_both : ((kbFsSubsystemBioDrain sampleEnv putBio 2 strayRead).2.queue=[] ∧
      ((kbFsSubsystemBioDrain sampleEnv putBio 2 strayRead).2.bios 1).result=einval ∧
      ((kbFsSubsystemBioDrain sampleEnv putBio 2 strayRead).2.bios 2).result=einval) ∧
    ((oneByOne sampleEnv putBio [1,2] strayRead).bios 1).result=0 ∧
    ((oneByOne sampleEnv putBio [1,2] strayRead).bios 2).result=erange := by
  decide +kernel

end Kobox.Fs
