import Kobox.Fs.BatchIo
import Kobox.Fs.Steady

namespace Kobox.Fs

open List Prog

variable {δ : Type} {env : Env δ} {callback : Call → FsState δ → FsState δ} {s t : FsState δ}
  {d : BlockDevice}

/-- The bios one at a time, as the drain loop does it with a single one. -/
def oneByOne (env : Env δ) (callback : Call → FsState δ → FsState δ) :
    List Nat → FsState δ → FsState δ
  | [],s => s
  | bio::rest,s => oneByOne env callback rest (drainBatch callback 1 (bioSubmitNow env bio) s)

theorem oneByOne_append (as bs : List Nat) (s : FsState δ) :
    oneByOne env callback (as++bs) s=oneByOne env callback bs (oneByOne env callback as s) := by
  induction as generalizing s with
  | nil => rfl
  | cons a as ih => exact ih _

variable {bio : Nat}

theorem bioSubmitNow_vectors (hd : blockDeviceForBdev s (s.bios bio).bio.bdev=some d)
    (hop : (s.bios bio).bio.op≠opFlush) (hpre : (s.bios bio).bio.needsPreflush=false)
    (hvs : (s.bios bio).bio.vectors≠[]) (hsize : (s.bios bio).bio.size≠0)
    (hsector : (s.bios bio).bio.sector*512 < wordSize) :
    bioSubmitNow env bio s=settle bio (transferBio env d (s.bios bio).bio)
      (s.note (.bio d (s.bios bio).bio)) := by
  rw [bioSubmitNow,bind_ok (get_run)]
  simp only [hd]
  rw [bind_ok (modify_run _ _),submitOn,if_neg hop]
  rw [if_neg (by simp [hpre]),submitVectors,if_neg (by simp [hvs,hsize]),if_neg (by omega)]

variable {x : Prog (FsState δ) Int Unit}

theorem settle_ok (h : x s=(.ok (),t)) : settle bio x s=(.ok (),setStatus bio 0 t) := by
  simp [settle,h]

theorem readRequest_some {r : IoRequest} (h : bioPrepareReadRequest env s bio=some (d,r)) :
    (s.bios bio).bio.op=opRead ∧ (s.bios bio).bio.size≠0 ∧
    blockDeviceForBdev s (s.bios bio).bio.bdev=some d ∧ (s.bios bio).bio.sector*512 < wordSize ∧
    ∃ v,(s.bios bio).bio.vectors=[v] ∧ r=⟨(s.bios bio).bio.sector*512,v.buffer env s,v.length⟩ := by
  simp only [bioPrepareReadRequest] at h
  split at h
  · cases h
  next hc =>
  simp only [not_or,not_not] at hc
  split at h
  · next v e hv he =>
    split at h
    · cases h
    · cases h
      exact ⟨hc.1,hc.2,he,by omega,v,hv,rfl⟩
  · cases h

variable {b : Bio}

theorem transferVectors_single {offset : Nat} {v : BioVec} {done : Bool}
    (h : transferVector env d b offset v s=(.ok done,t)) (hend : offset+v.length<wordSize) :
    transferVectors env d b offset false [v] s=(.ok done,t) := by
  rw [transferVectors,bind_ok h,if_neg (by omega)]
  rfl

theorem not_flush (h : b.op=opRead ∨ b.op=opWrite) : b.op≠opFlush := by
  rcases h with h|h <;> rw [h] <;> decide

theorem submit_read {r : IoRequest} (hp : bioPrepareReadRequest env s bio=some (d,r))
    (hr : Sound d r) (hs : ServesRead env d r) :
    (bioSubmitNow env bio s).1=.ok () ∧
    (bioSubmitNow env bio s).2.core=(setStatus bio 0 (s.io (readEffect env s d (s.disks,s.mem) r).1
        (readEffect env s d (s.disks,s.mem) r).2)).core := by
  obtain ⟨hop,hsize,hd,hsector,v,hv,rfl⟩ := readRequest_some hp
  have hpre : (s.bios bio).bio.needsPreflush=false := by simp [Bio.needsPreflush,hop,opRead,opWrite]
  rw [bioSubmitNow_vectors hd (not_flush (.inl hop)) hpre (by simp [hv]) hsize hsector]
  obtain ⟨u,hu⟩ : ∃ u,s.note (.bio d (s.bios bio).bio)=u := ⟨_,rfl⟩
  have hbuf : v.buffer env u=v.buffer env s := by rw [← hu]; rfl
  obtain ⟨hok,hcore⟩ := read_sound hr hs u
  rcases hread : kbFsBlockDeviceRead env d ((s.bios bio).bio.sector*512) (v.buffer env s) v.length u
    with ⟨q,w⟩
  rw [hread] at hok hcore
  obtain rfl : q=.ok () := hok
  have hrun : transferBio env d (s.bios bio).bio u=(.ok (),w) := by
    have hvector : transferVector env d (s.bios bio).bio ((s.bios bio).bio.sector*512) v u=
        (.ok false,w) := by
      rw [transferVector,if_pos hop,bind_ok (get_run),hbuf,bind_ok hread]
      rfl
    rw [transferBio,if_neg (by simp [hv]),if_neg (by simp [hv]),hv]
    rw [bind_ok (transferVectors_single hvector hr.end_lt),
      if_neg (by simp [Bio.needsFua,hop,opRead,opWrite])]
    rfl
  rw [hu,settle_ok hrun]
  refine ⟨rfl,(setStatus_sees).congr ?_⟩
  rw [hcore,← hu]
  have hpatch : readPatch (s.note (.bio d (s.bios bio).bio)) d
      ⟨(s.bios bio).bio.sector*512,v.buffer env s,v.length⟩=
      readPatch s d ⟨(s.bios bio).bio.sector*512,v.buffer env s,v.length⟩ :=
    readPatch_congr rfl rfl rfl
  rw [hpatch]
  rfl

theorem vectorRequests_note {e : Event} {offset : Nat} {vs : List BioVec} :
    vectorRequests env (s.note e) offset vs=vectorRequests env s offset vs := by
  rw [← vectorRequests_core,core_note,vectorRequests_core]

theorem transferBio_write {g : List IoRequest} {stop : Nat} (hop : b.op=opWrite)
    (hfua : b.hasFua=false) (hvs : b.vectors≠[]) (hmax : b.vectors.length≤batchMax)
    (hreq : vectorRequests env s (b.sector*512) b.vectors=.ok (g,stop)) :
    transferBio env d b s=kbFsBlockDeviceWriteBatch env d g s := by
  have hneed : ¬b.needsFua=true := by simp [Bio.needsFua,hfua]
  have hread : ¬b.op=opRead := by
    rw [hop]
    decide
  rw [transferBio,if_neg fun h => hread h.1]
  by_cases h2 : 2≤b.vectors.length
  · rw [if_pos ⟨hop,h2⟩,if_neg hneed]
    obtain ⟨n,hn⟩ : ∃ n,b.vectors.length=n+2 := ⟨b.vectors.length-2,by omega⟩
    have hbatches : transferBatches env (kbFsBlockDeviceWriteBatch env d) b.vectors.length
        (b.sector*512) b.vectors s=kbFsBlockDeviceWriteBatch env d g s := by
      obtain ⟨v,vs,hcons⟩ := exists_cons_of_ne_nil hvs
      rw [hn,hcons,transferBatches,← hcons,bind_ok (get_run),
        take_of_length_le hmax,hreq,bind_ok (ofExcept_run),
        drop_eq_nil_of_le hmax]
      · rcases hw : kbFsBlockDeviceWriteBatch env d g s with ⟨q,w⟩
        cases q with
        | error e => exact bind_error hw
        | ok a =>
          rw [bind_ok hw]
          rfl
      · exact cons_ne_nil v vs
    rcases hw : kbFsBlockDeviceWriteBatch env d g s with ⟨q,w⟩
    rw [hw] at hbatches
    cases q with
    | error e => exact bind_error hbatches
    | ok a =>
      rw [bind_ok hbatches]
      rfl
  · rw [if_neg fun h => h2 h.2]
    obtain ⟨v,hv⟩ : ∃ v,b.vectors=[v] := by
      apply length_eq_one_iff.mp
      have hpos := length_pos_iff.mpr hvs
      omega
    rw [hv] at hreq ⊢
    obtain ⟨hend,rfl⟩ := vectorRequests_one hreq
    rcases hw : kbFsBlockDeviceWrite env d (b.sector*512) (v.buffer env s) v.length s with ⟨q,w⟩
    have hone : kbFsBlockDeviceWriteBatch env d [⟨b.sector*512,v.buffer env s,v.length⟩] s=(q,w) := hw
    rw [hone]
    have hvector : transferVector env d b (b.sector*512) v=(do
        let s ← Prog.get
        kbFsBlockDeviceWrite env d (b.sector*512) (v.buffer env s) v.length
        return false) := by
      rw [transferVector,if_neg hread,if_pos hop,if_neg fun h => hneed h.1]
    cases q with
    | error e =>
      have hfail : transferVectors env d b (b.sector*512) false [v] s=(.error e,w) := by
        apply bind_error
        rw [hvector,bind_ok (get_run)]
        exact bind_error hw
      exact bind_error hfail
    | ok a =>
      have hdone : transferVector env d b (b.sector*512) v s=(.ok false,w) := by
        rw [hvector,bind_ok (get_run),bind_ok hw]
        rfl
      rw [bind_ok (transferVectors_single hdone hend),if_neg fun h => hneed h.1]
      rfl

theorem submit_write {capacity : Nat} {g : List IoRequest}
    (hp : bioAppendWriteRequests env s bio capacity=some (d,g)) (hcap : capacity≤batchMax) :
    (bioSubmitNow env bio s).1=(kbFsBlockDeviceWriteBatch env d g s).1 ∧
    ∃ status,(bioSubmitNow env bio s).2.core=
      (setStatus bio status (kbFsBlockDeviceWriteBatch env d g s).2).core := by
  obtain ⟨⟨hop,hpre,hfua,hvs,hsize,hlen⟩,hd,hsector,stop,hreq⟩ := writeRequests_some hp
  have hneed : (s.bios bio).bio.needsPreflush=false := by simp [Bio.needsPreflush,hpre]
  rw [bioSubmitNow_vectors hd (not_flush (.inr hop)) hneed hvs hsize hsector]
  rw [← vectorRequests_note] at hreq
  have hrun := transferBio_write (d := d) hop hfua hvs (hlen.trans hcap) hreq
  obtain ⟨hres,hcore⟩ := (deviceWriteBatch_rule (sees_rules) d g).congr
    (core_note s)
  rw [← hrun] at hres hcore
  rw [← hres]
  simp only [settle]
  rcases hx : transferBio env d (s.bios bio).bio (s.note (.bio d (s.bios bio).bio)) with ⟨q,w⟩
  rw [hx] at hcore
  cases q with
  | error e => exact ⟨rfl,1,(setStatus_sees).congr hcore⟩
  | ok a => exact ⟨rfl,0,(setStatus_sees).congr hcore⟩

theorem bioQueuePop_hidden {s : FsState δ} : (bioQueuePop s).core=s.core := by
  cases hq : s.queue with
  | nil => simp [bioQueuePop,hq]
  | cons bio rest =>
    simp only [bioQueuePop,hq]
    exact core_unqueued s

theorem bioQueuePop_queue {s : FsState δ} : (bioQueuePop s).queue=s.queue.drop 1 := by
  cases hq : s.queue <;> simp [bioQueuePop,hq]

theorem bioQueuePops_hidden {n : Nat} (s : FsState δ) : (bioQueuePops n s).core=s.core := by
  induction n generalizing s with
  | zero => rfl
  | succ n ih => exact (ih (bioQueuePop s)).trans (bioQueuePop_hidden)

theorem bioQueuePops_queue {n : Nat} (s : FsState δ) : (bioQueuePops n s).queue=s.queue.drop n := by
  induction n generalizing s with
  | zero => rfl
  | succ n ih =>
    have h := ih (bioQueuePop s)
    rw [bioQueuePop_queue,drop_drop,Nat.add_comm] at h
    exact h

theorem bioFinishRecords_tidy (hq : Quiet callback) (bios : List Nat) (status : Int) :
    Tidy (bioFinishRecords callback bios status) := by
  induction bios with
  | nil => exact Tidy.of_hidden fun _ => rfl
  | cons bio bios ih => exact ih.comp (bioFinishRecord_tidy hq.tidy bio status)

theorem bioFinishRecords_steady (hq : Quiet callback) {bios : List Nat} {status : Int}
    (s : FsState δ) : Steady s (bioFinishRecords callback bios status s) := by
  induction bios generalizing s with
  | nil => exact Steady.refl s
  | cons bio bios ih => exact (bioFinishRecord_steady hq).trans (ih _)

variable {bios : List Nat}

section

variable (hq : Quiet callback)

include hq

theorem bioFinishRecords_queue {status : Int} {s : FsState δ} (h : ∀ bio∈bios,bio∉s.queue) :
    (bioFinishRecords callback bios status s).queue=s.queue := by
  induction bios generalizing s with
  | nil => rfl
  | cons bio bios ih =>
    have hfirst := bioFinishRecord_queue hq status (h bio mem_cons_self)
    have hrest := ih (s := bioFinishRecord callback bio status s) (by
      rw [hfirst]
      exact fun b hb => h b (mem_cons_of_mem _ hb))
    exact hrest.trans hfirst

theorem drainBatch_core (hx : SeesProg x) (n : Nat) (s : FsState δ) :
    (drainBatch callback n x s).core=
      (bioFinishRecords callback (s.queue.take n) (resultOf (x s).1) (x s).2).core := by
  obtain ⟨hres,hcore⟩ := hx.congr (bioQueuePops_hidden s)
  unfold drainBatch
  dsimp only
  rw [hres]
  apply (bioFinishRecords_tidy hq _ _).sees.congr
  exact hcore

theorem drainBatch_steady (hx : Moves Transferred x) (n : Nat) (s : FsState δ) :
    Steady s (drainBatch callback n x s) := by
  have hpops : Steady s (bioQueuePops n s) := .of_core (bioQueuePops_hidden s)
  have hxs : Steady s (x (bioQueuePops n s)).2 := hpops.trans (.of_transferred (hx _))
  refine hxs.trans (Steady.trans (Steady.of_core ?_) (bioFinishRecords_steady hq _))
  rfl

theorem drainBatch_queue (hx : Moves Transferred x) {n : Nat} {s : FsState δ} (hn : s.queue.Nodup) :
    (drainBatch callback n x s).queue=s.queue.drop n := by
  have hmoved : (x (bioQueuePops n s)).2.queue=s.queue.drop n := by
    rw [(hx (bioQueuePops n s)).rest]
    exact bioQueuePops_queue s
  unfold drainBatch
  rw [bioFinishRecords_queue hq]
  · exact hmoved
  intro bio hbio
  rw [show ({ (x (bioQueuePops n s)).2 with lastDrainStatus := _ } : FsState δ).queue=
    s.queue.drop n from hmoved]
  rw [← take_append_drop n s.queue] at hn
  exact (disjoint_of_nodup_append hn) hbio

end

theorem bioFinishRecord_setStatus (bio k : Nat) (status : Int) (s : FsState δ) :
    bioFinishRecord callback bio status (setStatus bio k s)=
      bioFinishRecord callback bio status s := by
  simp [bioFinishRecord,setStatus,FsState.onBio]

variable {rest : List Nat}

theorem take_one {queue : List Nat} (h : queue=bio::rest) : queue.take 1=[bio] := by
  rw [h]
  rfl

theorem single_effect (hq : Quiet callback) {p : (Nat → δ) × Bytes} {status : Nat}
    (hqueue : s.queue=bio::rest) (hok : (bioSubmitNow env bio s).1=.ok ())
    (hcore : (bioSubmitNow env bio s).2.core=(setStatus bio status (s.io p.1 p.2)).core) :
    (drainBatch callback 1 (bioSubmitNow env bio) s).core=
      ((bioFinishRecord callback bio 0 s).io p.1 p.2).core := by
  have htidy := bioFinishRecord_tidy hq.tidy bio 0
  rw [drainBatch_core hq (bioSubmitNow_sees),take_one hqueue,hok]
  calc (bioFinishRecord callback bio 0 (bioSubmitNow env bio s).2).core
      =(bioFinishRecord callback bio 0 (setStatus bio status (s.io p.1 p.2))).core :=
        htidy.sees.congr hcore
    _=(bioFinishRecord callback bio 0 (s.io p.1 p.2)).core := by rw [bioFinishRecord_setStatus]
    _=((bioFinishRecord callback bio 0 s).io p.1 p.2).core := htidy.io s p.1 p.2

theorem oneByOne_effects (env : Env δ) (hq : Quiet callback) {α : Type} {R : FsState δ → Prop}
    {rel : Nat → α → Prop} {e : (Nat → δ) × Bytes → α → (Nat → δ) × Bytes}
    (hcore : ∀ t u,u.core=t.core → R t → R u) (hio : ∀ t disks mem,R t → R (t.io disks mem))
    (hfinish : ∀ bio a t,rel bio a → R t → R (bioFinishRecord callback bio 0 t))
    (hsubmit : ∀ bio a t,rel bio a → R t → (bioSubmitNow env bio t).1=.ok () ∧
      ∃ status,(bioSubmitNow env bio t).2.core=
      (setStatus bio status (t.io (e (t.disks,t.mem) a).1 (e (t.disks,t.mem) a).2)).core)
    {as : List α} (h : Forall₂ rel bios as) (ht : R t) (hqueue : t.queue=bios++rest)
    (hn : t.queue.Nodup) :
    (oneByOne env callback bios t).core=
      ((bioFinishRecords callback bios 0 t).io (as.foldl e (t.disks,t.mem)).1
        (as.foldl e (t.disks,t.mem)).2).core ∧
    (oneByOne env callback bios t).queue=rest := by
  induction h generalizing t with
  | nil => exact ⟨rfl,hqueue⟩
  | @cons bio a bios as hrel _ ih =>
    obtain ⟨hok,status,hsub⟩ := hsubmit bio a t hrel ht
    obtain ⟨u,hu⟩ : ∃ u,drainBatch callback 1 (bioSubmitNow env bio) t=u := ⟨_,rfl⟩
    have hucore := single_effect hq hqueue hok hsub
    rw [hu] at hucore
    have huqueue : u.queue=bios++rest := by
      rw [← hu,drainBatch_queue hq (bioSubmitNow_transferred) hn,hqueue]
      rfl
    have huR : R u := hcore _ _ hucore (hio _ _ _ (hfinish bio a t hrel ht))
    have hun : u.queue.Nodup := by
      rw [huqueue]
      rw [hqueue] at hn
      exact (nodup_cons.mp hn).2
    obtain ⟨hcore',hqueue'⟩ := ih huR huqueue hun
    have hdisks : u.disks=(e (t.disks,t.mem) a).1 := core_field FsState.disks (fun _ => rfl) hucore
    have hmem : u.mem=(e (t.disks,t.mem) a).2 := core_field FsState.mem (fun _ => rfl) hucore
    refine ⟨?_,?_⟩
    · rw [oneByOne,hu,hcore',hdisks,hmem]
      have htidy := bioFinishRecords_tidy hq bios 0
      have hall := (htidy.sees.congr hucore).trans (htidy.io _ _ _)
      exact io_congr hall
    · rw [oneByOne,hu]
      exact hqueue'

theorem batch_effect (hq : Quiet callback) (hx : SeesProg x) {p : (Nat → δ) × Bytes}
    (hqueue : s.queue=bios++rest) (hok : (x s).1=.ok ()) (hcore : (x s).2.core=(s.io p.1 p.2).core) :
    (drainBatch callback bios.length x s).core=
      ((bioFinishRecords callback bios 0 s).io p.1 p.2).core := by
  have htidy := bioFinishRecords_tidy hq bios 0
  rw [drainBatch_core hq hx,hqueue,take_left,hok]
  exact (htidy.sees.congr hcore).trans (htidy.io s p.1 p.2)

theorem forall₂_and {α : Type} {R : Nat → α → Prop} {P : Nat → Prop} {Q : α → Prop} {as : List α}
    (h : Forall₂ R bios as) (hp : ∀ bio∈bios,P bio) (hq : ∀ a∈as,Q a) :
    Forall₂ (fun bio a => R bio a ∧ P bio ∧ Q a) bios as := by
  induction h with
  | nil => exact Forall₂.nil
  | cons hr _ ih =>
    refine Forall₂.cons ⟨hr,hp _ mem_cons_self,hq _ mem_cons_self⟩ (ih ?_ ?_)
    · exact fun bio hb => hp bio (mem_cons_of_mem _ hb)
    · exact fun a ha => hq a (mem_cons_of_mem _ ha)

end Kobox.Fs
