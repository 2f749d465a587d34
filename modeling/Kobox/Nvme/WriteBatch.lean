import Kobox.Nvme.ReadOrder

namespace Kobox.Nvme

open List Or

variable {env : Env} {s t u : Io} {qs : List IoRequest}

/-- Writes that are done, whatever was in the bounce buffers. -/
structure WriteDone (qs : List IoRequest) (s t : Io) : Prop where
  medium : t.medium=writeAll s.mem qs s.medium
  mem : ∀ place,(∀ n,place≠.bounce n) → t.mem place=s.mem place

def Outside (qs : List IoRequest) : Prop := ∀ q∈qs,∀ n,q.data.place≠.bounce n

variable {q : IoRequest}

theorem writeByte_congr {mem mem' : Place → Nat → UInt8} (h : mem q.data.place=mem' q.data.place) :
    writeByte mem q=writeByte mem' q := by
  funext x
  simp [writeByte,h]

theorem writeBytes_congr {mem mem' : Place → Nat → UInt8}
    (h : ∀ q∈qs,mem q.data.place=mem' q.data.place) :
    qs.map (writeByte mem)=qs.map (writeByte mem') :=
  map_congr_left fun q hq => writeByte_congr (h q hq)

theorem Effect.writeDone (h : Effect .write qs s t) : WriteDone qs s t :=
  ⟨h.2,fun place _ => by rw [h.1]⟩

theorem WriteDone.append {ps qs : List IoRequest} (h : WriteDone ps s t) (k : WriteDone qs t u)
    (hqs : Outside qs) : WriteDone (ps++qs) s u := by
  refine ⟨?_,fun place hp => (k.mem place hp).trans (h.mem place hp)⟩
  have hmem : ∀ q∈qs,t.mem q.data.place=s.mem q.data.place := fun q hq => h.mem _ (hqs q hq)
  rw [k.medium,h.medium]
  simp [writeAll,overlay_append,writeBytes_congr hmem]

theorem WriteDone.of_last {xs : List IoRequest} (h : WriteDone xs s t)
    (hlast : ∀ x,lastOf (xs.map (writeByte s.mem)) x=lastOf (qs.map (writeByte s.mem)) x) :
    WriteDone qs s t := by
  refine ⟨?_,h.mem⟩
  rw [h.medium]
  funext x
  rw [writeAll,writeAll,overlay_apply,overlay_apply,hlast]

variable (mem : Place → Nat → UInt8) {x : Nat}

theorem apart_agree (hapart : qs.Pairwise Apart) (hwhole : ∀ q∈qs,q.byteCount%lbaUnit=0) :
    AgreeAt (qs.map (writeByte mem)) x := by
  intro p hp p' hp' v v' hv hv'
  obtain ⟨q,hq,rfl⟩ := mem_map.mp hp
  obtain ⟨r,hr,rfl⟩ := mem_map.mp hp'
  by_cases hqr : q=r
  · subst hqr
    rw [hv] at hv'
    exact Option.some.inj hv'
  have hap := hapart.forall hq hr hqr
  have h1 := hwhole q hq
  have h2 := hwhole r hr
  simp only [writeByte] at hv hv'
  split at hv
  · split at hv'
    · simp only [Apart,lbaUnit] at *
      omega
    · cases hv'
  · cases hv

variable {p : Pointer}

theorem writeByte_split {sector : Nat} {m : Nat} {n : Nat} (hm : m%lbaUnit=0) :
    writeByte mem ⟨sector,p,m+n⟩ x=
      (writeByte mem ⟨sector+m/lbaUnit,p.add m,n⟩ x).or (writeByte mem ⟨sector,p,m⟩ x) := by
  have hstart : (sector+m/lbaUnit)*lbaUnit=sector*lbaUnit+m := by
    simp only [lbaUnit] at *
    omega
  simp only [writeByte,hstart]
  by_cases hback : sector*lbaUnit+m≤x ∧ x<sector*lbaUnit+m+n
  · have hoff : p.addr+(x-sector*lbaUnit)=p.addr+m+(x-(sector*lbaUnit+m)) := by omega
    rw [if_pos (by omega),if_pos hback,hoff]
    rfl
  · rw [if_neg hback,Option.none_or]
    by_cases hfront : sector*lbaUnit≤x ∧ x<sector*lbaUnit+m
    · rw [if_pos (by omega),if_pos hfront]
    · rw [if_neg (by omega),if_neg hfront]

theorem writeByte_empty {sector : Nat} : writeByte mem ⟨sector,p,0⟩ x=none := by
  rw [writeByte,if_neg]
  simp only
  omega

variable {sector : Nat}

theorem merged_writes (h : Chained sector qs) (k : Adjoining p qs) :
    lastOf (qs.map (writeByte mem)) x=writeByte mem ⟨sector,p,totalBytes qs⟩ x := by
  induction qs generalizing sector p with
  | nil => rw [map_nil,lastOf_nil,totalBytes_nil,writeByte_empty]
  | cons q qs ih =>
    obtain ⟨hsector,hmod,hchain⟩ := h
    obtain ⟨hdata,hadjoin⟩ := k
    rw [map_cons,lastOf_cons,ih hchain hadjoin,totalBytes_cons,
      writeByte_split mem hmod,← hsector,← hdata]

variable (dst : Pointer)

theorem gather_frame {qs : List IoRequest} (s : Io) {place : Place} {a : Nat}
    (h : place≠dst.place ∨ a<dst.addr) : (gather dst qs s).mem place a=s.mem place a := by
  induction qs generalizing dst s with
  | nil => rfl
  | cons q qs ih =>
    rw [gather,ih (dst.add q.byteCount) _ (h.imp_right fun hlt => by simp only [Pointer.add]; omega)]
    simp only [Io.copy]
    rw [if_neg]
    rintro ⟨h1,h2,h3⟩
    rcases h with h|h
    · exact h h1
    · omega

theorem gather_still {qs : List IoRequest} (s : Io) :
    (gather dst qs s).flights=s.flights ∧ (gather dst qs s).done=s.done ∧
      (gather dst qs s).serials=s.serials ∧ (gather dst qs s).medium=s.medium := by
  induction qs generalizing dst s with
  | nil => exact ⟨rfl,rfl,rfl,rfl⟩
  | cons q qs ih =>
    exact ih _ _

theorem gather_bytes (s : Io) (h : Chained sector qs) (hplace : ∀ q∈qs,q.data.place≠dst.place)
    (x : Nat) :
    writeByte (gather dst qs s).mem ⟨sector,dst,totalBytes qs⟩ x=
      lastOf (qs.map (writeByte s.mem)) x := by
  induction qs generalizing sector dst s with
  | nil => rw [map_nil,lastOf_nil,totalBytes_nil,writeByte_empty]
  | cons q qs ih =>
    obtain ⟨hsector,hmod,hchain⟩ := h
    have hrest : ∀ r∈qs,r.data.place≠dst.place := fun r hr => hplace r (mem_cons_of_mem _ hr)
    have hcopy : ∀ r∈qs,(s.copy dst q.data q.byteCount).mem r.data.place=s.mem r.data.place := by
      intro r hr
      funext a
      simp only [Io.copy]
      rw [if_neg fun h => hrest r hr h.1]
    have hfirst : writeByte (gather dst (q::qs) s).mem ⟨sector,dst,q.byteCount⟩ x=
        writeByte s.mem q x := by
      simp only [writeByte,hsector]
      split
      · rw [gather,gather_frame _ _ (inr (by simp only [Pointer.add]; omega))]
        simp only [Io.copy]
        rw [if_pos ⟨trivial,by omega,by omega⟩]
        congr 3
        omega
      · rfl
    rw [totalBytes_cons,writeByte_split _ hmod,hfirst,map_cons,lastOf_cons,
      ← writeBytes_congr hcopy]
    rw [gather,ih (dst.add q.byteCount) _ hchain hrest]

theorem OneFits.bounce {total : Nat} (n m : Nat) : OneFits env .write ⟨sector,⟨.bounce n,0⟩,total⟩ ↔
      OneFits env .write ⟨sector,⟨.bounce m,0⟩,total⟩ :=
  ⟨fun h => ⟨h.good,h.blocks,h.pages,h.accepted⟩,fun h => ⟨h.good,h.blocks,h.pages,h.accepted⟩⟩

theorem bounceWrite_spec (ha : Ample env) (hp : Prompt env) (hidle : Idle s)
    (hchain : Chained q.sector (q::qs)) (hplace : Outside (q::qs)) :
    Ends (OneFits env .write ⟨q.sector,⟨.bounce 0,0⟩,totalBytes (q::qs)⟩) (WriteDone (q::qs) s)
      (bounceWrite env (q::qs) s) := by
  simp only [bounceWrite]
  rw [if_neg (by simp [ha.bounces s])]
  obtain ⟨hflights,hdone,hserials,hmedium⟩ := gather_still ⟨.bounce s.bounces,0⟩
    { s with bounces := s.bounces+1 }
  have hbytes := gather_bytes ⟨.bounce s.bounces,0⟩ { s with bounces := s.bounces+1 } hchain
    fun r hr => hplace r hr s.bounces
  have hframe : ∀ place,(∀ n,place≠.bounce n) →
      (gather ⟨.bounce s.bounces,0⟩ (q::qs) { s with bounces := s.bounces+1 }).mem place=
        s.mem place := by
    intro place hn
    funext a
    exact gather_frame _ _ (inl (hn _))
  generalize gather ⟨.bounce s.bounces,0⟩ (q::qs) { s with bounces := s.bounces+1 }=u at *
  have hu : Idle u := ⟨hflights.trans hidle.flights,by rw [hserials,hdone]; exact hidle.unused⟩
  obtain ⟨hiff,hafter⟩ := diskIo_effect ha hp hu .write
    ⟨q.sector,⟨.bounce s.bounces,0⟩,totalBytes (q::qs)⟩
  rw [OneFits.bounce s.bounces 0] at hiff hafter
  refine ⟨hiff,fun hfit => ?_⟩
  obtain ⟨h1,h2⟩ := hafter hfit
  have hlog := Still.logged (diskIo env .write q.sector ⟨.bounce s.bounces,0⟩
    (totalBytes (q::qs)) u).2 .freed (.data ⟨.bounce s.bounces,0⟩ (totalBytes (q::qs)))
  refine ⟨h1.still hlog,⟨?_,fun place hn => ?_⟩⟩
  · refine hlog.medium.trans ?_
    rw [h2.2,hmedium]
    funext x
    rw [writeAll,writeAll,overlay_apply,overlay_apply,map_singleton,lastOf_singleton,hbytes]
  · have hmem := hlog.mem.trans h2.1
    exact (congrFun hmem place).trans (hframe place hn)

def chunkTransfers (limit : Nat) : Nat → List IoRequest → List IoRequest
  | 0,_ => []
  | fuel+1,qs =>
    match takeFitting limit 0 qs with
    | ([],_) => []
    | (q::front,rest) =>
      ⟨q.sector,⟨.bounce 0,0⟩,totalBytes (q::front)⟩::chunkTransfers limit fuel rest

theorem takeFitting_first {limit : Nat} {qs : List IoRequest} (h : q.byteCount≤limit) :
    ∃ front,(takeFitting limit 0 (q::qs)).1=q::front := by
  rw [takeFitting,if_pos (by omega)]
  exact ⟨_,rfl⟩

theorem bounceChunks_spec (ha : Ample env) (hp : Prompt env) {fuel : Nat} (hfuel : qs.length≤fuel)
    (hchain : Chained sector qs) (hplace : Outside qs)
    (hlimit : ∀ q∈qs,q.byteCount ≤ maxTransferBytes env) (hidle : Idle s) :
    Ends (∀ m∈chunkTransfers (maxTransferBytes env) fuel qs,OneFits env .write m) (WriteDone qs s)
      (bounceChunks env fuel qs s) := by
  induction fuel generalizing qs sector s with
  | zero =>
    obtain rfl : qs=[] := length_eq_zero_iff.mp (by omega)
    exact ⟨by simp [bounceChunks,chunkTransfers],
      fun _ => ⟨hidle,(Effect.nil .write s).writeDone⟩⟩
  | succ fuel ih =>
    cases qs with
    | nil =>
      rw [bounceChunks]
      exact ⟨by simp [chunkTransfers,takeFitting],
        fun _ => ⟨hidle,(Effect.nil .write s).writeDone⟩⟩
    | cons q rest =>
      obtain ⟨front,hfront⟩ := takeFitting_first (hlimit q mem_cons_self)
      have hsplit := takeFitting_append (maxTransferBytes env) 0 (q::rest)
      rw [bounceChunks,chunkTransfers]
      generalize takeFitting (maxTransferBytes env) 0 (q::rest)=chunk at hfront hsplit
      obtain ⟨first,back⟩ := chunk
      simp only at hfront hsplit
      subst hfront
      rw [← hsplit] at hchain hplace hlimit hfuel ⊢
      obtain ⟨hc1,hc2⟩ := Chained.append.mp hchain
      obtain rfl : q.sector=sector := hc1.1
      have hout : Outside (q::front) := fun r hr => hplace r (mem_append_left _ hr)
      have hout' : Outside back := fun r hr => hplace r (mem_append_right _ hr)
      rw [forall_mem_cons,if_neg (cons_ne_nil _ _)]
      simp only [length_append,length_cons] at hfuel
      refine (bounceWrite_spec ha hp hidle hc1 hout).next fun hafter hwrite => ?_
      have hrest := ih (by omega) hc2 hout' (fun r hr => hlimit r (mem_append_right _ hr)) hafter
      exact hrest.imp Iff.rfl fun t h => hwrite.append h hout'

structure InLimits (env : Env) (qs : List IoRequest) : Prop where
  each : ∀ q∈qs,q.byteCount ≤ maxTransferBytes env ∧ q.sector+q.byteCount/lbaUnit<wordSize
  buffer : ∀ q∈qs.head?,q.data.addr+totalBytes qs<wordSize

theorem scanWrite_iff (env : Env) (hgood : ∀ q∈qs,q.bad=false) (w : WriteScan) :
    ((w.total<wordSize ∧ w.buffer.addr<wordSize) ∧ ∃ v,qs.foldlM (scanWrite env) w=.ok v) ↔
      (∀ q∈qs,q.byteCount ≤ maxTransferBytes env ∧ q.sector+q.byteCount/lbaUnit<wordSize) ∧
        w.total+totalBytes qs<wordSize ∧ w.buffer.addr+totalBytes qs<wordSize := by
  induction qs generalizing w with
  | nil => simp [pure,Except.pure]
  | cons q qs ih =>
    have hq := hgood q mem_cons_self
    obtain ⟨-,-,hmod,hsmall⟩ := bad_eq_false.mp hq
    rw [foldlM_cons]
    by_cases hguard : (maxTransferBytes env<q.byteCount ∨ wordSize-1-q.byteCount<w.total) ∨
        wordSize-1-q.byteCount/lbaUnit<q.sector ∨ wordSize-1-q.byteCount<w.buffer.addr
    · have herr : ∃ e,scanWrite env w q=.error e := by
        simp only [scanWrite,hq,Bool.false_eq_true,false_or]
        split
        · exact ⟨_,rfl⟩
        · next h1 => rw [if_pos (hguard.resolve_left h1)]; exact ⟨_,rfl⟩
      obtain ⟨e,he⟩ := herr
      rw [he]
      refine ⟨fun h => ?_,fun h => ?_⟩
      · obtain ⟨v,hv⟩ := h.2
        cases hv
      · obtain ⟨heach,htotal,hbuffer⟩ := h
        have h1 := heach q mem_cons_self
        simp only [totalBytes_cons] at *
        omega
    · simp only [not_or] at hguard
      obtain ⟨v,hv,htotal,hbuffer⟩ : ∃ v,scanWrite env w q=.ok v ∧ v.total=w.total+q.byteCount ∧
          v.buffer.addr=w.buffer.addr+q.byteCount := by
        simp only [scanWrite,hq,Bool.false_eq_true,false_or]
        rw [if_neg (by simp only [not_or]; exact hguard.1),
          if_neg (by simp only [not_or]; exact hguard.2)]
        exact ⟨_,rfl,rfl,rfl⟩
      rw [hv]
      have hrest := ih (fun r hr => hgood r (mem_cons_of_mem _ hr)) v
      rw [htotal,hbuffer] at hrest
      have hbounds : (w.total<wordSize ∧ w.buffer.addr<wordSize) ∧
          (w.total+q.byteCount<wordSize ∧ w.buffer.addr+q.byteCount<wordSize) ∧
          q.byteCount ≤ maxTransferBytes env ∧ q.sector+q.byteCount/lbaUnit<wordSize := by
        simp only [wordSize,lbaUnit,uint32Max] at *
        omega
      simp only [hbounds.2.1,true_and] at hrest
      simp only [hbounds.1,true_and,forall_mem_cons,hbounds.2.2,totalBytes_cons, ← Nat.add_assoc]
      exact hrest

theorem scanWrite_flags {w v : WriteScan} (hgood : ∀ q∈qs,q.bad=false)
    (h : qs.foldlM (scanWrite env) w=.ok v) :
    (v.contiguous=true ↔ w.contiguous=true ∧ Chained w.sector qs) ∧
      (v.buffersContiguous=true ↔ w.buffersContiguous=true ∧ Adjoining w.buffer qs) := by
  induction qs generalizing w with
  | nil =>
    cases h
    simp [Chained,Adjoining]
  | cons q qs ih =>
    have hmod := (bad_eq_false.mp (hgood q mem_cons_self)).2.2.1
    rw [foldlM_cons] at h
    cases hq : scanWrite env w q with
    | error e =>
      rw [hq] at h
      cases h
    | ok u =>
      rw [hq] at h
      obtain ⟨h1,h2⟩ := ih (fun r hr => hgood r (mem_cons_of_mem _ hr)) h
      simp only [scanWrite] at hq
      split at hq
      · cases hq
      split at hq
      · cases hq
      cases hq
      simp only [Bool.and_eq_true,decide_eq_true_eq] at h1 h2
      rw [h1,h2]
      refine ⟨?_,?_⟩
      · constructor
        · rintro ⟨⟨hc,hs⟩,hrest⟩
          exact ⟨hc,hs,hmod,hs ▸ hrest⟩
        · rintro ⟨hc,hs,-,hrest⟩
          exact ⟨⟨hc,hs⟩,hs ▸ hrest⟩
      · constructor
        · rintro ⟨⟨hc,hd⟩,hrest⟩
          exact ⟨hc,hd,hrest⟩
        · rintro ⟨hc,hd,hrest⟩
          exact ⟨⟨hc,hd⟩,hrest⟩

theorem totalBytes_bound (hgood : ∀ q∈qs,q.bad=false) : totalBytes qs ≤ qs.length*uint32Max := by
  induction qs with
  | nil => simp
  | cons q qs ih =>
    have h1 := (bad_eq_false.mp (hgood q mem_cons_self)).2.2.2
    have h2 := ih fun r hr => hgood r (mem_cons_of_mem _ hr)
    rw [totalBytes_cons,length_cons,Nat.add_mul]
    omega

theorem scanWrites_spec {env : Env} (hgood : ∀ r∈q::qs,r.bad=false)
    (hmany : (q::qs).length ≤ batchMax) :
    (InLimits env (q::qs) ∧ ∃ w,scanWrites env (q::qs)=.ok w ∧ w.total=totalBytes (q::qs) ∧
        (w.contiguous=true ↔ Chained q.sector (q::qs)) ∧
        (w.buffersContiguous=true ↔ Adjoining q.data (q::qs))) ∨
      ¬InLimits env (q::qs) ∧ ∃ e,e≠0 ∧ scanWrites env (q::qs)=.error e := by
  have hiff := scanWrite_iff env hgood ⟨0,q.sector,q.data,true,true⟩
  have htotal : totalBytes (q::qs)<wordSize := by
    have hle := totalBytes_bound hgood
    simp only [batchMax,uint32Max,wordSize] at *
    omega
  have hlimits : InLimits env (q::qs) ↔
      (∀ r∈q::qs,r.byteCount ≤ maxTransferBytes env ∧ r.sector+r.byteCount/lbaUnit<wordSize) ∧
        0+totalBytes (q::qs)<wordSize ∧ q.data.addr+totalBytes (q::qs)<wordSize := by
    rw [Nat.zero_add]
    refine ⟨fun h => ⟨h.each,htotal,h.buffer q rfl⟩,fun h => ⟨h.1,fun r hr => ?_⟩⟩
    obtain rfl : q=r := by simpa using hr
    exact h.2.2
  rw [hlimits,← hiff]
  cases hscan : scanWrites env (q::qs) with
  | error e =>
    refine inr ⟨fun h => ?_,e,scanWrites_error hscan,rfl⟩
    obtain ⟨v,hv⟩ := h.2
    have hboth := hscan.symm.trans hv
    cases hboth
  | ok w =>
    obtain ⟨h1,h2⟩ := scanWrite_flags hgood hscan
    refine inl ⟨⟨⟨wordSize_pos,?_⟩,w,hscan⟩,w,rfl,(scanWrites_chained hscan).1,by simpa using h1,
      by simpa using h2⟩
    -- the first round has checked the first buffer
    have hfirst : ¬wordSize-1-q.byteCount<q.data.addr := by
      intro hbig
      simp only [scanWrites,foldlM_cons,scanWrite] at hscan
      split at hscan
      · cases hscan
      · rw [if_pos (inr hbig)] at hscan
        cases hscan
    simp only [wordSize] at *
    omega

/-- The commands of a write batch that is not cut, and of each piece of one that is. -/
def writeGroup (env : Env) (qs : List IoRequest) : List IoRequest :=
  match qs with
  | [] => []
  | [q] => [q]
  | q::rest =>
    if Chained q.sector (q::rest) then
      if totalBytes (q::rest) ≤ maxTransferBytes env then
        [⟨q.sector,if Adjoining q.data (q::rest) then q.data else ⟨.bounce 0,0⟩,
          totalBytes (q::rest)⟩]
      else chunkTransfers (maxTransferBytes env) (q::rest).length (q::rest)
    else q::rest

/-- A request alone needs nothing more, several must be within limits and each succeed alone. -/
structure WriteGroupFits (env : Env) (qs : List IoRequest) : Prop where
  limits : qs.length=1 ∨ InLimits env qs
  fits : ∀ m∈writeGroup env qs,OneFits env .write m

/-- Requests that lie one behind the other on the disk, from the first on. -/
def OneRange (qs : List IoRequest) : Prop := ∀ q∈qs.head?,Chained q.sector qs

theorem writeGroup_spec (ha : Ample env) (hp : Prompt env) (hidle : Idle s)
    {again : List IoRequest → Io → Int × Io} (hne : qs≠[]) (hmany : qs.length ≤ batchMax)
    (hone : ∀ q∈qs,OneFits env .write q) (hplace : Outside qs) (hapart : qs.Pairwise Apart)
    (hcut : OneRange qs ∨ qs.length ≤ parallelMax) :
    Ends (WriteGroupFits env qs) (WriteDone qs s) (writeBatchBody env again qs s) := by
  have hgood : ∀ q∈qs,q.bad=false := fun q hq => (hone q hq).good
  rw [writeBatchBody.eq_def,if_neg (by omega)]
  cases qs with
  | nil => exact absurd rfl hne
  | cons q rest =>
    cases rest with
    | nil =>
      have hq := hone q mem_cons_self
      have hfits : WriteGroupFits env [q] := ⟨inl rfl,by simpa [writeGroup] using hq⟩
      exact (diskIo_effect ha hp hidle .write q).imp ⟨fun _ => hfits,fun _ => hq⟩
        fun t h => h.writeDone
    | cons q2 rest =>
      have hfits : WriteGroupFits env (q::q2::rest) ↔ InLimits env (q::q2::rest) ∧
          ∀ m∈writeGroup env (q::q2::rest),OneFits env .write m :=
        ⟨fun h => ⟨h.limits.resolve_left (by simp),h.fits⟩,fun h => ⟨inr h.1,h.2⟩⟩
      rw [hfits]
      rcases scanWrites_spec hgood hmany with ⟨hlimits,w,hscan,htotal,hchained,hjoined⟩|
        ⟨hout,e,he,hscan⟩
      · rw [hscan]
        simp only [htotal,hchained,hjoined,hlimits,true_and]
        by_cases hc : Chained q.sector (q::q2::rest)
        · by_cases ht : totalBytes (q::q2::rest) ≤ maxTransferBytes env
          · by_cases hj : Adjoining q.data (q::q2::rest)
            · have hgroup : writeGroup env (q::q2::rest)=
                  [⟨q.sector,q.data,totalBytes (q::q2::rest)⟩] := by
                simp only [writeGroup]
                rw [if_pos hc,if_pos ht,if_pos hj]
              rw [if_pos ⟨hc,hj,ht⟩,hgroup,forall_mem_singleton]
              refine (diskIo_effect ha hp hidle .write ⟨q.sector,q.data,_⟩).imp Iff.rfl
                fun t h => h.writeDone.of_last fun x => ?_
              rw [map_singleton,lastOf_singleton,merged_writes s.mem hc hj]
            · have hgroup : writeGroup env (q::q2::rest)=
                  [⟨q.sector,⟨.bounce 0,0⟩,totalBytes (q::q2::rest)⟩] := by
                simp only [writeGroup]
                rw [if_pos hc,if_pos ht,if_neg hj]
              rw [if_neg fun h => hj h.2.1,if_pos ⟨hc,ht⟩,hgroup,forall_mem_singleton]
              exact bounceWrite_spec ha hp hidle hc hplace
          · have hgroup : writeGroup env (q::q2::rest)=
                chunkTransfers (maxTransferBytes env) (q::q2::rest).length (q::q2::rest) := by
              simp only [writeGroup]
              rw [if_pos hc,if_neg ht]
            rw [if_neg fun h => ht h.2.2,if_neg fun h => ht h.2,if_pos hc,hgroup]
            exact bounceChunks_spec ha hp le_rfl hc hplace (fun r hr => (hlimits.each r hr).1) hidle
        · have hgroup : writeGroup env (q::q2::rest)=q::q2::rest := by
            simp only [writeGroup]
            rw [if_neg hc]
          have hlen : (q::q2::rest).length ≤ parallelMax := hcut.resolve_left fun h => hc (h q rfl)
          rw [if_neg fun h => hc h.1,if_neg fun h => hc h.1,if_neg hc,if_neg (by omega),hgroup]
          obtain ⟨hok,hafter,xs,hperm,heffect⟩ := ioParallel_effect ha hp hidle hne hlen hone
          refine ⟨⟨fun _ => hone,fun _ => hok⟩,fun _ => ⟨hafter,heffect.writeDone.of_last fun x => ?_⟩⟩
          exact (apart_agree s.mem hapart (fun r hr => (bad_eq_false.mp (hgood r hr)).2.2.1)).lastOf_perm (hperm.map _)
      · rw [hscan]
        exact .fail he fun h => hout h.1

theorem Through.writes {gs : List (List IoRequest)} (h : Through WriteDone gs s t)
    (hplace : Outside gs.flatten) : WriteDone gs.flatten s t := by
  induction h with
  | nil s => exact (Effect.nil .write s).writeDone
  | cons hg _ ih =>
    have hrest : Outside _ := fun q hq => hplace q (mem_append_right _ hq)
    exact hg.append (ih hrest) hrest

/-- What a write batch needs: what it needs as one group, and where it is cut what its pieces
need. -/
structure WriteFits (env : Env) (qs : List IoRequest) : Prop where
  group : WriteGroupFits env qs
  cut : ¬OneRange qs → parallelMax<qs.length → ∀ g∈pieces qs.length qs,WriteGroupFits env g

theorem diskWriteBatch_spec (ha : Ample env) (hp : Prompt env) (hidle : Idle s) (hne : qs≠[])
    (hmany : qs.length ≤ batchMax) (hone : ∀ q∈qs,OneFits env .write q) (hplace : Outside qs)
    (hapart : qs.Pairwise Apart) :
    Ends (WriteFits env qs) (WriteDone qs s) (diskWriteBatch env qs s) := by
  rw [diskWriteBatch]
  by_cases hcut : OneRange qs ∨ qs.length ≤ parallelMax
  · refine (writeGroup_spec ha hp hidle hne hmany hone hplace hapart hcut).imp
      ⟨fun h => ⟨h,fun h1 h2 => ?_⟩,WriteFits.group⟩ fun t h => h
    rcases hcut with hr|hl
    · exact absurd hr h1
    · omega
  · simp only [not_or,not_le] at hcut
    obtain ⟨hrange,hlong⟩ := hcut
    have hgood : ∀ q∈qs,q.bad=false := fun q hq => (hone q hq).good
    cases qs with
    | nil => exact absurd rfl hne
    | cons q rest =>
      cases rest with
      | nil => simp [parallelMax] at hlong
      | cons q2 rest =>
        have hc : ¬Chained q.sector (q::q2::rest) := fun h => hrange fun r hr => by
          obtain rfl : q=r := by simpa using hr
          exact h
        have hfits : WriteFits env (q::q2::rest) ↔ InLimits env (q::q2::rest) ∧
            ∀ g∈pieces (q::q2::rest).length (q::q2::rest),WriteGroupFits env g := by
          refine ⟨fun h => ⟨h.group.limits.resolve_left (by simp),h.cut hrange hlong⟩,
            fun h => ⟨⟨inr h.1,?_⟩,fun _ _ => h.2⟩⟩
          simp only [writeGroup]
          rw [if_neg hc]
          exact hone
        rw [hfits,writeBatchBody.eq_def,if_neg (by omega)]
        rcases scanWrites_spec hgood hmany with
          ⟨hlimits,w,hscan,htotal,hchained,hjoined⟩|⟨hout,e,he,hscan⟩
        · have hpiece : ∀ g∈pieces (q::q2::rest).length (q::q2::rest),∀ s,Idle s →
              Ends (WriteGroupFits env g) (WriteDone g s)
                (writeBatchBody env (fun _ s => (einval,s)) g s) := by
            intro g hg s hs
            obtain ⟨hgne,hglen⟩ := pieces_short g hg
            have hsub : g.Sublist (q::q2::rest) := by
              have hsub := sublist_flatten_of_mem hg
              rwa [pieces_flatten le_rfl] at hsub
            exact writeGroup_spec ha hp hs hgne (le_trans hglen (by decide))
              (fun r hr => hone r (hsub.subset hr)) (fun r hr => hplace r (hsub.subset hr))
              (hapart.sublist hsub) (inr hglen)
          rw [hscan]
          simp only [hchained,hlimits,true_and]
          rw [if_neg fun h => hc h.1,if_neg fun h => hc h.1,if_neg hc,if_pos hlong]
          refine (inPieces_through (q::q2::rest) hpiece hidle).imp Iff.rfl fun t h => ?_
          have hall := h.writes (by rw [pieces_flatten le_rfl]; exact hplace)
          rwa [pieces_flatten le_rfl] at hall
        · rw [hscan]
          exact .fail he fun h => hout h.1

end Kobox.Nvme
