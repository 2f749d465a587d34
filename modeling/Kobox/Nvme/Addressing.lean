import Kobox.Block.Disk
import Kobox.Nvme.TransferSteps

namespace Kobox.Nvme

open List IoRequest

variable {env : Env} {s : Io} {qs : List IoRequest}

/-- Whole blocks that a request names, in the driver's unit. -/
def IoRequest.names (q : IoRequest) (x : Nat) : Prop := q.sector≤x ∧ x<q.sector+q.byteCount/lbaUnit

def Command.names (c : Command) (x : Nat) : Prop := c.slba≤x ∧ x<c.slba+(c.nlb+1)

/-- The commands name the blocks of the requests and no others. -/
def Covers (cs : List Command) (qs : List IoRequest) : Prop :=
  ∀ x,(∃ c∈cs,c.names x) ↔ ∃ q∈qs,q.names x

/-- A call that succeeds has issued commands for all its requests, in whole blocks. -/
def Issues (qs : List IoRequest) (s : Io) (a : Int × Io) : Prop :=
  a.1=0 → ∃ cs,a.2.issued=s.issued++cs ∧ Covers cs qs ∧ ∀ q∈qs,q.byteCount%lbaUnit=0

variable {qs ps : List IoRequest} {cs : List Command}

theorem Covers.append {ds : List Command} (h : Covers cs ps) (k : Covers ds qs) :
    Covers (cs++ds) (ps++qs) := by
  intro x
  simp only [mem_append,or_and_right,exists_or]
  exact or_congr (h x) (k x)

variable {q : IoRequest}

theorem covers_cons {c : Command} (h : ∀ x,c.names x ↔ q.names x) (k : Covers cs qs) :
    Covers (c::cs) (q::qs) := by
  have h1 : Covers [c] [q] := fun x => by simpa using h x
  exact h1.append k

theorem diskIoFlags_issues (env : Env) (opcode : Opcode) (q : IoRequest) (flags : Nat) (s : Io) :
    Issues [q] s (diskIoFlags env opcode q.sector q.data q.byteCount flags s) := by
  unfold diskIoFlags
  split
  · exact fun h => absurd h einval_ne
  have herange : erange≠0 := by decide
  split
  · exact fun h => absurd h herange
  split
  · exact fun h => absurd h herange
  split
  · exact fun h => absurd h enomem_ne
  have halloc := allocRequest_still (singleSetup opcode q.sector q.byteCount flags) s
  generalize hal : allocRequest (singleSetup opcode q.sector q.byteCount flags) s=a at halloc
  have hset : a.1.setup=singleSetup opcode q.sector q.byteCount flags := by
    rw [← hal]
    rfl
  obtain ⟨hstill,hmap⟩ := mapKernelBuffer_spec env q.data q.byteCount a.1 a.2
  simp only
  generalize mapKernelBuffer env q.data q.byteCount a.1 a.2=b at hstill hmap
  split
  · next hne => exact fun h => absurd h hne
  simp only [executeRq]
  rcases submitIoRq_spec env b.2.1 b.2.2 with ⟨hne,-⟩|⟨m,hm,hok,hr,hl⟩
  · simp only [if_pos hne]
    exact fun h => absurd h hne
  simp only [hok,ne_eq,not_true_eq_false,if_false]
  intro _
  have hturn := completeRq_turned env (submitIoRq env b.2.1 b.2.2).2.1
    (submitIoRq env b.2.1 b.2.2).2.2
  have hfree := freeIoRq_still (submitIoRq env b.2.1 b.2.2).2.1
    (completeRq env (submitIoRq env b.2.1 b.2.2).2.1 (submitIoRq env b.2.1 b.2.2).2.2).2
  refine ⟨[b.2.1.command m b.2.2.serials],?_,?_,?_⟩
  · rw [hfree.issued,hturn.issued,hl.issued,hstill.issued,halloc.issued]
  · apply covers_cons _ fun x => by simp
    have hslba : (b.2.1.command m b.2.2.serials).slba=q.sector ∧
        (b.2.1.command m b.2.2.serials).nlb=(q.byteCount/lbaUnit-1)%2^16 := by
      simp only [IoRq.command]
      rw [hmap.setup,hset]
      exact ⟨rfl,rfl⟩
    simp only [Command.names,names,lbaUnit] at *
    omega
  · intro p hp
    rw [mem_singleton.mp hp]
    omega

variable {opcode : Opcode}

theorem ready_covers {rs : List IoRq} (h : Forall₂ (Ready opcode) qs rs)
    (k : Forall₂ (fun r c => ∃ m,r.mapped=some m ∧ c=r.command m c.serial) rs cs) :
    Covers cs qs ∧ ∀ q∈qs,q.byteCount%lbaUnit=0 := by
  induction h generalizing cs with
  | nil =>
    cases k
    exact ⟨fun x => by simp,fun q hq => by cases hq⟩
  | cons hq _ ih =>
    cases k with
    | cons hc hrest =>
      obtain ⟨m,-,hcmd⟩ := hc
      obtain ⟨hcover,hwhole⟩ := ih hrest
      have hshort := followingPages_bound hq.short
      have hgood := hq.good
      simp only [bad,Bool.or_eq_false_iff,decide_eq_false_iff_not,not_not] at hgood
      refine ⟨covers_cons ?_ hcover,?_⟩
      · rw [hcmd]
        simp only [IoRq.command,Command.names,names,hq.setup,parallelSetup,lbaUnit,
          mappingMaxPages,nvmePage] at *
        omega
      · intro q' hq'
        rcases mem_cons.mp hq' with rfl|hq'
        · exact hgood.1.2
        · exact hwhole q' hq'

theorem ioParallel_issues : Issues qs s (ioParallel env opcode qs s) := by
  unfold ioParallel
  split
  · exact fun h => absurd h einval_ne
  obtain ⟨hstill,hnone,hready⟩ := prepareAll_spec s
  simp only
  generalize prepareAll env opcode qs s=a at hstill hnone hready
  split
  · next hne => exact fun h => absurd h hne
  next hok =>
  intro hwait
  obtain ⟨cs,hl,-,-,hall⟩ := submitAll_spec env a.2.1 a.2.2 fun r hr => (hnone r hr).1
  have hturn := waitAll_turned env (submitAll env a.2.1 a.2.2).2.1
    (submitAll env a.2.1 a.2.2).1 (submitAll env a.2.1 a.2.2).2.2
  have hcover := ready_covers (hready (by simpa using hok)) (hall (waitAll_ok hwait))
  exact ⟨cs,by rw [(freeAll_still _ _).issued,hturn.issued,hl.issued,hstill.issued],hcover⟩

def Chained : Nat → List IoRequest → Prop
  | _,[] => True
  | sector,q::qs => q.sector=sector ∧ q.byteCount%lbaUnit=0 ∧ Chained (sector+q.byteCount/lbaUnit) qs

def totalBytes (qs : List IoRequest) : Nat := (qs.map IoRequest.byteCount).sum

@[simp] theorem totalBytes_nil : totalBytes []=0 := rfl
@[simp] theorem totalBytes_cons (q : IoRequest) (qs : List IoRequest) :
    totalBytes (q::qs)=q.byteCount+totalBytes qs := by simp [totalBytes]
variable {sector : Nat}

theorem Chained.append : Chained sector (ps++qs) ↔
      Chained sector ps ∧ Chained (sector+totalBytes ps/lbaUnit) qs := by
  induction ps generalizing sector with
  | nil => simp [Chained]
  | cons p ps ih =>
    simp only [cons_append,Chained,ih,totalBytes_cons,and_assoc]
    refine and_congr_right fun _ => and_congr_right fun hp => and_congr_right fun _ => ?_
    have he : sector+p.byteCount/lbaUnit+totalBytes ps/lbaUnit=
        sector+(p.byteCount+totalBytes ps)/lbaUnit := by
      simp only [lbaUnit] at *
      omega
    rw [he]

theorem Chained.range (h : Chained sector qs) :
    totalBytes qs%lbaUnit=0 ∧ (∀ q∈qs,q.byteCount%lbaUnit=0) ∧
      ∀ x,(∃ q∈qs,q.names x) ↔ sector≤x ∧ x<sector+totalBytes qs/lbaUnit := by
  induction qs generalizing sector with
  | nil =>
    refine ⟨rfl,fun q hq => (by cases hq),fun x => ?_⟩
    simp only [not_mem_nil,false_and,exists_false,totalBytes_nil,lbaUnit,false_iff]
    omega
  | cons q qs ih =>
    obtain ⟨hsector,hwhole,hrest⟩ := h
    obtain ⟨h1,h2,h3⟩ := ih hrest
    refine ⟨?_,?_,?_⟩
    · rw [totalBytes_cons,Nat.add_mod,hwhole,h1]
      rfl
    · intro p hp
      rcases mem_cons.mp hp with rfl|hp
      · exact hwhole
      · exact h2 p hp
    · intro x
      rw [exists_mem_cons_iff,h3]
      simp only [names,totalBytes_cons,lbaUnit] at *
      omega

theorem Issues.chain {p : Pointer} {a : Int × Io} (hchain : Chained q.sector ps)
    (h : Issues [⟨q.sector,p,totalBytes ps⟩] s a) : Issues ps s a := by
  intro hok
  obtain ⟨cs,hissued,hcover,-⟩ := h hok
  obtain ⟨-,hwhole,hrange⟩ := hchain.range
  refine ⟨cs,hissued,?_,hwhole⟩
  intro x
  rw [hcover x,hrange x]
  simp [names]

theorem continues_chained {limit : Nat} {m : Nat × Nat × Pointer}
    {st : Option (Nat × Nat × Pointer)} (h : qs.foldl (continues limit) st=some m) :
    ∃ k,st=some k ∧ Chained k.2.1 qs ∧ m.1=k.1+totalBytes qs := by
  induction qs generalizing st with
  | nil => exact ⟨m,h,trivial,rfl⟩
  | cons q qs ih =>
    obtain ⟨k,hk,hchain,htotal⟩ := ih h
    cases st with
    | none => cases hk
    | some st =>
      simp only [continues] at hk
      split at hk
      · cases hk
      next hgood =>
      cases hk
      simp only [not_or,bad,Bool.or_eq_true,decide_eq_true_eq,not_not] at hgood
      exact ⟨st,rfl,⟨hgood.2.2.1,hgood.1.1.2,hchain⟩,by
        rw [totalBytes_cons]
        omega⟩

theorem contiguous_chained {total : Nat} (h : contiguousReads env (q::qs)=some total) :
    Chained q.sector (q::qs) ∧ total=totalBytes (q::qs) := by
  simp only [contiguousReads,Option.map_eq_some_iff] at h
  obtain ⟨m,hm,rfl⟩ := h
  obtain ⟨k,hk,hchain,htotal⟩ := continues_chained hm
  cases hk
  exact ⟨hchain,by rw [htotal]; simp⟩

theorem scanWrite_chained {w v : WriteScan} (h : qs.foldlM (scanWrite env) w=.ok v) :
    v.total=w.total+totalBytes qs ∧
      (v.contiguous=true → w.contiguous=true ∧ Chained w.sector qs) := by
  induction qs generalizing w with
  | nil =>
    cases h
    exact ⟨rfl,fun hc => ⟨hc,trivial⟩⟩
  | cons q qs ih =>
    rw [foldlM_cons] at h
    cases hq : scanWrite env w q with
    | error e =>
      rw [hq] at h
      cases h
    | ok u =>
      rw [hq] at h
      obtain ⟨htotal,hchain⟩ := ih h
      simp only [scanWrite] at hq
      split at hq
      · cases hq
      next hgood =>
      split at hq
      · cases hq
      cases hq
      simp only [not_or,bad,Bool.or_eq_true,decide_eq_true_eq,not_not] at hgood
      refine ⟨by rw [htotal,totalBytes_cons]; simp only; omega,fun hc => ?_⟩
      obtain ⟨hcont,hrest⟩ := hchain hc
      simp only [Bool.and_eq_true,decide_eq_true_eq] at hcont
      simp only [hcont.2] at hrest
      exact ⟨hcont.1,hcont.2,hgood.1.1.2,hrest⟩

theorem scanWrites_chained {w : WriteScan} (h : scanWrites env (q::qs)=.ok w) :
    w.total=totalBytes (q::qs) ∧ (w.contiguous=true → Chained q.sector (q::qs)) := by
  obtain ⟨htotal,hchain⟩ := scanWrite_chained h
  exact ⟨by rw [htotal]; simp,fun hc => (hchain hc).2⟩

theorem gather_issued (dst : Pointer) (qs : List IoRequest) (s : Io) :
    (gather dst qs s).issued=s.issued := by
  induction qs generalizing dst s with
  | nil => rfl
  | cons q qs ih =>
    rw [gather,ih]
    rfl

theorem bounceWrite_issues (h : Chained q.sector (q::qs)) :
    Issues (q::qs) s (bounceWrite env (q::qs) s) := by
  simp only [bounceWrite]
  split
  · exact fun h => absurd h enomem_ne
  intro hok
  have hone := diskIoFlags_issues env .write ⟨q.sector,⟨.bounce s.bounces,0⟩,totalBytes (q::qs)⟩ 0
    (gather ⟨.bounce s.bounces,0⟩ (q::qs) { s with bounces := s.bounces+1 })
  obtain ⟨cs,hissued,hrest⟩ := Issues.chain h hone hok
  refine ⟨cs,?_,hrest⟩
  rw [gather_issued] at hissued
  exact hissued

theorem takeFitting_append (limit merged : Nat) (qs : List IoRequest) :
    (takeFitting limit merged qs).1++(takeFitting limit merged qs).2=qs := by
  induction qs generalizing merged with
  | nil => rfl
  | cons q qs ih =>
    rw [takeFitting]
    split
    · simp [ih]
    · rfl

theorem Issues.then {a b : Int × Io} (h : Issues ps s a) (ha : a.1=0) (k : Issues qs a.2 b) :
    Issues (ps++qs) s b := by
  intro hb
  obtain ⟨cs,h1,h2,h3⟩ := h ha
  obtain ⟨ds,k1,k2,k3⟩ := k hb
  refine ⟨cs++ds,by rw [k1,h1,append_assoc],h2.append k2,?_⟩
  intro q hq
  rcases mem_append.mp hq with hq|hq
  · exact h3 q hq
  · exact k3 q hq

theorem Issues.nothing : Issues [] s (0,s) := fun _ =>
  ⟨[],(append_nil _).symm,fun x => by simp,fun q hq => by cases hq⟩

theorem bounceChunks_issues {fuel : Nat} (hfuel : qs.length≤fuel) (h : Chained sector qs) :
    Issues qs s (bounceChunks env fuel qs s) := by
  induction fuel generalizing qs sector s with
  | zero =>
    obtain rfl : qs=[] := length_eq_zero_iff.mp (by omega)
    exact .nothing
  | succ fuel ih =>
    rw [bounceChunks]
    split
    · next he =>
      subst he
      exact .nothing
    have hsplit := takeFitting_append (maxTransferBytes env) 0 qs
    generalize takeFitting (maxTransferBytes env) 0 qs=chunk at hsplit
    obtain ⟨front,rest⟩ := chunk
    subst hsplit
    obtain ⟨hfront,hrest⟩ := Chained.append.mp h
    cases front with
    | nil =>
      exact fun h => absurd h einval_ne
    | cons q front =>
      have hone : Issues (q::front) s (bounceWrite env (q::front) s) :=
        bounceWrite_issues (hfront.1.symm ▸ hfront)
      simp only [reduceCtorEq,if_false]
      split
      · next hne => exact fun h => absurd h hne
      · next hok =>
        simp only [length_append,length_cons] at hfuel
        exact hone.then (by simpa using hok) (ih (by omega) hrest)

theorem inPieces_issues {run : List IoRequest → Io → Int × Io}
    (hrun : ∀ piece s,Issues piece s (run piece s)) {fuel : Nat} (hfuel : qs.length≤fuel) :
    Issues qs s (inPieces run fuel qs s) := by
  induction fuel generalizing qs s with
  | zero =>
    obtain rfl : qs=[] := length_eq_zero_iff.mp (by omega)
    exact .nothing
  | succ fuel ih =>
    rw [inPieces]
    split
    · next he =>
      subst he
      exact .nothing
    simp only
    split
    · next hbad => exact fun h => absurd h hbad
    next hok =>
    have hlen : (qs.drop parallelMax).length ≤ fuel := by
      rw [length_drop]
      simp only [parallelMax]
      omega
    have hall := (hrun (qs.take parallelMax) s).then (by simpa using hok) (ih hlen)
    rwa [take_append_drop] at hall

theorem diskIo_issues : Issues [q] s (diskIo env opcode q.sector q.data q.byteCount s) :=
  diskIoFlags_issues env opcode q 0 s

theorem readBatchBody_issues {again : List IoRequest → Io → Int × Io}
    (hagain : ∀ piece s,Issues piece s (again piece s)) (qs : List IoRequest) (s : Io) :
    Issues qs s (readBatchBody env again qs s) := by
  unfold readBatchBody
  split
  · exact fun h => absurd h einval_ne
  cases qs with
  | nil => next hn => exact absurd (Or.inl (by decide)) hn
  | cons q rest =>
    cases hread : contiguousReads env (q::rest) with
    | some total =>
      obtain ⟨hchain,rfl⟩ := contiguous_chained hread
      exact Issues.chain hchain (diskIoFlags_issues env .read
        ⟨q.sector,q.data,totalBytes (q::rest)⟩ 0 s)
    | none =>
      simp only
      split
      · refine inPieces_issues (fun piece s => ?_) le_rfl
        split
        · exact diskIo_issues
        · exact hagain piece s
      · exact ioParallel_issues

theorem refused_issues (qs : List IoRequest) (s : Io) : Issues qs s (einval,s) :=
  fun h => absurd h einval_ne

theorem diskReadBatch_issues {env : Env} {qs : List IoRequest} {s : Io} :
    Issues qs s (diskReadBatch env qs s) :=
  readBatchBody_issues (readBatchBody_issues refused_issues) qs s

theorem scanWrites_error {e : Int} (h : scanWrites env qs=.error e) : e≠0 := by
  have hone : ∀ w q,scanWrite env w q=.error e → e≠0 := by
    intro w q h
    simp only [scanWrite] at h
    split at h
    · cases h
      exact einval_ne
    · split at h
      · cases h
        decide
      · cases h
  have hall : ∀ (l : List IoRequest) w,l.foldlM (scanWrite env) w=.error e → e≠0 := by
    intro l
    induction l with
    | nil => exact fun w h => by cases h
    | cons q l ih =>
      intro w h
      rw [foldlM_cons] at h
      cases hq : scanWrite env w q with
      | error d =>
        rw [hq] at h
        cases h
        exact hone w q hq
      | ok u =>
        rw [hq] at h
        exact ih u h
  cases qs with
  | nil =>
    cases h
    exact einval_ne
  | cons q qs => exact hall _ _ h

theorem writeBatchBody_issues {again : List IoRequest → Io → Int × Io}
    (hagain : ∀ piece s,Issues piece s (again piece s)) (qs : List IoRequest) (s : Io) :
    Issues qs s (writeBatchBody env again qs s) := by
  unfold writeBatchBody
  split
  · exact fun h => absurd h einval_ne
  cases qs with
  | nil => exact fun h => absurd h einval_ne
  | cons q rest =>
    cases rest with
    | nil => exact diskIo_issues
    | cons q2 rest =>
      cases hscan : scanWrites env (q::q2::rest) with
      | error e => exact fun h => absurd h (scanWrites_error hscan)
      | ok w =>
        obtain ⟨htotal,hchain⟩ := scanWrites_chained hscan
        simp only
        split
        · next hc =>
          rw [htotal]
          exact Issues.chain (hchain hc.1) (diskIoFlags_issues env .write
            ⟨q.sector,q.data,totalBytes (q::q2::rest)⟩ 0 s)
        split
        · next hc => exact bounceWrite_issues (hchain hc.1)
        split
        · next hc => exact bounceChunks_issues le_rfl (hchain hc)
        split
        · exact inPieces_issues hagain le_rfl
        · exact ioParallel_issues

theorem diskWriteBatch_issues {env : Env} {qs : List IoRequest} {s : Io} :
    Issues qs s (diskWriteBatch env qs s) :=
  writeBatchBody_issues (writeBatchBody_issues refused_issues) qs s

inductive DiskCall
  | io (opcode : Opcode) (q : IoRequest) (flags : Nat)
  | readBatch (qs : List IoRequest)
  | writeBatch (qs : List IoRequest)

def DiskCall.run (env : Env) : DiskCall → Io → Int × Io
  | .io opcode q flags => diskIoFlags env opcode q.sector q.data q.byteCount flags
  | .readBatch qs => diskReadBatch env qs
  | .writeBatch qs => diskWriteBatch env qs

def DiskCall.requests : DiskCall → List IoRequest
  | .io _ q _ => [q]
  | .readBatch qs => qs
  | .writeBatch qs => qs

theorem DiskCall.issues (env : Env) (call : DiskCall) (s : Io) :
    Issues call.requests s (call.run env s) := by
  cases call with
  | io opcode q flags => exact diskIoFlags_issues env opcode q flags s
  | readBatch qs => exact diskReadBatch_issues
  | writeBatch qs => exact diskWriteBatch_issues

def addressed (size : Nat) (cs : List Command) (b : Nat) : Prop :=
  ∃ c∈cs,c.slba*size≤b ∧ b<c.slba*size+(c.nlb+1)*size

def requested (qs : List IoRequest) (b : Nat) : Prop :=
  ∃ q∈qs,q.sector*Block.sectorSize≤b ∧ b<q.sector*Block.sectorSize+q.byteCount

theorem addressed_iff {size : Nat} (hsize : 0<size) {b : Nat} :
    addressed size cs b ↔ ∃ c∈cs,c.names (b/size) := by
  refine exists_congr fun c => and_congr_right fun _ => ?_
  rw [Command.names,← Nat.add_mul,Nat.le_div_iff_mul_le hsize,Nat.div_lt_iff_lt_mul hsize]

theorem requested_iff (hqs : ∀ q∈qs,q.byteCount%lbaUnit=0) {b : Nat} :
    requested qs b ↔ ∃ q∈qs,q.names (b/lbaUnit) := by
  refine exists_congr fun q => and_congr_right fun hq => ?_
  have hwhole := hqs q hq
  simp only [names,Block.sectorSize,lbaUnit] at *
  omega

theorem size_unique {S : Nat → Prop} {x bound k : Nat} (hx : S x) (hbound : ∀ y,S y → y≤bound)
    (h : ∀ b,S (b/(lbaUnit*2^k)) ↔ S (b/lbaUnit)) : lbaUnit*2^k=lbaUnit := by
  classical
  cases k with
  | zero => rfl
  | succ k =>
    -- the last byte of the last block lies behind everything in the smaller unit
    have hmax : S (Nat.findGreatest S bound) := Nat.findGreatest_spec (hbound x hx) hx
    generalize hm : Nat.findGreatest S bound=m at hmax
    have hpow : 2≤2^(k+1) := by
      have := Nat.one_le_two_pow (n := k)
      omega
    generalize 2^(k+1)=n at hpow h
    have hpos : 0<lbaUnit*n := by
      simp only [lbaUnit]
      omega
    have hlast : (m*(lbaUnit*n)+(lbaUnit*n-1))/(lbaUnit*n)=m := by
      rw [Nat.mul_comm,Nat.mul_add_div hpos,Nat.div_eq_of_lt (by omega)]
      rfl
    have hin := (h (m*(lbaUnit*n)+(lbaUnit*n-1))).mp (by rw [hlast]; exact hmax)
    have hle := Nat.le_findGreatest (hbound _ hin) hin
    have hmul : m*2 ≤ m*n := Nat.mul_le_mul_left m hpow
    have he : m*(lbaUnit*n)=m*n*lbaUnit := by ring
    rw [he] at hle
    simp only [lbaUnit] at hle hpos
    omega

theorem DiskCall.run_ok {call : DiskCall} (h : (call.run env s).1=0) : call.requests≠[] := by
  intro hnil
  cases call with
  | io opcode q flags => cases hnil
  | readBatch qs =>
    subst hnil
    exact einval_ne h
  | writeBatch qs =>
    subst hnil
    exact einval_ne h

/-- Transfers address the bytes asked for if and only if logical blocks have 512 bytes. -/
theorem transfers_address_bytes {σ : Type} (d : Block.Disk σ) (env : Env) (call : DiskCall)
    (s : Io) (k : Nat) (hblock : Block.diskLogicalBlockSize d=Block.sectorSize*2^k)
    (hdevice : env.lbaSize=Block.diskLogicalBlockSize d)
    (hvalid : ∀ q∈call.requests,Block.diskIoRangeValid d q.sector q.byteCount=0)
    (hok : (call.run env s).1=0) :
    ∃ cs,(call.run env s).2.issued=s.issued++cs ∧
      ((∀ b,addressed env.lbaSize cs b ↔ requested call.requests b) ↔
        Block.diskLogicalBlockSize d=Block.sectorSize) := by
  obtain ⟨cs,hissued,hcover,hwhole⟩ := call.issues env s hok
  refine ⟨cs,hissued,?_⟩
  rw [hdevice,hblock]
  have hpos : 0<Block.sectorSize*2^k := by
    simp only [Block.sectorSize]
    positivity
  have hsets : (∀ b,addressed (Block.sectorSize*2^k) cs b ↔ requested call.requests b) ↔
      ∀ b,(∃ q∈call.requests,q.names (b/(lbaUnit*2^k))) ↔
        ∃ q∈call.requests,q.names (b/lbaUnit) := by
    refine forall_congr' fun b => ?_
    rw [addressed_iff hpos,requested_iff hwhole,hcover]
    rfl
  rw [hsets]
  constructor
  · intro h
    obtain ⟨q,hq⟩ := exists_mem_of_ne_nil _ (DiskCall.run_ok hok)
    have hbytes : q.byteCount≠0 := by
      intro h0
      have := hvalid q hq
      simp [Block.diskIoRangeValid,h0,Block.einval] at this
    have hunits := hwhole q hq
    have hfirst : ∃ p∈call.requests,p.names q.sector := by
      refine ⟨q,hq,le_rfl,?_⟩
      simp only [lbaUnit] at *
      omega
    have hbound : ∀ y,(∃ p∈call.requests,p.names y) →
        y≤(call.requests.map fun p => p.sector+p.byteCount/lbaUnit).sum := by
      rintro y ⟨p,hp,-,hlt⟩
      have := le_sum_of_mem (mem_map_of_mem (f := fun p : IoRequest =>
        p.sector+p.byteCount/lbaUnit) hp)
      omega
    exact size_unique hfirst hbound h
  · intro h b
    have hone : lbaUnit*2^k=lbaUnit := h
    rw [hone]

/-- A device that does what is waited for. -/
def quickEnv (lbaSize : Nat) : Env where
  lbaSize := lbaSize
  maxHwSectors := 0
  status _ := 0
  turn awaited _ := awaited.toList.flatMap fun n => [.exec n,.finish n n]
  stuck _ := false
  requestOk _ := true
  mapStatus _ := 0
  auxOk _ := true
  prpStatus _ := 0
  submitStatus _ := 0
  bounceOk _ := true
  backend _ := true
  readStagingOk _ := true
  windowOk _ := true
  writeStagingOk _ := true
  fua := true
  flushStatus _ := 0

def blankIo : Io where
  mem _ _ := 0
  medium _ := 0
  flights := []
  done _ := none
  serials := 0
  requests := 0
  bounces := 0
  prpOwner _ := none
  windowActive := false
  borrowers := 0
  scope := none
  log := []
  stored := []
  issued := []

def sizedDisk (size : Nat) : Block.Disk Unit where
  queue := some ⟨size,0⟩
  capacitySectors := 16
  registered := true
  readOnly := false
  dead := false
  readFn := none
  readBatchFn := none
  writeFn := none
  writeBatchFn := none
  writeFlagsFn := none
  flushFn := none

theorem transfers_address_bytes_small :
    ∃ cs,((DiskCall.io .read ⟨8,⟨.caller,4096⟩,4096⟩ 0).run (quickEnv 512) blankIo).2.issued=
        blankIo.issued++cs ∧
      ∀ b,addressed (quickEnv 512).lbaSize cs b ↔
        requested (DiskCall.io .read ⟨8,⟨.caller,4096⟩,4096⟩ 0).requests b := by
  obtain ⟨cs,hcs,hiff⟩ := transfers_address_bytes (sizedDisk 512) (quickEnv 512)
    (.io .read ⟨8,⟨.caller,4096⟩,4096⟩ 0) blankIo 0 (by decide) (by decide)
    (by
      intro q hq
      obtain rfl := List.mem_singleton.mp hq
      decide)
    (by decide +kernel)
  exact ⟨cs,hcs,hiff.mpr (by decide)⟩

/-- With blocks of 4096 bytes the read of sector 8 goes to byte 32768, for eight times as many. -/
theorem read_addresses_other_bytes : Block.diskIoRangeValid (sizedDisk 4096) 8 4096=0 ∧
    ((DiskCall.io .read ⟨8,⟨.caller,4096⟩,4096⟩ 0).run (quickEnv 4096) blankIo).1=0 ∧
    ((DiskCall.io .read ⟨8,⟨.caller,4096⟩,4096⟩ 0).run (quickEnv 4096) blankIo).2.issued.map
      (fun c => (c.slba*4096,(c.nlb+1)*4096))=[(32768,32768)] ∧
    ¬requested [⟨8,⟨.caller,4096⟩,4096⟩] 32768 := by
  refine ⟨by decide +kernel,by decide +kernel,by decide +kernel,?_⟩
  simp [requested,Block.sectorSize]

end Kobox.Nvme
