import Kobox.Nvme.Effects

namespace Kobox.Nvme

open List Option

variable {env : Env} {s t u : Io}

def pieces : Nat → List IoRequest → List (List IoRequest)
  | 0,_ => []
  | fuel+1,qs => if qs=[] then [] else qs.take parallelMax::pieces fuel (qs.drop parallelMax)

variable {fuel : Nat}

theorem drop_shorter {qs : List IoRequest} (h : qs.length ≤ fuel+1) :
    (qs.drop parallelMax).length ≤ fuel := by
  rw [length_drop]
  simp only [parallelMax]
  omega

theorem pieces_flatten {qs : List IoRequest} (h : qs.length≤fuel) :
    (pieces fuel qs).flatten=qs := by
  induction fuel generalizing qs with
  | zero =>
    obtain rfl : qs=[] := length_eq_zero_iff.mp (by omega)
    rfl
  | succ fuel ih =>
    rw [pieces]
    split
    · next he => rw [he,flatten_nil]
    · rw [flatten_cons,ih (drop_shorter h),take_append_drop]

theorem pieces_short {qs : List IoRequest} : ∀ g∈pieces fuel qs,g≠[] ∧ g.length ≤ parallelMax := by
  induction fuel generalizing qs with
  | zero => exact fun g hg => by cases hg
  | succ fuel ih =>
    rw [pieces]
    split
    · exact fun g hg => by cases hg
    next hne =>
    intro g hg
    rcases mem_cons.mp hg with rfl|hg
    · refine ⟨?_,by rw [length_take]; exact Nat.min_le_left ..⟩
      cases qs with
      | nil => exact absurd rfl hne
      | cons q qs => simp [parallelMax]
    · exact ih g hg

inductive Through (post : List IoRequest → Io → Io → Prop) :
    List (List IoRequest) → Io → Io → Prop
  | nil (s : Io) : Through post [] s s
  | cons {g : List IoRequest} {gs : List (List IoRequest)} {s t u : Io} (h : post g s t)
      (hs : Through post gs t u) : Through post (g::gs) s u

theorem inPieces_through {run : List IoRequest → Io → Int × Io} {fit : List IoRequest → Prop}
    {post : List IoRequest → Io → Io → Prop} {fuel : Nat} (qs : List IoRequest)
    (hrun : ∀ g∈pieces fuel qs,∀ s,Idle s → Ends (fit g) (post g s) (run g s)) (hidle : Idle s) :
    Ends (∀ g∈pieces fuel qs,fit g) (Through post (pieces fuel qs) s)
      (inPieces run fuel qs s) := by
  induction fuel generalizing qs s with
  | zero => exact ⟨by simp [inPieces,pieces],fun _ => ⟨hidle,.nil s⟩⟩
  | succ fuel ih =>
    rw [inPieces,pieces] at *
    by_cases hnil : qs=[]
    · rw [if_pos hnil,if_pos hnil]
      exact ⟨by simp,fun _ => ⟨hidle,.nil s⟩⟩
    rw [if_neg hnil] at hrun
    rw [if_neg hnil,if_neg hnil,forall_mem_cons]
    refine (hrun _ mem_cons_self s hidle).next fun hafter hdone => ?_
    have hrest := ih (qs.drop parallelMax) (fun g hg => hrun g (mem_cons_of_mem _ hg)) hafter
    exact hrest.imp Iff.rfl fun t => .cons hdone

def Adjoining : Pointer → List IoRequest → Prop
  | _,[] => True
  | p,q::qs => q.data=p ∧ Adjoining (p.add q.byteCount) qs

instance Chained.decidable : (sector : Nat) → (qs : List IoRequest) → Decidable (Chained sector qs)
  | _,[] => isTrue trivial
  | _,_::qs => @instDecidableAnd _ _ _ (@instDecidableAnd _ _ _ (Chained.decidable _ qs))

instance Adjoining.decidable : (p : Pointer) → (qs : List IoRequest) → Decidable (Adjoining p qs)
  | _,[] => isTrue trivial
  | _,_::qs => @instDecidableAnd _ _ _ (Adjoining.decidable _ qs)

/-- A batch that the driver reads with one command. -/
def ReadsAsOne (env : Env) : List IoRequest → Prop
  | [] => False
  | q::qs => Chained q.sector (q::qs) ∧ Adjoining q.data (q::qs) ∧
      totalBytes (q::qs) ≤ maxTransferBytes env ∧
      q.sector+totalBytes (q::qs)/lbaUnit<wordSize ∧ q.data.addr+totalBytes (q::qs)<wordSize

instance ReadsAsOne.decidable (env : Env) : (qs : List IoRequest) → Decidable (ReadsAsOne env qs)
  | [] => isFalse id
  | q::qs => inferInstanceAs (Decidable (Chained q.sector (q::qs) ∧ Adjoining q.data (q::qs) ∧ _))

theorem continues_iff {limit merged sector : Nat} {p : Pointer} {qs : List IoRequest}
    (hgood : ∀ q∈qs,q.bad=false) :
    ((merged≤limit ∧ sector<wordSize ∧ p.addr<wordSize) ∧
        (qs.foldl (continues limit) (some (merged,sector,p))).isSome) ↔
      Chained sector qs ∧ Adjoining p qs ∧ merged+totalBytes qs≤limit ∧
        sector+totalBytes qs/lbaUnit<wordSize ∧ p.addr+totalBytes qs<wordSize := by
  induction qs generalizing merged sector p with
  | nil => simp [Chained,Adjoining]
  | cons q qs ih =>
    have hq := hgood q mem_cons_self
    obtain ⟨-,-,hmod,hsmall⟩ := bad_eq_false.mp hq
    have hstop : (qs.foldl (continues limit) none).isSome=false := by
      clear ih hgood
      induction qs with
      | nil => rfl
      | cons r rs ih => exact ih
    rw [foldl_cons,continues]
    by_cases hguard : q.bad ∨ limit<q.byteCount ∨ q.sector≠sector ∨ q.data≠p ∨
        limit-q.byteCount < merged ∨ wordSize-1-q.byteCount/lbaUnit<sector ∨
        wordSize-1-q.byteCount<p.addr
    · rw [if_pos hguard,hstop]
      refine ⟨fun h => absurd h.2 (by simp),fun h => ?_⟩
      obtain ⟨⟨hsector,-,-⟩,⟨hdata,-⟩,htotal,hlast,haddr⟩ := h
      simp only [hq,hdata,totalBytes_cons,lbaUnit,ne_eq,not_true_eq_false,
        false_or,Bool.false_eq_true] at *
      omega
    · rw [if_neg hguard]
      simp only [not_or,not_not] at hguard
      obtain ⟨-,hbytes,hsector,hdata,hmerged,hblocks,haddr⟩ := hguard
      have hrest := @ih (merged+q.byteCount) (sector+q.byteCount/lbaUnit) (p.add q.byteCount)
        fun r hr => hgood r (mem_cons_of_mem _ hr)
      have hbounds : (merged≤limit ∧ sector<wordSize ∧ p.addr<wordSize) ∧
          merged+q.byteCount≤limit ∧ sector+q.byteCount/lbaUnit<wordSize ∧
          (p.add q.byteCount).addr<wordSize := by
        simp only [Pointer.add,wordSize,lbaUnit,uint32Max] at *
        omega
      have hsum : sector+q.byteCount/lbaUnit+totalBytes qs/lbaUnit=
          sector+(q.byteCount+totalBytes qs)/lbaUnit := by
        simp only [lbaUnit] at *
        omega
      simp only [hbounds.2,true_and,hsum] at hrest
      simp only [hbounds.1,true_and,Chained,Adjoining,hsector,hdata,hmod,totalBytes_cons]
      rw [hrest]
      simp [Pointer.add,Nat.add_assoc]

theorem contiguous_iff {qs : List IoRequest} (hgood : ∀ q∈qs,q.bad=false) {total : Nat} :
    contiguousReads env qs=some total ↔ ReadsAsOne env qs ∧ total=totalBytes qs := by
  cases qs with
  | nil => simp [contiguousReads,ReadsAsOne]
  | cons q qs =>
    have hiff := @continues_iff (maxTransferBytes env) 0 q.sector q.data (q::qs) hgood
    simp only [Nat.zero_add] at hiff
    constructor
    · intro h
      have htotal := (contiguous_chained h).2
      refine ⟨hiff.mp ⟨?_,?_⟩,htotal⟩
      · have hguard : ¬(q.bad ∨ maxTransferBytes env<q.byteCount ∨ q.sector≠q.sector ∨
            q.data≠q.data ∨ maxTransferBytes env-q.byteCount < 0 ∨
            wordSize-1-q.byteCount/lbaUnit<q.sector ∨ wordSize-1-q.byteCount<q.data.addr) := by
          intro hg
          simp only [contiguousReads,foldl_cons,continues,if_pos hg,map_eq_some_iff] at h
          obtain ⟨m,hm,-⟩ := h
          obtain ⟨k,hk,-⟩ := continues_chained hm
          cases hk
        simp only [wordSize,lbaUnit] at *
        omega
      · simp only [contiguousReads,map_eq_some_iff] at h
        obtain ⟨m,hm,-⟩ := h
        rw [hm]
        rfl
    · rintro ⟨h,rfl⟩
      obtain ⟨m,hm⟩ := isSome_iff_exists.mp (hiff.mpr h).2
      have hsome : contiguousReads env (q::qs)=some m.1 := by
        simp [contiguousReads,hm]
      rw [hsome,(contiguous_chained hsome).2]

variable {medium : Nat → UInt8} {x : Place × Nat}

theorem readByte_split {sector : Nat} {p : Pointer} {m : Nat} {n : Nat} (hm : m%lbaUnit=0) :
    readByte medium ⟨sector,p,m+n⟩ x=
      (readByte medium ⟨sector+m/lbaUnit,p.add m,n⟩ x).or (readByte medium ⟨sector,p,m⟩ x) := by
  simp only [readByte,Pointer.add]
  by_cases hplace : x.1=p.place
  · simp only [hplace,true_and]
    by_cases hback : p.addr+m≤x.2 ∧ x.2<p.addr+m+n
    · have hoff : sector*lbaUnit+(x.2-p.addr)=(sector+m/lbaUnit)*lbaUnit+(x.2-(p.addr+m)) := by
        simp only [lbaUnit] at *
        omega
      rw [if_pos (by omega),if_pos hback,hoff]
      rfl
    · rw [if_neg hback,none_or]
      by_cases hfront : p.addr≤x.2 ∧ x.2<p.addr+m
      · rw [if_pos (by omega),if_pos hfront]
      · rw [if_neg (by omega),if_neg hfront]
  · simp [hplace]

theorem merged_reads {sector : Nat} {p : Pointer} {qs : List IoRequest} (h : Chained sector qs)
    (k : Adjoining p qs) :
    lastOf (qs.map (readByte medium)) x=readByte medium ⟨sector,p,totalBytes qs⟩ x := by
  induction qs generalizing sector p with
  | nil =>
    rw [map_nil,lastOf_nil,totalBytes_nil,readByte,if_neg]
    simp only
    omega
  | cons q qs ih =>
    obtain ⟨hsector,hmod,hchain⟩ := h
    obtain ⟨hdata,hadjoin⟩ := k
    rw [map_cons,lastOf_cons,ih hchain hadjoin,totalBytes_cons,
      readByte_split hmod,← hsector,← hdata]

/-- The commands that are out together for a list that is not cut. -/
def readGroup (env : Env) (qs : List IoRequest) : List IoRequest :=
  match qs with
  | [] => []
  | q::rest => if ReadsAsOne env (q::rest) then [⟨q.sector,q.data,totalBytes (q::rest)⟩] else q::rest

/-- The commands of a read batch, group by group. -/
def readPlan (env : Env) (qs : List IoRequest) : List (List IoRequest) :=
  if ReadsAsOne env qs ∨ qs.length ≤ parallelMax then [readGroup env qs]
  else (pieces qs.length qs).map (readGroup env)

theorem readGroup_single {env : Env} {q : IoRequest} : readGroup env [q]=[q] := by
  simp [readGroup]

theorem readGroup_last {qs : List IoRequest} :
    lastOf ((readGroup env qs).map (readByte medium)) x=lastOf (qs.map (readByte medium)) x := by
  cases qs with
  | nil => rfl
  | cons q qs =>
    rw [readGroup]
    split
    · next h => rw [merged_reads h.1 h.2.1,map_singleton,lastOf_singleton]
    · rfl

theorem readPlan_last {env : Env} (medium : Nat → UInt8) (qs : List IoRequest) (x : Place × Nat) :
    lastOf ((readPlan env qs).map (map (readByte medium))).flatten x=
      lastOf (qs.map (readByte medium)) x := by
  rw [readPlan]
  split
  · simpa using readGroup_last
  have hall : ∀ gs : List (List IoRequest),
      lastOf ((gs.map (readGroup env)).map (map (readByte medium))).flatten x=
        lastOf (gs.flatten.map (readByte medium)) x := by
    intro gs
    induction gs with
    | nil => rfl
    | cons g gs ih =>
      simp only [map_cons,flatten_cons,map_append,lastOf_append,ih,readGroup_last]
  rw [hall,pieces_flatten le_rfl]

/-- Orders in which a device may carry out the commands of a parallel read. -/
structure Orders (env : Env) (order : List IoRequest → List IoRequest → Prop) : Prop where
  single : ∀ q,order [q] [q]
  parallel : ∀ {s qs},Idle s → qs≠[] → qs.length ≤ parallelMax → (∀ q∈qs,OneFits env .read q) →
    (ioParallel env .read qs s).1=0 ∧ Idle (ioParallel env .read qs s).2 ∧
      ∃ xs,order qs xs ∧ Effect .read xs s (ioParallel env .read qs s).2

theorem Prompt.orders (ha : Ample env) (hp : Prompt env) : Orders env fun qs xs => xs.Perm qs :=
  ⟨fun _ => Perm.refl _,fun hidle hne hlen hfit => ioParallel_effect ha hp hidle hne hlen hfit⟩

variable {order : List IoRequest → List IoRequest → Prop}

/-- A group of reads, in an order of the device's choice. -/
def ReadDone (env : Env) (order : List IoRequest → List IoRequest → Prop) (qs : List IoRequest)
    (s t : Io) : Prop :=
  ∃ xs,order (readGroup env qs) xs ∧ Effect .read xs s t

theorem readGroup_spec (ha : Ample env) (hp : Prompt env) (ho : Orders env order) (hidle : Idle s)
    (again : List IoRequest → Io → Int × Io) {qs : List IoRequest}
    (hfew : 2≤qs.length) (hmany : qs.length ≤ batchMax)
    (hcut : ReadsAsOne env qs ∨ qs.length ≤ parallelMax) (hone : ∀ q∈qs,OneFits env .read q) :
    Ends (∀ m∈readGroup env qs,OneFits env .read m) (ReadDone env order qs s)
      (readBatchBody env again qs s) := by
  have hgood : ∀ q∈qs,q.bad=false := fun q hq => (hone q hq).good
  cases qs with
  | nil => simp at hfew
  | cons q rest =>
    rw [readBatchBody.eq_def,if_neg (by omega)]
    by_cases hjoin : ReadsAsOne env (q::rest)
    · have hread := (contiguous_iff hgood).mpr ⟨hjoin,rfl⟩
      have hgroup : readGroup env (q::rest)=[⟨q.sector,q.data,totalBytes (q::rest)⟩] := by
        rw [readGroup,if_pos hjoin]
      have hone := diskIo_effect ha hp hidle .read ⟨q.sector,q.data,totalBytes (q::rest)⟩
      rw [hgroup,forall_mem_singleton,hread]
      exact hone.imp Iff.rfl fun t h => ⟨_,hgroup ▸ ho.single _,h⟩
    · have hread : contiguousReads env (q::rest)=none := by
        cases h : contiguousReads env (q::rest) with
        | none => rfl
        | some total => exact absurd ((contiguous_iff hgood).mp h).1 hjoin
      have hgroup : readGroup env (q::rest)=q::rest := by rw [readGroup,if_neg hjoin]
      have hlen : (q::rest).length ≤ parallelMax := hcut.resolve_left hjoin
      obtain ⟨hok,hafter,hdone⟩ := ho.parallel hidle (cons_ne_nil q rest) hlen hone
      rw [hgroup,hread]
      rw [if_neg (by omega)]
      exact ⟨⟨fun _ => hone,fun _ => hok⟩,fun _ => ⟨hafter,by rwa [ReadDone,hgroup]⟩⟩

theorem Through.reads {gs : List (List IoRequest)} (h : Through (ReadDone env order) gs s t) :
    ∃ xss,Forall₂ order (gs.map (readGroup env)) xss ∧ Effect .read xss.flatten s t := by
  induction h with
  | nil s => exact ⟨[],.nil,Effect.nil .read s⟩
  | cons hg _ ih =>
    obtain ⟨xs,hxs,heffect⟩ := hg
    obtain ⟨xss,hxss,hrest⟩ := ih
    exact ⟨xs::xss,.cons hxs hxss,by rw [flatten_cons]; exact heffect.append hrest⟩

/-- What the driver does with one piece of a long read batch. -/
def readPiece (env : Env) (piece : List IoRequest) (s : Io) : Int × Io :=
  match piece with
  | [q] => diskIo env .read q.sector q.data q.byteCount s
  | piece => readBatchBody env (fun _ s => (einval,s)) piece s

theorem readPiece_spec (ha : Ample env) (hp : Prompt env) (ho : Orders env order) (hidle : Idle s)
    {qs : List IoRequest} (hne : qs≠[]) (hlen : qs.length ≤ parallelMax)
    (hone : ∀ q∈qs,OneFits env .read q) :
    Ends (∀ m∈readGroup env qs,OneFits env .read m) (ReadDone env order qs s)
      (readPiece env qs s) := by
  cases qs with
  | nil => exact absurd rfl hne
  | cons q rest =>
    cases rest with
    | nil =>
      rw [readGroup_single,forall_mem_singleton]
      exact (diskIo_effect ha hp hidle .read q).imp Iff.rfl fun t h =>
        ⟨_,by simpa only [readGroup_single] using ho.single q,h⟩
    | cons q2 rest =>
      exact readGroup_spec ha hp ho hidle _ (by simp) (le_trans hlen (by decide)) (Or.inr hlen) hone

theorem diskReadBatch_spec (ha : Ample env) (hp : Prompt env) (ho : Orders env order)
    (hidle : Idle s) {qs : List IoRequest} (hmany : qs.length ≤ batchMax)
    (hone : ∀ q∈qs,OneFits env .read q) :
    Ends (2≤qs.length ∧ ∀ g∈readPlan env qs,∀ m∈g,OneFits env .read m)
      (fun t => ∃ xss,Forall₂ order (readPlan env qs) xss ∧ Effect .read xss.flatten s t)
      (diskReadBatch env qs s) := by
  by_cases hfew : 2≤qs.length
  · rw [diskReadBatch,readPlan]
    by_cases hcut : ReadsAsOne env qs ∨ qs.length ≤ parallelMax
    · rw [if_pos hcut]
      refine (readGroup_spec ha hp ho hidle _ hfew hmany hcut hone).imp (by simp [hfew]) ?_
      rintro t ⟨xs,hxs,heffect⟩
      exact ⟨[xs],.cons hxs .nil,by simpa using heffect⟩
    · rw [if_neg hcut]
      simp only [not_or,not_le] at hcut
      have hread : contiguousReads env qs=none := by
        cases h : contiguousReads env qs with
        | none => rfl
        | some total =>
          exact absurd ((contiguous_iff fun q hq => (hone q hq).good).mp h).1 hcut.1
      have hbody : readBatchBody env (readBatchBody env fun _ s => (einval,s)) qs s=
          inPieces (readPiece env) qs.length qs s := by
        rw [readBatchBody.eq_def,if_neg (by omega),hread]
        rw [if_pos hcut.2]
        rfl
      have hmem : ∀ g∈pieces qs.length qs,∀ q∈g,OneFits env .read q := by
        intro g hg q hq
        apply hone
        rw [← pieces_flatten (le_refl qs.length)]
        exact mem_flatten.mpr ⟨g,hg,hq⟩
      have hpiece : ∀ g∈pieces qs.length qs,∀ s,Idle s →
          Ends (∀ m∈readGroup env g,OneFits env .read m) (ReadDone env order g s)
            (readPiece env g s) := by
        intro g hg s hs
        obtain ⟨hne,hlen⟩ := pieces_short g hg
        exact readPiece_spec ha hp ho hs hne hlen (hmem g hg)
      rw [hbody]
      exact (inPieces_through qs hpiece hidle).imp (by simp [hfew]) fun t h => h.reads
  · rw [diskReadBatch,readBatchBody.eq_def,if_pos (by omega)]
    exact .fail einval_ne fun h => hfew h.1

end Kobox.Nvme
