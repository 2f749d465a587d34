import Kobox.Nvme.Transfer

namespace Kobox.Nvme

open List

variable {env : Env} {s t u : Io}

/-- Bookkeeping of requests: neither memory nor device notice it. -/
structure Still (s t : Io) : Prop where
  mem : t.mem=s.mem
  medium : t.medium=s.medium
  flights : t.flights=s.flights
  done : t.done=s.done
  serials : t.serials=s.serials
  issued : t.issued=s.issued
  stored : t.stored=s.stored
  log : ∃ events,t.log=s.log++events ∧ ∀ e∈events,e.inFlight=s.flights.map Flight.command

open Still

theorem Still.silent (hmem : t.mem=s.mem) (hmedium : t.medium=s.medium)
    (hflights : t.flights=s.flights) (hdone : t.done=s.done) (hserials : t.serials=s.serials)
    (hissued : t.issued=s.issued) (hstored : t.stored=s.stored) (hlog : t.log=s.log) :
    Still s t :=
  ⟨hmem,hmedium,hflights,hdone,hserials,hissued,hstored,[],by rw [hlog,append_nil],
    fun _ h => by cases h⟩

theorem Still.refl (s : Io) : Still s s := silent rfl rfl rfl rfl rfl rfl rfl rfl

theorem Still.trans (h : Still s t) (k : Still t u) : Still s u := by
  obtain ⟨es,hes,hin⟩ := h.log
  obtain ⟨fs,hfs,hfin⟩ := k.log
  refine ⟨k.mem.trans h.mem,k.medium.trans h.medium,k.flights.trans h.flights,
    k.done.trans h.done,k.serials.trans h.serials,k.issued.trans h.issued,
    k.stored.trans h.stored,es++fs,?_,?_⟩
  · rw [hfs,hes,append_assoc]
  · intro e he
    rcases mem_append.mp he with he|he
    · exact hin e he
    · rw [hfin e he,h.flights]

theorem Still.logged (s : Io) (fate : Fate) (memory : Memory) : Still s (s.logged fate memory) :=
  ⟨rfl,rfl,rfl,rfl,rfl,rfl,rfl,_,rfl,fun _ h => by rw [mem_singleton.mp h]⟩

theorem unmapPrp_still {r : IoRq} {s : Io} : Still s (unmapPrp r s) := by
  unfold unmapPrp
  split
  · exact refl s
  · split
    · exact silent rfl rfl rfl rfl rfl rfl rfl rfl
    · exact refl s
  · exact logged ..

theorem unmapData_still {r : IoRq} {s : Io} : Still s (unmapData r s) := by
  unfold unmapData
  split
  · exact refl s
  · split
    · exact logged ..
    · exact silent rfl rfl rfl rfl rfl rfl rfl rfl
    · exact refl s

theorem freeIoRq_still (r : IoRq) (s : Io) : Still s (freeIoRq r s) :=
  (unmapPrp_still).trans (unmapData_still)

theorem freeAll_still (rs : List IoRq) (s : Io) : Still s (freeAll rs s) := by
  unfold freeAll
  induction rs.reverse generalizing s with
  | nil => exact refl s
  | cons r rs ih =>
    rw [foldl_cons]
    apply trans _ (ih _)
    split
    · exact refl s
    · exact freeIoRq_still r s

theorem allocRequest_still (setup : Setup) (s : Io) : Still s (allocRequest setup s).2 :=
  silent rfl rfl rfl rfl rfl rfl rfl rfl

theorem einval_ne : einval≠0 := by decide
theorem enomem_ne : enomem≠0 := by decide
theorem eopnotsupp_ne : eopnotsupp≠0 := by decide

/-- What a failed mapping leaves on the request, and what a good one does. -/
structure Mapped (p : Pointer) (length : Nat) (r : IoRq) (status : Int) (a : IoRq) : Prop where
  setup : a.setup=r.setup
  serial : a.serial=r.serial
  ok : status=0 → ∃ kind,a.mapped=some ⟨p,length,kind⟩

theorem mapPrp_spec (env : Env) (p : Pointer) (length : Nat) (kind : MapKind) (r r' : IoRq) (s : Io)
    (hm : r.mapped=some ⟨p,length,kind⟩) (hs : r.setup=r'.setup) (hn : r.serial=r'.serial) :
    Still s (mapPrp env r s).2.2 ∧ Mapped p length r' (mapPrp env r s).1 (mapPrp env r s).2.1 := by
  unfold mapPrp
  split
  · next i _ =>
    have hown : Still s { s with prpOwner := Function.update s.prpOwner i (some r.id) } :=
      silent rfl rfl rfl rfl rfl rfl rfl rfl
    exact ⟨hown.trans (logged ..),hs,hn,fun _ => ⟨kind,hm⟩⟩
  · split
    · next hne => exact ⟨unmapData_still,hs,hn,fun h => absurd h hne⟩
    · exact ⟨logged ..,hs,hn,fun _ => ⟨kind,hm⟩⟩

theorem mapKernelBuffer_spec (env : Env) (p : Pointer) (length : Nat) (r : IoRq) (s : Io) :
    Still s (mapKernelBuffer env p length r s).2.2 ∧
      Mapped p length r (mapKernelBuffer env p length r s).1
        (mapKernelBuffer env p length r s).2.1 := by
  have herr : ∀ e : Int,e≠0 → Mapped p length r e r := fun e he =>
    ⟨rfl,rfl,fun h => absurd h he⟩
  unfold mapKernelBuffer
  split
  · exact ⟨refl s,herr _ einval_ne⟩
  split
  · exact ⟨refl s,herr _ eopnotsupp_ne⟩
  split
  · next hne => exact ⟨refl s,herr _ hne⟩
  have hborrow : ∀ (c : Prop) [Decidable c],Still s
      (if c then { s.logged .handed (.data p length) with borrowers := s.borrowers+1 }
      else s.logged .handed (.data p length)) := by
    intro c _
    split
    · exact (logged s .handed (.data p length)).trans (silent rfl rfl rfl rfl rfl rfl rfl rfl)
    · exact logged ..
  split
  · exact ⟨hborrow _,rfl,rfl,fun _ => ⟨_,rfl⟩⟩
  have h := mapPrp_spec env p length (mapKind r.setup.opcode p s)
    { r with mapped := some ⟨p,length,mapKind r.setup.opcode p s⟩ } r
    (if mapKind r.setup.opcode p s=.window then
      { s.logged .handed (.data p length) with borrowers := s.borrowers+1 }
    else s.logged .handed (.data p length)) rfl rfl rfl
  exact ⟨(hborrow _).trans h.1,h.2⟩

theorem mapKernelBuffer_short {p : Pointer} {length : Nat} {r : IoRq}
    (h : (mapKernelBuffer env p length r s).1=0) :
    p.isNull=false ∧ 0<length ∧ 1+followingPages p length ≤ mappingMaxPages ∧
      env.mapStatus s=0 := by
  unfold mapKernelBuffer at h
  split at h
  · exact absurd h einval_ne
  next hp =>
  split at h
  · exact absurd h eopnotsupp_ne
  split at h
  · next hne => exact absurd h hne
  · next hst =>
    rw [not_or] at hp
    exact ⟨by simpa using hp.1,by omega,by omega,by simpa using hst⟩

theorem followingPages_bound {p : Pointer} {length : Nat}
    (h : 1+followingPages p length ≤ mappingMaxPages) : length ≤ mappingMaxPages*nvmePage := by
  simp only [followingPages,nvmePage] at *
  omega

/-- The device turns while the driver waits; the bookkeeping stands still. -/
structure Turned (s t : Io) : Prop where
  serials : t.serials=s.serials
  issued : t.issued=s.issued
  log : t.log=s.log

theorem deviceAct_turned (env : Env) (s : Io) (a : Act) : Turned s (deviceAct env s a) := by
  cases a with
  | exec n =>
    simp only [deviceAct]
    split
    · exact ⟨rfl,rfl,rfl⟩
    · next f _ =>
      split
      · cases hop : f.command.opcode <;> simp only [transfer,hop] <;> exact ⟨rfl,rfl,rfl⟩
      · exact ⟨rfl,rfl,rfl⟩
  | finish n m =>
    simp only [deviceAct]
    split <;> exact ⟨rfl,rfl,rfl⟩

theorem deviceTurn_turned {env : Env} {awaited : Option Nat} (s : Io) :
    Turned s (deviceTurn env awaited s) := by
  unfold deviceTurn
  induction env.turn awaited s generalizing s with
  | nil => exact ⟨rfl,rfl,rfl⟩
  | cons a as ih =>
    have h := deviceAct_turned env s a
    have k := ih (deviceAct env s a)
    exact ⟨k.serials.trans h.serials,k.issued.trans h.issued,k.log.trans h.log⟩

theorem completeRq_turned (env : Env) (r : IoRq) (s : Io) : Turned s (completeRq env r s).2 := by
  unfold completeRq
  split
  · exact ⟨rfl,rfl,rfl⟩
  · split
    · exact ⟨rfl,rfl,rfl⟩
    · simp only
      split <;> exact deviceTurn_turned s

theorem waitAll_turned (env : Env) (rs : List IoRq) (result : Int) (s : Io) :
    Turned s (waitAll env rs result s).2 := by
  induction rs generalizing result s with
  | nil => exact ⟨rfl,rfl,rfl⟩
  | cons r rs ih =>
    rw [waitAll]
    split
    · exact ih result s
    · have h := completeRq_turned env r s
      have k := ih (if result=0 then (completeRq env r s).1 else result) (completeRq env r s).2
      exact ⟨k.serials.trans h.serials,k.issued.trans h.issued,k.log.trans h.log⟩

theorem waitAll_ok {rs : List IoRq} {result : Int} (h : (waitAll env rs result s).1=0) :
    result=0 := by
  induction rs generalizing result s with
  | nil => exact h
  | cons r rs ih =>
    rw [waitAll] at h
    split at h
    · exact ih h
    · by_contra hne
      simp only [if_neg hne] at h
      exact hne (ih h)

def launched (s : Io) (c : Command) : Flight := ⟨c,none,s.bytes c.data c.length⟩

structure Launched (s t : Io) (cs : List Command) : Prop where
  mem : t.mem=s.mem
  medium : t.medium=s.medium
  flights : t.flights=s.flights++cs.map (launched s)
  done : t.done=s.done
  serials : t.serials=s.serials+cs.length
  issued : t.issued=s.issued++cs
  stored : t.stored=s.stored
  log : t.log=s.log
  numbered : ∀ i c,cs[i]?=some c → c.serial=s.serials+i

theorem Launched.nil (s : Io) : Launched s s [] :=
  ⟨rfl,rfl,(append_nil _).symm,rfl,rfl,(append_nil _).symm,rfl,rfl,
    fun i c h => by simp at h⟩

theorem Launched.trans {cs ds : List Command} (h : Launched s t cs) (k : Launched t u ds) :
    Launched s u (cs++ds) := by
  have hl : launched t=launched s := by
    funext c
    simp [launched,Io.bytes,h.mem]
  refine ⟨k.mem.trans h.mem,k.medium.trans h.medium,?_,k.done.trans h.done,?_,?_,
    k.stored.trans h.stored,k.log.trans h.log,?_⟩
  · rw [k.flights,h.flights,hl,map_append,append_assoc]
  · rw [k.serials,h.serials,length_append]
    omega
  · rw [k.issued,h.issued,append_assoc]
  intro i c hi
  by_cases hlt : i<cs.length
  · rw [getElem?_append_left hlt] at hi
    exact h.numbered i c hi
  · rw [getElem?_append_right (by omega)] at hi
    rw [k.numbered _ c hi,h.serials]
    omega

theorem submitIoRq_spec (env : Env) (r : IoRq) (s : Io) :
    ((submitIoRq env r s).1≠0 ∧ (submitIoRq env r s).2=(r,s)) ∨
    ∃ m,r.mapped=some m ∧ (submitIoRq env r s).1=0 ∧
      (submitIoRq env r s).2.1={ r with serial := some s.serials } ∧
      Launched s (submitIoRq env r s).2.2 [r.command m s.serials] := by
  unfold submitIoRq
  split
  · next h => exact Or.inl ⟨h,rfl⟩
  split
  · exact Or.inl ⟨einval_ne,rfl⟩
  next m hm =>
  refine Or.inr ⟨m,hm,rfl,rfl,rfl,rfl,rfl,rfl,rfl,rfl,rfl,rfl,?_⟩
  intro i c hi
  cases i with
  | zero =>
    obtain rfl : r.command m s.serials=c := by simpa using hi
    rfl
  | succ i => simp at hi

theorem submitAll_spec (env : Env) (rs : List IoRq) (s : Io) (hrs : ∀ r∈rs,r.serial=none) :
    ∃ cs,Launched s (submitAll env rs s).2.2 cs ∧
      (submitAll env rs s).2.1.filterMap IoRq.serial=cs.map Command.serial ∧
      (∀ c∈cs,∃ r∈rs,c.toSetup=r.setup) ∧
      ((submitAll env rs s).1=0 → Forall₂ (fun r c =>
        ∃ m,r.mapped=some m ∧ c=r.command m c.serial) rs cs) := by
  induction rs generalizing s with
  | nil => exact ⟨[],Launched.nil s,rfl,fun _ h => (by cases h),fun _ => .nil⟩
  | cons r rs ih =>
    rw [submitAll]
    rcases submitIoRq_spec env r s with ⟨hne,heq⟩|⟨m,hm,hok,hr,hl⟩
    · refine ⟨[],?_⟩
      simp only [if_pos hne]
      refine ⟨Launched.nil s,?_,fun _ h => (by cases h),fun h => absurd h hne⟩
      rw [map_nil,filterMap_eq_nil_iff]
      exact fun q hq => hrs q hq
    · obtain ⟨cs,hcs,hserials,hsetup,hall⟩ :=
        ih (submitIoRq env r s).2.2 (fun q hq => hrs q (mem_cons_of_mem _ hq))
      simp only [hok,ne_eq,not_true_eq_false,if_false]
      refine ⟨r.command m s.serials::cs,hl.trans hcs,?_,?_,fun h => .cons ⟨m,hm,rfl⟩ (hall h)⟩
      · rw [hr,filterMap_cons]
        simp only [hserials]
        rfl
      · intro c hc
        rcases mem_cons.mp hc with rfl|hc
        · exact ⟨r,mem_cons_self,rfl⟩
        · obtain ⟨q,hq,heq⟩ := hsetup c hc
          exact ⟨q,mem_cons_of_mem _ hq,heq⟩

structure Ready (opcode : Opcode) (q : IoRequest) (r : IoRq) : Prop where
  good : q.bad=false
  setup : r.setup=parallelSetup opcode q
  mapped : ∃ kind,r.mapped=some ⟨q.data,q.byteCount,kind⟩
  short : 1+followingPages q.data q.byteCount ≤ mappingMaxPages

theorem prepareAll_spec {env : Env} {opcode : Opcode} {qs : List IoRequest} (s : Io) :
    Still s (prepareAll env opcode qs s).2.2 ∧
      (∀ r∈(prepareAll env opcode qs s).2.1,r.serial=none ∧ r.setup.opcode=opcode) ∧
      ((prepareAll env opcode qs s).1=0 →
        Forall₂ (Ready opcode) qs (prepareAll env opcode qs s).2.1) := by
  induction qs generalizing s with
  | nil => exact ⟨refl s,fun _ h => (by cases h),fun _ => .nil⟩
  | cons q qs ih =>
    rw [prepareAll]
    split
    · exact ⟨refl s,fun _ h => (by cases h),fun h => absurd h einval_ne⟩
    next hgood =>
    split
    · exact ⟨refl s,fun _ h => (by cases h),fun h => absurd h enomem_ne⟩
    have halloc := allocRequest_still (parallelSetup opcode q) s
    generalize hal : allocRequest (parallelSetup opcode q) s=a at halloc
    have hset : a.1.setup=parallelSetup opcode q := by rw [← hal]; rfl
    have hnum : a.1.serial=none := by rw [← hal]; rfl
    have hmap := mapKernelBuffer_spec env q.data q.byteCount a.1 a.2
    have hshort : (mapKernelBuffer env q.data q.byteCount a.1 a.2).1=0 →
        1+followingPages q.data q.byteCount ≤ mappingMaxPages := fun h =>
      (mapKernelBuffer_short h).2.2.1
    simp only
    generalize mapKernelBuffer env q.data q.byteCount a.1 a.2=b at hmap hshort
    obtain ⟨hstill,hspec⟩ := hmap
    have hnew : b.2.1.serial=none ∧ b.2.1.setup.opcode=opcode := by
      refine ⟨hspec.serial.trans hnum,?_⟩
      rw [hspec.setup,hset]
      rfl
    split
    · next hne =>
      refine ⟨halloc.trans hstill,?_,fun h => absurd h hne⟩
      intro r hr
      rw [mem_singleton.mp hr]
      exact hnew
    · next hok =>
      have hok : b.1=0 := by simpa using hok
      obtain ⟨h1,h2,h3⟩ := ih b.2.2
      refine ⟨(halloc.trans hstill).trans h1,?_,?_⟩
      · intro r hr
        rcases mem_cons.mp hr with rfl|hr
        · exact hnew
        · exact h2 r hr
      · intro h
        exact .cons ⟨by simpa using hgood,hspec.setup.trans hset,hspec.ok hok,hshort hok⟩ (h3 h)

end Kobox.Nvme
