import Kobox.Nvme.Addressing
import Kobox.Nvme.Staging

namespace Kobox.Nvme

open List Function
open Block (Request)

variable {env : Env} {s t : Io}

/-- The command was given some of this memory. -/
def Command.holds (c : Command) : Memory → Bool
  | .data p n => p.place=c.data.place && p.addr<c.data.addr+c.length && c.data.addr<p.addr+n
  | .prp page => c.prp=some page

/-- What a command was given stays its own until its completion is consumed, a write stores what it
was to, and the device changes only memory of reads in flight. -/
structure MemoryKept (env : Env) (s : Io) : Prop where
  undisturbed : ∀ e∈s.log,∀ c∈e.inFlight,c.holds e.memory=false
  stored : ∀ w∈s.stored,w.asked=w.actual
  reads : ∀ act place a,(deviceAct env s act).mem place a≠s.mem place a →
    ∃ f∈s.flights,f.command.opcode=.read ∧ f.command.holds (.data ⟨place,a⟩ 1)=true

theorem moved_le (env : Env) (c : Command) : c.moved env ≤ c.length := Nat.min_le_right ..

theorem transfer_mem {c : Command} {place : Place} {a : Nat}
    (h : (transfer env c s).mem place a≠s.mem place a) :
    c.opcode=.read ∧ c.holds (.data ⟨place,a⟩ 1)=true := by
  cases hop : c.opcode with
  | write =>
    simp only [transfer,hop] at h
    exact absurd rfl h
  | read =>
    simp only [transfer,hop] at h
    have hin : place=c.data.place ∧ c.data.addr≤a ∧ a<c.data.addr+c.moved env := by
      by_contra hout
      rw [if_neg hout] at h
      exact h rfl
    have hlen := moved_le env c
    refine ⟨rfl,?_⟩
    simp only [Command.holds,Bool.and_eq_true,decide_eq_true_eq]
    exact ⟨⟨hin.1,by omega⟩,by omega⟩

theorem deviceAct_mem (act : Act) (place : Place) (a : Nat)
    (h : (deviceAct env s act).mem place a≠s.mem place a) :
    ∃ f∈s.flights,f.command.opcode=.read ∧ f.command.holds (.data ⟨place,a⟩ 1)=true := by
  cases act with
  | exec n =>
    simp only [deviceAct] at h
    split at h
    · exact absurd rfl h
    next f hf =>
    refine ⟨f,mem_of_find?_eq_some hf,?_⟩
    by_cases hst : env.status f.command=0
    · simp only [if_pos hst] at h
      exact transfer_mem h
    · simp only [if_neg hst] at h
      exact absurd rfl h
  | finish n m =>
    simp only [deviceAct] at h
    split at h <;> exact absurd rfl h

/-- Completions go to their own request, and a wait ends when the awaited completion is consumed. -/
structure Prompt (env : Env) : Prop where
  own : ∀ awaited s n m,.finish n m∈env.turn awaited s → m=n
  ends : ∀ s n,∀ f∈(deviceTurn env (some n) s).flights,f.command.serial≠n

/-- Commands of one call, which move data in one direction only. -/
structure Aloft (opcode : Opcode) (s : Io) : Prop where
  uniform : ∀ f∈s.flights,f.command.opcode=opcode
  asked : ∀ f∈s.flights,f.command.opcode=.write → f.asked=s.bytes f.command.data f.command.length
  live : ∀ f∈s.flights,s.done f.command.serial=none ∧ f.command.serial<s.serials
  unused : ∀ n,s.serials≤n → s.done n=none
  stored : ∀ w∈s.stored,w.asked=w.actual
  log : ∀ e∈s.log,e.inFlight=[]

/-- Between two calls of a prompt device nothing is in flight. -/
structure Calm (s : Io) : Prop where
  flights : s.flights=[]
  unused : ∀ n,s.serials≤n → s.done n=none
  stored : ∀ w∈s.stored,w.asked=w.actual
  log : ∀ e∈s.log,e.inFlight=[]

theorem Calm.aloft (h : Calm s) (opcode : Opcode) : Aloft opcode s := by
  have hnone : ∀ f,f∉s.flights := by simp [h.flights]
  exact ⟨fun f hf => absurd hf (hnone f),fun f hf => absurd hf (hnone f),
    fun f hf => absurd hf (hnone f),h.unused,h.stored,h.log⟩

variable {opcode : Opcode}

theorem Aloft.calm (h : Aloft opcode s) (hn : s.flights=[]) : Calm s := ⟨hn,h.unused,h.stored,h.log⟩

theorem Calm.kept (h : Calm s) (env : Env) : MemoryKept env s := by
  refine ⟨?_,h.stored,deviceAct_mem⟩
  intro e he c hc
  rw [h.log e he] at hc
  cases hc

theorem Calm.still (h : Calm s) (k : Still s t) : Calm t := by
  obtain ⟨events,hlog,hin⟩ := k.log
  refine ⟨k.flights.trans h.flights,?_,?_,?_⟩
  · rw [k.serials,k.done]
    exact h.unused
  · rw [k.stored]
    exact h.stored
  intro e he
  rw [hlog] at he
  rcases mem_append.mp he with he|he
  · exact h.log e he
  · rw [hin e he,h.flights,map_nil]

theorem Calm.congr (h : Calm s) (hflights : t.flights=s.flights) (hdone : t.done=s.done)
    (hserials : t.serials=s.serials) (hstored : t.stored=s.stored) (hlog : t.log=s.log) :
    Calm t := by
  refine ⟨hflights.trans h.flights,?_,?_,?_⟩
  · rw [hserials,hdone]
    exact h.unused
  · rw [hstored]
    exact h.stored
  · rw [hlog]
    exact h.log

theorem Calm.logged (h : Calm s) (fate : Fate) (memory : Memory) : Calm (s.logged fate memory) :=
  h.still (Still.logged ..)

theorem Calm.copy (h : Calm s) (dst src : Pointer) (n : Nat) : Calm (s.copy dst src n) :=
  h.congr rfl rfl rfl rfl rfl

structure Executed (env : Env) (n : Nat) (f : Flight) (s t : Io) : Prop where
  flights : t.flights=s.flights.map (mark n (env.status f.command))
  mem : f.command.opcode=.write → t.mem=s.mem
  done : t.done=s.done
  serials : t.serials=s.serials
  log : t.log=s.log
  stored : t.stored=s.stored ∨ (f.command.opcode=.write ∧
    t.stored=s.stored++[⟨f.asked,s.bytes f.command.data f.command.length⟩])

theorem deviceAct_exec {env : Env} {s : Io} {n : Nat} : deviceAct env s (.exec n)=s ∨
      ∃ f∈s.flights,Executed env n f s (deviceAct env s (.exec n)) := by
  simp only [deviceAct]
  split
  · exact Or.inl rfl
  next f hf =>
  refine Or.inr ⟨f,mem_of_find?_eq_some hf,?_⟩
  by_cases hst : env.status f.command=0
  · cases hop : f.command.opcode with
    | read =>
      simp only [if_pos hst,transfer,hop]
      exact ⟨rfl,fun h => by simp [hop] at h,rfl,rfl,rfl,Or.inl (by simp)⟩
    | write =>
      simp only [if_pos hst,transfer,hop]
      exact ⟨rfl,fun _ => rfl,rfl,rfl,rfl,Or.inr ⟨hop,by simp [hst]⟩⟩
  · simp only [if_neg hst]
    exact ⟨rfl,fun _ => rfl,rfl,rfl,rfl,Or.inl (by simp [hst])⟩

theorem Aloft.exec (h : Aloft opcode s) (env : Env) (n : Nat) :
    Aloft opcode (deviceAct env s (.exec n)) := by
  rcases deviceAct_exec with heq|⟨f,hf,hx⟩
  · rw [heq]
    exact h
  generalize deviceAct env s (.exec n)=t at hx ⊢
  have hmarked : ∀ g∈t.flights,∃ g'∈s.flights,g.command=g'.command ∧ g.asked=g'.asked := by
    intro g hg
    rw [hx.flights] at hg
    obtain ⟨g',hg',rfl⟩ := mem_map.mp hg
    refine ⟨g',hg',?_⟩
    unfold mark
    split <;> exact ⟨rfl,rfl⟩
  refine ⟨?_,?_,?_,?_,?_,?_⟩
  · intro g hg
    obtain ⟨g',hg',hc,_⟩ := hmarked g hg
    rw [hc]
    exact h.uniform g' hg'
  · intro g hg hw
    obtain ⟨g',hg',hc,ha⟩ := hmarked g hg
    have hop : f.command.opcode=.write := by
      rw [h.uniform f hf,← h.uniform g' hg',← hc,hw]
    rw [ha,hc,Io.bytes,hx.mem hop]
    exact h.asked g' hg' (by rw [← hc,hw])
  · intro g hg
    obtain ⟨g',hg',hc,_⟩ := hmarked g hg
    rw [hc,hx.done,hx.serials]
    exact h.live g' hg'
  · rw [hx.serials,hx.done]
    exact h.unused
  · intro w hw
    rcases hx.stored with heq|⟨hop,heq⟩
    · exact h.stored w (heq ▸ hw)
    rw [heq] at hw
    rcases mem_append.mp hw with hw|hw
    · exact h.stored w hw
    · rw [mem_singleton.mp hw]
      exact h.asked f hf hop
  · rw [hx.log]
    exact h.log

theorem Aloft.finish (h : Aloft opcode s) (env : Env) (n : Nat) :
    Aloft opcode (deviceAct env s (.finish n n)) := by
  simp only [deviceAct]
  split
  · exact h
  next f hf =>
  have hfm := mem_of_find?_eq_some hf
  have hfn : f.command.serial=n := by
    have := find?_some hf
    simp only [decide_eq_true_eq] at this
    exact this.1
  have hsub : ∀ g∈s.flights.filter (fun g => g.command.serial≠n),
      g∈s.flights ∧ g.command.serial≠n := by
    intro g hg
    simpa using mem_filter.mp hg
  refine ⟨fun g hg => h.uniform g (hsub g hg).1,fun g hg => h.asked g (hsub g hg).1,?_,?_,
    h.stored,h.log⟩
  · intro g hg
    obtain ⟨hgm,hne⟩ := hsub g hg
    simp only [update_of_ne hne]
    exact h.live g hgm
  · intro k hk
    have hlt := (h.live f hfm).2
    have hne : k≠n := by
      have : s.serials≤k := hk
      omega
    simp only [update_of_ne hne]
    exact h.unused k hk

def flying (s : Io) : List Nat := s.flights.map fun f => f.command.serial

variable {n : Nat}

theorem mem_flying : n∈flying s ↔ ∃ f∈s.flights,f.command.serial=n := by
  simp [flying]

theorem mark_serial {n status : Nat} {f : Flight} :
    (mark n status f).command.serial=f.command.serial := by
  unfold mark
  split <;> rfl

theorem deviceAct_flying {env : Env} {s : Io} {act : Act} :
    flying (deviceAct env s act) ⊆ flying s := by
  cases act with
  | exec n =>
    simp only [deviceAct]
    split
    · exact Subset.refl _
    · simp [flying,mark_serial,comp_def]
  | finish n m =>
    simp only [deviceAct]
    split
    · exact Subset.refl _
    · exact map_subset _ (filter_subset_self _)

theorem foldl_flying (env : Env) (acts : List Act) (s : Io) :
    flying (acts.foldl (deviceAct env) s) ⊆ flying s := by
  induction acts generalizing s with
  | nil => exact Subset.refl _
  | cons act acts ih => exact Subset.trans (ih _) (deviceAct_flying)

theorem Aloft.turn (h : Aloft opcode s) (hp : Prompt env) (awaited : Option Nat) :
    Aloft opcode (deviceTurn env awaited s) := by
  have hall : ∀ acts : List Act,(∀ n m,.finish n m∈acts → m=n) → ∀ s,Aloft opcode s →
      Aloft opcode (acts.foldl (deviceAct env) s) := by
    intro acts
    induction acts with
    | nil => exact fun _ _ h => h
    | cons act acts ih =>
      intro hown s hs
      apply ih (fun n m hm => hown n m (mem_cons_of_mem _ hm))
      cases act with
      | exec n => exact hs.exec env n
      | finish n m =>
        obtain rfl := hown n m mem_cons_self
        exact hs.finish env _
  exact hall _ (hp.own awaited s) s h

theorem Calm.turn (h : Calm s) (hp : Prompt env) (awaited : Option Nat) :
    Calm (deviceTurn env awaited s) := by
  apply ((h.aloft .read).turn hp awaited).calm
  have hsub := foldl_flying env (env.turn awaited s) s
  have hnil : flying s=[] := by simp [flying,h.flights]
  rw [hnil] at hsub
  simpa [flying,deviceTurn] using hsub

theorem completeRq_lands (h : Aloft opcode s) (hp : Prompt env) {r : IoRq} (hr : r.serial=some n) :
    Aloft opcode (completeRq env r s).2 ∧ flying (completeRq env r s).2 ⊆ flying s ∧
      n∉flying (completeRq env r s).2 := by
  have hturn : n∉flying (deviceTurn env (some n) s) := by
    intro hin
    obtain ⟨f,hf,hn⟩ := mem_flying.mp hin
    exact hp.ends s n f hf hn
  have hwait : (completeRq env r s).2=deviceTurn env (some n) s ∨
      ((completeRq env r s).2=s ∧ s.done n≠none) := by
    rw [completeRq,hr]
    simp only
    split
    · next hd => exact Or.inr ⟨rfl,by rw [hd]; simp⟩
    · split <;> exact Or.inl rfl
  rcases hwait with heq|⟨heq,hdone⟩
  · rw [heq]
    exact ⟨h.turn hp _,foldl_flying env _ s,hturn⟩
  rw [heq]
  refine ⟨h,Subset.refl _,?_⟩
  intro hin
  obtain ⟨f,hf,rfl⟩ := mem_flying.mp hin
  exact hdone (h.live f hf).1

theorem waitAll_lands (hp : Prompt env) {rs : List IoRq} (result : Int) (h : Aloft opcode s)
    (hall : flying s ⊆ rs.filterMap IoRq.serial) : Calm (waitAll env rs result s).2 := by
  induction rs generalizing result s with
  | nil =>
    apply h.calm
    simpa [flying] using subset_nil.mp hall
  | cons r rs ih =>
    rw [waitAll]
    cases hr : r.serial with
    | none =>
      apply ih _ h
      simpa [hr] using hall
    | some n =>
      obtain ⟨haloft,hsub,hnot⟩ := completeRq_lands h hp hr
      apply ih _ haloft
      intro k hk
      have hin := hall (hsub hk)
      rw [filterMap_cons,hr] at hin
      rcases mem_cons.mp hin with rfl|hin
      · exact absurd hk hnot
      · exact hin

section

variable {qs : List IoRequest} {rs : List Request} {r : Request} {sector byteCount : Nat}
  {data : Pointer} (h : Calm s)

include h

theorem Calm.launch {cs : List Command} (k : Launched s t cs)
    (hcs : ∀ c∈cs,c.opcode=opcode) : Aloft opcode t ∧ flying t=cs.map Command.serial := by
  have hfl : t.flights=cs.map (launched s) := by rw [k.flights,h.flights,nil_append]
  have hmem : ∀ f∈t.flights,∃ c∈cs,f=launched s c := by
    intro f hf
    rw [hfl] at hf
    obtain ⟨c,hc,rfl⟩ := mem_map.mp hf
    exact ⟨c,hc,rfl⟩
  refine ⟨⟨?_,?_,?_,?_,?_,?_⟩,?_⟩
  · intro f hf
    obtain ⟨c,hc,rfl⟩ := hmem f hf
    exact hcs c hc
  · intro f hf _
    obtain ⟨c,hc,rfl⟩ := hmem f hf
    simp [launched,Io.bytes,k.mem]
  · intro f hf
    obtain ⟨c,hc,rfl⟩ := hmem f hf
    obtain ⟨i,hi⟩ := getElem?_of_mem hc
    have hn := k.numbered i c hi
    have hlt : i<cs.length := (List.getElem?_eq_some_iff.mp hi).1
    simp only [launched]
    rw [k.done,k.serials]
    exact ⟨h.unused _ (by omega),by omega⟩
  · intro n hn
    rw [k.serials] at hn
    rw [k.done]
    exact h.unused n (by omega)
  · rw [k.stored]
    exact h.stored
  · rw [k.log]
    exact h.log
  · rw [flying,hfl,map_map]
    rfl

theorem inPieces_calm {run : List IoRequest → Io → Int × Io}
    (hrun : ∀ piece s,Calm s → Calm (run piece s).2) {fuel : Nat} :
    Calm (inPieces run fuel qs s).2 := by
  induction fuel generalizing qs s with
  | zero => exact h
  | succ fuel ih =>
    rw [inPieces]
    split
    · exact h
    · simp only
      split
      · exact hrun _ _ h
      · exact ih (hrun _ _ h)

theorem gather_calm {dst : Pointer} : Calm (gather dst qs s) := by
  induction qs generalizing dst s with
  | nil => exact h
  | cons q qs ih => exact ih (h.copy ..)

theorem windowBegin_calm (hb : windowBegin env s=some t) : Calm t := by
  rw [windowBegin] at hb
  split at hb
  · cases hb
  · obtain rfl := Option.some.inj hb
    exact h.congr rfl rfl rfl rfl rfl

theorem windowEnd_calm : Calm (windowEnd s) := by
  rw [windowEnd]
  split
  · exact h
  · exact h.congr rfl rfl rfl rfl rfl

theorem readWindowBegin_calm {buffer length : Nat} : Calm (readWindowBegin env buffer length s).2 := by
  rw [readWindowBegin]
  split
  · exact h
  split
  · exact h
  split
  · exact h
  split
  · exact h
  · next hb => exact (windowBegin_calm h hb).congr rfl rfl rfl rfl rfl

theorem readWindowEnd_calm : Calm (readWindowEnd s) := by
  rw [readWindowEnd]
  split
  · exact h
  · exact (windowEnd_calm h).congr rfl rfl rfl rfl rfl

theorem copyOut_calm {width i : Nat} : Calm (copyOut width i rs s) := by
  induction rs generalizing i s with
  | nil => exact h
  | cons r rs ih => exact ih (h.copy ..)

theorem stageWrites_calm {offset : Nat} : Calm (stageWrites offset rs s).2 := by
  induction rs generalizing offset s with
  | nil => exact h
  | cons r rs ih => exact ih ((h.logged ..).copy ..)

theorem handBack_calm : Calm (handBack rs s) := by
  induction rs generalizing s with
  | nil => exact h
  | cons r rs ih => exact ih (h.logged ..)

variable (hp : Prompt env)

include hp

theorem executeRq_calm {r : IoRq} : Calm (executeRq env r s).2.2 := by
  rw [executeRq]
  rcases submitIoRq_spec env r s with ⟨hne,heq⟩|⟨m,hm,hok,hr,hl⟩
  · simp only [if_pos hne,heq]
    exact h
  simp only [hok]
  have hone : ∀ c∈[r.command m s.serials],c.opcode=r.setup.opcode := by
    intro c hc
    rw [mem_singleton.mp hc]
    rfl
  obtain ⟨haloft,hfly⟩ := h.launch hl hone
  have hserial : (submitIoRq env r s).2.1.serial=some s.serials := by rw [hr]
  obtain ⟨hafter,hsub,hnot⟩ := completeRq_lands haloft hp hserial
  apply hafter.calm
  have hnil : flying (completeRq env (submitIoRq env r s).2.1 (submitIoRq env r s).2.2).2=[] := by
    apply eq_nil_iff_forall_not_mem.mpr
    intro k hk
    have hk' := hsub hk
    rw [hfly] at hk'
    obtain rfl := mem_singleton.mp hk'
    exact hnot hk
  simpa [flying] using hnil

theorem diskIoFlags_calm {flags : Nat} :
    Calm (diskIoFlags env opcode sector data byteCount flags s).2 := by
  rw [diskIoFlags]
  split
  · exact h
  split
  · exact h
  split
  · exact h
  split
  · exact h
  have halloc := h.still (allocRequest_still (singleSetup opcode sector byteCount flags) s)
  have hmap := halloc.still (mapKernelBuffer_spec env data byteCount
    (allocRequest (singleSetup opcode sector byteCount flags) s).1 _).1
  simp only
  split
  · exact hmap.still (freeIoRq_still _ _)
  · exact (executeRq_calm hmap hp).still (freeIoRq_still _ _)

theorem diskIo_calm : Calm (diskIo env opcode sector data byteCount s).2 := diskIoFlags_calm h hp

theorem ioParallel_calm : Calm (ioParallel env opcode qs s).2 := by
  rw [ioParallel]
  split
  · exact h
  obtain ⟨hstill,hready,-⟩ := prepareAll_spec s
  have hprep := h.still hstill
  simp only
  split
  · exact hprep.still (freeAll_still _ _)
  obtain ⟨cs,hl,hserials,hsetup,-⟩ := submitAll_spec env (prepareAll env opcode qs s).2.1
    (prepareAll env opcode qs s).2.2 fun r hr => (hready r hr).1
  have hcs : ∀ c∈cs,c.opcode=opcode := by
    intro c hc
    obtain ⟨r,hr,heq⟩ := hsetup c hc
    rw [heq]
    exact (hready r hr).2
  obtain ⟨haloft,hfly⟩ := hprep.launch hl hcs
  have hland := waitAll_lands hp (submitAll env (prepareAll env opcode qs s).2.1
    (prepareAll env opcode qs s).2.2).1 haloft (by rw [hfly,hserials]; exact Subset.refl _)
  exact hland.still (freeAll_still _ _)

theorem readBatchBody_calm {again : List IoRequest → Io → Int × Io}
    (hagain : ∀ piece s,Calm s → Calm (again piece s).2) : Calm (readBatchBody env again qs s).2 := by
  rw [readBatchBody.eq_def]
  split
  · exact h
  split
  · exact diskIo_calm h hp
  split
  · refine inPieces_calm h fun piece s hs => ?_
    split
    · exact diskIo_calm hs hp
    · exact hagain _ _ hs
  · exact ioParallel_calm h hp

theorem diskReadBatch_calm : Calm (diskReadBatch env qs s).2 :=
  readBatchBody_calm h hp fun _ _ hs => readBatchBody_calm hs hp fun _ _ hs => hs

theorem bounceWrite_calm : Calm (bounceWrite env qs s).2 := by
  rw [bounceWrite.eq_def]
  split
  · exact h
  · split
    · exact h
    · have hnew : Calm { s with bounces := s.bounces+1 } := h.congr rfl rfl rfl rfl rfl
      exact (diskIo_calm (gather_calm hnew) hp).logged ..

theorem bounceChunks_calm {fuel : Nat} : Calm (bounceChunks env fuel qs s).2 := by
  induction fuel generalizing qs s with
  | zero => exact h
  | succ fuel ih =>
    rw [bounceChunks]
    split
    · exact h
    simp only
    split
    · exact h
    · split
      · exact bounceWrite_calm h hp
      · exact ih (bounceWrite_calm h hp)

theorem writeBatchBody_calm {again : List IoRequest → Io → Int × Io}
    (hagain : ∀ piece s,Calm s → Calm (again piece s).2) : Calm (writeBatchBody env again qs s).2 := by
  rw [writeBatchBody.eq_def]
  split
  · exact h
  split
  · exact h
  · exact diskIo_calm h hp
  split
  · exact h
  split
  · exact diskIo_calm h hp
  split
  · exact bounceWrite_calm h hp
  split
  · exact bounceChunks_calm h hp
  split
  · exact inPieces_calm h hagain
  · exact ioParallel_calm h hp

theorem diskWriteBatch_calm : Calm (diskWriteBatch env qs s).2 :=
  writeBatchBody_calm h hp fun _ _ hs => writeBatchBody_calm hs hp fun _ _ hs => hs

theorem stagedRead_calm : Calm (stagedRead env r s).2 := by
  have hio : Calm (diskIo env .read r.sector ⟨.readStaging,0⟩ r.byteCount s).2 := diskIo_calm h hp
  simp only [stagedRead]
  split
  · exact hio.copy ..
  · exact hio

theorem shimDiskRead_calm : Calm (shimDiskRead env r s).2 := by
  rw [shimDiskRead]
  split
  · split
    · exact stagedRead_calm h hp
    · exact diskIo_calm h hp
  · split
    · exact diskIo_calm h hp
    · split
      · exact diskIo_calm h hp
      · next hb => exact windowEnd_calm (stagedRead_calm (windowBegin_calm h hb) hp)

theorem readOneByOne_calm : Calm (readOneByOne env rs s).2 := by
  induction rs generalizing s with
  | nil => exact h
  | cons r rs ih =>
    rw [readOneByOne]
    split
    · exact shimDiskRead_calm h hp
    · exact ih (shimDiskRead_calm h hp)

theorem shimDiskReadBatch_calm : Calm (shimDiskReadBatch env rs s).2 := by
  have hopen : ∀ u,(if s.scope.isNone then windowBegin env s else some s)=some u → Calm u := by
    intro u hu
    split at hu
    · exact windowBegin_calm h hu
    · exact Option.some.inj hu ▸ h
  rw [shimDiskReadBatch]
  split
  · exact h
  split
  · exact h
  split
  · exact h
  split
  · exact h
  split
  · exact readOneByOne_calm h hp
  simp only
  split
  · exact h
  next u hu =>
  have hbatch : Calm (diskReadBatch env (slices (stride rs) 0 rs) u).2 :=
    diskReadBatch_calm (hopen u hu) hp
  have hout : Calm (if (diskReadBatch env (slices (stride rs) 0 rs) u).1=0 then
      copyOut (stride rs) 0 rs (diskReadBatch env (slices (stride rs) 0 rs) u).2
    else (diskReadBatch env (slices (stride rs) 0 rs) u).2) := by
    split
    · exact copyOut_calm hbatch
    · exact hbatch
  split
  · exact windowEnd_calm hout
  · exact hout

theorem shimDiskWriteFlags_calm {flags : Nat} : Calm (shimDiskWriteFlags env r flags s).2 := by
  have hwrite : Calm (shimDiskWrite env r s).2 := diskIo_calm h hp
  rw [shimDiskWriteFlags]
  split
  · exact h
  split
  · exact diskIoFlags_calm h hp
  · simp only
    split
    · exact hwrite.turn hp none
    · exact hwrite

theorem shimDiskWriteBatch_calm : Calm (shimDiskWriteBatch env rs s).2 := by
  rw [shimDiskWriteBatch]
  split
  · exact h
  split
  · exact diskWriteBatch_calm (stageWrites_calm h) hp
  · exact diskWriteBatch_calm h hp

theorem diskStep_calm {e : DiskEvent} : Calm (diskStep env s e) := by
  cases e with
  | read r => exact handBack_calm (shimDiskRead_calm h hp)
  | readBatch rs => exact handBack_calm (shimDiskReadBatch_calm h hp)
  | write r => exact handBack_calm (diskIo_calm h hp)
  | writeFlags r flags => exact handBack_calm (shimDiskWriteFlags_calm h hp)
  | writeBatch rs => exact handBack_calm (shimDiskWriteBatch_calm h hp)
  | openScope buffer length => exact readWindowBegin_calm h
  | closeScope => exact readWindowEnd_calm h
  | touch f => exact h.congr rfl rfl rfl rfl rfl
  | idle => exact h.turn hp none

end

/-- A disk that no command has reached yet, with any contents of memory and medium. -/
def freshIo (mem : Place → Nat → UInt8) (medium : Nat → UInt8) : Io :=
  { blankIo with mem := mem, medium := medium }

/-- Two batches of two writes from the same buffers, which the caller changes in between. -/
def rewriteTwice : List DiskEvent := [.touch fun _ _ => 1,.writeBatch [⟨0,4096,512⟩,⟨8,8192,512⟩],
    .touch fun _ _ => 2,.writeBatch [⟨16,4096,512⟩,⟨24,8192,512⟩]]

/-- While the first batch waits the device does nothing, and then all that it was told. -/
def slowEnv : Env :=
  { quickEnv 512 with turn := fun _ s =>
      if s.serials<4 then [] else s.flights.flatMap fun f =>
        [.exec f.command.serial,.finish f.command.serial f.command.serial] }

/-- Flights of this command have been carried out. -/
def Marked (n : Nat) (s : Io) : Prop := ∀ f∈s.flights,f.command.serial=n → f.executed.isSome

theorem exec_marks {env : Env} {s : Io} {n : Nat} : Marked n (deviceAct env s (.exec n)) := by
  intro f hf hn
  simp only [deviceAct] at hf
  split at hf
  · next hnone =>
    have hall := find?_eq_none.mp hnone f hf
    simp only [hn,true_and,decide_eq_true_eq] at hall
    exact Option.isSome_iff_ne_none.mpr hall
  · obtain ⟨g,-,rfl⟩ := mem_map.mp hf
    rw [mark_serial] at hn
    simp [mark,hn]

theorem Marked.act (h : Marked n s) (env : Env) (act : Act) : Marked n (deviceAct env s act) := by
  intro f hf hn
  cases act with
  | exec k =>
    simp only [deviceAct] at hf
    split at hf
    · exact h f hf hn
    obtain ⟨g,hg,rfl⟩ := mem_map.mp hf
    rw [mark_serial] at hn
    unfold mark
    split
    · rfl
    · exact h g hg hn
  | finish k m =>
    simp only [deviceAct] at hf
    split at hf
    · exact h f hf hn
    · exact h f (mem_filter.mp hf).1 hn

theorem Marked.acts (env : Env) (acts : List Act) (h : Marked n s) :
    Marked n (acts.foldl (deviceAct env) s) := by
  induction acts generalizing s with
  | nil => exact h
  | cons act acts ih => exact ih (h.act env act)

theorem finish_removes {env : Env} {m : Nat} (h : Marked n s) :
    n∉flying (deviceAct env s (.finish n m)) := by
  intro hin
  obtain ⟨f,hf,hn⟩ := mem_flying.mp hin
  simp only [deviceAct] at hf
  split at hf
  · next hnone =>
    have hall := find?_eq_none.mp hnone f hf
    simp only [hn,true_and,decide_eq_true_eq] at hall
    exact hall (h f hf hn)
  · have hne := (mem_filter.mp hf).2
    simp only [decide_eq_true_eq] at hne
    exact hne hn

theorem finished_gone (env : Env) (s : Io) (front middle back : List Act) (n m : Nat) :
    n∉flying ((front++.exec n::middle++.finish n m::back).foldl (deviceAct env) s) := by
  simp only [foldl_append]
  intro hin
  refine finish_removes ?_ (foldl_flying env back _ hin)
  exact (exec_marks).acts env middle

theorem quickEnv_prompt {lbaSize : Nat} : Prompt (quickEnv lbaSize) := by
  constructor
  · intro awaited s n m hm
    cases awaited <;> simp [quickEnv] at hm
    exact hm.2.trans hm.1.symm
  · intro s n f hf hn
    exact finished_gone (quickEnv lbaSize) s [] [] [] n n (mem_flying.mpr ⟨f,hf,hn⟩)

end Kobox.Nvme
