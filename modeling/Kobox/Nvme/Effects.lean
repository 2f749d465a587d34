import Kobox.Framework.Overlay
import Kobox.Nvme.MemoryKept

namespace Kobox.Nvme

open List Function Command Or

variable {env : Env} {s t u : Io}

def readByte (medium : Nat → UInt8) (q : IoRequest) (x : Place × Nat) : Option UInt8 :=
  if x.1=q.data.place ∧ q.data.addr≤x.2 ∧ x.2<q.data.addr+q.byteCount then
    some (medium (q.sector*lbaUnit+(x.2-q.data.addr)))
  else none

def writeByte (mem : Place → Nat → UInt8) (q : IoRequest) (x : Nat) : Option UInt8 :=
  if q.sector*lbaUnit≤x ∧ x<q.sector*lbaUnit+q.byteCount then
    some (mem q.data.place (q.data.addr+(x-q.sector*lbaUnit)))
  else none

def readAll (medium : Nat → UInt8) (qs : List IoRequest) (mem : Place → Nat → UInt8) :
    Place → Nat → UInt8 :=
  fun place a => overlay (qs.map (readByte medium)) (fun x => mem x.1 x.2) (place,a)

def writeAll (mem : Place → Nat → UInt8) (qs : List IoRequest) (medium : Nat → UInt8) :
    Nat → UInt8 :=
  overlay (qs.map (writeByte mem)) medium

structure Idle (s : Io) : Prop where
  flights : s.flights=[]
  unused : ∀ n,s.serials≤n → s.done n=none

theorem Idle.still (h : Idle s) (k : Still s t) : Idle t :=
  ⟨k.flights.trans h.flights,by rw [k.serials,k.done]; exact h.unused⟩

/-- A call succeeds exactly if it fits, and then it leaves the device idle. -/
def Ends (fit : Prop) (post : Io → Prop) (a : Int × Io) : Prop :=
  (a.1=0 ↔ fit) ∧ (fit → Idle a.2 ∧ post a.2)

section

variable {fit fit' : Prop} {post post' : Io → Prop} {a : Int × Io}

theorem Ends.fail (ha : a.1≠0) (hfit : ¬fit) : Ends fit post a :=
  ⟨⟨fun h => absurd h ha,fun h => absurd h hfit⟩,fun h => absurd h hfit⟩

theorem Ends.imp (h : Ends fit post a) (hfit : fit ↔ fit') (hpost : ∀ t,post t → post' t) :
    Ends fit' post' a :=
  ⟨h.1.trans hfit,fun k => (h.2 (hfit.mpr k)).imp_right (hpost _)⟩

theorem Ends.next {b : Io → Int × Io} (h : Ends fit post a)
    (k : Idle a.2 → post a.2 → Ends fit' post' (b a.2)) :
    Ends (fit ∧ fit') post' (if a.1≠0 then a else b a.2) := by
  by_cases hfit : fit
  · obtain ⟨hidle,hpost⟩ := h.2 hfit
    rw [if_neg (not_not.mpr (h.1.mpr hfit))]
    simpa only [hfit,true_and] using k hidle hpost
  · have hne : a.1≠0 := fun h0 => hfit (h.1.mp h0)
    rw [if_pos hne]
    exact .fail hne fun k => hfit k.1

end

/-- Nothing runs short, blocks have the assumed size, the device judges a command by what it says. -/
structure Ample (env : Env) : Prop where
  blocks : env.lbaSize=lbaUnit
  requests : ∀ s,env.requestOk s=true
  maps : ∀ s,env.mapStatus s=0
  lists : ∀ s,env.prpStatus s=0
  submits : ∀ s,env.submitStatus s=0
  bounces : ∀ s,env.bounceOk s=true
  judges : ∀ c d : Command,c.toSetup=d.toSetup → env.status c=env.status d

def accepts (env : Env) (setup : Setup) : Prop :=
  env.status { setup with serial := 0, data := ⟨.caller,0⟩, length := 0, prp := none }=0

theorem Ample.status_iff (h : Ample env) (c : Command) :
    env.status c=0 ↔ accepts env c.toSetup := by
  rw [accepts,h.judges c { c.toSetup with serial := 0, data := ⟨.caller,0⟩, length := 0, prp := none }
    rfl]

def carry (env : Env) (c : Command) (s : Io) : Io :=
  if env.status c=0 then transfer env c s else s

def carryAll (env : Env) (xs : List Command) (s : Io) : Io := xs.foldl (fun u c => carry env c u) s

theorem carryAll_append {xs ys : List Command} {s : Io} :
    carryAll env (xs++ys) s=carryAll env ys (carryAll env xs s) := by simp [carryAll]

variable {c : Command}

theorem carry_congr (hmem : t.mem=u.mem) (hmedium : t.medium=u.medium) :
    (carry env c t).mem=(carry env c u).mem ∧ (carry env c t).medium=(carry env c u).medium := by
  unfold carry
  split
  · cases hop : c.opcode <;> simp [transfer,hop,hmem,hmedium]
  · exact ⟨hmem,hmedium⟩

/-- Where a batch stands: commands put in flight, and those that the device has carried out. -/
structure Tracks (env : Env) (cs xs : List Command) (s t : Io) : Prop where
  nodup : xs.Nodup
  sub : ∀ c∈xs,c∈cs
  mem : t.mem=(carryAll env xs s).mem
  medium : t.medium=(carryAll env xs s).medium
  flights : ∀ f∈t.flights,f.command∈cs ∧ t.done f.command.serial=none ∧
    (f.executed=none ∧ f.command∉xs ∨ f.executed=some (env.status f.command) ∧ f.command∈xs)
  rest : ∀ c∈cs,(∃ f∈t.flights,f.command=c) ∨ (c∈xs ∧ t.done c.serial=some (env.status c))
  unused : ∀ n,t.serials≤n → t.done n=none
  numbers : ∀ c∈cs,c.serial<t.serials

def Numbered (cs : List Command) : Prop := ∀ c∈cs,∀ d∈cs,c.serial=d.serial → c=d

variable {cs : List Command}

theorem Launched.apart (h : Launched s t cs) : Numbered cs := by
  intro c hc d hd he
  obtain ⟨i,hi⟩ := getElem?_of_mem hc
  obtain ⟨j,hj⟩ := getElem?_of_mem hd
  have h1 := h.numbered i c hi
  have h2 := h.numbered j d hj
  obtain rfl : i=j := by omega
  rw [hi] at hj
  exact Option.some.inj hj

theorem Launched.nodup (h : Launched s t cs) : cs.Nodup := by
  rw [nodup_iff_injective_get]
  intro i j he
  have h1 := h.numbered i (cs.get i) (by simp)
  have h2 := h.numbered j (cs.get j) (by simp)
  rw [he] at h1
  exact Fin.ext (by omega)

variable {r : IoRq}

theorem Idle.tracks (h : Idle s) (k : Launched s t cs) : Tracks env cs [] s t := by
  have hfl : t.flights=cs.map (launched s) := by rw [k.flights,h.flights,nil_append]
  have hnum : ∀ c∈cs,s.serials ≤ c.serial ∧ c.serial<t.serials := by
    intro c hc
    obtain ⟨i,hi⟩ := getElem?_of_mem hc
    have hlt : i<cs.length := (List.getElem?_eq_some_iff.mp hi).1
    have hn := k.numbered i c hi
    rw [k.serials]
    omega
  refine ⟨nodup_nil,fun c hc => (by cases hc),k.mem,k.medium,?_,?_,?_,fun c hc => (hnum c hc).2⟩
  · intro f hf
    rw [hfl] at hf
    obtain ⟨c,hc,rfl⟩ := mem_map.mp hf
    refine ⟨hc,?_,inl ⟨rfl,not_mem_nil⟩⟩
    rw [k.done]
    exact h.unused _ (hnum c hc).1
  · intro c hc
    exact inl ⟨launched s c,by rw [hfl]; exact mem_map_of_mem hc,rfl⟩
  · intro n hn
    rw [k.serials] at hn
    rw [k.done]
    exact h.unused n (by omega)

section

variable {cs xs : List Command}

variable (h : Tracks env cs xs s t)

include h

theorem Tracks.exec (hn : Numbered cs) (hc : c∈cs) (hx : c∉xs) :
    Tracks env cs (xs++[c]) s (deviceAct env t (.exec c.serial)) := by
  have hfind : ∃ f,t.flights.find? (fun f => f.command.serial=c.serial ∧ f.executed=none)=some f ∧
      f.command=c := by
    obtain ⟨f,hf,rfl⟩ : ∃ f∈t.flights,f.command=c := by
      rcases h.rest c hc with hin|hout
      · exact hin
      · exact absurd hout.1 hx
    have hnone : f.executed=none := by
      rcases (h.flights f hf).2.2 with hl|hr
      · exact hl.1
      · exact absurd hr.2 hx
    cases hfind : t.flights.find? fun g => g.command.serial=f.command.serial ∧ g.executed=none with
    | none =>
      have hall := find?_eq_none.mp hfind f hf
      simp [hnone] at hall
    | some g =>
      have hg := find?_some hfind
      simp only [decide_eq_true_eq] at hg
      exact ⟨g,rfl,hn _ (h.flights g (mem_of_find?_eq_some hfind)).1 _ hc hg.1⟩
  obtain ⟨f,hfind,hfc⟩ := hfind
  have hcontents : (if env.status c=0 then transfer env c t else t).mem=
        (carryAll env (xs++[c]) s).mem ∧
      (if env.status c=0 then transfer env c t else t).medium=
        (carryAll env (xs++[c]) s).medium := by
    rw [carryAll_append]
    exact carry_congr h.mem h.medium
  have hrest : (if env.status c=0 then transfer env c t else t).done=t.done ∧
      (if env.status c=0 then transfer env c t else t).serials=t.serials := by
    split
    · cases hop : c.opcode <;> simp [transfer,hop]
    · exact ⟨rfl,rfl⟩
  simp only [deviceAct,hfind,hfc]
  refine ⟨?_,?_,hcontents.1,hcontents.2,?_,?_,?_,?_⟩
  · exact nodup_append'.mpr ⟨h.nodup,nodup_singleton c, disjoint_singleton.mpr hx⟩
  · intro d hd
    rcases mem_append.mp hd with hd|hd
    · exact h.sub d hd
    · exact mem_singleton.mp hd ▸ hc
  · intro g hg
    obtain ⟨g',hg',rfl⟩ := mem_map.mp hg
    obtain ⟨hin,hdone,hcase⟩ := h.flights g' hg'
    by_cases hsame : g'.command.serial=c.serial
    · have hgc : g'.command=c := hn _ hin _ hc hsame
      refine ⟨?_,?_,inr ⟨?_,?_⟩⟩ <;> simp [mark,hgc,hc,hrest]
      exact hgc ▸ hdone
    · have hne : g'.command≠c := fun he => hsame (by rw [he])
      simp only [mark,if_neg hsame]
      refine ⟨hin,by rw [hrest.1]; exact hdone,?_⟩
      simpa [hne] using hcase
  · intro d hd
    rcases h.rest d hd with ⟨g,hg,rfl⟩|⟨hin,hdone⟩
    · refine inl ⟨mark c.serial (env.status c) g,mem_map_of_mem hg,?_⟩
      unfold mark
      split <;> rfl
    · exact inr ⟨mem_append_left _ hin,by rw [hrest.1]; exact hdone⟩
  · simp only [hrest]
    exact h.unused
  · simp only [hrest]
    exact h.numbers

theorem Tracks.exec_again {n : Nat} (hx : ∀ c∈cs,c.serial=n → c∈xs) :
    deviceAct env t (.exec n)=t := by
  have hfind : t.flights.find? (fun f => f.command.serial=n ∧ f.executed=none)=none := by
    rw [find?_eq_none]
    intro f hf
    obtain ⟨hin,-,hcase⟩ := h.flights f hf
    simp only [decide_eq_true_eq]
    rintro ⟨hserial,hnone⟩
    rcases hcase with hl|hr
    · exact hl.2 (hx _ hin hserial)
    · rw [hnone] at hr
      cases hr.1
  simp only [deviceAct,hfind]

theorem Tracks.finish (hn : Numbered cs) (n : Nat) :
    Tracks env cs xs s (deviceAct env t (.finish n n)) := by
  simp only [deviceAct]
  split
  · exact h
  next f hf =>
  have hfm := mem_of_find?_eq_some hf
  have hfs := find?_some hf
  simp only [decide_eq_true_eq] at hfs
  obtain ⟨rfl,hexec⟩ := hfs
  obtain ⟨hin,-,hcase⟩ := h.flights f hfm
  have hdone : f.executed=some (env.status f.command) ∧ f.command∈xs := by
    rcases hcase with hl|hr
    · rw [hl.1] at hexec
      cases hexec
    · exact hr
  refine ⟨h.nodup,h.sub,h.mem,h.medium,?_,?_,?_,h.numbers⟩
  · intro g hg
    obtain ⟨hgm,hne⟩ := mem_filter.mp hg
    simp only [decide_eq_true_eq] at hne
    obtain ⟨h1,h2,h3⟩ := h.flights g hgm
    exact ⟨h1,by simp only [update_of_ne hne]; exact h2,h3⟩
  · intro c hc
    by_cases hsame : c.serial=f.command.serial
    · obtain rfl := hn _ hc _ hin hsame
      refine inr ⟨hdone.2,?_⟩
      simp [hdone.1]
    · rcases h.rest c hc with ⟨g,hg,rfl⟩|⟨hx,hd⟩
      · refine inl ⟨g,mem_filter.mpr ⟨hg,?_⟩,rfl⟩
        simpa using hsame
      · exact inr ⟨hx,by simp only [update_of_ne hsame]; exact hd⟩
  · intro m hm
    have hlt : f.command.serial<t.serials := h.numbers _ hin
    have hne : m≠f.command.serial := by
      have : t.serials ≤ m := hm
      omega
    simp only [update_of_ne hne]
    exact h.unused m hm

omit h in
theorem Tracks.acts (hn : Numbered cs) (acts : List Act) (hown : ∀ n m,.finish n m∈acts → m=n)
    (h : Tracks env cs xs s t) : ∃ ys,Tracks env cs (xs++ys) s (acts.foldl (deviceAct env) t) := by
  induction acts generalizing xs t with
  | nil => exact ⟨[],by rw [append_nil]; exact h⟩
  | cons act acts ih =>
    have hrest : ∀ n m,.finish n m∈acts → m=n := fun n m hm =>
      hown n m (mem_cons_of_mem _ hm)
    cases act with
    | exec n =>
      by_cases hx : ∀ c∈cs,c.serial=n → c∈xs
      · rw [foldl_cons,h.exec_again hx]
        exact ih hrest h
      · simp only [not_forall] at hx
        obtain ⟨c,hc,rfl,hout⟩ := hx
        obtain ⟨ys,hys⟩ := ih hrest (h.exec hn hc hout)
        exact ⟨c::ys,by simpa using hys⟩
    | finish n m =>
      obtain rfl := hown n m mem_cons_self
      exact ih hrest (h.finish hn _)

theorem Tracks.turn (hn : Numbered cs) (hp : Prompt env) (n : Nat) :
    ∃ ys,Tracks env cs (xs++ys) s (deviceTurn env (some n) t) :=
  h.acts hn _ (hp.own _ t)

theorem Tracks.complete (hn : Numbered cs) (hp : Prompt env) (hc : c∈cs)
    (hr : r.serial=some c.serial) :
    (completeRq env r t).1=endStatus (env.status c) ∧
      (∃ ys,Tracks env cs (xs++ys) s (completeRq env r t).2) ∧
      flying (completeRq env r t).2 ⊆ flying t ∧ c.serial∉flying (completeRq env r t).2 := by
  have hland : ∀ ys v,Tracks env cs ys s v → c.serial∉flying v → v.done c.serial=some (env.status c) := by
    intro ys v hv hout
    rcases hv.rest c hc with ⟨f,hf,rfl⟩|hd
    · exact absurd (mem_flying.mpr ⟨f,hf,rfl⟩) hout
    · exact hd.2
  have hturn : c.serial∉flying (deviceTurn env (some c.serial) t) := by
    intro hin
    obtain ⟨f,hf,he⟩ := mem_flying.mp hin
    exact hp.ends t _ f hf he
  rw [completeRq,hr]
  simp only
  cases hd : t.done c.serial with
  | some status =>
    have hout : c.serial∉flying t := by
      intro hin
      obtain ⟨f,hf,he⟩ := mem_flying.mp hin
      have hnone := (h.flights f hf).2.1
      rw [he,hd] at hnone
      cases hnone
    have hst := hland xs t h hout
    rw [hd] at hst
    obtain rfl := Option.some.inj hst
    exact ⟨rfl,⟨[],by rw [append_nil]; exact h⟩,Subset.refl _,hout⟩
  | none =>
    obtain ⟨ys,hys⟩ := h.turn hn hp c.serial
    simp only [hland _ _ hys hturn]
    exact ⟨trivial,⟨ys,hys⟩,foldl_flying env _ t,hturn⟩

theorem Tracks.waitAll (hn : Numbered cs) (hp : Prompt env) (hgood : ∀ c∈cs,env.status c=0)
    (rs : List IoRq) (hrs : ∀ n∈rs.filterMap IoRq.serial,∃ c∈cs,c.serial=n)
    (hall : flying t ⊆ rs.filterMap IoRq.serial) :
    (waitAll env rs 0 t).1=0 ∧
      ∃ ys,Tracks env cs (xs++ys) s (waitAll env rs 0 t).2 ∧ (waitAll env rs 0 t).2.flights=[] := by
  induction rs generalizing xs t with
  | nil =>
    refine ⟨rfl,[],by rw [append_nil]; exact h,?_⟩
    simpa [flying,Nvme.waitAll] using subset_nil.mp hall
  | cons r rs ih =>
    rw [Nvme.waitAll]
    cases hr : r.serial with
    | none =>
      simp only [filterMap_cons,hr] at hrs hall
      exact ih h hrs hall
    | some n =>
      simp only [filterMap_cons,hr] at hrs hall
      obtain ⟨c,hc,rfl⟩ := hrs n mem_cons_self
      obtain ⟨hres,⟨ys,hys⟩,hsub,hout⟩ := h.complete hn hp hc hr
      simp only [hres,hgood c hc]
      have hfly : flying (completeRq env r t).2 ⊆ rs.filterMap IoRq.serial := by
        intro k hk
        rcases mem_cons.mp (hall (hsub hk)) with rfl|hin
        · exact absurd hk hout
        · exact hin
      obtain ⟨h1,zs,h2,h3⟩ := ih hys (fun k hk => hrs k (mem_cons_of_mem _ hk)) hfly
      exact ⟨h1,ys++zs,by rw [← append_assoc]; exact h2,h3⟩

theorem Tracks.perm (hcs : cs.Nodup) (hnone : t.flights=[]) : xs.Perm cs := by
  rw [perm_ext_iff_of_nodup h.nodup hcs]
  refine fun c => ⟨h.sub c,fun hc => ?_⟩
  rcases h.rest c hc with ⟨f,hf,-⟩|hx
  · rw [hnone] at hf
    cases hf
  · exact hx.1

end

def Command.request (c : Command) : IoRequest := ⟨c.slba,c.data,c.length⟩

structure Carries (env : Env) (opcode : Opcode) (q : IoRequest) (c : Command) : Prop where
  request : c.request=q
  opcode : c.opcode=opcode
  whole : (c.nlb+1)*lbaUnit=c.length
  taken : env.status c=0

/-- What a list of transfers, one after another, leaves behind. -/
def Effect (opcode : Opcode) (qs : List IoRequest) (s t : Io) : Prop :=
  match opcode with
  | .read => t.mem=readAll s.medium qs s.mem ∧ t.medium=s.medium
  | .write => t.mem=s.mem ∧ t.medium=writeAll s.mem qs s.medium

theorem Effect.nil (opcode : Opcode) (s : Io) : Effect opcode [] s s := by
  cases opcode <;> exact ⟨rfl,rfl⟩

variable {opcode : Opcode} {qs : List IoRequest}

theorem Effect.append {ps : List IoRequest} (h : Effect opcode ps s t) (k : Effect opcode qs t u) :
    Effect opcode (ps++qs) s u := by
  cases opcode with
  | read =>
    refine ⟨?_,k.2.trans h.2⟩
    rw [k.1,h.1,h.2]
    funext place a
    simp [readAll,overlay_append]
  | write =>
    refine ⟨k.1.trans h.1,?_⟩
    rw [k.2,h.1,h.2]
    simp [writeAll,overlay_append]

theorem Effect.congr {s' t' : Io} (h : Effect opcode qs s t)
    (hs : s.mem=s'.mem ∧ s.medium=s'.medium) (ht : t.mem=t'.mem ∧ t.medium=t'.medium) :
    Effect opcode qs s' t' := by
  cases opcode with
  | read => exact ⟨by rw [← ht.1,h.1,hs.1,hs.2],by rw [← ht.2,h.2,hs.2]⟩
  | write => exact ⟨by rw [← ht.1,h.1,hs.1],by rw [← ht.2,h.2,hs.1,hs.2]⟩

theorem Still.contents (h : Still s t) : s.mem=t.mem ∧ s.medium=t.medium :=
  ⟨h.mem.symm,h.medium.symm⟩

variable {q : IoRequest}

theorem carry_effect (hblocks : env.lbaSize=lbaUnit) (h : Carries env opcode q c) {s : Io} :
    Effect opcode [q] s (carry env c s) := by
  have hmoved : c.moved env=c.length := by
    rw [moved,hblocks,h.whole,Nat.min_self]
  have hq := h.request.symm
  subst hq
  obtain ⟨-,hop,-,htaken⟩ := h
  simp only [carry,if_pos htaken]
  cases opcode with
  | read =>
    refine ⟨?_,by simp only [transfer,hop]⟩
    funext place a
    simp only [transfer,hop,hmoved,offset,hblocks,readAll,map_cons,map_nil,
      overlay_cons,overlay_nil,readByte,request]
    split <;> rfl
  | write =>
    refine ⟨by simp only [transfer,hop],?_⟩
    funext x
    simp only [transfer,hop,hmoved,offset,hblocks,writeAll,map_cons,map_nil,
      overlay_cons,overlay_nil,writeByte,request]
    split <;> rfl

theorem carryAll_effect (hblocks : env.lbaSize=lbaUnit) {xs : List Command}
    (h : ∀ c∈xs,Carries env opcode c.request c) (s : Io) :
    Effect opcode (xs.map Command.request) s (carryAll env xs s) := by
  induction xs generalizing s with
  | nil => exact Effect.nil opcode s
  | cons c xs ih =>
    exact (carry_effect hblocks (h c mem_cons_self)).append
      (ih (fun d hd => h d (mem_cons_of_mem _ hd)) _)

structure OneFits (env : Env) (opcode : Opcode) (q : IoRequest) : Prop where
  good : q.bad=false
  blocks : q.byteCount/lbaUnit≤2^16
  pages : 1+followingPages q.data q.byteCount ≤ mappingMaxPages
  accepted : accepts env (singleSetup opcode q.sector q.byteCount 0)

theorem bad_eq_false : q.bad=false ↔ q.data.isNull=false ∧ q.byteCount≠0 ∧ q.byteCount%lbaUnit=0 ∧
      q.byteCount ≤ uint32Max := by
  simp [IoRequest.bad,and_assoc]

theorem OneFits.setup (h : OneFits env opcode q) :
    parallelSetup opcode q=singleSetup opcode q.sector q.byteCount 0 := by
  have hblocks := h.blocks
  simp only [parallelSetup,singleSetup,Setup.mk.injEq,true_and] at *
  constructor
  · omega
  · rw [if_neg (by decide)]
    omega

theorem OneFits.whole (h : OneFits env opcode q) :
    ((singleSetup opcode q.sector q.byteCount 0).nlb+1)*lbaUnit=q.byteCount := by
  obtain ⟨-,hpos,hmod,-⟩ := bad_eq_false.mp h.good
  have hblocks := h.blocks
  simp only [singleSetup,lbaUnit] at *
  omega

variable (ha : Ample env)

include ha

theorem mapPrp_ok {s : Io} : (mapPrp env r s).1=0 := by
  unfold mapPrp
  split
  · rfl
  · rw [if_neg (not_not.mpr (ha.lists s))]

theorem mapKernelBuffer_ok (p : Pointer) (length : Nat) (r : IoRq) (s : Io) :
    (mapKernelBuffer env p length r s).1=0 ↔
      p.isNull=false ∧ length≠0 ∧ 1+followingPages p length ≤ mappingMaxPages := by
  constructor
  · intro h
    obtain ⟨h1,h2,h3,-⟩ := mapKernelBuffer_short h
    exact ⟨h1,by omega,h3⟩
  rintro ⟨h1,h2,h3⟩
  unfold mapKernelBuffer
  rw [if_neg (by simp [h1,h2]),if_neg (by omega),if_neg (not_not.mpr (ha.maps s))]
  split
  · rfl
  · exact mapPrp_ok ha

theorem submitIoRq_ok {m : Mapping} (hm : r.mapped=some m) (s : Io) : (submitIoRq env r s).1=0 := by
  unfold submitIoRq
  rw [if_neg (not_not.mpr (ha.submits s)),hm]

theorem prepareAll_ok {qs : List IoRequest} (h : ∀ q∈qs,OneFits env opcode q) (s : Io) :
    (prepareAll env opcode qs s).1=0 := by
  induction qs generalizing s with
  | nil => rfl
  | cons q qs ih =>
    have hq := h q mem_cons_self
    obtain ⟨hnull,hpos,-,-⟩ := bad_eq_false.mp hq.good
    rw [prepareAll,if_neg (by simp [hq.good]),if_neg (by simp [ha.requests s])]
    have hmap := (mapKernelBuffer_ok ha q.data q.byteCount (allocRequest (parallelSetup opcode q) s).1
      (allocRequest (parallelSetup opcode q) s).2).mpr ⟨hnull,hpos,hq.pages⟩
    simp only [hmap]
    exact ih (fun p hp => h p (mem_cons_of_mem _ hp)) _

theorem submitAll_ok {rs : List IoRq} (h : ∀ r∈rs,∃ m,r.mapped=some m) (s : Io) :
    (submitAll env rs s).1=0 := by
  induction rs generalizing s with
  | nil => rfl
  | cons r rs ih =>
    obtain ⟨m,hm⟩ := h r mem_cons_self
    rw [submitAll]
    simp only [submitIoRq_ok ha hm s]
    exact ih (fun p hp => h p (mem_cons_of_mem _ hp)) _

theorem OneFits.carries (h : OneFits env opcode q)
    (hset : c.toSetup=singleSetup opcode q.sector q.byteCount 0) (hdata : c.data=q.data)
    (hlength : c.length=q.byteCount) : Carries env opcode q c := by
  have hslba : c.slba=q.sector := by rw [hset]; rfl
  refine ⟨by rw [request,hslba,hdata,hlength],by rw [hset]; rfl,by rw [hset,h.whole,hlength],?_⟩
  rw [ha.status_iff,hset]
  exact h.accepted

theorem ready_carries {rs : List IoRq} (hfit : ∀ q∈qs,OneFits env opcode q)
    (h : Forall₂ (Ready opcode) qs rs)
    (k : Forall₂ (fun r c => ∃ m,r.mapped=some m ∧ c=r.command m c.serial) rs cs) :
    Forall₂ (Carries env opcode) qs cs := by
  induction h generalizing cs with
  | nil =>
    cases k
    exact .nil
  | @cons q r qs rs hq _ ih =>
    cases k with
    | @cons _ c _ cs hc hrest =>
      refine .cons ?_ (ih (fun p hp => hfit p (mem_cons_of_mem _ hp)) hrest)
      have hone := hfit q mem_cons_self
      obtain ⟨m,hm,hcmd⟩ := hc
      obtain ⟨kind,hkind⟩ := hq.mapped
      rw [hm] at hkind
      obtain rfl := Option.some.inj hkind
      have hset : c.toSetup=singleSetup opcode q.sector q.byteCount 0 := by
        rw [hcmd,← hone.setup,← hq.setup]
        rfl
      exact hone.carries ha hset (by rw [hcmd]; rfl) (by rw [hcmd]; rfl)

omit ha in
theorem forall₂_right {α β : Type} {R : α → β → Prop} {as : List α} {bs : List β}
    (h : Forall₂ R as bs) : ∀ b∈bs,∃ a∈as,R a b := by
  intro b hb
  obtain ⟨i,hi,rfl⟩ := getElem_of_mem hb
  exact ⟨_,getElem_mem (h.length_eq ▸ hi),h.get _ hi⟩

theorem ioParallel_launch (hne : qs≠[]) (hlen : qs.length ≤ parallelMax)
    (hfit : ∀ q∈qs,OneFits env opcode q) {s : Io} :
    ∃ cs rs t u,Still s t ∧ Launched t u cs ∧ rs.filterMap IoRq.serial=cs.map Command.serial ∧
      Forall₂ (Carries env opcode) qs cs ∧
      ioParallel env opcode qs s=((waitAll env rs 0 u).1,freeAll rs (waitAll env rs 0 u).2) := by
  obtain ⟨hstill,hnew,hready⟩ := prepareAll_spec s
  have hok := prepareAll_ok ha hfit s
  have hforall := hready hok
  obtain ⟨cs,hl,hserials,-,hall⟩ := submitAll_spec env (prepareAll env opcode qs s).2.1
    (prepareAll env opcode qs s).2.2 fun r hr => (hnew r hr).1
  have hmapped : ∀ r∈(prepareAll env opcode qs s).2.1,∃ m,r.mapped=some m := by
    intro r hr
    obtain ⟨q,-,hq⟩ := forall₂_right hforall r hr
    obtain ⟨kind,hkind⟩ := hq.mapped
    exact ⟨_,hkind⟩
  have hsub := submitAll_ok ha hmapped (prepareAll env opcode qs s).2.2
  refine ⟨cs,_,_,_,hstill,hl,hserials,ready_carries ha hfit hforall (hall hsub),?_⟩
  rw [ioParallel,if_neg (by simp [hne]; omega)]
  simp [hok,hsub]

theorem Tracks.effect {xs : List Command} (hcarry : Forall₂ (Carries env opcode) qs cs)
    (h : Tracks env cs xs s t) : Effect opcode (xs.map Command.request) s t := by
  have hown : ∀ c∈xs,Carries env opcode c.request c := by
    intro c hc
    obtain ⟨q,-,hq⟩ := forall₂_right hcarry c (h.sub c hc)
    rw [hq.request]
    exact hq
  exact (carryAll_effect ha.blocks hown s).congr ⟨rfl,rfl⟩ ⟨h.mem.symm,h.medium.symm⟩

omit ha in
theorem carries_requests (h : Forall₂ (Carries env opcode) qs cs) : cs.map Command.request=qs := by
  induction h with
  | nil => rfl
  | cons hc _ ih => rw [map_cons,hc.request,ih]

theorem ioParallel_effect (hp : Prompt env) (hidle : Idle s) (hne : qs≠[])
    (hlen : qs.length ≤ parallelMax) (hfit : ∀ q∈qs,OneFits env opcode q) :
    (ioParallel env opcode qs s).1=0 ∧ Idle (ioParallel env opcode qs s).2 ∧
      ∃ xs : List IoRequest,xs.Perm qs ∧ Effect opcode xs s (ioParallel env opcode qs s).2 := by
  obtain ⟨cs,rs,t,u,hstill,hl,hserials,hcarry,heq⟩ := ioParallel_launch ha hne hlen hfit
  have htrack : Tracks env cs [] t u := (hidle.still hstill).tracks hl
  have hcs : ∀ c∈cs,∃ q∈qs,Carries env opcode q c := forall₂_right hcarry
  have hfly : flying u=cs.map serial := by
    rw [flying,hl.flights,(hidle.still hstill).flights,nil_append,map_map]
    rfl
  obtain ⟨hres,xs,hxs,hnone⟩ := htrack.waitAll hl.apart hp
    (fun c hc => (hcs c hc).choose_spec.2.taken) rs
    (fun n hn => mem_map.mp (hserials ▸ hn))
    (by rw [hfly,hserials]; exact Subset.refl _)
  have hperm := hxs.perm hl.nodup hnone
  have hfree := freeAll_still rs (waitAll env rs 0 u).2
  rw [heq]
  refine ⟨hres,?_,xs.map request,?_,?_⟩
  · exact Idle.still ⟨hnone,hxs.unused⟩ hfree
  · rw [← carries_requests hcarry]
    exact hperm.map _
  · exact (hxs.effect ha hcarry).congr ⟨hstill.mem,hstill.medium⟩ hfree.contents

theorem executeRq_effect (hp : Prompt env) (hidle : Idle s) {m : Mapping} (hm : r.mapped=some m) :
    (executeRq env r s).1=endStatus (env.status (r.command m s.serials)) ∧
      Idle (executeRq env r s).2.2 ∧
      (carry env (r.command m s.serials) s).mem=(executeRq env r s).2.2.mem ∧
      (carry env (r.command m s.serials) s).medium=(executeRq env r s).2.2.medium := by
  have hsub := submitIoRq_ok ha hm s
  rcases submitIoRq_spec env r s with ⟨hne,-⟩|⟨m',hm',-,hr,hl⟩
  · exact absurd hsub hne
  rw [hm] at hm'
  obtain rfl := Option.some.inj hm'
  generalize hc : r.command m s.serials=c at hl
  have hserial : c.serial=s.serials := by rw [← hc]; rfl
  have htrack : Tracks env [c] [] s (submitIoRq env r s).2.2 := hidle.tracks hl
  obtain ⟨hres,⟨ys,hys⟩,hfly,hout⟩ := htrack.complete hl.apart hp mem_cons_self
    (r := (submitIoRq env r s).2.1) (by rw [hr,hserial])
  rw [executeRq]
  simp only [hsub]
  have hnone : (completeRq env (submitIoRq env r s).2.1 (submitIoRq env r s).2.2).2.flights=[] := by
    have hempty : flying (completeRq env (submitIoRq env r s).2.1
        (submitIoRq env r s).2.2).2=[] := by
      apply eq_nil_iff_forall_not_mem.mpr
      intro k hk
      have hin := hfly hk
      rw [flying,hl.flights,hidle.flights] at hin
      obtain rfl : k=c.serial := by simpa [launched] using hin
      exact hout hk
    simpa [flying] using hempty
  obtain rfl := perm_singleton.mp (hys.perm hl.nodup hnone)
  exact ⟨hres,⟨hnone,hys.unused⟩,hys.mem.symm,hys.medium.symm⟩

omit ha in
theorem endStatus_eq_zero {status : Nat} : endStatus status=0 ↔ status=0 := by
  unfold endStatus
  split
  · next h => simp [h]
  · next h => simp [h,eio]

theorem diskIo_effect (hp : Prompt env) (hidle : Idle s) (opcode : Opcode) (q : IoRequest) :
    Ends (OneFits env opcode q) (Effect opcode [q] s)
      (diskIo env opcode q.sector q.data q.byteCount s) := by
  have herange : erange≠0 := by decide
  rw [diskIo,diskIoFlags]
  split
  · next hbad =>
    refine .fail einval_ne fun hq => ?_
    obtain ⟨h1,h2,h3,-⟩ := bad_eq_false.mp hq.good
    simp [h1,h2,h3] at hbad
  next hgood =>
  split
  · refine .fail herange fun hq => ?_
    have := (bad_eq_false.mp hq.good).2.2.2
    omega
  next hsmall =>
  split
  · next hmany => exact .fail herange fun hq => absurd hq.blocks (by omega)
  next hblocks =>
  rw [if_neg (by simp [ha.requests s])]
  have hgood : q.bad=false := by
    simp only [not_or] at hgood
    exact bad_eq_false.mpr ⟨by simpa using hgood.1,hgood.2.1,by simpa using hgood.2.2.1,by omega⟩
  obtain ⟨hnull,hpos,-,-⟩ := bad_eq_false.mp hgood
  have halloc := allocRequest_still (singleSetup opcode q.sector q.byteCount 0) s
  generalize hal : allocRequest (singleSetup opcode q.sector q.byteCount 0) s=a at halloc
  have hset : a.1.setup=singleSetup opcode q.sector q.byteCount 0 := by rw [← hal]; rfl
  have hmap := mapKernelBuffer_ok ha q.data q.byteCount a.1 a.2
  obtain ⟨hstill,hspec⟩ := mapKernelBuffer_spec env q.data q.byteCount a.1 a.2
  simp only
  generalize mapKernelBuffer env q.data q.byteCount a.1 a.2=b at hmap hstill hspec
  split
  · next hne => exact .fail hne fun hq => hne (hmap.mpr ⟨hnull,hpos,hq.pages⟩)
  next hok =>
  have hok : b.1=0 := by simpa using hok
  obtain ⟨kind,hm⟩ := hspec.ok hok
  have hsame := halloc.trans hstill
  obtain ⟨hres,hafter,hmem,hmedium⟩ := executeRq_effect ha hp (hidle.still hsame) hm
  generalize hcmd : b.2.1.command ⟨q.data,q.byteCount,kind⟩ b.2.2.serials=c at hres hmem hmedium
  have hcset : c.toSetup=singleSetup opcode q.sector q.byteCount 0 := by
    rw [← hcmd,← hset,← hspec.setup]
    rfl
  have hfits : env.status c=0 ↔ OneFits env opcode q := by
    rw [ha.status_iff,hcset]
    exact ⟨fun h => ⟨hgood,by omega,(hmap.mp hok).2.2,h⟩,OneFits.accepted⟩
  refine ⟨by rw [hres,endStatus_eq_zero,hfits],fun hq => ?_⟩
  have hfree := freeIoRq_still (executeRq env b.2.1 b.2.2).2.1 (executeRq env b.2.1 b.2.2).2.2
  have hcarries := hq.carries ha hcset (by rw [← hcmd]; rfl) (by rw [← hcmd]; rfl)
  refine ⟨hafter.still hfree,(carry_effect ha.blocks hcarries).congr
    ⟨hsame.mem,hsame.medium⟩ ⟨?_,?_⟩⟩
  · rw [hmem,hfree.mem]
  · rw [hmedium,hfree.medium]

end Kobox.Nvme
