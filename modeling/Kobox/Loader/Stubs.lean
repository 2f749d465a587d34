import Kobox.Loader.Protection
import Kobox.Loader.Transition

namespace Kobox.Loader

open List Prog Plan Globals Elf Or

def Stub.Apart (a b : Stub) : Prop := a.start+shimStubSize≤b.start ∨ b.start+shimStubSize≤a.start

/-- The first `used` slots are taken: the raw USB stub in the data part, every other one in its own
slot, written while its pages were writable unless made later. -/
structure StubTable (shim used : Nat) (stubs : List Stub) : Prop where
  room : used ≤ shimStubCount
  slot : ∀ st∈stubs,
    (st.kind=.usbControlMsg ∧ st.start=shim+usbControlMsgStubOffset ∧ st.writable=true) ∨
    (st.kind≠.usbControlMsg ∧ (st.writable=true ↔ st.kind≠.gsCall) ∧
      ∃ i,i<used ∧ st.start=shim+i*shimStubSize)
  apart : stubs.Pairwise Stub.Apart

theorem StubTable.empty (shim : Nat) : StubTable shim 0 [] :=
  ⟨Nat.zero_le _,fun _ h => absurd h not_mem_nil,List.Pairwise.nil⟩

variable {used : Nat}

theorem slot_below {i : Nat} (h : i<used) (hu : used ≤ shimStubCount) :
    i*shimStubSize+shimStubSize ≤ shimDataOffset := by
  calc i*shimStubSize+shimStubSize=shimStubSize*(i+1) := by ring
    _ ≤ shimStubSize*shimStubCount := Nat.mul_le_mul_left _ (by omega)

variable {shim : Nat} {stubs : List Stub}

section

variable (h : StubTable shim used stubs)

include h

theorem StubTable.emit (hroom : used<shimStubCount) (kind : StubKind) (writable : Bool)
    (hk : kind≠.usbControlMsg) (hw : writable=true ↔ kind≠.gsCall) :
    StubTable shim (used+1) (stubs++[⟨kind,shim+used*shimStubSize,writable⟩]) := by
  refine ⟨hroom,?_,?_⟩
  · intro st hst
    rcases mem_append.mp hst with hst|hst
    · rcases h.slot st hst with husb|⟨hkind,hwr,i,hi,hs⟩
      · exact inl husb
      · exact inr ⟨hkind,hwr,i,by omega,hs⟩
    · rw [mem_singleton.mp hst]
      exact inr ⟨hk,hw,used,by omega,rfl⟩
  · refine pairwise_append.mpr ⟨h.apart,pairwise_singleton _ _,?_⟩
    intro a ha b hb
    rw [mem_singleton.mp hb]
    rcases h.slot a ha with ⟨_,hs,_⟩|⟨_,_,i,hi,hs⟩
    · right
      have hlt := slot_below (Nat.lt_succ_self used) hroom
      have husb : shimDataOffset≤usbControlMsgStubOffset := by decide
      dsimp only
      omega
    · left
      have hmul : i*shimStubSize+shimStubSize≤used*shimStubSize := by
        calc i*shimStubSize+shimStubSize=(i+1)*shimStubSize := by ring
          _≤used*shimStubSize := Nat.mul_le_mul_right _ hi
      dsimp only
      omega

theorem StubTable.usb (hnone : ∀ st∈stubs,st.kind≠.usbControlMsg) :
    StubTable shim used (stubs++[⟨.usbControlMsg,shim+usbControlMsgStubOffset,true⟩]) := by
  refine ⟨h.room,?_,?_⟩
  · intro st hst
    rcases mem_append.mp hst with hst|hst
    · exact h.slot st hst
    · rw [mem_singleton.mp hst]
      exact inl ⟨rfl,rfl,rfl⟩
  · refine pairwise_append.mpr ⟨h.apart,pairwise_singleton _ _,?_⟩
    intro a ha b hb
    rw [mem_singleton.mp hb]
    rcases h.slot a ha with ⟨hk,_⟩|⟨_,_,i,hi,hs⟩
    · exact absurd hk (hnone a ha)
    left
    have hlt := slot_below hi h.room
    have husb : shimDataOffset≤usbControlMsgStubOffset := by decide
    dsimp only
    omega

theorem StubTable.emits (kind : StubKind) (hk : kind≠.usbControlMsg) (hg : kind≠.gsCall) (k : Nat)
    (hroom : k=0 ∨ used+k ≤ shimStubCount) :
    StubTable shim (used+k)
      (stubs++(range k).map fun j => ⟨kind,shim+(used+j)*shimStubSize,true⟩) := by
  induction k with
  | zero => simpa using h
  | succ k ih =>
    have hprev := ih (by omega)
    have hnext := hprev.emit (by omega) kind true hk ⟨fun _ => hg,fun _ => rfl⟩
    rw [range_succ,map_append,← append_assoc]
    exact hnext

end

section

variable {env : Env} {s t u v a b c : Load} {l : Layout}

theorem stubWritable_all {m : KbModule} (h : m.protection=fun _ => .readWrite) {start : Nat} :
    m.stubWritable start=true := by
  simp [KbModule.stubWritable,h]

theorem emitStub_stubs {s : Load} {kind : StubKind} {off : Nat} {code : List UInt8}
    (h : s.module.protection=fun _ => .readWrite) :
    (s.onModule (KbModule.emitStub kind off code)).module.stubs=
      s.module.stubs++[⟨kind,s.module.shimRegionOffset+off,true⟩] := by
  change s.module.stubs++[⟨kind,_,s.module.stubWritable _⟩]=_
  rw [stubWritable_all h]

section

variable (hp : s.module.protection=fun _ => .readWrite)

include hp

theorem emitStub_ran {kind : StubKind} {off : Nat} {code : List UInt8}
    (h : (Prog.modify (Load.onModule (KbModule.emitStub kind off code)) : Prog Load Status Unit) s=
      (.ok (),t)) :
    t.module.stubs=s.module.stubs++[⟨kind,s.module.shimRegionOffset+off,true⟩] ∧
      t.module.externalStubCount=s.module.externalStubCount := by
  cases h
  exact ⟨emitStub_stubs hp,rfl⟩

theorem emitSymbolStub_stubs {i : Nat} (h : emitSymbolStub env i s=(.ok (),t)) :
    t.module.stubs=s.module.stubs++[⟨.symbol,s.module.shimRegionOffset+i*shimStubSize,true⟩] ∧
      t.module.externalStubCount=s.module.externalStubCount := by
  unfold emitSymbolStub at h
  cases hsym : shimSymbolAt env i with
  | none =>
    rw [hsym] at h
    cases h
  | some symbol =>
    rw [hsym] at h
    exact emitStub_ran hp h

theorem emitSymbolStubs_stubs (hs : s.module.stubs=[]) (h : emitSymbolStubs env s=(.ok (),t)) :
    t.module.stubs=(range (shimSymbolCount env)).map (fun i =>
        (⟨.symbol,s.module.shimRegionOffset+i*shimStubSize,true⟩ : Stub)) ∧
      t.module.externalStubCount=s.module.externalStubCount ∧
      shimSymbolCount env ≤ shimStubCount := by
  unfold emitSymbolStubs at h
  split at h
  · cases h
  next hroom =>
  have hloop := loopFrom_ok (I := fun j u =>
      u.module.stubs=(range j).map (fun i =>
        (⟨.symbol,s.module.shimRegionOffset+i*shimStubSize,true⟩ : Stub)) ∧
      u.module.externalStubCount=s.module.externalStubCount ∧
      u.module.plan=s.module.plan) 0 (shimSymbolCount env) ?_
    ⟨by simpa using hs,rfl,rfl⟩ h
  · rw [Nat.zero_add] at hloop
    exact ⟨hloop.1,hloop.2.1,by omega⟩
  rintro j x y _ _ ⟨hx,hext,hplan⟩ hbody
  have hprot : x.module.protection=fun _ => .readWrite := (congrArg protection hplan).trans hp
  have hshim : x.module.shimRegionOffset=s.module.shimRegionOffset :=
    congrArg shimRegionOffset hplan
  obtain ⟨hst,hex⟩ := emitSymbolStub_stubs hprot hbody
  have hmove := emitSymbolStub_moves env j x
  rw [hbody] at hmove
  refine ⟨?_,hex.trans hext,hmove.staged.plan.trans hplan⟩
  rw [hst,hx,hshim,range_succ,map_append]
  rfl

end

theorem fillShim_stubs (hp : u.module.protection=fun _ => .readWrite) (hs : u.module.stubs=[])
    (h0 : u.module.externalStubCount=0) (h : fillShim env u=(.ok (),t)) :
    StubTable u.module.shimRegionOffset (shimSymbolCount env) t.module.stubs ∧
      t.module.externalStubCount=0 := by
  obtain ⟨_,a,ha,h⟩ := bind_eq_ok.mp h
  obtain ⟨_,b,hb,h⟩ := bind_eq_ok.mp h
  obtain ⟨_,c,hc,h⟩ := bind_eq_ok.mp h
  obtain ⟨_,d,hd,h⟩ := bind_eq_ok.mp h
  obtain ⟨_,e,he,h⟩ := bind_eq_ok.mp h
  have pa : Shimmed True _ _ := attachTask_moves env u
  have pb : Shimmed True _ _ := writeShimData_moves env a
  have pc := emitSymbolStubs_moves env b
  have pd : Shimmed True _ _ := bindStubs_moves env c
  have pt : Shimmed True _ _ := writePvOps_moves env e
  rw [ha] at pa
  rw [hb] at pb
  rw [hc] at pc
  rw [hd] at pd
  rw [h] at pt
  have sa := pa.stubs trivial
  have sb := pb.stubs trivial
  have sd := pd.stubs trivial
  have st := pt.stubs trivial
  have hplanb : b.module.plan=u.module.plan := pb.staged.plan.trans pa.staged.plan
  have hpland : d.module.plan=u.module.plan :=
    pd.staged.plan.trans (pc.staged.plan.trans hplanb)
  have hprotb : b.module.protection=fun _ => .readWrite := (congrArg protection hplanb).trans hp
  have hprotd : d.module.protection=fun _ => .readWrite := (congrArg protection hpland).trans hp
  have hshimb : b.module.shimRegionOffset=u.module.shimRegionOffset :=
    congrArg shimRegionOffset hplanb
  have hshimd : d.module.shimRegionOffset=u.module.shimRegionOffset :=
    congrArg shimRegionOffset hpland
  have hbs : b.module.stubs=[] := sb.1.trans (sa.1.trans hs)
  obtain ⟨hsym,hext,hroom⟩ := emitSymbolStubs_stubs hprotb hbs hc
  have hsyms : StubTable u.module.shimRegionOffset (shimSymbolCount env) c.module.stubs := by
    have hem := (StubTable.empty u.module.shimRegionOffset).emits .symbol
      (by decide) (by decide) (shimSymbolCount env) (inr (by omega))
    simp only [Nat.zero_add] at hem
    rw [hsym,hshimb]
    exact hem
  have hnone : ∀ x∈c.module.stubs,x.kind≠.usbControlMsg := by
    intro x hx
    rw [hsym] at hx
    obtain ⟨i,_,rfl⟩ := mem_map.mp hx
    exact fun hk => StubKind.noConfusion hk
  obtain ⟨husb,hexte⟩ := emitStub_ran hprotd he
  rw [hshimd,sd.1] at husb
  refine ⟨?_,?_⟩
  · rw [st.1,husb]
    exact hsyms.usb hnone
  · rw [st.2,hexte,sd.2,hext,sb.2,sa.2,h0]

/-- The shim region of a module that has been loaded. -/
structure ShimOk (env : Env) (m : KbModule) : Prop where
  stubs : StubTable m.shimRegionOffset (shimSymbolCount env+m.externalStubCount) m.stubs
  aligned : m.shimRegionOffset%pageSize=0
  size : m.imageSize=m.shimRegionOffset+shimRegionSize
  code : ∀ page,m.shimRegionOffset≤page*pageSize →
    page*pageSize < m.shimRegionOffset+shimDataOffset → m.protection page=.readExec
  data : ∀ page,m.shimRegionOffset+shimDataOffset≤page*pageSize →
    page*pageSize < m.shimRegionOffset+shimDataOffset+shimDataSize → m.protection page=.readWrite

theorem Loaded.stubTable (h : Loaded env s l v t) (hb : s.module.Blank) :
    StubTable t.module.shimRegionOffset (shimSymbolCount env) t.module.stubs ∧
      t.module.externalStubCount=0 ∧ t.module.protection=fun _ => .readWrite := by
  obtain ⟨u,hu⟩ := h.laid
  have hm := hu.imaged.module
  have hp : u.module.protection=fun _ => .readWrite := congrArg KbModule.protection hm
  have hs : u.module.stubs=[] := (congrArg KbModule.stubs hm).trans hb.stubs.1
  have h0 : u.module.externalStubCount=0 :=
    (congrArg KbModule.externalStubCount hm).trans hb.stubs.2
  obtain ⟨htab,hext⟩ := fillShim_stubs hp hs h0 hu.filled
  have hshim : t.module.shimRegionOffset=u.module.shimRegionOffset :=
    (congrArg shimRegionOffset h.plan).trans (congrArg shimRegionOffset hu.staged.plan)
  have hprot : t.module.protection=u.module.protection :=
    (congrArg protection h.plan).trans (congrArg protection hu.staged.plan)
  refine ⟨?_,h.stubs.2.trans hext,hprot.trans hp⟩
  rw [hshim,h.stubs.1]
  exact htab

theorem Patched.stubTable (h : Patched env a b)
    (ht : StubTable a.module.shimRegionOffset (shimSymbolCount env+a.module.externalStubCount)
      a.module.stubs) (hp : a.module.protection=fun _ => .readWrite) :
    StubTable b.module.shimRegionOffset (shimSymbolCount env+b.module.externalStubCount)
      b.module.stubs := by
  obtain ⟨k,hk,hst,hroom⟩ := h.stubs
  have hshim : b.module.shimRegionOffset=a.module.shimRegionOffset :=
    congrArg shimRegionOffset h.plan
  have hem := ht.emits .crossModule (by decide) (by decide) k (by omega)
  rw [hshim,hk,hst,← Nat.add_assoc]
  unfold crossStubs
  simp only [stubWritable_all hp]
  exact hem

theorem Prepared.shimOk (h : Prepared env s l v a b c t) (hb : s.module.Blank)
    (hfit : LayoutFits s.module.elf) : ShimOk env t.module := by
  obtain ⟨htab,h0,hprot⟩ := h.loaded.stubTable hb
  have hpat := h.patched.stubTable (by rw [h0]; exact htab) hprot
  have hmoves := finalize_moves env c
  rw [h.finished] at hmoves
  have harr := (h.loaded.arranged hb hfit).of_plan h.plan
  obtain ⟨_,hcode,hdata⟩ := finalize_pages harr h.finished
  have hshim : t.module.shimRegionOffset=c.module.shimRegionOffset := by
    rw [hmoves.module]
  have hca : c.module.shimRegionOffset=a.module.shimRegionOffset := congrArg shimRegionOffset h.plan
  have hcb : c.module.shimRegionOffset=b.module.shimRegionOffset :=
    congrArg shimRegionOffset h.exported.plan
  have hsize : t.module.imageSize=a.module.imageSize := by
    have hc : c.module.imageSize=a.module.imageSize := congrArg imageSize h.plan
    rw [hmoves.module]
    exact hc
  have hstubs : t.module.stubs=b.module.stubs ∧
      t.module.externalStubCount=b.module.externalStubCount := by
    rw [hmoves.module,h.exported.module]
    exact ⟨rfl,rfl⟩
  refine ⟨?_,?_,?_,?_,?_⟩
  · rw [hshim,hcb,hstubs.1,hstubs.2]
    exact hpat
  · rw [hshim]
    exact harr.aligned
  · rw [hshim,hca,hsize]
    exact (h.loaded.ordered hb hfit).2.2
  · rw [hshim]
    exact hcode
  · rw [hshim]
    exact hdata

end

variable {env : Env} {m : KbModule}

theorem ShimOk.slot_pages (h : ShimOk env m) {i page : Nat} (hi : i<shimStubCount)
    (hlo : m.shimRegionOffset+i*shimStubSize<(page+1)*pageSize)
    (hhi : page*pageSize < m.shimRegionOffset+i*shimStubSize+shimStubSize) :
    m.protection page=.readExec := by
  have hend := slot_below hi le_rfl
  have hal := h.aligned
  apply h.code
  · unfold pageSize at *
    omega
  · omega

theorem ShimOk.gsCall (h : ShimOk env m) (target callerGs calleeGs : Nat) :
    ShimOk env (allocateExternalCallStubForCaller env .gsCall target callerGs calleeGs m).2 := by
  unfold allocateExternalCallStubForCaller
  dsimp only
  split
  · exact h
  split
  · exact h
  next hroom =>
  have hwr : m.stubWritable (m.shimRegionOffset+
      (shimSymbolCount env+m.externalStubCount)*shimStubSize)=false := by
    have hpage : m.protection ((m.shimRegionOffset+
        (shimSymbolCount env+m.externalStubCount)*shimStubSize)/pageSize)=.readExec := by
      apply h.slot_pages (i := shimSymbolCount env+m.externalStubCount) (by omega)
      · unfold pageSize
        omega
      · unfold pageSize
        have : 0<shimStubSize := by decide
        omega
    simp [KbModule.stubWritable,hpage]
  have hem := h.stubs.emit (by omega) .gsCall false (by decide) (by decide)
  refine ⟨?_,h.aligned,h.size,h.code,h.data⟩
  change StubTable m.shimRegionOffset (shimSymbolCount env+(m.externalStubCount+1))
    (m.stubs++[⟨.gsCall,_,m.stubWritable _⟩])
  rw [hwr]
  exact hem

/-- The images opened in this step have layout sums within 2^64. -/
def OpenFits (_ : Globals) : Event → Prop
  | .openImage image _ => ∀ data elf,image.data=some data →
      (kbElfOpen data image.size).val=.ok elf → LayoutFits elf
  | _ => True

variable {g : Globals}

theorem Opening.fits {image : ModuleImage} {backend : Nat} {s : Load} (ho : Opening image g s)
    (hf : OpenFits g (.openImage image backend)) : LayoutFits s.module.elf := by
  obtain ⟨data,hdata,helf⟩ := ho.file
  exact hf data s.module.elf hdata helf

theorem ShimOk.step {h : Globals} {event : Event} (hs : Sound g) (hok : ∀ m∈g.loaded,ShimOk env m)
    (hfit : OpenFits g event) (ht : Transition env g event h) : ∀ m∈h.loaded,ShimOk env m := by
  cases ht with
  | idle _ _ hi =>
    rw [hi.loaded]
    exact hok
  | opened image backend s t _ ho hp =>
    obtain ⟨l,v,a,b,c,hpr⟩ := prepareModule_ok env ho.blank hp
    intro m hm
    rcases mem_cons.mp hm with rfl|hm
    · exact hpr.shimOk ho.blank (ho.fits hfit)
    · exact hok m hm
  | failed image backend e s t q _ ho hp hr hm => exact hok
  | closed m hm =>
    intro x hx
    exact hok x (mem_unregister hs.selves hx).1
  | journal handle h0 => exact hok
  | stub target callerGs calleeGs m hm =>
    intro x hx
    obtain ⟨y,hy,rfl⟩ := mem_map.mp hx
    split
    · exact (hok m hm).gsCall target callerGs calleeGs
    · exact hok y hy

/-- The stub was written, its pages are executable, and no other live stub overlaps it. -/
def StubGood (g : Globals) (m : KbModule) (st : Stub) : Prop := st.writable=true ∧
  (∀ page,page*pageSize<st.start+shimStubSize → st.start<(page+1)*pageSize →
    m.protection page=.readExec) ∧
  (∀ m'∈g.loaded,∀ st'∈m'.stubs,(m'.self,st')≠(m.self,st) →
    m.imageBase+st.start+shimStubSize ≤ m'.imageBase+st'.start ∨
    m'.imageBase+st'.start+shimStubSize ≤ m.imageBase+st.start)

theorem ShimOk.stub_inside (h : ShimOk env m) {st : Stub} (hst : st∈m.stubs) :
    st.start+shimStubSize ≤ m.imageSize := by
  rw [h.size]
  have hreg : shimRegionSize=shimDataOffset+shimDataSize := rfl
  rcases h.stubs.slot st hst with ⟨_,hs,_⟩|⟨_,_,i,hi,hs⟩
  · have husb : usbControlMsgStubOffset+shimStubSize ≤ shimRegionSize := by decide
    omega
  · have hend := slot_below hi h.stubs.room
    omega

theorem ShimOk.stubs_apart (hs : Sound g) (hok : ∀ m∈g.loaded,ShimOk env m) {m' : KbModule}
    (hm : m∈g.loaded) (hm' : m'∈g.loaded) {st st' : Stub} (hst : st∈m.stubs) (hst' : st'∈m'.stubs)
    (hne : (m'.self,st')≠(m.self,st)) :
    m.imageBase+st.start+shimStubSize ≤ m'.imageBase+st'.start ∨
      m'.imageBase+st'.start+shimStubSize ≤ m.imageBase+st.start := by
  by_cases he : m'.self=m.self
  · have hmm := hs.same hm' hm he
    subst hmm
    have : Std.Symm Stub.Apart := ⟨fun _ _ h => h.symm⟩
    have hap := (hok m' hm').stubs.apart.forall hst hst' fun hx => hne (by rw [hx])
    unfold Stub.Apart at hap
    omega
  · have hsep := hs.separate hm hm' (Ne.symm he)
    have h1 := (hok m hm).stub_inside hst
    have h2 := (hok m' hm').stub_inside hst'
    unfold Separate at hsep
    omega

/-- If images fit, the good live stubs are exactly the symbol stubs and the cross-module stubs. -/
theorem stub_good_iff_kind (env : Env) (events : List Event)
    (h : Meets (step env) OpenFits Globals.start events) :
    ∀ m∈(runAll (step env) Globals.start events).loaded,∀ st∈m.stubs,
      StubGood (runAll (step env) Globals.start events) m st ↔
        st.kind=.symbol ∨ st.kind=.crossModule := by
  have hinv := runAll_invariant (I := fun g => Sound g ∧ ∀ m∈g.loaded,ShimOk env m)
    (fun g event hg hfit =>
      have ht := step_transition hg.1
      ⟨hg.1.step ht,ShimOk.step hg.1 hg.2 hfit ht⟩)
    ⟨Sound.start,fun m hm => absurd hm not_mem_nil⟩ h
  obtain ⟨hs,hok⟩ := hinv
  intro m hm st hst
  have hmk := hok m hm
  constructor
  · rintro ⟨hwr,hexec,_⟩
    rcases hmk.stubs.slot st hst with ⟨_,hstart,_⟩|⟨husb,hw,_⟩
    · have hx := hexec (st.start/pageSize) (by unfold pageSize shimStubSize; omega)
        (by unfold pageSize; omega)
      have hlo : shimDataOffset+pageSize≤usbControlMsgStubOffset := by decide
      have hhi : usbControlMsgStubOffset<shimDataOffset+shimDataSize := by decide
      have hrw := hmk.data (st.start/pageSize)
        (by rw [hstart]; unfold pageSize at *; omega) (by rw [hstart]; unfold pageSize at *; omega)
      rw [hrw] at hx
      cases hx
    · have hg := hw.mp hwr
      cases hk : st.kind with
      | symbol => exact inl rfl
      | crossModule => exact inr rfl
      | usbControlMsg => exact absurd hk husb
      | gsCall => exact absurd hk hg
  · intro hk
    rcases hmk.stubs.slot st hst with ⟨husb,_⟩|⟨_,hw,i,hi,hstart⟩
    · rw [husb] at hk
      rcases hk with hk|hk <;> cases hk
    refine ⟨?_,?_,?_⟩
    · apply hw.mpr
      rcases hk with hk|hk
      · rw [hk]
        decide
      · rw [hk]
        decide
    · intro page h1 h2
      rw [hstart] at h1 h2
      exact hmk.slot_pages (lt_of_lt_of_le hi hmk.stubs.room) h2 h1
    · intro m' hm' st' hst' hne
      exact ShimOk.stubs_apart hs hok hm hm' hst hst' hne

theorem openFits_plainSample {backend : Nat} {g : Globals} :
    OpenFits g (.openImage ⟨some Elf.plainSample,201,none⟩ backend) := by
  intro data elf hdata helf
  cases hdata
  have hopen : (kbElfOpen plainSample 201).val=.ok (file plainSample 201 2) := by rfl
  cases helf
  decide +kernel

theorem stub_good_plainSample : ∃ m∈(runAll (step Env.sample) Globals.start
        [.openImage ⟨some Elf.plainSample,201,none⟩ 1]).loaded,∃ st∈m.stubs,st.kind=.symbol ∧
      StubGood (runAll (step Env.sample) Globals.start
        [.openImage ⟨some Elf.plainSample,201,none⟩ 1]) m st := by
  have hmeets : Meets (step Env.sample) OpenFits start
      [.openImage ⟨some plainSample,201,none⟩ 1] := ⟨openFits_plainSample,trivial⟩
  have hex : ∃ m∈(runAll (step Env.sample) start
      [.openImage ⟨some plainSample,201,none⟩ 1]).loaded,∃ st∈m.stubs,st.kind=.symbol := by
    decide +kernel
  obtain ⟨m,hm,st,hst,hk⟩ := hex
  exact ⟨m,hm,st,hst,hk,(stub_good_iff_kind Env.sample _ hmeets m hm st hst).mpr (inl hk)⟩

/-- The USB stub is not executable, and a stub made after the load goes to a page not writable. -/
theorem stubs_on_wrong_pages :
    (∃ m∈(runAll (step Env.sample) Globals.start [.openImage ⟨some Elf.plainSample,201,none⟩ 1,
        .gsCallStub 0x40000000 1]).loaded,∃ st∈m.stubs,st.kind=.usbControlMsg ∧
      ¬StubGood (runAll (step Env.sample) Globals.start
        [.openImage ⟨some Elf.plainSample,201,none⟩ 1,.gsCallStub 0x40000000 1]) m st) ∧
    (∃ m∈(runAll (step Env.sample) Globals.start [.openImage ⟨some Elf.plainSample,201,none⟩ 1,
        .gsCallStub 0x40000000 1]).loaded,∃ st∈m.stubs,st.kind=.gsCall ∧
      ¬StubGood (runAll (step Env.sample) Globals.start
        [.openImage ⟨some Elf.plainSample,201,none⟩ 1,.gsCallStub 0x40000000 1]) m st) := by
  have husb : ∃ m∈(runAll (step Env.sample) start
      [.openImage ⟨some plainSample,201,none⟩ 1,.gsCallStub 0x40000000 1]).loaded,
      ∃ st∈m.stubs,st.kind=.usbControlMsg ∧ m.protection (st.start/pageSize)=.readWrite := by
    decide +kernel
  have hgs : ∃ m∈(runAll (step Env.sample) start
      [.openImage ⟨some plainSample,201,none⟩ 1,.gsCallStub 0x40000000 1]).loaded,
      ∃ st∈m.stubs,st.kind=.gsCall ∧ st.writable=false := by decide +kernel
  constructor
  · obtain ⟨m,hm,st,hst,hk,hrw⟩ := husb
    refine ⟨m,hm,st,hst,hk,?_⟩
    intro hgood
    have hx := hgood.2.1 (st.start/pageSize) (by unfold pageSize shimStubSize; omega)
      (by unfold pageSize; omega)
    rw [hrw] at hx
    cases hx
  · obtain ⟨m,hm,st,hst,hk,hw⟩ := hgs
    refine ⟨m,hm,st,hst,hk,?_⟩
    intro hgood
    have hx := hgood.1
    rw [hw] at hx
    cases hx
end Kobox.Loader
