import Kobox.Loader.Lifecycle

namespace Kobox.Loader

open List

/-- What stays while an image is filled: all but the bytes, the stubs, the task, the entry points. -/
structure Plan where
  self : Nat
  name : String
  elf : ElfFile
  imageBase : Nat
  imageSize : Nat
  shimRegionOffset : Nat
  sections : Nat → LoadedSection
  sectionCount : Nat
  percpuOffset : Nat
  percpuSize : Nat
  protection : Nat → Prot

def KbModule.plan (m : KbModule) : Plan where
  self := m.self
  name := m.name
  elf := m.elf
  imageBase := m.imageBase
  imageSize := m.imageSize
  shimRegionOffset := m.shimRegionOffset
  sections := m.sections
  sectionCount := m.sectionCount
  percpuOffset := m.percpuOffset
  percpuSize := m.percpuSize
  protection := m.protection

/-- What the stages before the task is rewritten leave alone in the loader. -/
structure Kept where
  loaded : List KbModule
  registry : SymbolRegistry
  percpuNext : Nat
  template : Bytes
  templateValid : Bool
  published : Nat

def Globals.kept (g : Globals) : Kept where
  loaded := g.loaded
  registry := g.registry
  percpuNext := g.percpuNext
  template := g.template
  templateValid := g.templateValid
  published := g.published

/-- Mappings are only added and no record is freed. -/
def Grows (p q : Process) : Prop := q.records=p.records ∧ ∀ x∈p.mappings,x∈q.mappings

theorem Grows.refl (p : Process) : Grows p p := ⟨rfl,fun _ h => h⟩

theorem Grows.trans {p q r : Process} (h : Grows p q) (k : Grows q r) : Grows p r :=
  ⟨k.1.trans h.1,fun x hx => k.2 x (h.2 x hx)⟩

theorem Mapped.grows {p q : Process} {len a : Nat} (h : Mapped p len a q) : Grows p q := by
  refine ⟨h.records,?_⟩
  intro x hx
  rcases h.place with ⟨-,hm⟩|⟨-,hm⟩
  · exact hm ▸ hx
  · rw [hm]
    exact mem_cons_of_mem _ hx

theorem sharedMapping_grows (env : Env) (current : Nat) (p : Process) :
    Grows p (sharedMapping env current p).2 := by
  unfold sharedMapping
  split
  · exact (allocMemory_mapped).grows
  · exact Grows.refl p

def KbModule.Holds (m : KbModule) (w : SectionWrite) : Prop :=
  w.start+w.length≤(m.sections w.index).size

def KbModule.Covers (m : KbModule) (w : SectionWrite) (a : Nat) : Prop :=
  (m.sections w.index).offset+w.start≤a ∧ a<(m.sections w.index).offset+w.start+w.length

/-- The image differs only where a new recorded write or the shim region is. -/
structure Stored (m n : KbModule) (ws : List SectionWrite) : Prop where
  writes : n.writes=m.writes++ws
  holds : ∀ w∈ws,m.Holds w
  image : ∀ a,a < m.shimRegionOffset → (∀ w∈ws,¬m.Covers w a) → n.image a=m.image a

theorem Stored.refl (m : KbModule) : Stored m m [] :=
  ⟨by simp,fun _ h => absurd h not_mem_nil,fun _ _ _ => rfl⟩

structure SamePlaces (m n : KbModule) : Prop where
  offset : ∀ i,(n.sections i).offset=(m.sections i).offset
  size : ∀ i,(n.sections i).size=(m.sections i).size
  shim : n.shimRegionOffset=m.shimRegionOffset

variable {m n : KbModule}

theorem SamePlaces.of_plan (h : n.plan=m.plan) : SamePlaces m n := by
  have hs : n.sections=m.sections := congrArg Plan.sections h
  exact ⟨fun i => by rw [hs],fun i => by rw [hs],congrArg Plan.shimRegionOffset h⟩

theorem SamePlaces.holds (h : SamePlaces m n) (w : SectionWrite) : n.Holds w ↔ m.Holds w := by
  unfold KbModule.Holds
  rw [h.size]

theorem SamePlaces.covers (h : SamePlaces m n) (w : SectionWrite) (a : Nat) :
    n.Covers w a ↔ m.Covers w a := by
  unfold KbModule.Covers
  rw [h.offset]

variable {ws : List SectionWrite}

theorem Stored.trans {a b c : KbModule} {us : List SectionWrite} (h : Stored a b us)
    (k : Stored b c ws) (hp : SamePlaces a b) : Stored a c (us++ws) := by
  refine ⟨by rw [k.writes,h.writes,append_assoc],?_,?_⟩
  · intro w hw
    rcases mem_append.mp hw with hw|hw
    · exact h.holds w hw
    · exact (hp.holds w).mp (k.holds w hw)
  · intro x hx hn
    have hb := k.image x (hp.shim ▸ hx) fun w hw hc =>
      hn w (mem_append_right _ hw) ((hp.covers w x).mp hc)
    rw [hb]
    exact h.image x hx fun w hw => hn w (mem_append_left _ hw)

theorem Stored.shim (stores : List (Nat × List UInt8)) : Stored m (m.storeShim stores) [] := by
  refine ⟨by simp [KbModule.storeShim],fun _ h => absurd h not_mem_nil,?_⟩
  intro a ha _
  exact Bytes.putAll_outside m.image m.shimRegionOffset stores a fun w _ => Or.inl (by omega)

theorem Stored.stub (kind : StubKind) (off : Nat) (code : List UInt8) :
    Stored m (m.emitStub kind off code) [] := by
  refine ⟨by simp [KbModule.emitStub],fun _ h => absurd h not_mem_nil,?_⟩
  intro a ha _
  exact Bytes.put_outside m.image _ code a (Or.inl (by omega))

theorem Stored.congr {k : KbModule} (h : Stored m n ws) (hw : k.writes=n.writes)
    (hi : k.image=n.image) : Stored m k ws :=
  ⟨hw.trans h.writes,h.holds,fun a ha hn => by rw [hi,h.image a ha hn]⟩

theorem Stored.section (i start : Nat) (bytes : List UInt8)
    (h : start+bytes.length≤(m.sections i).size) :
    Stored m (m.storeSection i start bytes) [⟨i,start,bytes.length⟩] := by
  refine ⟨rfl,?_,?_⟩
  · intro w hw
    rw [mem_singleton.mp hw]
    exact h
  intro a _ hn
  have hc := hn _ (mem_singleton.mpr rfl)
  apply Bytes.put_outside
  unfold KbModule.Covers at hc
  dsimp only at hc
  omega

/-- Before the task: writes to the shim region and to the first word of the GS area. -/
structure Staged (s t : Load) : Prop where
  plan : t.module.plan=s.module.plan
  kept : t.globals.kept=s.globals.kept
  process : Grows s.globals.process t.globals.process
  stored : Stored s.module t.module []
  gs : ∀ a,8≤a → t.globals.gs a=s.globals.gs a
  task : s.globals.sharedTask≠0 →
    t.globals.sharedTask=s.globals.sharedTask ∧ t.globals.task=s.globals.task
  zeroed : s.globals.task=(fun _ => 0) → t.globals.task=fun _ => 0

theorem Staged.refl (s : Load) : Staged s s :=
  ⟨rfl,rfl,Grows.refl _,Stored.refl _,fun _ _ => rfl,fun _ => ⟨rfl,rfl⟩,id⟩

theorem Staged.trans (a b c : Load) (h : Staged a b) (k : Staged b c) : Staged a c where
  plan := k.plan.trans h.plan
  kept := k.kept.trans h.kept
  process := h.process.trans k.process
  stored := h.stored.trans k.stored (SamePlaces.of_plan h.plan)
  gs := fun x hx => (k.gs x hx).trans (h.gs x hx)
  task := fun hs => by
    have h1 := h.task hs
    have h2 := k.task (h1.1 ▸ hs)
    exact ⟨h2.1.trans h1.1,h2.2.trans h1.2⟩
  zeroed := fun hz => k.zeroed (h.zeroed hz)

variable {s : Load}

theorem Staged.onModule (hp : m.plan=s.module.plan) (hs : Stored s.module m []) :
    Staged s { s with module := m } :=
  ⟨hp,rfl,Grows.refl _,hs,fun _ _ => rfl,fun _ => ⟨rfl,rfl⟩,id⟩

theorem sharedTask_staged (env : Env) (s : Load) :
    Staged s { s with globals := (sharedCurrentTask env s.globals).2 } := by
  refine ⟨rfl,rfl,sharedMapping_grows env _ _,Stored.refl _,fun _ _ => rfl,?_,?_⟩
  · intro hs
    simp [sharedCurrentTask,sharedMapping,hs]
  · intro hz
    simp [sharedCurrentTask,hz]

def SameStubs (s t : Load) : Prop :=
  t.module.stubs=s.module.stubs ∧ t.module.externalStubCount=s.module.externalStubCount

/-- A stage that fills the shim, and leaves the stubs alone where that is asked. -/
structure Shimmed (fixed : Prop) (s t : Load) : Prop where
  staged : Staged s t
  jiffies : t.globals.clock=s.globals.clock
  stubs : fixed → SameStubs s t

variable {fixed : Prop}

theorem Shimmed.refl (s : Load) : Shimmed fixed s s := ⟨Staged.refl s,rfl,fun _ => ⟨rfl,rfl⟩⟩

theorem Shimmed.trans (a b c : Load) (h : Shimmed fixed a b) (k : Shimmed fixed b c) :
    Shimmed fixed a c := by
  refine ⟨Staged.trans a b c h.staged k.staged,k.jiffies.trans h.jiffies,fun hf => ?_⟩
  exact ⟨(k.stubs hf).1.trans (h.stubs hf).1,(k.stubs hf).2.trans (h.stubs hf).2⟩

/-- Patches of a loaded image: writes into sections, cross stubs, shared mappings, jiffies slots. -/
structure Steady where
  kept : Kept
  gs : Bytes
  sharedTask : Nat
  task : Bytes

open Steady

def Globals.steady (g : Globals) : Steady where
  kept := g.kept
  gs := g.gs
  sharedTask := g.sharedTask
  task := g.task

/-- The k stubs for other modules' code that follow those a module already has. -/
def crossStubs (env : Env) (m : KbModule) (k : Nat) : List Stub := (List.range k).map fun j =>
    let start := m.shimRegionOffset+(shimSymbolCount env+m.externalStubCount+j)*shimStubSize
    ⟨.crossModule,start,m.stubWritable start⟩

structure Patched (env : Env) (s t : Load) : Prop where
  plan : t.module.plan=s.module.plan
  named : t.module.namedStubs=s.module.namedStubs
  steady : t.globals.steady=s.globals.steady
  process : Grows s.globals.process t.globals.process
  stored : ∃ ws,Stored s.module t.module ws
  stubs : ∃ k,t.module.externalStubCount=s.module.externalStubCount+k ∧
    t.module.stubs=s.module.stubs++crossStubs env s.module k ∧
    (k=0 ∨ shimSymbolCount env+s.module.externalStubCount+k ≤ shimStubCount)

open Patched

theorem Patched.refl (env : Env) (s : Load) : Patched env s s :=
  ⟨rfl,rfl,rfl,Grows.refl _,⟨[],Stored.refl _⟩,0,rfl,by simp [crossStubs],Or.inl rfl⟩

theorem stubWritable_plan (h : n.plan=m.plan) {start : Nat} :
    n.stubWritable start=m.stubWritable start := by
  have hp : n.protection=m.protection := congrArg Plan.protection h
  simp only [KbModule.stubWritable,hp]

theorem crossStubs_append {env : Env} (h : n.plan=m.plan) {j k : Nat}
    (hj : n.externalStubCount=m.externalStubCount+j) :
    crossStubs env m j++crossStubs env n k=crossStubs env m (j+k) := by
  have hoff : n.shimRegionOffset=m.shimRegionOffset := congrArg Plan.shimRegionOffset h
  unfold crossStubs
  rw [range_add,map_append,map_map]
  congr 1
  apply map_congr_left
  intro i _
  simp [stubWritable_plan h,hoff,hj,Nat.add_assoc]

theorem Patched.trans (env : Env) (a b c : Load) (h : Patched env a b) (k : Patched env b c) :
    Patched env a c := by
  obtain ⟨us,hus⟩ := h.stored
  obtain ⟨ws,hws⟩ := k.stored
  obtain ⟨i,hi,his,hib⟩ := h.stubs
  obtain ⟨j,hj,hjs,hjb⟩ := k.stubs
  refine ⟨k.plan.trans h.plan,k.named.trans h.named,k.steady.trans h.steady,
    h.process.trans k.process,⟨us++ws,hus.trans hws (SamePlaces.of_plan h.plan)⟩,i+j,by omega,?_,by omega⟩
  rw [hjs,his,append_assoc,crossStubs_append h.plan hi]

variable {env : Env}

theorem Patched.onModule (hp : m.plan=s.module.plan) (hn : m.namedStubs=s.module.namedStubs)
    (hs : Stored s.module m ws) (he : m.externalStubCount=s.module.externalStubCount)
    (hst : m.stubs=s.module.stubs) : Patched env s { s with module := m } :=
  ⟨hp,hn,rfl,Grows.refl _,⟨ws,hs⟩,0,he,by simp [crossStubs,hst],Or.inl rfl⟩

theorem Patched.shim (s : Load) (stores : List (Nat × List UInt8)) :
    Patched env s (s.onModule (KbModule.storeShim stores)) ∧
      (s.onModule (KbModule.storeShim stores)).module.writes=s.module.writes :=
  ⟨onModule rfl rfl (Stored.shim stores) rfl rfl,rfl⟩

theorem Patched.onGlobals (g : Globals) (hg : g.steady=s.globals.steady)
    (hp : Grows s.globals.process g.process) :
    Patched env s { s with globals := g } ∧
      ({ s with globals := g } : Load).module.writes=s.module.writes :=
  ⟨⟨rfl,rfl,hg,hp,⟨[],Stored.refl _⟩,0,rfl,by simp [crossStubs],Or.inl rfl⟩,rfl⟩

theorem Patched.staged {t : Load} (h : Patched env s t) (hw : t.module.writes=s.module.writes) :
    Staged s t := by
  obtain ⟨ws,hs⟩ := h.stored
  have hnil : ws=[] := by
    have he := hs.writes
    rw [hw] at he
    simpa using he
  subst hnil
  exact ⟨h.plan,congrArg kept h.steady,h.process,hs,
    fun a _ => congrFun (congrArg gs h.steady) a,
    fun _ => ⟨congrArg sharedTask h.steady,congrArg task h.steady⟩,
    fun hz => (congrArg task h.steady).trans hz⟩

theorem registerStorage_steady {storage : Nat} {g : Globals} :
    (registerJiffiesStorage storage g).steady=g.steady ∧
      Grows g.process (registerJiffiesStorage storage g).process := by
  unfold registerJiffiesStorage
  split
  · exact ⟨rfl,Grows.refl _⟩
  split
  · exact ⟨rfl,Grows.refl _⟩
  split <;> exact ⟨rfl,Grows.refl _⟩

theorem shimSymbol_patched (env : Env) (name : String) (s : Load) :
    Patched env s (lookupModuleShimSymbol env name s).2 ∧
      (lookupModuleShimSymbol env name s).2.module.writes=s.module.writes := by
  unfold lookupModuleShimSymbol
  split
  · exact onGlobals (sharedBlockdevSuperblock env s.globals).2 rfl (sharedMapping_grows env _ _)
  split
  · exact onGlobals (sharedTasklistLock env s.globals).2 rfl (sharedMapping_grows env _ _)
  split
  · exact shim s _
  split
  · exact ⟨refl env s,rfl⟩
  split
  · obtain ⟨hs,hp⟩ := registerStorage_steady
    exact onGlobals _ hs hp
  · exact ⟨refl env s,rfl⟩

theorem lookup_moves (env : Env) (name : String) :
    Prog.Moves (Patched env) (lookupModuleShimSymbol env name) :=
  fun s => (shimSymbol_patched env name s).1

theorem lookup_shimmed (fixed : Prop) (env : Env) {name : String} (h : name="jiffies" → False) :
    Prog.Moves (Shimmed fixed) (lookupModuleShimSymbol env name) := by
  intro s
  obtain ⟨hp,hw⟩ := shimSymbol_patched env name s
  suffices hrest : (lookupModuleShimSymbol env name s).2.globals.clock=s.globals.clock ∧
      SameStubs s (lookupModuleShimSymbol env name s).2 from
    ⟨hp.staged hw,hrest.1,fun _ => hrest.2⟩
  unfold lookupModuleShimSymbol SameStubs
  split
  · exact ⟨rfl,rfl,rfl⟩
  split
  · exact ⟨rfl,rfl,rfl⟩
  split
  · exact ⟨rfl,rfl,rfl⟩
  split
  · exact ⟨rfl,rfl,rfl⟩
  · exact ⟨rfl,rfl,rfl⟩

end Kobox.Loader
