import Kobox.Loader.CopyProof

namespace Kobox.Loader

open Plan

/-- The template follows the task when that is the published one and has no journal handle. -/
def Globals.Capturing (g : Globals) : Prop :=
  g.published=g.sharedTask ∧ Bytes.leValue g.task taskJournalInfoOffset 8=0

instance (g : Globals) : Decidable g.Capturing := inferInstanceAs (Decidable (_ ∧ _))

/-- Copy of the task, without its journal handle, over the old template. -/
def Globals.taskCopy (g : Globals) : Bytes :=
  (g.template.copy 0 4096 g.task 0).put taskJournalInfoOffset (List.replicate 8 0)

def Globals.captured (g : Globals) : Globals :=
  if g.Capturing then { g with template := g.taskCopy,templateValid := true } else g

variable {env : Env} {s : Load}

theorem captureTemplate_run (hs : s.globals.sharedTask≠0) (hp : s.globals.published≠0) :
    captureTemplate env s=(.ok (),{ s with globals := s.globals.captured }) := by
  have hpub : kbLoaderCurrentTask env s.globals=(s.globals.published,s.globals) := by
    unfold kbLoaderCurrentTask
    rw [if_neg hp]
  unfold captureTemplate
  simp only [Prog.modify_run,sharedTask_of_ne hs,hpub]
  by_cases hc : s.globals.published=s.globals.sharedTask ∧
      Bytes.leValue s.globals.task taskJournalInfoOffset 8=0
  · have hg : s.globals.captured=
        { s.globals with template := s.globals.taskCopy,templateValid := true } := if_pos hc
    rw [hg,if_pos hc]
    rfl
  · have hg : s.globals.captured=s.globals := if_neg hc
    rw [hg,if_neg hc]

theorem Globals.publishedTask_ne {g : Globals} (h : g.sharedTask≠0) : g.publishedTask≠0 := by
  unfold Globals.publishedTask
  split
  · exact h
  · next hp => exact hp

/-- The task as `load_sections` rewrites it for the image of m. -/
def Globals.withTask (g : Globals) (m : KbModule) : Globals :=
  { g with
    published := g.publishedTask
    gs := g.gs.putAll 0 (gsSlotStores g.publishedTask)
    task := g.task.putAll 0 (taskStores m) }

def Load.withTask (s : Load) : Load :=
  ⟨s.globals.withTask s.module,s.module.storeShim (taskShimStores s.module)⟩

theorem initCurrentTask_run (hs : s.globals.sharedTask≠0) :
    initCurrentTask env s=(.ok (),s.withTask) := by
  rcases h : initCurrentTask env s with ⟨r,t⟩
  have hr : r=.ok () := congrArg Prod.fst h.symm
  subst hr
  obtain ⟨hg,hm⟩ := initCurrentTask_globals hs h
  have ht : t=s.withTask := by
    cases t
    dsimp only at hg hm
    rw [hg,hm]
    rfl
  rw [ht]

/-- A record whose section table is still zero and has an entry for every header. -/
structure KbModule.Blank (m : KbModule) : Prop where
  sections : ∀ j,m.sections j=LoadedSection.zero
  count : m.sectionCount=m.elf.sectionCount
  percpu : m.percpuOffset=0 ∧ m.percpuSize=0
  writes : m.writes=[]
  stubs : m.stubs=[] ∧ m.externalStubCount=0
  base : m.imageBase=0 ∧ m.imageSize=0

theorem KbModule.fresh_blank (self : Nat) (name : String) (elf : ElfFile) (node0 : Nat) :
    (KbModule.fresh self name elf node0).Blank :=
  ⟨fun _ => rfl,rfl,⟨rfl,rfl⟩,rfl,⟨rfl,rfl⟩,⟨rfl,rfl⟩⟩

theorem kbElfSection_lt {f : ElfFile} {i : Nat} {sec : Section} (h : (kbElfSection f i).val=.ok sec) :
    i<f.sectionCount := by
  unfold kbElfSection at h
  by_contra hge
  rw [if_pos (by omega)] at h
  cases h

theorem AllocAt.lt {f : ElfFile} {i : Nat} {sec : Section} (h : AllocAt f i sec) :
    i<f.sectionCount := kbElfSection_lt h.1

variable {u v : Load} {l : Layout}

theorem Laid.sizes (h : Laid env s l u v) (hb : s.module.Blank) : SizesAgree v.module := by
  have hfilled := layoutSections_filled h.layout hb.sections
  have helf : v.module.elf=s.module.elf := congrArg elf h.plan
  have hcount : v.module.sectionCount=s.module.sectionCount := congrArg sectionCount h.plan
  have hsec : v.module.sections=l.sections := congrArg sections h.plan
  intro i sec hat hi
  rw [hsec]
  exact (hfilled.entry i sec (hcount ▸ hi) (helf ▸ hat)).2.1

/-- A finished `load_sections`, from the state v with the image mapped and its shim region filled. -/
structure Loaded (env : Env) (s : Load) (l : Layout) (v t : Load) : Prop where
  laid : ∃ u,Laid env s l u v
  plan : t.module.layoutPlan=v.module.layoutPlan
  based : ∀ j sec,AllocAt s.module.elf j sec →
    (t.module.sections j).base=(t.module.imageBase+(l.sections j).offset)%wordSize
  rest : ∀ j,(∀ sec,¬AllocAt s.module.elf j sec) → t.module.sections j=LoadedSection.zero
  stored : ∃ ws,Stored v.module t.module ws
  stubs : t.module.stubs=v.module.stubs ∧ t.module.externalStubCount=v.module.externalStubCount
  globals : ∃ gs,t.globals=Globals.captured { (v.globals.withTask v.module) with gs := gs }

theorem withTask_module {v : Load} : ∃ stores,v.withTask.module=v.module.storeShim stores :=
  ⟨taskShimStores v.module,rfl⟩

theorem storeShim_plan {stores : List (Nat × List UInt8)} {m : KbModule} :
    (m.storeShim stores).plan=m.plan := rfl

theorem withTask_plan (v : Load) : v.withTask.module.plan=v.module.plan := by
  obtain ⟨stores,h⟩ := withTask_module
  rw [h]
  exact storeShim_plan

theorem withTask_stored {v : Load} : Stored v.module v.withTask.module [] := by
  obtain ⟨stores,h⟩ := withTask_module
  rw [h]
  exact Stored.shim stores

theorem withTask_stubs (v : Load) : v.withTask.module.stubs=v.module.stubs ∧
    v.withTask.module.externalStubCount=v.module.externalStubCount := by
  obtain ⟨stores,h⟩ := withTask_module
  rw [h]
  exact ⟨rfl,rfl⟩

theorem SizesAgree.of_plan {m n : KbModule} (h : SizesAgree m) (hp : n.plan=m.plan) :
    SizesAgree n := by
  have helf : n.elf=m.elf := congrArg elf hp
  have hcount : n.sectionCount=m.sectionCount := congrArg sectionCount hp
  have hsec : n.sections=m.sections := congrArg sections hp
  unfold SizesAgree
  rw [helf,hcount,hsec]
  exact h

theorem Laid.withTask_sizes (h : Laid env s l u v) (hb : s.module.Blank) :
    SizesAgree v.withTask.module :=
  (h.sizes hb).of_plan (withTask_plan v)

theorem Laid.tables {x : Load} (h : Laid env s l u v) (hb : s.module.Blank)
    (hc : CopiedUpTo v.withTask v.withTask.module.sectionCount x) :
    (∀ j sec,AllocAt s.module.elf j sec →
      (x.module.sections j).base=(x.module.imageBase+(l.sections j).offset)%wordSize) ∧
    (∀ j,(∀ sec,¬AllocAt s.module.elf j sec) → x.module.sections j=LoadedSection.zero) := by
  have hplan := (withTask_plan v).trans h.plan
  have helf : v.withTask.module.elf=s.module.elf := congrArg elf hplan
  have hcount : v.withTask.module.sectionCount=s.module.sectionCount := congrArg sectionCount hplan
  have hsec : v.withTask.module.sections=l.sections := congrArg sections hplan
  have hbase : x.module.imageBase=v.withTask.module.imageBase := congrArg imageBase hc.copied.plan
  have hfilled := layoutSections_filled h.layout hb.sections
  constructor
  · intro j sec hat
    have hj : j<v.withTask.module.sectionCount := by
      rw [hcount,hb.count]
      exact hat.lt
    rw [hc.based j sec hj (helf ▸ hat),hsec,hbase]
  · intro j hj
    rw [hc.rest j (Or.inr fun sec hat => hj sec (helf ▸ hat)),hsec]
    exact hfilled.zero j (Or.inr hj)

theorem loadSections_run {env : Env} {s t : Load} (hb : s.module.Blank)
    (h : loadSections env s=(.ok (),t)) :
    ∃ l u v x,Laid env s l u v ∧ copySections v.withTask=(.ok (),x) ∧
      CopiedUpTo v.withTask v.withTask.module.sectionCount x ∧
      t={ x with globals := x.globals.captured } := by
  obtain ⟨_,v,hv,h1⟩ := Prog.bind_eq_ok.mp h
  obtain ⟨_,w,hw,h2⟩ := Prog.bind_eq_ok.mp h1
  obtain ⟨_,x,hx,hcap⟩ := Prog.bind_eq_ok.mp h2
  obtain ⟨l,u,hlaid⟩ := loadImage_ok hv
  have htask := fillShim_sharedTask hlaid.filled
  rw [initCurrentTask_run htask] at hw
  cases hw
  have hcopy := copySections_ok (hlaid.withTask_sizes hb) hx
  have hglob := hcopy.copied.globals
  have hshared : x.globals.sharedTask≠0 := by
    rw [hglob]
    exact htask
  have hpub : x.globals.published≠0 := by
    rw [hglob]
    exact Globals.publishedTask_ne htask
  rw [captureTemplate_run hshared hpub] at hcap
  cases hcap
  exact ⟨l,u,v,x,hlaid,hx,hcopy,rfl⟩

theorem loadSections_ok {env : Env} {s t : Load} (hb : s.module.Blank)
    (h : loadSections env s=(.ok (),t)) : ∃ l v,Loaded env s l v t := by
  obtain ⟨l,u,v,x,hlaid,_,hcopy,rfl⟩ := loadSections_run hb h
  have hglob := hcopy.copied.globals
  obtain ⟨hbased,hrest⟩ := hlaid.tables hb hcopy
  have hplan := withTask_plan v
  obtain ⟨ws,hws⟩ := hcopy.copied.stored
  have hst := withTask_stubs v
  exact ⟨l,v,⟨u,hlaid⟩,hcopy.copied.plan.trans (layoutPlan_of_plan hplan),hbased,hrest,
    ⟨ws,(withTask_stored).trans hws (SamePlaces.of_plan hplan)⟩,
    ⟨hcopy.copied.stubs.trans hst.1,hcopy.copied.external.trans hst.2⟩,
    ⟨x.globals.gs,congrArg Globals.captured hglob⟩⟩

end Kobox.Loader
