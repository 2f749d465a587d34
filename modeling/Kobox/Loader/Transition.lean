import Kobox.Loader.OpenOutcome

namespace Kobox.Loader

open List
open Plan (imageBase)

def Separate (a b : KbModule) : Prop :=
  a.imageBase+a.imageSize≤b.imageBase ∨ b.imageBase+b.imageSize≤a.imageBase

/-- A loaded module's record and image, as the process has them. -/
structure Backed (p : Process) (m : KbModule) : Prop where
  record : m.self∈p.records
  mapping : (m.imageBase,m.imageSize)∈p.mappings
  size : m.imageSize≠0 ∧ m.imageSize%pageSize=0
  place : m.imageBase≠0 ∧ m.imageBase%pageSize=0 ∧ m.imageBase+m.imageSize≤userTop

structure Sound (g : Globals) : Prop where
  backed : ∀ m∈g.loaded,Backed g.process m
  selves : g.loaded.Pairwise fun a b => a.self≠b.self
  apart : g.loaded.Pairwise Separate
  slots : SlotsOk g.registry
  owners : ∀ i,(g.registry i).owner=0 ∨ (g.registry i).owner∈g.process.records
  untouched : g.sharedTask=0 → g.task=fun _ => 0

theorem Sound.start : Sound Globals.start := by
  constructor
  · intro m hm
    cases hm
  · exact List.Pairwise.nil
  · exact List.Pairwise.nil
  · exact SlotsOk.empty
  · intro i
    exact Or.inl rfl
  · intro _
    rfl

structure Attempt (s t : Load) : Prop where
  loaded : t.globals.loaded=s.globals.loaded
  registry : Owned s.module.self s.globals.registry t.globals.registry
  self : t.module.self=s.module.self
  holding : Holding s.globals.process t.module.imageBase t.module.imageSize t.globals.process
  untouched : (s.globals.sharedTask=0 → s.globals.task=fun _ => 0) →
    t.globals.sharedTask=0 → t.globals.task=fun _ => 0

section

variable {env : Env} {s t u v a b c : Load} {l : Layout}

theorem Early.attempt (h : Early s t) : Attempt s t := by
  obtain ⟨_,l,_,hk⟩ := h.layout
  have hreg : t.globals.registry=s.globals.registry := congrArg Kept.registry hk
  refine ⟨congrArg Kept.loaded hk,?_,h.self,h.holding,?_⟩
  · rw [hreg]
    exact Owned.refl _ _
  intro hs ht
  by_cases h0 : s.globals.sharedTask=0
  · exact h.zeroed (hs h0)
  · rw [(h.task h0).1] at ht
    exact absurd ht h0

theorem Laid.withTask_attempt (h : Laid env s l u v) : Attempt s v.withTask := by
  have hloaded : v.globals.loaded=s.globals.loaded := congrArg Kept.loaded h.kept
  have hreg : v.globals.registry=s.globals.registry := congrArg Kept.registry h.kept
  have hp := withTask_plan v
  have hself : v.withTask.module.self=s.module.self :=
    (congrArg Plan.self hp).trans (congrArg Plan.self h.plan)
  refine ⟨hloaded,?_,hself,?_,?_⟩
  · change Owned _ _ v.globals.registry
    rw [hreg]
    exact Owned.refl _ _
  · exact h.holding
  · intro _ h0
    have hne : v.globals.sharedTask≠0 := fillShim_sharedTask h.filled
    exact absurd h0 hne

theorem Attempt.copied (h : Attempt s v) (hc : Copied v t) : Attempt s t := by
  have hg := hc.globals
  refine ⟨?_,?_,(congrArg Plan.self hc.plan).trans h.self,?_,?_⟩
  · rw [hg]
    exact h.loaded
  · rw [hg]
    exact h.registry
  · have hbase : t.module.imageBase=v.module.imageBase := congrArg imageBase hc.plan
    have hsize : t.module.imageSize=v.module.imageSize := congrArg Plan.imageSize hc.plan
    rw [hbase,hsize,hg]
    exact h.holding
  · rw [hg]
    exact h.untouched

theorem captured_frame (g : Globals) : g.captured.kept.loaded=g.loaded ∧
    g.captured.registry=g.registry ∧ g.captured.process=g.process ∧
    g.captured.sharedTask=g.sharedTask ∧ g.captured.task=g.task ∧
    g.captured.percpuNext=g.percpuNext ∧ g.captured.gs=g.gs := by
  unfold Globals.captured
  split <;> exact ⟨rfl,rfl,rfl,rfl,rfl,rfl,rfl⟩

theorem Loaded.attempt (h : Loaded env s l v t) : Attempt s t := by
  obtain ⟨u,hu⟩ := h.laid
  obtain ⟨gs,hg⟩ := h.globals
  have hw := hu.withTask_attempt
  have hcap := captured_frame { (v.globals.withTask v.module) with gs := gs }
  rw [← hg] at hcap
  have hbase : t.module.imageBase=v.module.imageBase := congrArg imageBase h.plan
  have hsize : t.module.imageSize=v.module.imageSize := congrArg Plan.imageSize h.plan
  have hself : t.module.self=v.module.self := congrArg Plan.self h.plan
  have hvs : v.module.self=s.module.self := congrArg Plan.self hu.plan
  refine ⟨hcap.1.trans hw.loaded,?_,hself.trans hvs,?_,?_⟩
  · rw [hcap.2.1]
    exact hw.registry
  · rw [hbase,hsize,hcap.2.2.1]
    exact hu.holding
  · intro _ h0
    rw [hcap.2.2.2.1] at h0
    exact absurd h0 (fillShim_sharedTask hu.filled)

theorem Attempt.patched (h : Attempt s a) (hp : Patched env a b) : Attempt s b := by
  have hk : b.globals.kept=a.globals.kept := congrArg Steady.kept hp.steady
  have hreg : b.globals.registry=a.globals.registry := congrArg Kept.registry hk
  have hbase : b.module.imageBase=a.module.imageBase := congrArg imageBase hp.plan
  have hsize : b.module.imageSize=a.module.imageSize := congrArg Plan.imageSize hp.plan
  have htask : b.globals.task=a.globals.task := congrArg Steady.task hp.steady
  have hshared : b.globals.sharedTask=a.globals.sharedTask := congrArg Steady.sharedTask hp.steady
  refine ⟨(congrArg Kept.loaded hk).trans h.loaded,?_,(congrArg Plan.self hp.plan).trans h.self,
    ?_,?_⟩
  · rw [hreg]
    exact h.registry
  · rw [hbase,hsize]
    exact h.holding.grows hp.process
  · rw [htask,hshared]
    exact h.untouched

theorem Attempt.exported (h : Attempt s b) (he : Exported b c) : Attempt s c := by
  have hreg := he.registry
  rw [h.self] at hreg
  have hbase : c.module.imageBase=b.module.imageBase := congrArg imageBase he.plan
  have hsize : c.module.imageSize=b.module.imageSize := congrArg Plan.imageSize he.plan
  refine ⟨?_,h.registry.trans hreg,(congrArg Plan.self he.plan).trans h.self,?_,?_⟩
  · rw [he.globals]
    exact h.loaded
  · rw [hbase,hsize,he.globals]
    exact h.holding
  · rw [he.globals]
    exact h.untouched

theorem Attempt.protected (h : Attempt s c) (hp : Protected c t) : Attempt s t := by
  refine ⟨?_,?_,?_,?_,?_⟩
  · rw [hp.globals]
    exact h.loaded
  · rw [hp.globals]
    exact h.registry
  · rw [hp.module]
    exact h.self
  · have hb : t.module.imageBase=c.module.imageBase := by
      rw [hp.module]
    have hs : t.module.imageSize=c.module.imageSize := by
      rw [hp.module]
    rw [hb,hs]
    exact h.holding.grows hp.process
  · rw [hp.globals]
    exact h.untouched

theorem Stages.attempt (h : Stages env s t) : Attempt s t := by
  cases h with
  | early e _ he => exact he.attempt
  | copying e l u v _ hl hc => exact hl.withTask_attempt.copied hc
  | later l v a b c _ hl hp he hpr =>
    exact ((hl.attempt.patched hp).exported he).protected hpr

end

variable {self : Nat}

theorem unregister_absent {loaded : List KbModule} (h : ∀ m∈loaded,m.self≠self) :
    unregisterLoadedModule self loaded=loaded := by
  apply eraseP_of_forall_not
  intro m hm
  simpa using h m hm

variable {g : Globals}

theorem Sound.stranger (h : Sound g) (hne : self≠0) (hself : self∉g.process.records) :
    (∀ m∈g.loaded,m.self≠self) ∧ ∀ i,(g.registry i).owner≠self := by
  constructor
  · intro m hm he
    exact hself (he ▸ (h.backed m hm).record)
  · intro i he
    rcases h.owners i with h0|hin
    · exact hne (he ▸ h0)
    · exact hself (he ▸ hin)

variable {h : Globals}

theorem Asked.dropped (hs : Sound g) (ha : Asked g self h) :
    ∃ q,destroyModule self 0 0 h={ g with process := q } ∧ q.records=g.process.records ∧
      q.mappings=g.process.mappings := by
  obtain ⟨hloaded,hown⟩ := hs.stranger ha.fresh.1 ha.fresh.2
  have hfree : freeSectionMemory 0 0 h.process=h.process := if_pos (Or.inl rfl)
  refine ⟨freeRecord self h.process,?_,?_,ha.mappings⟩
  · unfold destroyModule
    rw [hfree,ha.globals]
    rw [unregister_absent hloaded,(Owned.refl self g.registry).removed hs.slots hown]
  · change h.process.records.erase self=_
    rw [ha.records]
    exact erase_cons_head ..

variable {q p : Process}

theorem Holding.released {base size : Nat} (h : Holding p base size q) :
    ∀ x∈p.mappings,x∈(freeSectionMemory base size q).mappings := by
  intro x hx
  have hq := h.kept x hx
  unfold freeSectionMemory
  split
  · exact hq
  next hne =>
  rcases h.image with h0|⟨hfree,hs,hpage,_⟩
  · exact absurd (Or.inl h0) hne
  have hlt : size<wordSize := by
    have := hfree.2.2.1
    have : userTop<wordSize := by decide
    omega
  rw [alignUpU64_self hpage hlt]
  apply (mem_erase_of_ne ?_).mpr hq
  rintro rfl
  have hd := hfree.2.2.2 _ hx
  omega

theorem freeMemory_records {base size : Nat} {p : Process} :
    (freeSectionMemory base size p).records=p.records := by
  unfold freeSectionMemory
  split <;> rfl

variable {env : Env} {image : ModuleImage} {s t : Load}

theorem Opening.torn (hs : Sound g) (ho : Opening image g s) (hst : Stages env s t) :
    ∃ q,destroyModule s.module.self t.module.imageBase t.module.imageSize t.globals=
        { t.globals with loaded := g.loaded,registry := g.registry,process := q } ∧
      q.records=g.process.records ∧ ∀ x∈g.process.mappings,x∈q.mappings := by
  have ha := hst.attempt
  have hl : s.globals.loaded=g.loaded := by
    rw [ho.globals]
  have hr : s.globals.registry=g.registry := by
    rw [ho.globals]
  obtain ⟨hloaded,hown⟩ := hs.stranger ho.record.1 ho.record.2.1
  have hreg := ha.registry
  rw [hr] at hreg
  refine ⟨freeRecord s.module.self
    (freeSectionMemory t.module.imageBase t.module.imageSize t.globals.process),?_,?_,?_⟩
  · unfold destroyModule
    rw [ha.loaded,hl,unregister_absent hloaded,hreg.removed hs.slots hown]
  · change (freeSectionMemory _ _ t.globals.process).records.erase _=_
    rw [freeMemory_records,ha.holding.records,ho.record.2.2]
    exact erase_cons_head ..
  · intro x hx
    exact ha.holding.released x (by rw [ho.mappings]; exact hx)

/-- Only the process, the GS area and the published task may differ; a new shared task is zero. -/
structure Idle (g h : Globals) : Prop where
  loaded : h.loaded=g.loaded
  registry : h.registry=g.registry
  percpuNext : h.percpuNext=g.percpuNext
  template : h.template=g.template ∧ h.templateValid=g.templateValid
  task : g.sharedTask≠0 → h.sharedTask=g.sharedTask ∧ h.task=g.task
  zeroed : g.task=(fun _ => 0) → h.task=fun _ => 0
  records : h.process.records=g.process.records
  mappings : ∀ x∈g.process.mappings,x∈h.process.mappings

theorem Idle.refl (g : Globals) : Idle g g :=
  ⟨rfl,rfl,rfl,⟨rfl,rfl⟩,fun _ => ⟨rfl,rfl⟩,id,rfl,fun _ h => h⟩

theorem Idle.process (hr : q.records=g.process.records) (hm : ∀ x∈g.process.mappings,x∈q.mappings) :
    Idle g { g with process := q } :=
  ⟨rfl,rfl,rfl,⟨rfl,rfl⟩,fun _ => ⟨rfl,rfl⟩,id,hr,hm⟩

theorem setTasks_idle {env : Env} {task : Nat} {g : Globals} :
    Idle g (setCurrentTaskForAllModules env task g) := by
  unfold setCurrentTaskForAllModules
  split
  · have hgrow := sharedMapping_grows env g.sharedTask g.process
    refine ⟨rfl,rfl,rfl,⟨rfl,rfl⟩,?_,?_,hgrow.1,hgrow.2⟩
    · intro hs
      rw [sharedTask_of_ne hs]
      exact ⟨rfl,rfl⟩
    · intro hz
      simp [sharedCurrentTask,hz]
  · exact ⟨rfl,rfl,rfl,⟨rfl,rfl⟩,fun _ => ⟨rfl,rfl⟩,id,rfl,fun _ h => h⟩

/-- Everything one event can do to a sound loader. -/
inductive Transition (env : Env) (g : Globals) : Event → Globals → Prop
  | idle (event : Event) (h : Globals) : Idle g h → Transition env g event h
  | opened (image : ModuleImage) (backend : Nat) (s t : Load) :
      openLoad env image backend g=some s → Opening image g s → prepareModule env s=(.ok (),t) →
      Transition env g (.openImage image backend) { t.globals with loaded := t.module::g.loaded }
  | failed (image : ModuleImage) (backend : Nat) (e : Status) (s t : Load) (q : Process) :
      openLoad env image backend g=some s → Opening image g s →
      prepareModule env s=(.error e,t) → q.records=g.process.records →
      (∀ x∈g.process.mappings,x∈q.mappings) →
      Transition env g (.openImage image backend)
        { t.globals with loaded := g.loaded,registry := g.registry,process := q }
  | closed (m : KbModule) : m∈g.loaded →
      Transition env g (.close m.self) (destroyModule m.self m.imageBase m.imageSize g)
  | journal (handle : Nat) : g.sharedTask≠0 → Transition env g (.journal handle)
        { g with task := g.task.put taskJournalInfoOffset (le64 handle) }
  | stub (target callerGs calleeGs : Nat) (m : KbModule) : m∈g.loaded →
      Transition env g (.gsCallStub target callerGs)
        { g with loaded := g.loaded.map fun x => if x.self=m.self then
            (allocateExternalCallStubForCaller env .gsCall target callerGs calleeGs m).2 else x }

open Transition

theorem open_transition {env : Env} (hs : Sound g) {image : ModuleImage} {backend : Nat} :
    Transition env g (.openImage image backend) (kbModuleOpenImage env image backend g).2 := by
  have hout := openImage_outcome env image backend g
  generalize kbModuleOpenImage env image backend g=r at hout
  cases hout with
  | refused e p hload hr hm =>
    exact idle _ _ (Idle.process hr fun x hx => hm ▸ hx)
  | dropped e self h hload ha =>
    obtain ⟨q,hq,hr,hm⟩ := ha.dropped hs
    rw [hq]
    exact idle _ _ (Idle.process hr fun x hx => hm ▸ hx)
  | failed e s t hload ho hp =>
    have hst := prepareModule_stages env ho.blank
    rw [hp] at hst
    obtain ⟨q,hq,hr,hm⟩ := ho.torn hs hst
    rw [hq]
    exact failed image backend e s t q hload ho hp hr hm
  | opened s t hload ho hp =>
    have hst := prepareModule_stages env ho.blank
    rw [hp] at hst
    have hl : t.globals.loaded=g.loaded := by
      rw [hst.attempt.loaded,ho.globals]
    rw [hl]
    exact opened image backend s t hload ho hp

theorem step_transition {env : Env} (hs : Sound g) {event : Event} :
    Transition env g event (step env g event) := by
  cases event with
  | openImage image backend => exact open_transition hs
  | close self =>
    cases hf : g.loaded.find? (fun m => m.self==self) with
    | none =>
      simp only [step,kbModuleClose,hf]
      exact idle _ _ (Idle.refl g)
    | some m =>
      have hm := mem_of_find?_eq_some hf
      have he : m.self=self := by simpa using find?_some hf
      simp only [step,kbModuleClose,hf]
      subst he
      exact closed m hm
  | publish task => exact idle _ _ (setTasks_idle)
  | journal handle =>
    by_cases h0 : g.sharedTask=0
    · simp only [step,h0]
      exact idle _ _ (Idle.refl g)
    · simp only [step,h0]
      exact journal handle h0
  | gsCallStub target callerGs =>
    cases hf : moduleForAddress g target with
    | none =>
      simp only [step,kbModuleMakeGsCallStub,hf]
      exact idle _ _ (Idle.refl g)
    | some m =>
      have hm : m∈g.loaded := mem_of_find?_eq_some hf
      simp only [step,kbModuleMakeGsCallStub,hf]
      split
      · exact idle _ _ (Idle.refl g)
      · exact stub target callerGs _ m hm

theorem allocateStub_plan {env : Env} {kind : StubKind} {target callerGs calleeGs : Nat}
    {m : KbModule} :
    (allocateExternalCallStubForCaller env kind target callerGs calleeGs m).2.plan=m.plan := by
  unfold allocateExternalCallStubForCaller
  dsimp only
  split
  · rfl
  split <;> rfl

variable {m : KbModule}

theorem Backed.of_plan {n : KbModule} (h : Backed p m) (hp : n.plan=m.plan) : Backed p n := by
  have hself : n.self=m.self := congrArg Plan.self hp
  have hbase : n.imageBase=m.imageBase := congrArg imageBase hp
  have hsize : n.imageSize=m.imageSize := congrArg Plan.imageSize hp
  constructor
  · rw [hself]
    exact h.record
  · rw [hbase,hsize]
    exact h.mapping
  · rw [hsize]
    exact h.size
  · rw [hbase,hsize]
    exact h.place

theorem Backed.mono (h : Backed p m) (hr : m.self∈p.records → m.self∈q.records)
    (hm : ∀ x∈p.mappings,x∈q.mappings) : Backed q m := ⟨hr h.record,hm _ h.mapping,h.size,h.place⟩

variable {a b : KbModule}

theorem Separate.of_plan {c d : KbModule} (h : Separate a b) (hc : c.plan=a.plan)
    (hd : d.plan=b.plan) : Separate c d := by
  have hca : c.imageBase=a.imageBase := congrArg imageBase hc
  have hcs : c.imageSize=a.imageSize := congrArg Plan.imageSize hc
  have hda : d.imageBase=b.imageBase := congrArg imageBase hd
  have hds : d.imageSize=b.imageSize := congrArg Plan.imageSize hd
  unfold Separate
  rw [hca,hcs,hda,hds]
  exact h

section

variable (hs : Sound g)

include hs

theorem Sound.idle (hi : Idle g h) : Sound h := by
  constructor
  · intro m hm
    rw [hi.loaded] at hm
    exact (hs.backed m hm).mono (by rw [hi.records]; exact id) hi.mappings
  · rw [hi.loaded]
    exact hs.selves
  · rw [hi.loaded]
    exact hs.apart
  · rw [hi.registry]
    exact hs.slots
  · rw [hi.registry,hi.records]
    exact hs.owners
  · intro h0
    by_cases hg : g.sharedTask=0
    · exact hi.zeroed (hs.untouched hg)
    · rw [(hi.task hg).1] at h0
      exact absurd h0 hg

theorem Opening.backed (ho : Opening image g s) (hp : prepareModule env s=(.ok (),t)) :
    Backed t.globals.process t.module ∧ ∀ m∈g.loaded,Separate t.module m := by
  have hst := prepareModule_stages env ho.blank
  rw [hp] at hst
  have ha := hst.attempt
  obtain ⟨l,v,a,b,c,hpr⟩ := prepareModule_ok env ho.blank hp
  have hne : t.module.imageBase≠0 := by
    have hmoves := finalize_moves env c
    rw [hpr.finished] at hmoves
    have hca : c.module.imageBase=a.module.imageBase :=
      congrArg imageBase (hpr.exported.plan.trans hpr.patched.plan)
    obtain ⟨u,hu⟩ := hpr.loaded.laid
    have hav : a.module.imageBase=u.module.imageBase :=
      (congrArg imageBase hpr.loaded.plan).trans (congrArg imageBase hu.plan)
    have htc : t.module.imageBase=c.module.imageBase := by
      rw [hmoves.module]
    rw [htc,hca,hav]
    exact hu.imaged.base
  rcases ha.holding.image with h0|⟨hfree,hsize,hpage,hin⟩
  · exact absurd h0 hne
  refine ⟨⟨?_,hin,⟨hsize,hpage⟩,hfree.1,hfree.2.1,hfree.2.2.1⟩,?_⟩
  · rw [ha.self,ha.holding.records,ho.record.2.2]
    exact mem_cons_self
  · intro m hm
    have hmap := (hs.backed m hm).mapping
    rw [← ho.mappings] at hmap
    exact hfree.2.2.2 _ hmap

theorem Sound.opened (ho : Opening image g s) (hp : prepareModule env s=(.ok (),t)) :
    Sound { t.globals with loaded := t.module::g.loaded } := by
  have hst := prepareModule_stages env ho.blank
  rw [hp] at hst
  have ha := hst.attempt
  obtain ⟨hback,hsep⟩ := ho.backed hs hp
  have hreg := ha.registry
  have hsr : s.globals.registry=g.registry := by
    rw [ho.globals]
  have hss : s.globals.sharedTask=g.sharedTask ∧ s.globals.task=g.task := by
    rw [ho.globals]
    exact ⟨rfl,rfl⟩
  rw [hsr] at hreg
  have hrec : ∀ x∈g.process.records,x∈t.globals.process.records := by
    intro x hx
    rw [ha.holding.records,ho.record.2.2]
    exact mem_cons_of_mem _ hx
  constructor
  · intro m hm
    rcases mem_cons.mp hm with rfl|hm
    · exact hback
    · exact (hs.backed m hm).mono (hrec _) fun x hx =>
        ha.holding.kept x (by rw [ho.mappings]; exact hx)
  · refine List.Pairwise.cons ?_ hs.selves
    intro m hm he
    rw [ha.self] at he
    exact ho.record.2.1 (he ▸ (hs.backed m hm).record)
  · exact List.Pairwise.cons hsep hs.apart
  · exact hreg.slots hs.slots
  · intro i
    rcases hreg.entry i with he|⟨_,he,_⟩
    · rw [he]
      exact (hs.owners i).imp id (hrec _)
    · rw [he,← ha.self]
      exact Or.inr hback.record
  · exact ha.untouched (by rw [hss.1,hss.2]; exact hs.untouched)

theorem Sound.failed {e : Status} (ho : Opening image g s) (hp : prepareModule env s=(.error e,t))
    (hr : q.records=g.process.records) (hm : ∀ x∈g.process.mappings,x∈q.mappings) :
    Sound { t.globals with loaded := g.loaded,registry := g.registry,process := q } := by
  have hst := prepareModule_stages env ho.blank
  rw [hp] at hst
  have ha := hst.attempt
  have hss : s.globals.sharedTask=g.sharedTask ∧ s.globals.task=g.task := by
    rw [ho.globals]
    exact ⟨rfl,rfl⟩
  constructor
  · intro m hin
    exact (hs.backed m hin).mono (by rw [hr]; exact id) hm
  · exact hs.selves
  · exact hs.apart
  · exact hs.slots
  · rw [hr]
    exact hs.owners
  · exact ha.untouched (by rw [hss.1,hss.2]; exact hs.untouched)

omit hs in
theorem mem_unregister {loaded : List KbModule} (hp : loaded.Pairwise fun a b => a.self≠b.self)
    {x : KbModule} (hx : x∈unregisterLoadedModule self loaded) : x∈loaded ∧ x.self≠self := by
  unfold unregisterLoadedModule at hx
  refine ⟨mem_of_mem_eraseP hx,?_⟩
  induction loaded with
  | nil => cases hx
  | cons a loaded ih =>
    obtain ⟨ha,hrest⟩ := pairwise_cons.mp hp
    by_cases he : a.self=self
    · rw [eraseP_cons_of_pos (by simpa using he)] at hx
      intro hxs
      exact ha x hx (he.trans hxs.symm)
    · rw [eraseP_cons_of_neg (by simpa using he)] at hx
      rcases mem_cons.mp hx with rfl|hx
      · exact he
      · exact ih hrest hx

omit hs in
theorem removeOwner_owner {r : SymbolRegistry} (hr : SlotsOk r) {self i : Nat} :
    (removeOwner r self i).owner=0 ∨ ((r i).owner≠self ∧ removeOwner r self i=r i) := by
  cases hn : (removeOwner r self i).name with
  | none =>
    have hz := (hr.remove self).free i hn
    exact Or.inl (by rw [hz]; rfl)
  | some n =>
    have hs := (removeOwner_slot hr).mp hn
    exact Or.inr ⟨hs.2,removeOwner_kept hn⟩

theorem Sound.separate (ha : a∈g.loaded) (hb : b∈g.loaded) (hne : a.self≠b.self) :
    Separate a b := by
  have : Std.Symm Separate := ⟨fun _ _ h => h.symm⟩
  exact hs.apart.forall ha hb fun he => hne (congrArg KbModule.self he)

theorem Sound.same (ha : a∈g.loaded) (hb : b∈g.loaded) (he : a.self=b.self) : a=b := by
  have : Std.Symm fun a b : KbModule => a.self≠b.self := ⟨fun _ _ h => h.symm⟩
  by_contra hne
  exact hs.selves.forall ha hb hne he

theorem Sound.closed (hm : m∈g.loaded) :
    Sound (destroyModule m.self m.imageBase m.imageSize g) := by
  have hback := hs.backed m hm
  have hsub : (unregisterLoadedModule m.self g.loaded).Sublist g.loaded := eraseP_sublist
  have hlt : m.imageSize<wordSize := by
    have h1 := hback.place.2.2
    have h2 : userTop<wordSize := by decide
    omega
  have hproc : (destroyModule m.self m.imageBase m.imageSize g).process.mappings=
      g.process.mappings.erase (m.imageBase,m.imageSize) := by
    have hne : ¬(m.imageBase=0 ∨ m.imageSize=0) := by
      rintro (h|h)
      · exact hback.place.1 h
      · exact hback.size.1 h
    change (freeSectionMemory m.imageBase m.imageSize g.process).mappings=_
    unfold freeSectionMemory
    rw [if_neg hne,alignUpU64_self hback.size.2 hlt]
    rfl
  have hrec : (destroyModule m.self m.imageBase m.imageSize g).process.records=
      g.process.records.erase m.self := by
    change (freeSectionMemory m.imageBase m.imageSize g.process).records.erase _=_
    rw [freeMemory_records]
  constructor
  · intro x hx
    obtain ⟨hxl,hne⟩ := mem_unregister hs.selves hx
    have hxb := hs.backed x hxl
    refine ⟨?_,?_,hxb.size,hxb.place⟩
    · rw [hrec]
      exact (mem_erase_of_ne hne).mpr hxb.record
    rw [hproc]
    apply (mem_erase_of_ne ?_).mpr hxb.mapping
    intro he
    have hsep := hs.separate hxl hm hne
    have hbase : x.imageBase=m.imageBase := congrArg Prod.fst he
    have hsize : x.imageSize=m.imageSize := congrArg Prod.snd he
    have hpos := hback.size.1
    unfold Separate at hsep
    omega
  · exact hs.selves.sublist hsub
  · exact hs.apart.sublist hsub
  · exact hs.slots.remove m.self
  · intro i
    rw [hrec]
    change (removeOwner g.registry m.self i).owner=0 ∨
      (removeOwner g.registry m.self i).owner∈g.process.records.erase m.self
    rcases removeOwner_owner hs.slots with h0|⟨hne,he⟩
    · exact Or.inl h0
    · rw [he]
      exact (hs.owners i).imp id (mem_erase_of_ne hne).mpr
  · exact hs.untouched

theorem Sound.replaced (f : KbModule → KbModule) (hf : ∀ m∈g.loaded,(f m).plan=m.plan) :
    Sound { g with loaded := g.loaded.map f } := by
  constructor
  · intro x hx
    obtain ⟨m,hm,rfl⟩ := mem_map.mp hx
    exact (hs.backed m hm).of_plan (hf m hm)
  · apply pairwise_map.mpr
    apply hs.selves.imp_of_mem
    intro a b ha hb hne
    have h1 : (f a).self=a.self := congrArg Plan.self (hf a ha)
    have h2 : (f b).self=b.self := congrArg Plan.self (hf b hb)
    rw [h1,h2]
    exact hne
  · apply pairwise_map.mpr
    apply hs.apart.imp_of_mem
    intro a b ha hb hsep
    exact hsep.of_plan (hf a ha) (hf b hb)
  · exact hs.slots
  · exact hs.owners
  · exact hs.untouched

theorem Sound.stub_plan (env : Env) (target callerGs calleeGs : Nat) (hm : m∈g.loaded) :
    ∀ x∈g.loaded,
    (if x.self=m.self then
      (allocateExternalCallStubForCaller env .gsCall target callerGs calleeGs m).2
      else x).plan=x.plan := by
  intro x hx
  split
  · next he =>
    rw [hs.same hx hm he]
    exact allocateStub_plan
  · rfl

theorem Sound.step {event : Event} (ht : Transition env g event h) : Sound h := by
  cases ht with
  | idle _ _ hi => exact hs.idle hi
  | opened image backend s t _ ho hp => exact hs.opened ho hp
  | failed image backend e s t q _ ho hp hr hm => exact hs.failed ho hp hr hm
  | closed m hm => exact hs.closed hm
  | journal handle h0 =>
    exact ⟨hs.backed,hs.selves,hs.apart,hs.slots,hs.owners,fun hz => absurd hz h0⟩
  | stub target callerGs calleeGs m hm =>
    exact hs.replaced _ (hs.stub_plan env target callerGs calleeGs hm)

end

theorem runAll_sound (env : Env) (events : List Event) :
    Sound (runAll (step env) Globals.start events) := by
  have hmeets : ∀ g,Meets (step env) (fun _ _ => True) g events := by
    induction events with
    | nil => exact fun _ => trivial
    | cons event events ih => exact fun g => ⟨trivial,ih _⟩
  exact runAll_invariant (fun g event hs _ => hs.step (step_transition hs)) Sound.start
    (hmeets Globals.start)

/-- Whatever is opened, closed and called, every loaded module has a live record and an image of its
own, and no export outlives its module. -/
theorem loaded_modules_backed (env : Env) (events : List Event) :
    let g := runAll (step env) Globals.start events
    (∀ m∈g.loaded,Backed g.process m) ∧ g.loaded.Pairwise Separate ∧
      ∀ i,(g.registry i).owner=0 ∨ (g.registry i).owner∈g.process.records :=
  have hs := runAll_sound env events
  ⟨hs.backed,hs.apart,hs.owners⟩

end Kobox.Loader
