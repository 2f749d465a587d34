import Kobox.Loader.FailedLoad
import Kobox.Loader.Stubs

namespace Kobox.Loader

open List Bytes Globals Env Or Plan

/-- The pointer fields of the current task, in all supported layouts, with the shim object each is
set to. -/
def taskPointers : List (Nat × Nat) :=
  [(0xe8,currentMmOffset),(0x548,currentMmOffset),(0x758,currentSignalOffset),
    (0x760,currentSighandOffset),(0x848,currentSignalOffset),(0x850,currentSighandOffset),
    (0x6f0,currentCredOffset),(0x6f8,currentCredOffset),(0x7d0,currentCredOffset),
    (0x7d8,currentCredOffset),(0x7f0,currentCredOffset),(0x750,currentNsproxyOffset),
    (0x840,currentNsproxyOffset),(0x938,currentMmOffset)]

/-- The field at off holds an address of the image of m. -/
def PointsInto (b : Bytes) (m : KbModule) (off : Nat) : Prop :=
  m.imageBase≤Bytes.leValue b off 8 ∧ Bytes.leValue b off 8 < m.imageBase+m.imageSize

instance (b : Bytes) (m : KbModule) (off : Nat) : Decidable (PointsInto b m off) :=
  inferInstanceAs (Decidable (_ ∧ _))

def pointerStores (m : KbModule) : List (Nat × List UInt8) :=
  taskPointers.map fun p => (p.1,le64 (m.shimAddress p.2))

def otherTaskStores (m : KbModule) : List (Nat × List UInt8) :=
  [(0x950,le64 ((m.currentTask+0x9b8)%wordSize)),(0x9b8,le32 1),(0x7e8,commText),(0xbd8,commText)]

variable (b : Bytes) (m : KbModule)

theorem taskStores_split : taskStores m=pointerStores m++otherTaskStores m := rfl

theorem pointerStores_apart :
    (pointerStores m).Pairwise fun w x => w.1+w.2.length≤x.1 ∨ x.1+x.2.length≤w.1 := by
  have h : taskPointers.Pairwise fun p q => p.1+8≤q.1 ∨ q.1+8≤p.1 := by decide
  apply pairwise_map.mpr
  apply h.imp
  intro p q hpq
  simpa [le64] using hpq

theorem pointerStores_value {p : Nat × Nat} (hp : p∈taskPointers) :
    Bytes.leValue (b.putAll 0 (pointerStores m)) p.1 8=m.shimAddress p.2 := by
  have hmem : (p.1,leBytes 8 (m.shimAddress p.2))∈pointerStores m := mem_map.mpr ⟨p,hp,rfl⟩
  have h := leValue_putAll_mem b 0 hmem (pointerStores_apart m)
  rw [Nat.zero_add] at h
  rw [h]
  exact Nat.mod_eq_of_lt (Nat.mod_lt _ wordSize_pos)

/-- The name text reaches two bytes into one cred field; the others stay as stored. -/
theorem taskStores_value {p : Nat × Nat} (hp : p∈taskPointers) (hne : p.1≠0x7f0) :
    Bytes.leValue (b.putAll 0 (taskStores m)) p.1 8=m.shimAddress p.2 := by
  rw [taskStores_split,putAll_append,leValue_putAll_outside]
  · exact pointerStores_value b m hp
  have hall : ∀ p∈taskPointers,p.1≠0x7f0 → (p.1+8≤0x7e8 ∨ 0x7f2≤p.1) ∧ p.1+8≤0x950 := by decide
  have hout := hall p hp hne
  intro w hw
  simp only [otherTaskStores,mem_cons,not_mem_nil,or_false] at hw
  rcases hw with rfl|rfl|rfl|rfl <;> simp [commText] <;> omega

private theorem leValue_low (c : Bytes) (off n : Nat) (h : ∀ a,off+2≤a → a<off+2+n → b a=c a) :
    Bytes.leValue b off (n+2)+((c off).toNat+256*(c (off+1)).toNat)=
      Bytes.leValue c off (n+2)+((b off).toNat+256*(b (off+1)).toNat) := by
  have he := leValue_congr b c (off+2) n h
  simp only [leValue]
  rw [he]
  ring

theorem taskStores_low :
    Bytes.leValue (b.putAll 0 (taskStores m)) 0x7f0 8 ≤ m.shimAddress currentCredOffset+0x6e ∧
      m.shimAddress currentCredOffset≤Bytes.leValue (b.putAll 0 (taskStores m)) 0x7f0 8+0x10000 := by
  rw [taskStores_split,putAll_append]
  have hval : leValue (b.putAll 0 (pointerStores m)) 0x7f0 8= m.shimAddress currentCredOffset :=
    pointerStores_value b m (p := (0x7f0,currentCredOffset)) (by decide)
  generalize b.putAll 0 (pointerStores m)=c at hval
  have hrest : ∀ a,0x7f2≤a → a<0x7f2+6 → c.putAll 0 (otherTaskStores m) a=c a := by
    intro a hl hu
    apply putAll_outside
    intro w hw
    simp only [otherTaskStores,mem_cons,not_mem_nil,or_false] at hw
    rcases hw with rfl|rfl|rfl|rfl <;> simp [commText] <;> omega
  have hlow : leValue (c.putAll 0 (otherTaskStores m)) 0x7f0 8+
      ((c 0x7f0).toNat+256*(c 0x7f1).toNat)=leValue c 0x7f0 8+(0x6e+256*0) :=
    leValue_low (c.putAll 0 (otherTaskStores m)) c 0x7f0 6 hrest
  have hb0 := (c 0x7f0).toNat_lt
  have hb1 := (c 0x7f1).toNat_lt
  omega

theorem taskStores_points {m : KbModule} (hsize : m.imageSize=m.shimRegionOffset+shimRegionSize)
    (htop : m.imageBase+m.imageSize≤userTop) :
    ∀ p∈taskPointers,PointsInto (b.putAll 0 (taskStores m)) m p.1 := by
  have hobjects : ∀ p∈taskPointers,p.2<shimRegionSize := by decide
  have haddr : ∀ p∈taskPointers,m.shimAddress p.2=m.imageBase+m.shimRegionOffset+p.2 := by
    intro p hp
    have hlt := hobjects p hp
    have hw : userTop<wordSize := by decide
    apply Nat.mod_eq_of_lt
    omega
  intro p hp
  unfold PointsInto
  by_cases hne : p.1=0x7f0
  · have hcred : ∀ p∈taskPointers,p.1=0x7f0 → p.2=currentCredOffset := by decide
    have hc := hcred p hp hne
    have hin : 0x10000 ≤ currentCredOffset ∧ currentCredOffset+0x6e<shimRegionSize := by decide
    have hlow := taskStores_low b m
    have ha := haddr p hp
    rw [hc] at ha
    rw [hne]
    omega
  · have hlt := hobjects p hp
    rw [taskStores_value b m hp hne,haddr p hp]
    omega

/-- With modules loaded the pointers lead into them, without any they are zero, as in a template
never captured. -/
def NoDangling (g : Globals) : Prop := (∀ p∈taskPointers,(∃ m∈g.loaded,PointsInto g.task m p.1) ∨
    (g.loaded=[] ∧ Bytes.leValue g.task p.1 8=0)) ∧
  (∀ p∈taskPointers,(∃ m∈g.loaded,PointsInto g.template m p.1) ∨
    ((g.loaded=[] ∨ g.templateValid=false) ∧ Bytes.leValue g.template p.1 8=0))

/-- All pointers of an object lead into the image of one loaded module. -/
def Attached (loaded : List KbModule) (b : Bytes) : Prop :=
  ∃ m∈loaded,∀ p∈taskPointers,PointsInto b m p.1

def Cleared (b : Bytes) : Prop := ∀ p∈taskPointers,Bytes.leValue b p.1 8=0

/-- The task follows the loaded modules, and so does the template once it is captured. -/
structure TaskOk (g : Globals) : Prop where
  task : Attached g.loaded g.task ∨ (g.loaded=[] ∧ Cleared g.task)
  template : Attached g.loaded g.template ∨ (g.templateValid=false ∧ Cleared g.template)

theorem TaskOk.noDangling {g : Globals} (h : TaskOk g) : NoDangling g := by
  constructor
  · intro p hp
    rcases h.task with ⟨m,hm,hpts⟩|⟨h0,hz⟩
    · exact inl ⟨m,hm,hpts p hp⟩
    · exact inr ⟨h0,hz p hp⟩
  · intro p hp
    rcases h.template with ⟨m,hm,hpts⟩|⟨h0,hz⟩
    · exact inl ⟨m,hm,hpts p hp⟩
    · exact inr ⟨inr h0,hz p hp⟩

theorem Attached.congr {loaded : List KbModule} {b c : Bytes} (h : Attached loaded b)
    (hbc : ∀ p∈taskPointers,Bytes.leValue c p.1 8=Bytes.leValue b p.1 8) : Attached loaded c := by
  obtain ⟨m,hm,hpts⟩ := h
  refine ⟨m,hm,?_⟩
  intro p hp
  unfold PointsInto
  rw [hbc p hp]
  exact hpts p hp

theorem Cleared.congr {b c : Bytes} (h : Cleared b)
    (hbc : ∀ p∈taskPointers,Bytes.leValue c p.1 8=Bytes.leValue b p.1 8) : Cleared c := by
  intro p hp
  rw [hbc p hp]
  exact h p hp

theorem Attached.mono {xs ys : List KbModule} {b : Bytes} (h : Attached xs b)
    (hsub : ∀ m∈xs,∃ n∈ys,n.imageBase=m.imageBase ∧ n.imageSize=m.imageSize) : Attached ys b := by
  obtain ⟨m,hm,hpts⟩ := h
  obtain ⟨n,hn,hbase,hsize⟩ := hsub m hm
  refine ⟨n,hn,?_⟩
  intro p hp
  unfold PointsInto
  rw [hbase,hsize]
  exact hpts p hp

theorem Attached.closed {g : Globals} {b : Bytes} {self : Nat} (h : Attached g.loaded b)
    (hno : ∀ m∈g.loaded,m.self=self → ∀ p∈taskPointers,¬PointsInto b m p.1) :
    Attached (unregisterLoadedModule self g.loaded) b := by
  obtain ⟨m,hm,hpts⟩ := h
  have hne : m.self≠self := by
    intro he
    exact hno m hm he (0xe8,currentMmOffset) (by decide) (hpts (0xe8,currentMmOffset) (by decide))
  refine ⟨m,?_,hpts⟩
  exact (mem_eraseP_of_neg (by simpa using hne)).mpr hm

theorem journal_keeps_pointers (handle : Nat) : ∀ p∈taskPointers,
    Bytes.leValue (b.put taskJournalInfoOffset (le64 handle)) p.1 8=Bytes.leValue b p.1 8 := by
  have hout : ∀ p∈taskPointers,p.1+8≤taskJournalInfoOffset ∨ taskJournalInfoOffset+8≤p.1 := by
    decide
  intro p hp
  apply leValue_put_outside
  have := hout p hp
  rw [le64,leBytes_length]
  omega

theorem taskCopy_pointers (g : Globals) : ∀ p∈taskPointers,
    Bytes.leValue g.taskCopy p.1 8=Bytes.leValue g.task p.1 8 := by
  have hout : ∀ p∈taskPointers,(p.1+8≤taskJournalInfoOffset ∨ taskJournalInfoOffset+8≤p.1) ∧
      p.1+8≤4096 := by decide
  intro p hp
  obtain ⟨hj,hlt⟩ := hout p hp
  apply leValue_congr
  intro a hl hu
  unfold taskCopy
  rw [put_outside _ _ _ _ (by simp only [length_replicate]; omega)]
  have hcopy := copy_inside g.template 0 4096 g.task 0 a (by omega)
  simpa using hcopy

/-- An open succeeds or ends before it rewrites the task; a close is of a module that nothing
points into. -/
def KeepsTask (env : Env) (g : Globals) : Event → Prop
  | .openImage image backend => OpenFits g (.openImage image backend) ∧
      ∀ s,openLoad env image backend g=some s →
        (prepareModule env s).1=.ok () ∨ (loadImage env s).1≠.ok ()
  | .close self => ∀ m∈g.loaded,m.self=self → ∀ p∈taskPointers,
      ¬PointsInto g.task m p.1 ∧ ¬PointsInto g.template m p.1
  | _ => True

section

variable {env : Env} {image : ModuleImage} {backend : Nat} {g : Globals} {s t a b c v : Load}
  {l : Layout}

theorem Prepared.shared (h : Prepared env s l v a b c t) :
    t.globals.task=a.globals.task ∧ t.globals.template=a.globals.template ∧
      t.globals.templateValid=a.globals.templateValid := by
  have hmoves := finalize_moves env c
  rw [h.finished] at hmoves
  have hsh := later_shared (s := s) h.patched h.exported hmoves
  exact ⟨congrArg Shared.task hsh,congrArg Shared.template hsh,congrArg Shared.templateValid hsh⟩

theorem Prepared.attached (h : Prepared env s l v a b c t) (hb : s.module.Blank)
    (hfit : LayoutFits s.module.elf) (htop : t.module.imageBase+t.module.imageSize≤userTop) :
    (∀ p∈taskPointers,PointsInto t.globals.task t.module p.1) ∧
    ((∀ p∈taskPointers,PointsInto t.globals.template t.module p.1) ∨
      (t.globals.template=s.globals.template ∧
        t.globals.templateValid=s.globals.templateValid)) := by
  have hsize := (h.shimOk hb hfit).size
  obtain ⟨htask,htem,hval⟩ := h.shared
  obtain ⟨u,hu⟩ := h.loaded.laid
  obtain ⟨gs,hg⟩ := h.loaded.globals
  have hmoves := finalize_moves env c
  rw [h.finished] at hmoves
  have hplan := (layoutPlan_of_plan h.plan).trans h.loaded.plan
  have hbase : t.module.imageBase=v.module.imageBase :=
    hmoves.module ▸ congrArg imageBase hplan
  have hvs : t.module.imageSize=v.module.imageSize := hmoves.module ▸ congrArg imageSize hplan
  have hshim : t.module.shimRegionOffset=v.module.shimRegionOffset :=
    hmoves.module ▸ congrArg shimRegionOffset hplan
  have hpts : ∀ p∈taskPointers,PointsInto a.globals.task t.module p.1 := by
    have hat : a.globals.task=v.globals.task.putAll 0 (taskStores v.module) := by
      have hcap := captured_frame { (v.globals.withTask v.module) with gs := gs }
      rw [← hg] at hcap
      exact hcap.2.2.2.2.1
    have hp := taskStores_points v.globals.task (m := v.module)
      (by rw [← hvs,← hshim]; exact hsize) (by rw [← hvs,← hbase]; exact htop)
    intro p hin
    unfold PointsInto
    rw [hat,hbase,hvs]
    exact hp p hin
  rw [htask,htem,hval]
  refine ⟨hpts,?_⟩
  by_cases hc : Globals.Capturing { (v.globals.withTask v.module) with gs := gs }
  · left
    have hcap : a.globals.template= taskCopy { (v.globals.withTask v.module) with gs := gs } ∧
        a.globals.task=(v.globals.withTask v.module).task := by
      rw [hg,captured,if_pos hc]
      exact ⟨rfl,rfl⟩
    intro p hp
    have hcopy := taskCopy_pointers { (v.globals.withTask v.module) with gs := gs } p hp
    have hin := hpts p hp
    rw [hcap.2] at hin
    unfold PointsInto
    rw [hcap.1,hcopy]
    exact hin
  · right
    have hcap : a.globals.template=v.globals.template ∧
        a.globals.templateValid=v.globals.templateValid := by
      rw [hg,captured,if_neg hc]
      exact ⟨rfl,rfl⟩
    have h1 : v.globals.template=s.globals.template := congrArg Kept.template hu.kept
    have h2 : v.globals.templateValid=s.globals.templateValid := congrArg Kept.templateValid hu.kept
    exact ⟨hcap.1.trans h1,hcap.2.trans h2⟩

theorem TaskOk.opened (hs : Sound g) (hok : TaskOk g)
    (hf : OpenFits g (.openImage image backend)) (ho : Opening image g s)
    (hp : prepareModule env s=(.ok (),t)) :
    TaskOk { t.globals with loaded := t.module::g.loaded } := by
  obtain ⟨l,v,a,b,c,hpr⟩ := prepareModule_ok env ho.blank hp
  have htop := (ho.backed hs hp).1.place.2.2
  obtain ⟨htask,htem⟩ := hpr.attached ho.blank (ho.fits hf) htop
  refine ⟨inl ⟨t.module,mem_cons_self,htask⟩,?_⟩
  rcases htem with hpts|⟨h1,h2⟩
  · exact inl ⟨t.module,mem_cons_self,hpts⟩
  have hsg : s.globals.template=g.template ∧ s.globals.templateValid=g.templateValid := by
    rw [ho.globals]
    exact ⟨rfl,rfl⟩
  rw [h1,h2,hsg.1,hsg.2]
  refine hok.template.imp ?_ id
  intro hat
  exact hat.mono fun m hm => ⟨m,mem_cons_of_mem _ hm,rfl,rfl⟩

theorem TaskOk.failed {e : Status} {q : Process} (hs : Sound g) (hok : TaskOk g)
    (ho : Opening image g s) (hp : prepareModule env s=(.error e,t))
    (hno : (loadImage env s).1≠.ok ()) :
    TaskOk { t.globals with loaded := g.loaded,registry := g.registry,process := q } := by
  have hst := prepareModule_stages env ho.blank
  rw [hp] at hst
  have hss : s.globals.sharedTask=g.sharedTask ∧ s.globals.task=g.task ∧
      s.globals.template=g.template ∧ s.globals.templateValid=g.templateValid := by
    rw [ho.globals]
    exact ⟨rfl,rfl,rfl,rfl⟩
  obtain ⟨next,hsh,-⟩ := (hst.early_of_image hno).shared (by
    rw [hss.1,hss.2.1]
    exact hs.untouched)
  have h1 : t.globals.task=g.task := (congrArg Shared.task hsh).trans hss.2.1
  have h2 : t.globals.template=g.template := (congrArg Shared.template hsh).trans hss.2.2.1
  have h3 : t.globals.templateValid=g.templateValid :=
    (congrArg Shared.templateValid hsh).trans hss.2.2.2
  constructor
  · rw [h1]
    exact hok.task
  · rw [h2,h3]
    exact hok.template

end

theorem TaskOk.idle {g h : Globals} (hs : Sound g) (hok : TaskOk g) (hi : Idle g h) : TaskOk h := by
  have htask : h.task=g.task := by
    by_cases h0 : g.sharedTask=0
    · rw [hs.untouched h0]
      exact hi.zeroed (hs.untouched h0)
    · exact (hi.task h0).2
  constructor
  · rw [hi.loaded,htask]
    exact hok.task
  · rw [hi.loaded,hi.template.1,hi.template.2]
    exact hok.template

theorem TaskOk.step {env : Env} {g h : Globals} {event : Event} (hs : Sound g)
    (hok : TaskOk g) (hk : KeepsTask env g event) (ht : Transition env g event h) :
    TaskOk h := by
  cases ht with
  | idle _ _ hi => exact hok.idle hs hi
  | opened image backend s t hload ho hp => exact hok.opened hs hk.1 ho hp
  | failed image backend e s t q hload ho hp hr hm =>
    rcases hk.2 s hload with h1|h1
    · rw [hp] at h1
      cases h1
    · exact hok.failed hs ho hp h1
  | closed m hm =>
    have hne : g.loaded≠[] := ne_nil_of_mem hm
    constructor
    · rcases hok.task with hat|⟨h0,_⟩
      · exact inl (hat.closed fun x hx he p hp => (hk x hx he p hp).1)
      · exact absurd h0 hne
    · exact hok.template.imp (fun hat => hat.closed fun x hx he p hp => (hk x hx he p hp).2) id
  | journal handle h0 =>
    have hj := journal_keeps_pointers g.task handle
    refine ⟨?_,hok.template⟩
    exact hok.task.imp (fun hat => hat.congr hj) fun hz => ⟨hz.1,hz.2.congr hj⟩
  | stub target callerGs calleeGs m hm =>
    have hplan := hs.stub_plan env target callerGs calleeGs hm
    have hmono : ∀ {b : Bytes},Attached g.loaded b → Attached (g.loaded.map fun x =>
        if x.self=m.self then
          (allocateExternalCallStubForCaller env .gsCall target callerGs calleeGs m).2 else x) b := by
      intro b hat
      apply hat.mono
      intro x hx
      exact ⟨_,mem_map_of_mem hx,congrArg imageBase (hplan x hx), congrArg imageSize (hplan x hx)⟩
    have hne : g.loaded≠[] := ne_nil_of_mem hm
    constructor
    · rcases hok.task with hat|⟨h0,_⟩
      · exact inl (hmono hat)
      · exact absurd h0 hne
    · exact hok.template.imp hmono id

/-- In every state of a run whose opens and closes keep the task, no pointer dangles. -/
theorem task_never_dangles (env : Env) (events : List Event)
    (h : Meets (step env) (KeepsTask env) Globals.start events) :
    ∀ k,NoDangling (runAll (step env) Globals.start (events.take k)) := by
  intro k
  have hzero : Cleared fun _ => 0 := by
    intro p hp
    rfl
  have hinv := runAll_invariant (I := fun g => Sound g ∧ TaskOk g) (fun g event hg hk =>
      have ht := step_transition hg.1
      ⟨hg.1.step ht,hg.2.step hg.1 hk ht⟩)
    ⟨Sound.start,inr ⟨rfl,hzero⟩,inr ⟨rfl,hzero⟩⟩ (h.take k)
  exact hinv.2.noDangling

def Event.openPlain : Event := .openImage ⟨some Elf.plainSample,201,none⟩ 1

theorem task_never_dangles_twice :
    NoDangling (runAll (step Env.sample) Globals.start [.openPlain,.openPlain,.close 1]) := by
  have h1 : ∀ s∈openLoad sample ⟨some Elf.plainSample,201,none⟩ 1 start,
      (prepareModule sample s).1=.ok () := by decide +kernel
  have h2 : ∀ s∈openLoad sample ⟨some Elf.plainSample,201,none⟩ 1 (step sample start .openPlain),
      (prepareModule sample s).1=.ok () := by decide +kernel
  have h3 : KeepsTask sample (step sample (step sample start .openPlain)
      .openPlain) (.close 1) := by
    unfold KeepsTask
    decide +kernel
  have k1 : KeepsTask sample start .openPlain :=
    ⟨openFits_plainSample,fun s hs => inl (h1 s hs)⟩
  have k2 : KeepsTask sample (step sample start .openPlain) .openPlain :=
    ⟨openFits_plainSample,fun s hs => inl (h2 s hs)⟩
  have hmeets : Meets (step sample) (KeepsTask sample) start
      [.openPlain,.openPlain,.close 1] := And.intro k1 (And.intro k2 (And.intro h3 trivial))
  have hall := task_never_dangles sample [.openPlain,.openPlain,.close 1] hmeets 3
  exact hall

/-- After the last module is closed, the task still points into its image. -/
theorem closed_task_dangles : ¬NoDangling (runAll (step Env.sample) Globals.start
      [.openPlain,.close 1]) := by
  intro h
  have hnone : (runAll (step sample) start [.openPlain,.close 1]).loaded=[] := by
    decide +kernel
  have hptr : leValue (runAll (step sample) start
      [.openPlain,.close 1]).task 0xe8 8≠0 := by decide +kernel
  rcases h.1 (0xe8,currentMmOffset) (by decide) with ⟨m,hm,_⟩|⟨_,h0⟩
  · rw [hnone] at hm
    cases hm
  · exact hptr h0

end Kobox.Loader
