import Kobox.Loader.Transition

namespace Kobox.Loader

open Env

structure Shared where
  loaded : List KbModule
  registry : SymbolRegistry
  percpuNext : Nat
  task : Bytes
  template : Bytes
  templateValid : Bool

open Shared

def Globals.shared (g : Globals) : Shared where
  loaded := g.loaded
  registry := g.registry
  percpuNext := g.percpuNext
  task := g.task
  template := g.template
  templateValid := g.templateValid

/-- The layout stops at section `j`: its header cannot be read, or it is a per-CPU section that
does not fit behind the cursor `next`. -/
def StopsAt (f : ElfFile) (next j : Nat) : Prop :=
  match (kbElfSection f j).val with
  | .error _ => True
  | .ok sec => Elf.shfAlloc sec.flags=true ∧ isPercpuSection sec=true ∧
      ¬(percpuPlace next (sectionAlignment sec)≤gsSize ∧
        sec.size≤gsSize-percpuPlace next (sectionAlignment sec))

instance (f : ElfFile) (next j : Nat) : Decidable (StopsAt f next j) := by
  unfold StopsAt
  split <;> infer_instance

/-- The layout stops before it has laid out a per-CPU section, one that is empty on an aligned
cursor excepted. -/
def NoPercpuLaid (f : ElfFile) (n next : Nat) : Prop :=
  ∀ i sec,i<n → AllocAt f i sec → isPercpuSection sec=true →
    percpuPlace next (sectionAlignment sec)+sec.size=next ∨ ∃ j,j ≤ i ∧ StopsAt f next j

/-- The load ends before the task is rewritten, and no per-CPU section is laid out before that. -/
def EndsEarly (env : Env) (s : Load) : Prop :=
  (loadImage env s).1≠.ok () ∧
  NoPercpuLaid s.module.elf s.module.sectionCount s.globals.percpuNext

section

variable {f : ElfFile} {n next : Nat} {l t : Layout}

theorem layoutSection_runs {i : Nat} (h : layoutSection f i l=(.ok (),t)) :
    ¬StopsAt f l.percpuNext i := by
  obtain ⟨sec,hsec,hcase⟩ := layoutSection_ok h
  unfold StopsAt
  rw [hsec]
  rintro ⟨ha,hp,hfit⟩
  rcases hcase with ⟨hna,-⟩|⟨-,-,hturn⟩
  · rw [ha] at hna
    cases hna
  rw [PercpuTurn,if_pos hp] at hturn
  obtain ⟨-,hoff,hle,hsize,-⟩ := hturn
  rw [hoff] at hle hsize
  exact hfit ⟨hle,hsize⟩

theorem layoutSections_cursor {r : Except Status Unit} (hno : NoPercpuLaid f n next)
    (h : layoutSections f n l=(r,t)) (hl : l.percpuNext=next) : t.percpuNext=next := by
  have hstep : ∀ j s u,0≤j → j<0+n → (s.percpuNext=next ∧ ∀ i,i<j → ¬StopsAt f next i) →
      layoutSection f j s=(.ok (),u) →
      u.percpuNext=next ∧ ∀ i,i<j+1 → ¬StopsAt f next i := by
    intro j s u _ hj hs hb
    have hrun := layoutSection_runs hb
    rw [hs.1] at hrun
    have hall : ∀ i,i<j+1 → ¬StopsAt f next i := by
      intro i hi
      by_cases he : i=j
      · exact he ▸ hrun
      · exact hs.2 i (by omega)
    refine ⟨?_,hall⟩
    obtain ⟨sec,hsec,⟨-,rfl⟩|⟨ha,-,hturn⟩⟩ := layoutSection_ok hb
    · exact hs.1
    unfold PercpuTurn at hturn
    split at hturn
    · next hp =>
      rcases hno j sec (by omega) ⟨hsec,ha⟩ hp with heq|⟨i,hi,hstop⟩
      · rw [hturn.2.2.2.2.2,hturn.2.1,hs.1,heq]
      · exact absurd hstop (hall i (by omega))
    · exact hturn.2.2.trans hs.1
  have h0 : l.percpuNext=next ∧ ∀ i,i<0 → ¬StopsAt f next i := ⟨hl,fun i hi => absurd hi (by omega)⟩
  cases r with
  | ok _ => exact (Prog.loopFrom_ok (I := fun j s => s.percpuNext=next ∧
      ∀ i,i<j → ¬StopsAt f next i) 0 n hstep h0 h).1
  | error e =>
    obtain ⟨j,u,-,-,hu,hb⟩ := Prog.loopFrom_error (I := fun j s => s.percpuNext=next ∧
      ∀ i,i<j → ¬StopsAt f next i) 0 n hstep h0 h
    exact (layoutSection_error hb).2.2.trans hu.1

end

section

variable {env : Env} {s t u v a : Load} {l : Layout}

theorem shared_of_kept (g : Globals) : g.shared=⟨g.kept.loaded,g.kept.registry,g.kept.percpuNext,
    g.task,g.kept.template,g.kept.templateValid⟩ := rfl

theorem later_shared {b c : Load} (hp : Patched env a b) (he : Exported b c)
    (hpr : Protected c t) : { t.globals.shared with registry := s.globals.registry }=
      { a.globals.shared with registry := s.globals.registry } := by
  have hk : b.globals.kept=a.globals.kept := congrArg Steady.kept hp.steady
  have htask : b.globals.task=a.globals.task := congrArg Steady.task hp.steady
  have hb := shared_of_kept b.globals
  rw [hk,htask] at hb
  rw [hpr.globals,he.globals]
  exact congrArg (fun x : Shared => { x with registry := s.globals.registry }) hb

theorem Early.shared (hz : s.globals.sharedTask=0 → s.globals.task=fun _ => 0) (h : Early s t) :
    ∃ next,t.globals.shared={ s.globals.shared with percpuNext := next } ∧
      (NoPercpuLaid s.module.elf s.module.sectionCount s.globals.percpuNext →
        next=s.globals.percpuNext) := by
  obtain ⟨r,l,hl,hk⟩ := h.layout
  have htask : t.globals.task=s.globals.task := by
    by_cases h0 : s.globals.sharedTask=0
    · rw [hz h0]
      exact h.zeroed (hz h0)
    · exact (h.task h0).2
  refine ⟨l.percpuNext,?_,fun hno => layoutSections_cursor hno hl rfl⟩
  rw [shared_of_kept,hk,htask]
  rfl

/-- A load that ends before its image is complete went through the early stages only. -/
theorem Stages.early_of_image (h : Stages env s t) (hno : (loadImage env s).1≠.ok ()) :
    Early s t := by
  have hran : ∀ {l : Layout} {u v : Load},¬Laid env s l u v := by
    intro l u v hl
    rw [hl.ran] at hno
    exact hno rfl
  cases h with
  | early e _ he => exact he
  | copying e l u v _ hl _ => exact absurd hl hran
  | later l v a b c _ hl _ _ _ =>
    obtain ⟨u,hu⟩ := hl.laid
    exact absurd hu hran

end

/-- A failed open leaves the shared state as it was if it is refused before the load starts, or
the load ends before the task is rewritten and has laid out no per-CPU section. -/
theorem failed_open_atomic (env : Env) (events : List Event) (image : ModuleImage)
    (backend : Nat) (e : Status)
    (h : (kbModuleOpenImage env image backend (runAll (step env) Globals.start events)).1=.error e)
    (hc : ∀ s,openLoad env image backend (runAll (step env) Globals.start events)=some s →
      EndsEarly env s) :
    (kbModuleOpenImage env image backend (runAll (step env) Globals.start events)).2.shared=
      (runAll (step env) Globals.start events).shared := by
  have hs := runAll_sound env events
  generalize runAll (step env) Globals.start events=g at h hs hc
  have hout := openImage_outcome env image backend g
  generalize kbModuleOpenImage env image backend g=r at h hout
  cases hout with
  | refused e p hload hr hm => rfl
  | dropped e self k hload ha =>
    obtain ⟨q,hq,-,-⟩ := ha.dropped hs
    rw [hq]
    rfl
  | failed e s t hload ho hp =>
    obtain ⟨hend,hno⟩ := hc s hload
    have hst := prepareModule_stages env ho.blank
    rw [hp] at hst
    obtain ⟨q,hq,-,-⟩ := ho.torn hs hst
    have hz : s.globals.sharedTask=0 → s.globals.task=fun _ => 0 := by
      rw [ho.globals]
      exact hs.untouched
    obtain ⟨next,hsh,hnext⟩ := (hst.early_of_image hend).shared hz
    rw [hnext hno,ho.globals] at hsh
    rw [hq]
    change { t.globals.shared with loaded := g.loaded,registry := g.registry }=g.shared
    rw [hsh]
    rfl
  | opened s t hload ho hp => cases h

/-- A section with contents, then a per-CPU section larger than the GS area. -/
def Elf.percpuHuge : Bytes :=
  (Elf.withSection (Elf.withSection (Elf.withSection (Elf.header 3) 0 0 Elf.shtStrtab 0 256 15 0 0 1 0)
    1 0 Elf.shtNobits 3 0 64 0 0 8 0) 2 1 Elf.shtNobits 3 0 0x200000 0 0 8 0).put 256
    (0::literalBytes ".data..percpu")

theorem failed_open_atomic_percpuHuge :
    (openLoad Env.sample ⟨some Elf.percpuHuge,271,none⟩ 1 Globals.start).isSome ∧
    (kbModuleOpenImage Env.sample ⟨some Elf.percpuHuge,271,none⟩ 1 Globals.start).2.shared=
      Globals.start.shared := by
  have herr : (kbModuleOpenImage sample ⟨some Elf.percpuHuge,271,none⟩ 1
      (runAll (step sample) Globals.start [])).1=.error .nomem := by decide +kernel
  have hstart : (openLoad sample ⟨some Elf.percpuHuge,271,none⟩ 1 Globals.start).isSome := by
    decide +kernel
  have hends : ∀ s∈openLoad sample ⟨some Elf.percpuHuge,271,none⟩ 1 Globals.start,
      (loadImage sample s).1=.error .nomem ∧ s.module.sectionCount=3 ∧
        (∀ sec∈(kbElfSection s.module.elf 0).val.toOption,isPercpuSection sec=false) ∧
        (∀ sec∈(kbElfSection s.module.elf 1).val.toOption,isPercpuSection sec=false) ∧
        StopsAt s.module.elf s.globals.percpuNext 2 := by decide +kernel
  refine ⟨hstart,failed_open_atomic sample [] ⟨some Elf.percpuHuge,271,none⟩ 1 .nomem herr ?_⟩
  intro s hs
  obtain ⟨himage,hcount,h0,h1,hstop⟩ := hends s hs
  refine ⟨by rw [himage]; exact nofun,?_⟩
  intro i sec hi ha hp
  rw [hcount] at hi
  have hsec := Prog.mem_toOption.mpr ha.1
  interval_cases i
  · rw [h0 sec hsec] at hp
    cases hp
  · rw [h1 sec hsec] at hp
    cases hp
  · exact Or.inr ⟨2,le_rfl,hstop⟩

/-- Two per-CPU sections without file contents, the first almost as large as the GS area. -/
def Elf.percpuTwice : Bytes :=
  (Elf.withSection (Elf.withSection (Elf.withSection (Elf.header 3) 0 0 Elf.shtStrtab 0 256 15 0 0 1 0)
    1 1 Elf.shtNobits 3 0 0xff000 0 0 8 0) 2 1 Elf.shtNobits 3 0 8 0 0 8 0).put 256
    (0::literalBytes ".data..percpu")

def Elf.percpuPage : Bytes :=
  (Elf.withSection (Elf.withSection (Elf.header 2) 0 0 Elf.shtStrtab 0 192 15 0 0 1 0)
    1 1 Elf.shtNobits 3 0 0x1000 0 0 8 0).put 192 (0::literalBytes ".data..percpu")

/-- The first per-CPU section moves the cursor, the second is refused; now a load that fitted
fails. -/
theorem failed_open_moves_cursor :
    (kbModuleOpenImage Env.sample ⟨some Elf.percpuTwice,271,none⟩ 1 Globals.start).1=
      .error .invalid ∧
    (kbModuleOpenImage Env.sample ⟨some Elf.percpuTwice,271,none⟩ 1 Globals.start).2.shared≠
      Globals.start.shared ∧
    (kbModuleOpenImage Env.sample ⟨some Elf.percpuPage,207,none⟩ 1 Globals.start).1=.ok 1 ∧
    (kbModuleOpenImage Env.sample ⟨some Elf.percpuPage,207,none⟩ 1
      (kbModuleOpenImage Env.sample ⟨some Elf.percpuTwice,271,none⟩ 1 Globals.start).2).1=
      .error .nomem := by
  refine ⟨by decide +kernel,?_,by decide +kernel,by decide +kernel⟩
  intro h
  have hnext := congrArg percpuNext h
  revert hnext
  decide +kernel
end Kobox.Loader
