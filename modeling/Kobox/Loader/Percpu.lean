import Kobox.Loader.FailedLoad
import Kobox.Loader.Protection

namespace Kobox.Loader

open Elf Plan Or List

/-- The per-CPU fields of a layout that started with the cursor at `next`. -/
def PercpuPlaced (next : Nat) (l : Layout) : Prop :=
  (l.percpuOffset=0 ∧ l.percpuSize=0 ∧ l.percpuNext=next) ∨
  (next≤l.percpuOffset ∧ l.percpuNext=l.percpuOffset+l.percpuSize ∧ l.percpuNext≤gsSize)

/-- Rounding the cursor up for any per-CPU section of the file does not carry out of 64 bits. -/
def NoCarry (f : ElfFile) (next : Nat) : Prop :=
  ∀ i sec,AllocAt f i sec → isPercpuSection sec=true →
    next+(max 8 (sectionAlignment sec)-1)<wordSize

theorem le_percpuPlace {next alignment : Nat} (h : next+(max 8 alignment-1)<wordSize) :
    next≤percpuPlace next alignment := by
  have hmax : (if alignment<8 then 8 else alignment)=max 8 alignment := by
    split <;> omega
  unfold percpuPlace
  rw [hmax,alignUpU64,if_neg (by omega),maskUp_eq next _ h]
  exact le_maskUpNat next _

theorem PercpuPlaced.step {f : ElfFile} {i next : Nat} {l t : Layout} (hnext : 0<next)
    (hc : NoCarry f next) (hl : PercpuPlaced next l) (h : layoutSection f i l=(.ok (),t)) :
    PercpuPlaced next t := by
  obtain ⟨sec,hsec,hcase⟩ := layoutSection_ok h
  rcases hcase with ⟨_,rfl⟩|⟨ha,_,hturn⟩
  · exact hl
  unfold PercpuTurn at hturn
  split at hturn
  · next hp =>
    right
    rcases hl with ⟨_,_,hln⟩|⟨hge,_,_⟩
    · have hplace := le_percpuPlace (hc i sec ⟨hsec,ha⟩ hp)
      rw [← hln] at hplace ⊢
      omega
    · omega
  · obtain ⟨hoff,hsize,hn⟩ := hturn
    unfold PercpuPlaced
    rw [hoff,hsize,hn]
    exact hl

theorem layoutSections_percpu {f : ElfFile} {n next : Nat} {r : Except Status Unit} {l t : Layout}
    (hnext : 0<next) (hc : NoCarry f next) (hl : PercpuPlaced next l)
    (h : layoutSections f n l=(r,t)) : PercpuPlaced next t := by
  cases r with
  | ok _ =>
    exact Prog.loopFrom_ok (I := fun _ s => PercpuPlaced next s) 0 n
      (fun j s u _ _ hs hb => hs.step hnext hc hb) hl h
  | error e =>
    obtain ⟨j,u,_,_,hu,hb⟩ := Prog.loopFrom_error (I := fun _ s => PercpuPlaced next s) 0 n
      (fun j s u _ _ hs hb => hs.step hnext hc hb) hl h
    obtain ⟨hoff,hsize,hn⟩ := layoutSection_error hb
    unfold PercpuPlaced
    rw [hoff,hsize,hn]
    exact hu

def PercpuApart (a b : KbModule) : Prop :=
  a.percpuOffset+a.percpuSize≤b.percpuOffset ∨ b.percpuOffset+b.percpuSize≤a.percpuOffset

/-- A per-CPU range lies between the fixed slots and the end of the GS area; no two overlap. -/
def PercpuSafe (g : Globals) : Prop := (∀ m∈g.loaded,(m.percpuOffset=0 ∧ m.percpuSize=0) ∨
    (gsModulePercpuOffset ≤ m.percpuOffset ∧ m.percpuOffset+m.percpuSize≤gsSize)) ∧
  g.loaded.Pairwise PercpuApart

/-- All ranges lie between the fixed slots and the cursor. -/
structure PercpuOk (g : Globals) : Prop where
  cursor : gsModulePercpuOffset≤g.percpuNext ∧ g.percpuNext≤gsSize
  placed : ∀ m∈g.loaded,(m.percpuOffset=0 ∧ m.percpuSize=0) ∨
    (gsModulePercpuOffset ≤ m.percpuOffset ∧ m.percpuOffset+m.percpuSize≤g.percpuNext)
  apart : g.loaded.Pairwise PercpuApart

theorem PercpuOk.safe {g : Globals} (h : PercpuOk g) : PercpuSafe g := by
  refine ⟨?_,h.apart⟩
  intro m hm
  have hc := h.cursor.2
  rcases h.placed m hm with h0|hp
  · exact inl h0
  · exact inr ⟨hp.1,by omega⟩

/-- The per-CPU section of an opened image does not carry the cursor over. -/
def PercpuFits (g : Globals) : Event → Prop
  | .openImage image _ => ∀ data elf,image.data=some data →
      (kbElfOpen data image.size).val=.ok elf → NoCarry elf g.percpuNext
  | _ => True

section

variable {env : Env} {image : ModuleImage} {backend : Nat} {g : Globals} {s t : Load}

theorem Opening.placed {r : Except Status Unit} {l : Layout} (ho : Opening image g s)
    (hok : PercpuOk g) (hf : PercpuFits g (.openImage image backend))
    (h : layoutSections s.module.elf s.module.sectionCount (startLayout s)=(r,l)) :
    PercpuPlaced g.percpuNext l := by
  obtain ⟨data,hdata,helf⟩ := ho.file
  have hb := ho.blank
  have hnext : s.globals.percpuNext=g.percpuNext := by
    rw [ho.globals]
  have hpos : 0<g.percpuNext := lt_of_lt_of_le (by decide) hok.cursor.1
  exact layoutSections_percpu hpos (hf data s.module.elf hdata helf)
    (inl ⟨hb.percpu.1,hb.percpu.2,hnext⟩) h

theorem Stages.cursor (h : Stages env s t) :
    ∃ r l,layoutSections s.module.elf s.module.sectionCount (startLayout s)=(r,l) ∧
      t.globals.percpuNext=l.percpuNext := by
  cases h with
  | early e _ he =>
    obtain ⟨r,l,hl,hk⟩ := he.layout
    exact ⟨r,l,hl,congrArg Kept.percpuNext hk⟩
  | copying e l u v _ hl hc =>
    have hv : v.globals.percpuNext=l.percpuNext := congrArg Kept.percpuNext hl.kept
    refine ⟨_,l,hl.layout,?_⟩
    rw [hc.globals]
    exact hv
  | later l v a b c _ hl hp he hpr =>
    obtain ⟨u,hu⟩ := hl.laid
    obtain ⟨gs,hg⟩ := hl.globals
    have hv : v.globals.percpuNext=l.percpuNext := congrArg Kept.percpuNext hu.kept
    have hcap := (captured_frame { (v.globals.withTask v.module) with gs := gs }).2.2.2.2.2.1
    rw [← hg] at hcap
    have hb : b.globals.percpuNext=a.globals.percpuNext :=
      congrArg (fun x => x.kept.percpuNext) hp.steady
    refine ⟨_,l,hu.layout,?_⟩
    rw [hpr.globals,he.globals]
    exact hb.trans (hcap.trans hv)

theorem Prepared.percpu {v a b c : Load} {l : Layout} (h : Prepared env s l v a b c t) :
    layoutSections s.module.elf s.module.sectionCount (startLayout s)=(.ok (),l) ∧
      t.module.percpuOffset=l.percpuOffset ∧ t.module.percpuSize=l.percpuSize := by
  obtain ⟨u,hu⟩ := h.loaded.laid
  have hmoves := finalize_moves env c
  rw [h.finished] at hmoves
  have h1 : c.module.percpuOffset=a.module.percpuOffset := congrArg percpuOffset h.plan
  have h2 : c.module.percpuSize=a.module.percpuSize := congrArg percpuSize h.plan
  have h3 : a.module.percpuOffset=l.percpuOffset :=
    (congrArg percpuOffset h.loaded.plan).trans (congrArg percpuOffset hu.plan)
  have h4 : a.module.percpuSize=l.percpuSize :=
    (congrArg percpuSize h.loaded.plan).trans (congrArg percpuSize hu.plan)
  refine ⟨hu.layout,?_,?_⟩
  · rw [hmoves.module]
    exact h1.trans h3
  · rw [hmoves.module]
    exact h2.trans h4

theorem PercpuOk.opened (hok : PercpuOk g) (hf : PercpuFits g (.openImage image backend))
    (ho : Opening image g s) (hp : prepareModule env s=(.ok (),t)) :
    PercpuOk { t.globals with loaded := t.module::g.loaded } := by
  have hst := prepareModule_stages env ho.blank
  rw [hp] at hst
  obtain ⟨r,l,hl,hnext⟩ := Stages.cursor (t := t) hst
  obtain ⟨l',v,a,b,c,hpr⟩ := prepareModule_ok env ho.blank hp
  obtain ⟨hl',hoff,hsize⟩ := hpr.percpu
  rw [hl] at hl'
  cases hl'
  have hplaced := ho.placed hok hf hl
  obtain ⟨hlo,hhi⟩ := hok.cursor
  unfold PercpuPlaced at hplaced
  rw [← hoff,← hsize] at hplaced
  refine ⟨⟨by dsimp only; omega,by dsimp only; omega⟩,?_,?_⟩
  · intro m hm
    rcases mem_cons.mp hm with rfl|hm
    · rcases hplaced with ⟨h0,h1,_⟩|⟨h0,h1,_⟩
      · exact inl ⟨h0,h1⟩
      · exact inr ⟨by omega,by dsimp only; omega⟩
    · rcases hok.placed m hm with h0|⟨h0,h1⟩
      · exact inl h0
      · exact inr ⟨h0,by dsimp only; omega⟩
  · refine List.Pairwise.cons ?_ hok.apart
    intro m hm
    unfold PercpuApart
    rcases hplaced with ⟨h0,h1,_⟩|⟨h0,h1,_⟩
    · omega
    · have := hok.placed m hm
      omega

theorem PercpuOk.failed {e : Status} {q : Process} (hok : PercpuOk g)
    (hf : PercpuFits g (.openImage image backend)) (ho : Opening image g s)
    (hp : prepareModule env s=(.error e,t)) :
    PercpuOk { t.globals with loaded := g.loaded,registry := g.registry,process := q } := by
  have hst := prepareModule_stages env ho.blank
  rw [hp] at hst
  obtain ⟨r,l,hl,hnext⟩ := Stages.cursor (t := t) hst
  have hplaced := ho.placed hok hf hl
  obtain ⟨hlo,hhi⟩ := hok.cursor
  unfold PercpuPlaced at hplaced
  refine ⟨⟨by dsimp only; omega,by dsimp only; omega⟩,?_,hok.apart⟩
  intro m hm
  rcases hok.placed m hm with h0|⟨h0,h1⟩
  · exact inl h0
  · exact inr ⟨h0,by dsimp only; omega⟩

end

theorem PercpuOk.replaced {g : Globals} (hok : PercpuOk g) (f : KbModule → KbModule)
    (hf : ∀ m∈g.loaded,(f m).plan=m.plan) : PercpuOk { g with loaded := g.loaded.map f } := by
  have hoff : ∀ m∈g.loaded,(f m).percpuOffset=m.percpuOffset ∧ (f m).percpuSize=m.percpuSize :=
    fun m hm => ⟨congrArg percpuOffset (hf m hm),congrArg percpuSize (hf m hm)⟩
  refine ⟨hok.cursor,?_,?_⟩
  · intro x hx
    obtain ⟨m,hm,rfl⟩ := mem_map.mp hx
    rw [(hoff m hm).1,(hoff m hm).2]
    exact hok.placed m hm
  · apply pairwise_map.mpr
    apply hok.apart.imp_of_mem
    intro a b ha hb hap
    unfold PercpuApart
    rw [(hoff a ha).1,(hoff a ha).2,(hoff b hb).1,(hoff b hb).2]
    exact hap

theorem PercpuOk.step {env : Env} {g h : Globals} {event : Event} (hs : Sound g)
    (hok : PercpuOk g) (hf : PercpuFits g event) (ht : Transition env g event h) :
    PercpuOk h := by
  cases ht with
  | idle _ _ hi =>
    constructor
    · rw [hi.percpuNext]
      exact hok.cursor
    · rw [hi.loaded,hi.percpuNext]
      exact hok.placed
    · rw [hi.loaded]
      exact hok.apart
  | opened image backend s t _ ho hp => exact hok.opened hf ho hp
  | failed image backend e s t q _ ho hp hr hm => exact hok.failed hf ho hp
  | closed m hm =>
    refine ⟨hok.cursor,?_,hok.apart.sublist eraseP_sublist⟩
    intro x hx
    exact hok.placed x (mem_unregister hs.selves hx).1
  | journal handle h0 => exact ⟨hok.cursor,hok.placed,hok.apart⟩
  | stub target callerGs calleeGs m hm =>
    exact hok.replaced _ (hs.stub_plan env target callerGs calleeGs hm)

/-- In every run whose images never carry the cursor over, per-CPU ranges of loaded modules are
disjoint, between fixed slots and end. -/
theorem percpu_ranges_safe (env : Env) (events : List Event)
    (h : Meets (step env) PercpuFits Globals.start events) :
    ∀ k,PercpuSafe (runAll (step env) Globals.start (events.take k)) := by
  intro k
  have hinv := runAll_invariant (I := fun g => Sound g ∧ PercpuOk g) (fun g event hg hf =>
      have ht := step_transition hg.1
      ⟨hg.1.step ht,hg.2.step hg.1 hf ht⟩)
    ⟨Sound.start,⟨by decide,by decide⟩,fun m hm => absurd hm not_mem_nil,
      List.Pairwise.nil⟩ (h.take k)
  exact hinv.2.safe

def Elf.percpuSmall : Bytes :=
  (Elf.withSection (Elf.withSection (Elf.header 2) 0 0 Elf.shtStrtab 0 192 15 0 0 1 0)
    1 1 Elf.shtNobits 3 0 8 0 0 8 0).put 192 (0::literalBytes ".data..percpu")

def percpuPair : List Event :=
  [.openImage ⟨some Elf.percpuSmall,207,none⟩ 1,.openImage ⟨some Elf.percpuSmall,207,none⟩ 1]

theorem percpu_ranges_safe_percpuPair :
    (runAll (step Env.sample) Globals.start percpuPair).loaded.map (fun m => m.percpuOffset)=
      [0x808,0x800] ∧
    PercpuSafe (runAll (step Env.sample) Globals.start percpuPair) := by
  have hopen : (kbElfOpen percpuSmall 207).val=.ok (file percpuSmall 207 2) := by rfl
  have hall : ∀ i<2,∀ sec∈(kbElfSection (file percpuSmall 207 2) i).val.toOption,
      max 8 (sectionAlignment sec)≤8 := by decide +kernel
  have hfits : ∀ g : Globals,g.percpuNext≤0x808 →
      PercpuFits g (.openImage ⟨some percpuSmall,207,none⟩ 1) := by
    intro g hg data elf hdata helf i sec hat hp
    cases hdata
    rw [hopen] at helf
    cases helf
    have hal := hall i hat.lt sec (Prog.mem_toOption.mpr hat.1)
    unfold wordSize
    omega
  exact ⟨by decide +kernel,percpu_ranges_safe Env.sample percpuPair
    ⟨hfits _ (by decide),hfits _ (by decide +kernel),trivial⟩ 2⟩

/-- A per-CPU section whose alignment carries the cursor 0x808 over to 8. -/
def Elf.percpuWrap : Bytes :=
  (Elf.withSection (Elf.withSection (Elf.header 2) 0 0 Elf.shtStrtab 0 192 15 0 0 1 0)
    1 1 Elf.shtNobits 3 0 16 0 0 (2^64-0x7ff) 0).put 192 (0::literalBytes ".data..percpu")

/-- The second module's per-CPU range starts at 8, over the fixed GS slots. -/
theorem percpu_range_wraps : ¬PercpuSafe (runAll (step Env.sample) Globals.start
      [.openImage ⟨some Elf.percpuSmall,207,none⟩ 1,
        .openImage ⟨some Elf.percpuWrap,207,none⟩ 1]) := by
  intro h
  have hlow : ∃ m∈(runAll (step Env.sample) Globals.start [.openImage ⟨some percpuSmall,207,none⟩ 1,
        .openImage ⟨some percpuWrap,207,none⟩ 1]).loaded,
      m.percpuOffset=8 ∧ m.percpuSize=16 := by decide +kernel
  obtain ⟨m,hm,hoff,hsize⟩ := hlow
  rcases h.1 m hm with ⟨h0,_⟩|⟨h0,_⟩
  · rw [hoff] at h0
    cases h0
  · rw [hoff] at h0
    exact absurd h0 (by decide)

end Kobox.Loader
