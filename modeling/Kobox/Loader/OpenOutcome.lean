import Kobox.Loader.Stages

namespace Kobox.Loader

/-- The load that the ELF checks of `kb_module_open_image` let start. -/
def openElfLoad (env : Env) (self node0 : Nat) (name : String) (data : Bytes) (size : Nat)
    (g : Globals) : Option Load :=
  match (kbElfOpen data size).val with
  | .error _ => none
  | .ok elf =>
    if elf.type≠Elf.etRel ∨ elf.machine≠Elf.emX8664 then none
    else if (calloc env g.process).1=0 then none
    else
      some ⟨{ g with
          gs := g.gs.put 0x28 (le64 0x6b6f626f785f6773)
          process := (calloc env g.process).2 },
        KbModule.fresh self name elf node0⟩

/-- The state a call of `kb_module_open_image` hands to `prepare_module`, if it gets there. -/
def openLoad (env : Env) (image : ModuleImage) (backend : Nat) (g : Globals) : Option Load :=
  match image.data with
  | none => none
  | some data =>
    if image.size=0 ∨ backend=0 then none
    else
      let record := callocRecord env g.process
      let name := calloc env record.2
      let node0 := calloc env name.2
      if record.1=0 ∨ name.1=0 ∨ node0.1=0 then none
      else
        openElfLoad env record.1 node0.1 (copiedName image.name) data image.size
          { g with process := node0.2 }

structure Opening (image : ModuleImage) (g : Globals) (s : Load) : Prop where
  file : ∃ data,image.data=some data ∧ (kbElfOpen data image.size).val=.ok s.module.elf
  fresh : ∃ node0,s.module=KbModule.fresh s.module.self s.module.name s.module.elf node0
  globals : s.globals={ g with
    gs := g.gs.put 0x28 (le64 0x6b6f626f785f6773)
    process := s.globals.process }
  record : s.module.self≠0 ∧ s.module.self∉g.process.records ∧
    s.globals.process.records=s.module.self::g.process.records
  mappings : s.globals.process.mappings=g.process.mappings

theorem Opening.blank {image : ModuleImage} {g : Globals} {s : Load} (h : Opening image g s) :
    s.module.Blank := by
  obtain ⟨node0,hf⟩ := h.fresh
  rw [hf]
  exact KbModule.fresh_blank _ _ _ _

/-- Only the process differs, by calls to the allocator. -/
structure Asked (g : Globals) (record : Nat) (h : Globals) : Prop where
  globals : h={ g with process := h.process }
  fresh : record≠0 ∧ record∉g.process.records
  records : h.process.records=record::g.process.records
  mappings : h.process.mappings=g.process.mappings

/-- Refused before there is a record, dropped before the load starts, a failed load, a good one. -/
inductive OpenOutcome (env : Env) (image : ModuleImage) (backend : Nat) (g : Globals) :
    Except Status Nat × Globals → Prop
  | refused (e : Status) (p : Process) : openLoad env image backend g=none →
      p.records=g.process.records → p.mappings=g.process.mappings →
      OpenOutcome env image backend g (.error e,{ g with process := p })
  | dropped (e : Status) (self : Nat) (h : Globals) : openLoad env image backend g=none →
      Asked g self h → OpenOutcome env image backend g (.error e,destroyModule self 0 0 h)
  | failed (e : Status) (s t : Load) : openLoad env image backend g=some s →
      Opening image g s → prepareModule env s=(.error e,t) →
      OpenOutcome env image backend g
        (.error e,destroyModule s.module.self t.module.imageBase t.module.imageSize t.globals)
  | opened (s t : Load) : openLoad env image backend g=some s → Opening image g s →
      prepareModule env s=(.ok (),t) →
      OpenOutcome env image backend g
        (.ok s.module.self,{ t.globals with loaded := t.module::t.globals.loaded })

open OpenOutcome

variable {env : Env} {image : ModuleImage} {backend : Nat} {g h : Globals} {data : Bytes}

theorem openPrepared_outcome {elf : ElfFile} {self node0 : Nat} {name : String}
    (ha : Asked g self h) (hdata : image.data=some data)
    (helf : (kbElfOpen data image.size).val=.ok elf)
    (hload : openLoad env image backend g=
      some ⟨{ h with gs := h.gs.put 0x28 (le64 0x6b6f626f785f6773) },
        KbModule.fresh self name elf node0⟩) :
    OpenOutcome env image backend g (openPrepared env (KbModule.fresh self name elf node0) h) := by
  have hopen : Opening image g ⟨{ h with gs := h.gs.put 0x28 (le64 0x6b6f626f785f6773) },
      KbModule.fresh self name elf node0⟩ := by
    refine ⟨⟨data,hdata,helf⟩,⟨node0,rfl⟩,?_,⟨ha.fresh.1,ha.fresh.2,ha.records⟩,ha.mappings⟩
    rw [ha.globals]
  unfold openPrepared
  split
  · next e t hp => exact failed e _ t hload hopen hp
  · next t hp => exact opened _ t hload hopen hp

theorem openElf_outcome {self node0 : Nat} {name : String} (ha : Asked g self h)
    (hdata : image.data=some data)
    (hload : openLoad env image backend g=openElfLoad env self node0 name data image.size h) :
    OpenOutcome env image backend g (openElf env self node0 name data image.size h) := by
  have ha' : Asked g self { h with process := (calloc env h.process).2 } := by
    refine ⟨?_,ha.fresh,ha.records,ha.mappings⟩
    rw [ha.globals]
  unfold openElfLoad at hload
  unfold openElf
  cases helf : (kbElfOpen data image.size).val with
  | error e =>
    rw [helf] at hload
    exact dropped _ self h hload ha
  | ok elf =>
    rw [helf] at hload
    dsimp only at hload ⊢
    by_cases htype : elf.type≠Elf.etRel ∨ elf.machine≠Elf.emX8664
    · rw [if_pos htype] at hload ⊢
      exact dropped _ self h hload ha
    rw [if_neg htype] at hload ⊢
    by_cases hsec : (calloc env h.process).1=0
    · rw [if_pos hsec] at hload ⊢
      exact dropped _ self _ hload ha'
    · rw [if_neg hsec] at hload ⊢
      exact openPrepared_outcome ha' hdata helf hload

theorem callocRecord_null {p : Process} (h0 : (callocRecord env p).1=0) :
    (callocRecord env p).2.records=p.records ∧ (callocRecord env p).2.mappings=p.mappings := by
  unfold callocRecord at h0 ⊢
  split
  · exact ⟨rfl,rfl⟩
  next a ha =>
  rw [ha] at h0
  dsimp only at h0
  split
  · next hc =>
    rw [if_pos hc] at h0
    exact absurd h0 hc.1
  · exact ⟨rfl,rfl⟩

theorem openImage_outcome (env : Env) (image : ModuleImage) (backend : Nat) (g : Globals) :
    OpenOutcome env image backend g (kbModuleOpenImage env image backend g) := by
  have hload : openLoad env image backend g=openLoad env image backend g := rfl
  conv_rhs at hload => unfold openLoad
  unfold kbModuleOpenImage
  cases hdata : image.data with
  | none =>
    rw [hdata] at hload
    exact refused _ g.process hload rfl rfl
  | some data =>
    rw [hdata] at hload
    dsimp only at hload ⊢
    by_cases harg : image.size=0 ∨ backend=0
    · rw [if_pos harg] at hload ⊢
      exact refused _ g.process hload rfl rfl
    rw [if_neg harg] at hload ⊢
    by_cases h0 : (callocRecord env g.process).1=0
    · rw [if_pos (Or.inl h0)] at hload
      rw [if_pos h0]
      obtain ⟨hr,hm⟩ := callocRecord_null h0
      exact refused _ _ hload hr hm
    rw [if_neg h0]
    have hrec := callocRecord_fresh h0 rfl
    have ha : ∀ p : Process,p.records=(callocRecord env g.process).2.records →
        p.mappings=(callocRecord env g.process).2.mappings →
        Asked g (callocRecord env g.process).1 { g with process := p } := by
      intro p hr hm
      exact ⟨rfl,⟨h0,hrec.1⟩,hr.trans hrec.2.1,hm.trans hrec.2.2⟩
    by_cases h1 : (calloc env (callocRecord env g.process).2).1=0
    · rw [if_pos (Or.inr (Or.inl h1))] at hload
      rw [if_pos h1]
      exact dropped _ _ _ hload (ha _ rfl rfl)
    rw [if_neg h1]
    by_cases h2 : (calloc env (calloc env (callocRecord env g.process).2).2).1=0
    · rw [if_pos (Or.inr (Or.inr h2))] at hload
      rw [if_pos h2]
      exact dropped _ _ _ hload (ha _ rfl rfl)
    rw [if_neg h2]
    rw [if_neg (by rintro (h|h|h) <;> contradiction)] at hload
    exact openElf_outcome (ha _ rfl rfl) hdata hload

theorem openLoad_opening {s : Load} (h : openLoad env image backend g=some s) :
    Opening image g s := by
  have hout := openImage_outcome env image backend g
  generalize kbModuleOpenImage env image backend g=r at hout
  cases hout with
  | refused e p hl _ _ =>
    rw [h] at hl
    cases hl
  | dropped e self k hl _ =>
    rw [h] at hl
    cases hl
  | failed e u t hl ho _ =>
    rw [h] at hl
    cases hl
    exact ho
  | opened u t hl ho _ =>
    rw [h] at hl
    cases hl
    exact ho

end Kobox.Loader
