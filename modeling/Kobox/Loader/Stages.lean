import Kobox.Loader.LayoutSafety
import Kobox.Loader.PrepareProof

namespace Kobox.Loader

open Prog Plan

/-- The mapping a load holds on top of p: none yet, or one in a place that was free. -/
structure Holding (p : Process) (base size : Nat) (q : Process) : Prop where
  records : q.records=p.records
  kept : ∀ x∈p.mappings,x∈q.mappings
  image : base=0 ∨ (p.Free base size ∧ size≠0 ∧ size%pageSize=0 ∧ (base,size)∈q.mappings)

theorem Holding.grows {p q r : Process} {base size : Nat} (h : Holding p base size q)
    (k : Grows q r) : Holding p base size r := by
  refine ⟨k.1.trans h.records,fun x hx => k.2 x (h.kept x hx),?_⟩
  rcases h.image with h0|⟨hf,hs,hm,hin⟩
  · exact Or.inl h0
  · exact Or.inr ⟨hf,hs,hm,k.2 _ hin⟩

theorem Holding.none {p q : Process} (h : Grows p q) (size : Nat) : Holding p 0 size q :=
  ⟨h.1,h.2,Or.inl rfl⟩

structure Early (s t : Load) : Prop where
  layout : ∃ r l,layoutSections s.module.elf s.module.sectionCount (startLayout s)=(r,l) ∧
    t.globals.kept={ s.globals.kept with percpuNext := l.percpuNext }
  self : t.module.self=s.module.self
  holding : Holding s.globals.process t.module.imageBase t.module.imageSize t.globals.process
  task : s.globals.sharedTask≠0 →
    t.globals.sharedTask=s.globals.sharedTask ∧ t.globals.task=s.globals.task
  zeroed : s.globals.task=(fun _ => 0) → t.globals.task=fun _ => 0

variable {env : Env} {s t u v : Load} {l : Layout}

theorem alignUpU64_self {x : Nat} (h : x%pageSize=0) (hw : x<wordSize) :
    alignUpU64 x pageSize=x := by
  have hm : maskUpNat x (pageSize-1)=x := by
    rw [maskUpNat_page]
    unfold pageSize at h
    omega
  rw [alignUpU64_eq (by decide) (by rw [hm]; exact hw),hm]

theorem imageSize_paged (x : Nat) : (alignUpU64 x pageSize+shimRegionSize)%wordSize%pageSize=0 := by
  have h0 := alignUpU64_page_mod x
  have hr : shimRegionSize=56*pageSize := by decide
  have hd : pageSize∣wordSize := by decide
  rw [Nat.mod_mod_of_dvd _ hd,Nat.add_mod,h0,hr]
  simp

theorem Imaged.holding {x : Nat} (h : Imaged (alignUpU64 x pageSize)
    ((alignUpU64 x pageSize+shimRegionSize)%wordSize) s t) :
    Holding s.globals.process t.module.imageBase t.module.imageSize t.globals.process := by
  have hsize : t.module.imageSize=(alignUpU64 x pageSize+shimRegionSize)%wordSize :=
    congrArg imageSize h.plan
  have hpage := imageSize_paged x
  have hself := alignUpU64_self hpage (Nat.mod_lt _ wordSize_pos)
  have hgrows := h.mapped.grows
  rw [hsize]
  refine ⟨hgrows.1,hgrows.2,Or.inr ?_⟩
  rcases h.mapped.place with ⟨h0,_⟩|⟨hfree,hmap⟩
  · exact absurd h0 h.base
  · rw [hself] at hfree hmap
    refine ⟨hfree,h.sized,hpage,?_⟩
    rw [hmap]
    exact List.mem_cons_self

theorem Laid.holding (h : Laid env s l u v) :
    Holding s.globals.process v.module.imageBase v.module.imageSize v.globals.process := by
  have hbase : v.module.imageBase=u.module.imageBase := congrArg imageBase h.staged.plan
  have hsize : v.module.imageSize=u.module.imageSize := congrArg imageSize h.staged.plan
  rw [hbase,hsize]
  exact h.imaged.holding.grows h.staged.process

theorem loadImage_early {e : Status} (hb : s.module.Blank) (h : loadImage env s=(.error e,t)) :
    Early s t := by
  rcases bind_eq_error.mp h with h|⟨sum,x,hx,h⟩
  · obtain ⟨l,hl,rfl⟩ := layoutStage_error h
    refine ⟨⟨_,l,hl,rfl⟩,rfl,?_,fun _ => ⟨rfl,rfl⟩,id⟩
    change Holding _ s.module.imageBase s.module.imageSize _
    rw [hb.base.1]
    exact Holding.none (Grows.refl _) _
  obtain ⟨l,hl,rfl,rfl⟩ := layoutStage_ok hx
  rcases bind_eq_error.mp h with h|⟨_,u,hu,h⟩
  · obtain ⟨hm,hg,hgrows⟩ := allocateImage_error h
    refine ⟨⟨_,l,hl,?_⟩,?_,?_,?_,?_⟩
    · rw [hg]
      rfl
    · rw [hm]
      rfl
    · rw [hm]
      change Holding _ s.module.imageBase s.module.imageSize _
      rw [hb.base.1]
      exact Holding.none hgrows _
    · intro _
      rw [hg]
      exact ⟨rfl,rfl⟩
    · intro hz
      rw [hg]
      exact hz
  · obtain ⟨_,himg⟩ := allocateImage_ok hu
    have hst := (fillShim_moves env u).staged
    rw [h] at hst
    have hself : t.module.self=u.module.self := congrArg self hst.plan
    have hbase : t.module.imageBase=u.module.imageBase := congrArg imageBase hst.plan
    have hsize : t.module.imageSize=u.module.imageSize := congrArg imageSize hst.plan
    have hux : u.globals.sharedTask=s.globals.sharedTask ∧ u.globals.task=s.globals.task := by
      rw [himg.globals]
      exact ⟨rfl,rfl⟩
    have hold := himg.holding.grows hst.process
    rw [← hbase,← hsize] at hold
    refine ⟨⟨_,l,hl,?_⟩,?_,hold,?_,?_⟩
    · rw [hst.kept,himg.globals]
      rfl
    · rw [hself,himg.module]
      rfl
    · intro hs
      have ht := hst.task (hux.1 ▸ hs)
      exact ⟨ht.1.trans hux.1,ht.2.trans hux.2⟩
    · intro hz
      exact hst.zeroed (hux.2 ▸ hz)

inductive Stages (env : Env) (s t : Load) : Prop
  | early (e : Status) : loadImage env s=(.error e,t) → Early s t → Stages env s t
  | copying (e : Status) (l : Layout) (u v : Load) : loadSections env s=(.error e,t) →
      Laid env s l u v → Copied v.withTask t → Stages env s t
  | later (l : Layout) (v a b c : Load) : loadSections env s=(.ok (),a) → Loaded env s l v a →
      Patched env a b → Exported b c → Protected c t → Stages env s t

theorem loadSections_error {e : Status} (hb : s.module.Blank)
    (h : loadSections env s=(.error e,t)) :
    (loadImage env s=(.error e,t) ∧ Early s t) ∨
    ∃ l u v,Laid env s l u v ∧ Copied v.withTask t := by
  rcases bind_eq_error.mp h with h|⟨_,v,hv,h⟩
  · exact Or.inl ⟨h,loadImage_early hb h⟩
  obtain ⟨l,u,hlaid⟩ := loadImage_ok hv
  have htask := fillShim_sharedTask hlaid.filled
  right
  refine ⟨l,u,v,hlaid,?_⟩
  rcases bind_eq_error.mp h with h|⟨_,w,hw,h⟩
  · cases h
  rw [initCurrentTask_run htask] at hw
  cases hw
  rcases bind_eq_error.mp h with h|⟨_,x,_,h⟩
  · exact copySections_error (hlaid.withTask_sizes hb) h
  · cases h

theorem prepareModule_stages (env : Env) (hb : s.module.Blank) : Stages env s (prepareModule env s).2 := by
  rcases h : loadSections env s with ⟨r,a⟩
  cases r with
  | error e =>
    have hp : prepareModule env s=(.error e,a) := bind_error h
    rw [hp]
    rcases loadSections_error hb h with ⟨hi,he⟩|⟨l,u,v,hlaid,hc⟩
    · exact Stages.early e hi he
    · exact Stages.copying e l u v h hlaid hc
  | ok _ =>
    obtain ⟨l,v,hl⟩ := loadSections_ok hb h
    have hp : prepareModule env s=
        (applyRelocations env >>= fun _ => patchAndExport env >>= fun _ =>
          finalizeSectionProtections env) a := bind_ok h
    rw [hp]
    obtain ⟨x,h1,c,⟨b,h2,h3⟩,h4⟩ := Moves.stages
      (fun x => ⟨x,⟨x,Patched.refl env x,Exported.refl x⟩,Protected.refl x⟩)
      (applyRelocations_moves env) (fun _ => Moves.stages Protected.refl (patchAndExport_moves env)
        fun _ => finalize_moves env) a
    exact Stages.later l v a b c h hl (Patched.trans env _ _ _ h1 h2) h3 h4

end Kobox.Loader
