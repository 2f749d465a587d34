import Kobox.Loader.Frames
import Kobox.Loader.LayoutProof

namespace Kobox.Loader

open Prog Staged Moves

variable {t s : Load} {sum : Nat}

theorem layoutStage_ok (h : layoutStage s=(.ok sum,t)) :
    ∃ l,layoutSections s.module.elf s.module.sectionCount (startLayout s)=(.ok (),l) ∧
      sum=l.imageSize ∧ t=s.withLayout l := by
  unfold layoutStage at h
  split at h
  · cases h
  · next l hl =>
    cases h
    exact ⟨l,hl,rfl,rfl⟩

variable {e : Status}

theorem layoutStage_error (h : layoutStage s=(.error e,t)) :
    ∃ l,layoutSections s.module.elf s.module.sectionCount (startLayout s)=(.error e,l) ∧
      t=s.withLayout l := by
  unfold layoutStage at h
  split at h
  · next l hl =>
    cases h
    exact ⟨l,hl,rfl⟩
  · cases h

structure Imaged (shimRegionOffset imageSize : Nat) (s t : Load) : Prop where
  base : t.module.imageBase≠0
  sized : imageSize≠0
  mapped : Mapped s.globals.process (alignUpU64 imageSize pageSize) t.module.imageBase
    t.globals.process
  module : t.module=s.module.withImage t.module.imageBase shimRegionOffset imageSize
  globals : t.globals={ s.globals with process := t.globals.process }

variable {env : Env} {fixed : Prop}

theorem mapImage_ok {shimRegionOffset imageSize : Nat}
    (h : mapImage env shimRegionOffset imageSize s=(.ok (),t)) :
    Imaged shimRegionOffset imageSize s t := by
  unfold mapImage at h
  dsimp only at h
  split at h
  · cases h
  next hbase =>
  have hsized : imageSize≠0 := by
    rintro rfl
    exact hbase rfl
  cases h
  exact ⟨hbase,hsized,allocMemory_mapped,rfl,rfl⟩

theorem mapImage_error {shimRegionOffset imageSize : Nat}
    (h : mapImage env shimRegionOffset imageSize s=(.error e,t)) :
    t.module=s.module ∧ t.globals={ s.globals with process := t.globals.process } ∧
      Grows s.globals.process t.globals.process := by
  unfold mapImage at h
  dsimp only at h
  split at h
  · cases h
    exact ⟨rfl,rfl,(allocMemory_mapped).grows⟩
  · cases h

theorem allocateImage_ok (h : allocateImage env sum s=(.ok (),t)) :
    sum≠0 ∧ Imaged (alignUpU64 sum pageSize)
      ((alignUpU64 sum pageSize+shimRegionSize)%wordSize) s t := by
  unfold allocateImage at h
  by_cases hsum : sum=0
  · rw [if_pos hsum] at h
    cases h
  · rw [if_neg hsum] at h
    exact ⟨hsum,mapImage_ok h⟩

theorem allocateImage_error (h : allocateImage env sum s=(.error e,t)) :
    t.module=s.module ∧ t.globals={ s.globals with process := t.globals.process } ∧
      Grows s.globals.process t.globals.process := by
  unfold allocateImage at h
  by_cases hsum : sum=0
  · rw [if_pos hsum] at h
    cases h
    exact ⟨rfl,rfl,Grows.refl _⟩
  · rw [if_neg hsum] at h
    exact mapImage_error h

theorem attachTask_moves (env : Env) : Moves (Shimmed fixed) (attachCurrentTask env) := by
  intro s
  have h1 := sharedTask_staged env s
  have h2 : Staged { s with globals := (sharedCurrentTask env s.globals).2 }
      { globals := (sharedCurrentTask env s.globals).2
        module := { s.module with currentTask := (sharedCurrentTask env s.globals).1 } } :=
    onModule rfl ⟨by simp,fun _ hw => absurd hw List.not_mem_nil,fun _ _ _ => rfl⟩
  have h := trans _ _ _ h1 h2
  unfold attachCurrentTask
  dsimp only
  split <;> exact ⟨h,rfl,fun _ => ⟨rfl,rfl⟩⟩

theorem Staged.shim (s : Load) (stores : List (Nat × List UInt8)) :
    Staged s (s.onModule (KbModule.storeShim stores)) :=
  onModule rfl (Stored.shim stores)

theorem Staged.gsWord (s : Load) (v : Nat) :
    Staged s (s.onGlobals fun g => { g with gs := g.gs.put 0 (le64 v) }) := by
  refine ⟨rfl,rfl,Grows.refl _,Stored.refl _,?_,fun _ => ⟨rfl,rfl⟩,id⟩
  intro a ha
  exact Bytes.put_outside s.globals.gs 0 (le64 v) a (Or.inr (by simpa [le64] using ha))

theorem writeShimData_moves (env : Env) : Moves (Shimmed fixed) (writeShimData env) := by
  intro s
  refine ⟨trans _ _ _ (gsWord s env.kernelGs) ?_,rfl,fun _ => ⟨rfl,rfl⟩⟩
  exact shim (s.onGlobals fun g => { g with gs := g.gs.put 0 (le64 env.kernelGs) })
    (shimDataStores env s.module)

theorem Shimmed.stub (s : Load) (kind : StubKind) (off : Nat) (code : List UInt8) :
    Shimmed False s (s.onModule (KbModule.emitStub kind off code)) :=
  ⟨onModule rfl (Stored.stub kind off code),rfl,False.elim⟩

theorem emitSymbolStub_moves (env : Env) (i : Nat) :
    Moves (Shimmed False) (emitSymbolStub env i) := by
  unfold emitSymbolStub
  split
  · exact fail Shimmed.refl _
  · exact modify fun s => Shimmed.stub s _ _ _

theorem emitSymbolStubs_moves (env : Env) : Moves (Shimmed False) (emitSymbolStubs env) := by
  unfold emitSymbolStubs
  split
  · exact fail Shimmed.refl _
  · exact loopFrom Shimmed.refl Shimmed.trans (emitSymbolStub_moves env) _ _

theorem bindStubs_moves (env : Env) : Moves (Shimmed fixed) (bindNamedShimStubs env) := by
  intro s
  have h : Staged s (s.onModule fun m =>
      { m with namedStubs := namedShimSymbols.map (moduleShimStubByName env s.module) }) :=
    onModule rfl ⟨by simp,fun _ hw => absurd hw List.not_mem_nil,fun _ _ _ => rfl⟩
  unfold bindNamedShimStubs
  dsimp only
  split <;> exact ⟨h,rfl,fun _ => ⟨rfl,rfl⟩⟩

theorem emitUsbStub_moves {env : Env} :
    Moves (Shimmed False) (emitUsbControlMsgStub env) := fun s => Shimmed.stub s _ _ _

theorem writePvOps_moves (env : Env) : Moves (Shimmed fixed) (writePvOps env) := by
  refine bind Shimmed.trans (lookup_shimmed fixed env (by decide)) fun _ => ?_
  refine bind Shimmed.trans (lookup_shimmed fixed env (by decide)) fun _ => ?_
  refine bind Shimmed.trans (lookup_shimmed fixed env (by decide)) fun _ => ?_
  refine bind Shimmed.trans (lookup_shimmed fixed env (by decide)) fun _ => ?_
  refine bind Shimmed.trans (lookup_shimmed fixed env (by decide)) fun _ => ?_
  refine bind Shimmed.trans (lookup_shimmed fixed env (by decide)) fun _ => ?_
  exact modify fun s => ⟨shim s _,rfl,fun _ => ⟨rfl,rfl⟩⟩

theorem writeShim_moves (env : Env) : Moves (Shimmed False) (writeShim env) := by
  refine bind Shimmed.trans (writeShimData_moves env) fun _ => ?_
  refine bind Shimmed.trans (emitSymbolStubs_moves env) fun _ => ?_
  refine bind Shimmed.trans (bindStubs_moves env) fun _ => ?_
  refine bind Shimmed.trans (emitUsbStub_moves) fun _ => ?_
  exact writePvOps_moves env

theorem fillShim_moves (env : Env) : Moves (Shimmed False) (fillShim env) :=
  bind Shimmed.trans (attachTask_moves env) fun _ => writeShim_moves env

/-- A load that got as far as the task: layout l, image mapped in u, shim filled in t. -/
structure Laid (env : Env) (s : Load) (l : Layout) (u t : Load) : Prop where
  layout : layoutSections s.module.elf s.module.sectionCount (startLayout s)=(.ok (),l)
  nonzero : l.imageSize≠0
  imaged : Imaged (alignUpU64 l.imageSize pageSize)
    ((alignUpU64 l.imageSize pageSize+shimRegionSize)%wordSize) (s.withLayout l) u
  filled : fillShim env u=(.ok (),t)
  ran : loadImage env s=(.ok (),t)

theorem loadImage_ok (h : loadImage env s=(.ok (),t)) : ∃ l u,Laid env s l u t := by
  obtain ⟨sum,v,hv,hrest⟩ := bind_eq_ok.mp h
  obtain ⟨_,u,hu,hfill⟩ := bind_eq_ok.mp hrest
  obtain ⟨l,hl,rfl,rfl⟩ := layoutStage_ok hv
  obtain ⟨hne,himg⟩ := allocateImage_ok hu
  exact ⟨l,u,hl,hne,himg,hfill,h⟩

variable {u : Load} {l : Layout}

theorem Laid.staged (h : Laid env s l u t) : Staged u t := by
  have hm := fillShim_moves env u
  rw [h.filled] at hm
  exact hm.staged

theorem Imaged.plan {shim size : Nat} (h : Imaged shim size s t) :
    t.module.plan={ s.module.plan with
      imageBase := t.module.imageBase
      imageSize := size
      shimRegionOffset := shim
      protection := fun _ => .readWrite } := by
  conv_lhs => rw [h.module]
  rfl

theorem Laid.plan (h : Laid env s l u t) : t.module.plan={ s.module.plan with
      imageBase := u.module.imageBase
      imageSize := (alignUpU64 l.imageSize pageSize+shimRegionSize)%wordSize
      shimRegionOffset := alignUpU64 l.imageSize pageSize
      sections := l.sections
      percpuOffset := l.percpuOffset
      percpuSize := l.percpuSize
      protection := fun _ => .readWrite } := by
  rw [h.staged.plan,h.imaged.plan]
  rfl

theorem Laid.kept (h : Laid env s l u t) :
    t.globals.kept={ s.globals.kept with percpuNext := l.percpuNext } := by
  rw [h.staged.kept,h.imaged.globals]
  rfl

theorem fillShim_sharedTask (h : fillShim env u=(.ok (),t)) : t.globals.sharedTask≠0 := by
  obtain ⟨_,v,hv,h⟩ := bind_eq_ok.mp h
  have hne : v.globals.sharedTask≠0 := by
    unfold attachCurrentTask at hv
    dsimp only at hv
    split at hv
    · cases hv
    · next hne =>
      cases hv
      exact hne
  have hs := (writeShim_moves env v).staged.task hne
  rw [h] at hs
  rw [hs.1]
  exact hne

theorem sharedTask_of_ne {g : Globals} (h : g.sharedTask≠0) :
    sharedCurrentTask env g=(g.sharedTask,g) := by
  simp [sharedCurrentTask,sharedMapping,h]

/-- Task published for the GS area once the shared task exists. -/
def Globals.publishedTask (g : Globals) : Nat :=
  if g.published=0 then g.sharedTask else g.published

theorem currentTask_of_ne {g : Globals} (h : g.sharedTask≠0) :
    kbLoaderCurrentTask env g=(g.publishedTask,{ g with published := g.publishedTask }) := by
  unfold kbLoaderCurrentTask Globals.publishedTask
  split
  · rw [sharedTask_of_ne h]
  · rfl

theorem initCurrentTask_globals (hs : s.globals.sharedTask≠0) (h : initCurrentTask env s=(.ok (),t)) :
    t.globals={ s.globals with
      published := s.globals.publishedTask
      gs := s.globals.gs.putAll 0 (gsSlotStores s.globals.publishedTask)
      task := s.globals.task.putAll 0 (taskStores s.module) } ∧
    t.module=s.module.storeShim (taskShimStores s.module) := by
  unfold initCurrentTask at h
  rw [modify_run,currentTask_of_ne hs] at h
  cases h
  exact ⟨rfl,rfl⟩

end Kobox.Loader
