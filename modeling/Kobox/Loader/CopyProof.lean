import Kobox.Loader.LoadProof

namespace Kobox.Loader

open KbModule SamePlaces

/-- The plan of a record whose section addresses are not decided yet. -/
def KbModule.layoutPlan (m : KbModule) : Plan :=
  { m.plan with sections := fun i => { (m.sections i) with base := 0 } }

variable {m n : KbModule}

theorem layoutPlan_of_plan (h : n.plan=m.plan) : n.layoutPlan=m.layoutPlan := by
  have hs : n.sections=m.sections := congrArg Plan.sections h
  unfold layoutPlan
  rw [h,hs]

theorem SamePlaces.of_layoutPlan (h : n.layoutPlan=m.layoutPlan) : SamePlaces m n :=
  ⟨fun i => congrArg (fun p => (p.sections i).offset) h,
    fun i => congrArg (fun p => (p.sections i).size) h,congrArg Plan.shimRegionOffset h⟩

theorem withBase_layoutPlan {i : Nat} {m : KbModule} : (m.withBase i).layoutPlan=m.layoutPlan := by
  have hs : (fun j => ({ ((m.withBase i).sections j) with base := 0 } : LoadedSection))=
      fun j => { (m.sections j) with base := 0 } := by
    funext j
    by_cases hj : j=i
    · subst hj
      simp [withBase]
    · simp [withBase,Function.update_of_ne hj]
  unfold layoutPlan
  rw [hs]
  rfl

variable {sec : Section}

theorem copyContents_plan {i : Nat} {m : KbModule} : (m.copyContents i sec).plan=m.plan := by
  unfold copyContents
  split <;> rfl

theorem Stored.copy (i : Nat) (sec : Section) (h : (m.sections i).size=sec.size) :
    ∃ ws,Stored m (m.copyContents i sec) ws := by
  unfold copyContents
  split
  · exact ⟨[],Stored.refl m⟩
  refine ⟨[⟨i,0,sec.size⟩],rfl,?_,?_⟩
  · intro w hw
    rw [List.mem_singleton.mp hw]
    simp [KbModule.Holds,h]
  intro a _ hn
  have hc := hn _ (List.mem_singleton.mpr rfl)
  apply Bytes.copy_outside
  unfold KbModule.Covers at hc
  dsimp only at hc
  omega

theorem Stored.withBase {ws : List SectionWrite} (h : Stored m n ws) (i : Nat) :
    Stored m (n.withBase i) ws := ⟨h.writes,h.holds,h.image⟩

/-- A turn of the copy loop changes section addresses, recorded image writes, the per-CPU range. -/
structure Copied (s t : Load) : Prop where
  plan : t.module.layoutPlan=s.module.layoutPlan
  stored : ∃ ws,Stored s.module t.module ws
  stubs : t.module.stubs=s.module.stubs
  external : t.module.externalStubCount=s.module.externalStubCount
  globals : t.globals={ s.globals with gs := t.globals.gs }
  gs : ∀ a,a<s.module.percpuOffset ∨ s.module.percpuOffset+s.module.percpuSize≤a →
    t.globals.gs a=s.globals.gs a

theorem Copied.refl (s : Load) : Copied s s := ⟨rfl,⟨[],Stored.refl _⟩,rfl,rfl,rfl,fun _ _ => rfl⟩

theorem Copied.trans {a b c : Load} (h : Copied a b) (k : Copied b c) : Copied a c := by
  obtain ⟨us,hus⟩ := h.stored
  obtain ⟨ws,hws⟩ := k.stored
  have hoff : b.module.percpuOffset=a.module.percpuOffset := congrArg Plan.percpuOffset h.plan
  have hsize : b.module.percpuSize=a.module.percpuSize := congrArg Plan.percpuSize h.plan
  refine ⟨k.plan.trans h.plan,⟨us++ws,hus.trans hws (of_layoutPlan h.plan)⟩,
    k.stubs.trans h.stubs,k.external.trans h.external,?_,?_⟩
  · rw [k.globals,h.globals]
  · intro x hx
    rw [k.gs x (by rw [hoff,hsize]; exact hx)]
    exact h.gs x hx

theorem copyPercpu_globals {m : KbModule} {g : Globals} :
    g.copyPercpu m sec={ g with gs := (g.copyPercpu m sec).gs } := by
  unfold Globals.copyPercpu
  split <;> rfl

theorem copyPercpu_outside {m : KbModule} {g : Globals} {a : Nat}
    (h : a < m.percpuOffset ∨ m.percpuOffset+sec.size≤a) : (g.copyPercpu m sec).gs a=g.gs a := by
  unfold Globals.copyPercpu
  split
  · rfl
  · exact Bytes.copy_outside _ _ _ _ h

inductive CopyTurn (i : Nat) (s : Load) : Except Status Unit → Load → Prop
  | unreadable (e : Status) : (kbElfSection s.module.elf i).val=.error e → CopyTurn i s (.error e) s
  | skipped (sec : Section) : (kbElfSection s.module.elf i).val=.ok sec →
      Elf.shfAlloc sec.flags=false → CopyTurn i s (.ok ()) s
  | empty (sec : Section) : AllocAt s.module.elf i sec → (s.module.sections i).size=0 →
      CopyTurn i s (.ok ()) { s with module := s.module.withBase i }
  | outside (sec : Section) : AllocAt s.module.elf i sec → CopyTurn i s (.error .invalid) s
  | plain (sec : Section) : AllocAt s.module.elf i sec → (s.module.sections i).size≠0 →
      isPercpuSection sec=false →
      CopyTurn i s (.ok ()) { s with module := (s.module.copyContents i sec).withBase i }
  | misplaced (sec : Section) : AllocAt s.module.elf i sec →
      CopyTurn i s (.error .invalid) { s with module := s.module.copyContents i sec }
  | percpu (sec : Section) : AllocAt s.module.elf i sec → (s.module.sections i).size≠0 →
      isPercpuSection sec=true → s.module.percpuOffset≠0 → sec.size=s.module.percpuSize →
      CopyTurn i s (.ok ()) ⟨s.globals.copyPercpu s.module sec,
        (s.module.copyContents i sec).withBase i⟩

open CopyTurn

theorem copySection_turn (i : Nat) (s : Load) :
    CopyTurn i s (copySection i s).1 (copySection i s).2 := by
  unfold copySection
  split
  · next e he => exact unreadable e he
  next sec hsec =>
  dsimp only
  split
  · next ha => exact skipped sec hsec (by simpa using ha)
  next ha =>
  have hat : AllocAt s.module.elf i sec := ⟨hsec,by simpa using ha⟩
  split
  · next h0 => exact empty sec hat h0
  next h0 =>
  split
  · exact outside sec hat
  split
  · next hp => exact plain sec hat h0 (by simpa using hp)
  next hp =>
  split
  · exact misplaced sec hat
  · next hfit =>
    have hfit := not_or.mp hfit
    have hrest := not_or.mp hfit.2
    exact percpu sec hat h0 (by simpa using hp) hfit.1 (by simpa using hrest.1)

def SizesAgree (m : KbModule) : Prop :=
  ∀ i sec,AllocAt m.elf i sec → i < m.sectionCount → (m.sections i).size=sec.size

variable {s : Load} {i : Nat}

theorem copySection_copied (hsize : SizesAgree s.module) (hi : i<s.module.sectionCount) :
    Copied s (copySection i s).2 := by
  have hcopy : ∀ sec,AllocAt s.module.elf i sec → ∃ ws,
      Stored s.module (s.module.copyContents i sec) ws := fun sec hat =>
    Stored.copy i sec (hsize i sec hat hi)
  have hplan : ∀ sec,(s.module.copyContents i sec).layoutPlan=s.module.layoutPlan := fun sec =>
    layoutPlan_of_plan (copyContents_plan)
  have hstubs : ∀ sec,(s.module.copyContents i sec).stubs=s.module.stubs ∧
      (s.module.copyContents i sec).externalStubCount=s.module.externalStubCount := by
    intro sec
    unfold copyContents
    split <;> exact ⟨rfl,rfl⟩
  have hturn := copySection_turn i s
  generalize (copySection i s).1=r at hturn
  generalize (copySection i s).2=t at hturn
  cases hturn with
  | unreadable e he => exact Copied.refl s
  | skipped sec hsec ha => exact Copied.refl s
  | outside sec hat => exact Copied.refl s
  | empty sec hat h0 =>
    exact ⟨withBase_layoutPlan,⟨[],(Stored.refl _).withBase i⟩,rfl,rfl,rfl,
      fun _ _ => rfl⟩
  | plain sec hat h0 hp =>
    obtain ⟨ws,hws⟩ := hcopy sec hat
    exact ⟨(withBase_layoutPlan).trans (hplan sec),⟨ws,hws.withBase i⟩,(hstubs sec).1,
      (hstubs sec).2,rfl,fun _ _ => rfl⟩
  | misplaced sec hat =>
    exact ⟨hplan sec,hcopy sec hat,(hstubs sec).1,(hstubs sec).2,rfl,fun _ _ => rfl⟩
  | percpu sec hat h0 hp hoff heq =>
    obtain ⟨ws,hws⟩ := hcopy sec hat
    refine ⟨(withBase_layoutPlan).trans (hplan sec),⟨ws,hws.withBase i⟩,(hstubs sec).1,
      (hstubs sec).2,copyPercpu_globals,?_⟩
    intro a ha
    exact copyPercpu_outside (heq ▸ ha)

/-- The copy loop after i turns: the first i sections have their address, the others are as before. -/
structure CopiedUpTo (w : Load) (i : Nat) (t : Load) : Prop where
  copied : Copied w t
  based : ∀ j sec,j < i → AllocAt w.module.elf j sec →
    (t.module.sections j).base=(w.module.imageBase+(w.module.sections j).offset)%wordSize
  rest : ∀ j,(i≤j ∨ ∀ sec,¬AllocAt w.module.elf j sec) → t.module.sections j=w.module.sections j

theorem CopiedUpTo.start (w : Load) : CopiedUpTo w 0 w :=
  ⟨Copied.refl w,fun j sec hj => by omega,fun _ _ => rfl⟩

variable {t : Load}

theorem Copied.elf (h : Copied s t) : t.module.elf=s.module.elf := congrArg Plan.elf h.plan

theorem Copied.sizes (h : Copied s t) (hs : SizesAgree s.module) : SizesAgree t.module := by
  intro i sec hat hi
  have hcount : t.module.sectionCount=s.module.sectionCount := congrArg Plan.sectionCount h.plan
  rw [(of_layoutPlan h.plan).size i]
  exact hs i sec (h.elf ▸ hat) (hcount ▸ hi)

theorem copySection_sections (h : copySection i s=(.ok (),t)) :
    (∀ j,j≠i → t.module.sections j=s.module.sections j) ∧
    ((∀ sec,¬AllocAt s.module.elf i sec) → t.module.sections i=s.module.sections i) ∧
    (∀ sec,AllocAt s.module.elf i sec →
      (t.module.sections i).base=(s.module.imageBase+(s.module.sections i).offset)%wordSize) := by
  have hcopy : ∀ sec,(s.module.copyContents i sec).sections=s.module.sections ∧
      (s.module.copyContents i sec).imageBase=s.module.imageBase := by
    intro sec
    exact ⟨congrArg Plan.sections (copyContents_plan),
      congrArg Plan.imageBase (copyContents_plan)⟩
  have hbase : ∀ m : KbModule,m.sections=s.module.sections → m.imageBase=s.module.imageBase →
      (∀ j,j≠i → (m.withBase i).sections j=s.module.sections j) ∧
      ((m.withBase i).sections i).base=
        (s.module.imageBase+(s.module.sections i).offset)%wordSize := by
    intro m hm hb
    constructor
    · intro j hj
      simp [withBase,Function.update_of_ne hj,hm]
    · simp [withBase,hm,hb]
  have hturn := copySection_turn i s
  rw [h] at hturn
  generalize hr : (Except.ok () : Except Status Unit)=r at hturn
  cases hturn with
  | unreadable e he => cases hr
  | outside sec hat => cases hr
  | misplaced sec hat => cases hr
  | skipped sec hsec ha =>
    exact ⟨fun _ _ => rfl,fun _ => rfl,fun s' hs => absurd hs (not_allocAt hsec ha s')⟩
  | empty sec hat h0 =>
    have hb := hbase s.module rfl rfl
    exact ⟨hb.1,fun hn => absurd hat (hn sec),fun _ _ => hb.2⟩
  | plain sec hat h0 hp =>
    have hb := hbase _ (hcopy sec).1 (hcopy sec).2
    exact ⟨hb.1,fun hn => absurd hat (hn sec),fun _ _ => hb.2⟩
  | percpu sec hat h0 hp hoff heq =>
    have hb := hbase _ (hcopy sec).1 (hcopy sec).2
    exact ⟨hb.1,fun hn => absurd hat (hn sec),fun _ _ => hb.2⟩

variable {w : Load}

variable (hw : SizesAgree w.module)

include hw

theorem CopiedUpTo.step (hi : i<w.module.sectionCount) (hs : CopiedUpTo w i s)
    (h : copySection i s=(.ok (),t)) : CopiedUpTo w (i+1) t := by
  have helf := hs.copied.elf
  have hcount : s.module.sectionCount=w.module.sectionCount :=
    congrArg Plan.sectionCount hs.copied.plan
  have hbase : s.module.imageBase=w.module.imageBase := congrArg Plan.imageBase hs.copied.plan
  have hplace := of_layoutPlan hs.copied.plan
  have hc := copySection_copied (hs.copied.sizes hw) (hcount ▸ hi)
  rw [h] at hc
  obtain ⟨hother,hnone,hsome⟩ := copySection_sections h
  rw [helf] at hnone hsome
  refine ⟨hs.copied.trans hc,?_,?_⟩
  · intro j sec hj hat
    by_cases he : j=i
    · subst he
      rw [hsome sec hat,hbase,hplace.offset j]
    · rw [hother j he]
      exact hs.based j sec (by omega) hat
  · intro j hj
    by_cases he : j=i
    · subst he
      rcases hj with hj|hj
      · omega
      · rw [hnone hj]
        exact hs.rest j (Or.inr hj)
    · rw [hother j he]
      rcases hj with hj|hj
      · exact hs.rest j (Or.inl (by omega))
      · exact hs.rest j (Or.inr hj)

theorem copySections_ok (h : copySections w=(.ok (),t)) : CopiedUpTo w w.module.sectionCount t := by
  have hloop := Prog.loopFrom_ok (I := CopiedUpTo w) 0 w.module.sectionCount
    (fun j s u _ hj hs hb => hs.step hw (by omega) hb) (CopiedUpTo.start w) h
  rwa [Nat.zero_add] at hloop

theorem copySections_error {e : Status} (h : copySections w=(.error e,t)) : Copied w t := by
  obtain ⟨j,u,_,hj,hu,hbody⟩ := Prog.loopFrom_error (I := CopiedUpTo w) 0 w.module.sectionCount
    (fun j s u _ hj hs hb => hs.step hw (by omega) hb) (CopiedUpTo.start w) h
  have hcount : u.module.sectionCount=w.module.sectionCount :=
    congrArg Plan.sectionCount hu.copied.plan
  have hc := copySection_copied (i := j) (hu.copied.sizes hw) (by omega)
  rw [hbody] at hc
  exact hu.copied.trans hc

end Kobox.Loader
