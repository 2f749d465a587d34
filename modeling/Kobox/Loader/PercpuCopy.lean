import Kobox.Loader.Percpu

namespace Kobox.Loader

open Elf Plan Globals Prog Option Env SamePlaces

def gsAtCopy (env : Env) (s : Load) : Bytes :=
  (initCurrentTask env (loadImage env s).2).2.globals.gs

def relocatedLoad (env : Env) (s : Load) : Load := (applyRelocations env (loadSections env s).2).2

/-- Byte k of the per-CPU range behind the copy pass: the file's, or the one that was there. -/
def percpuSource (env : Env) (s : Load) (sec : Section) (off k : Nat) : UInt8 :=
  if sec.type=Elf.shtNobits then gsAtCopy env s (off+k) else s.module.elf.data (sec.offset+k)

def OnlyPercpu (f : ElfFile) (i : Nat) (sec : Section) : Prop :=
  AllocAt f i sec ∧ isPercpuSection sec=true ∧
    ∀ j x,AllocAt f j x → isPercpuSection x=true → j=i

/-- Of the sections laid out so far one at most is per-CPU, and none while there is no offset. -/
structure LonePercpu (f : ElfFile) (next k : Nat) (l : Layout) : Prop where
  unplaced : l.percpuOffset=0 → l.percpuNext=next ∧
    ∀ i sec,i<k → AllocAt f i sec → isPercpuSection sec=false
  lone : ∀ i j x y,i<k → j<k → AllocAt f i x → AllocAt f j y → isPercpuSection x=true →
    isPercpuSection y=true → i=j

theorem LonePercpu.step {f : ElfFile} {next k : Nat} {l t : Layout} (hnext : 0<next)
    (hc : NoCarry f next) (hl : LonePercpu f next k l) (h : layoutSection f k l=(.ok (),t)) :
    LonePercpu f next (k+1) t := by
  obtain ⟨sec,hsec,hcase⟩ := layoutSection_ok h
  -- a turn that is not of a per-CPU section
  have hkeep : t.percpuOffset=l.percpuOffset → t.percpuNext=l.percpuNext →
      (∀ x,AllocAt f k x → isPercpuSection x=false) → LonePercpu f next (k+1) t := by
    intro hoff hn hno
    have hbelow : ∀ i x,i<k+1 → AllocAt f i x → isPercpuSection x=true → i<k := by
      intro i x hi hx hp
      by_contra hge
      obtain rfl : i=k := by omega
      rw [hno x hx] at hp
      cases hp
    refine ⟨fun h0 => ?_,fun i j x y hi hj hx hy hpx hpy =>
      hl.lone i j x y (hbelow i x hi hx hpx) (hbelow j y hj hy hpy) hx hy hpx hpy⟩
    obtain ⟨h1,h2⟩ := hl.unplaced (hoff ▸ h0)
    refine ⟨hn.trans h1,fun i x hi hx => ?_⟩
    by_contra hp
    rw [Bool.not_eq_false] at hp
    rw [h2 i x (hbelow i x hi hx hp) hx] at hp
    cases hp
  rcases hcase with ⟨hna,rfl⟩|⟨ha,_,hturn⟩
  · exact hkeep rfl rfl fun x hx => absurd hx (not_allocAt hsec hna x)
  unfold PercpuTurn at hturn
  split at hturn
  · next hp =>
    obtain ⟨h0,hoff,-⟩ := hturn
    obtain ⟨hn,hnone⟩ := hl.unplaced h0
    have hplace := le_percpuPlace (hc k sec ⟨hsec,ha⟩ hp)
    have hlast : ∀ i x,i<k+1 → AllocAt f i x → isPercpuSection x=true → i=k := by
      intro i x hi hx hpx
      by_contra hne
      rw [hnone i x (by omega) hx] at hpx
      cases hpx
    refine ⟨fun hz => ?_,fun i j x y hi hj hx hy hpx hpy =>
      (hlast i x hi hx hpx).trans (hlast j y hj hy hpy).symm⟩
    rw [hoff,hn] at hz
    omega
  · next hp =>
    refine hkeep hturn.1 hturn.2.2 fun x hx => ?_
    rw [hx.unique ⟨hsec,ha⟩]
    exact Bool.not_eq_true _ ▸ hp

section

variable {w s t : Load} {i j : Nat} {sec : Section}

/-- The GS area after j turns of the copy loop: untouched up to the per-CPU section. -/
structure GsUpTo (w : Load) (i : Nat) (sec : Section) (j : Nat) (t : Load) : Prop where
  copied : CopiedUpTo w j t
  gs : t.globals.gs=if i<j ∧ sec.size≠0 then (w.globals.copyPercpu w.module sec).gs
    else w.globals.gs
  size : i<j → sec.size≠0 → w.module.percpuSize=sec.size

theorem copyPercpu_plan {m n : KbModule} (hp : n.layoutPlan=m.layoutPlan) {sec : Section}
    {g h : Globals} (hg : h.gs=g.gs) : (h.copyPercpu n sec).gs=(g.copyPercpu m sec).gs := by
  have hoff : n.percpuOffset=m.percpuOffset := congrArg percpuOffset hp
  have helf : n.elf=m.elf := congrArg elf hp
  unfold copyPercpu
  rw [hoff,helf]
  split
  · exact hg
  · rw [hg]

/-- A turn of the copy loop, seen from the load before it: nothing of a section's contents moves,
or the turn is that of a section with contents. -/
theorem CopiedUpTo.turn (hw : SizesAgree w.module) (hj : j<w.module.sectionCount)
    (hs : CopiedUpTo w j s) (h : copySection j s=(.ok (),t)) :
    (t.module.image=s.module.image ∧ t.globals.gs=s.globals.gs ∧
      ∀ x,AllocAt w.module.elf j x → x.size=0) ∨
    ∃ x,AllocAt w.module.elf j x ∧ x.size≠0 ∧ t.module.image=(s.module.copyContents j x).image ∧
      if isPercpuSection x then t.globals.gs=(s.globals.copyPercpu s.module x).gs ∧
        w.module.percpuSize=x.size
      else t.globals.gs=s.globals.gs := by
  have helf := hs.copied.elf
  have hcount : s.module.sectionCount=w.module.sectionCount := congrArg sectionCount hs.copied.plan
  have hpsize : s.module.percpuSize=w.module.percpuSize := congrArg percpuSize hs.copied.plan
  have hsizes := fun x hx => hs.copied.sizes hw j x hx (hcount ▸ hj)
  have hturn := copySection_turn j s
  rw [h] at hturn
  generalize hr : (Except.ok () : Except Status Unit)=r at hturn
  cases hturn with
  | unreadable e he => cases hr
  | outside x hat => cases hr
  | misplaced x hat => cases hr
  | skipped x hsec ha =>
    rw [helf] at hsec
    exact Or.inl ⟨rfl,rfl,fun y hy => absurd hy (not_allocAt hsec ha y)⟩
  | empty x hat h0 =>
    rw [hsizes x hat] at h0
    rw [helf] at hat
    exact Or.inl ⟨rfl,rfl,fun y hy => hy.unique hat ▸ h0⟩
  | plain x hat h0 hp =>
    rw [hsizes x hat] at h0
    exact Or.inr ⟨x,helf ▸ hat,h0,rfl,by simp [hp]⟩
  | percpu x hat h0 hp hoff heq =>
    rw [hsizes x hat] at h0
    exact Or.inr ⟨x,helf ▸ hat,h0,rfl,by simp [hp,heq,hpsize]⟩

theorem GsUpTo.step (ho : OnlyPercpu w.module.elf i sec) (hw : SizesAgree w.module)
    (hj : j<w.module.sectionCount) (hs : GsUpTo w i sec j s)
    (h : copySection j s=(.ok (),t)) : GsUpTo w i sec (j+1) t := by
  have hcopied := hs.copied.step hw hj h
  -- A turn that leaves the GS area alone is not that of the section, unless it is empty.
  have hkeep : t.globals.gs=s.globals.gs → (j=i → sec.size=0) → GsUpTo w i sec (j+1) t := by
    intro hg he
    have hiff : (i<j+1 ∧ sec.size≠0) ↔ (i<j ∧ sec.size≠0) := by
      constructor
      · rintro ⟨hlt,hne⟩
        exact ⟨by by_contra hge; exact hne (he (by omega)),hne⟩
      · rintro ⟨hlt,hne⟩
        exact ⟨by omega,hne⟩
    refine ⟨hcopied,?_,fun hlt hne => hs.size (hiff.mp ⟨hlt,hne⟩).1 hne⟩
    rw [hg,hs.gs]
    simp only [hiff]
  rcases hs.copied.turn hw hj h with ⟨-,hg,hempty⟩|⟨x,hat,hne,-,hg⟩
  · exact hkeep hg fun he => hempty sec (he ▸ ho.1)
  split at hg
  · next hp =>
    obtain rfl := ho.2.2 j x hat hp
    obtain rfl := hat.unique ho.1
    refine ⟨hcopied,?_,fun _ _ => hg.2⟩
    rw [if_pos ⟨by omega,hne⟩,hg.1]
    have hgs := hs.gs
    rw [if_neg (by omega)] at hgs
    exact copyPercpu_plan hs.copied.copied.plan hgs
  · next hp =>
    refine hkeep hg fun he => ?_
    subst he
    rw [hat.unique ho.1] at hp
    exact absurd ho.2.1 hp

theorem copySections_gs (ho : OnlyPercpu w.module.elf i sec) (hw : SizesAgree w.module)
    (hi : i<w.module.sectionCount) (h : copySections w=(.ok (),t)) :
    (sec.size≠0 → t.module.percpuSize=sec.size) ∧
    ∀ k,k<sec.size → t.globals.gs (w.module.percpuOffset+k)=
      if sec.type=Elf.shtNobits then w.globals.gs (w.module.percpuOffset+k)
      else w.module.elf.data (sec.offset+k) := by
  have hloop := loopFrom_ok (I := GsUpTo w i sec) 0 w.module.sectionCount
    (fun j s u _ hj hs hb => hs.step ho hw (by omega) hb)
    ⟨CopiedUpTo.start w,by rw [if_neg (by omega)],fun hlt => by omega⟩ h
  rw [Nat.zero_add] at hloop
  have hpsize : t.module.percpuSize=w.module.percpuSize :=
    congrArg percpuSize hloop.copied.copied.plan
  refine ⟨fun hne => hpsize.trans (hloop.size hi hne),?_⟩
  intro k hk
  rw [hloop.gs,if_pos ⟨hi,by omega⟩]
  unfold copyPercpu
  split
  · rfl
  · exact Bytes.copy_inside _ _ _ _ _ k hk

/-- The image bytes of section i after j turns of the copy loop. -/
structure BytesUpTo (w : Load) (i : Nat) (sec : Section) (j : Nat) (t : Load) : Prop where
  copied : CopiedUpTo w j t
  image : ∀ k,k<sec.size → t.module.image ((w.module.sections i).offset+k)=
    if i<j ∧ sec.type≠Elf.shtNobits then w.module.elf.data (sec.offset+k)
    else w.module.image ((w.module.sections i).offset+k)

theorem KbModule.Placed.apart {m : KbModule} (h : m.Placed) {x : Section} (hs : AllocAt m.elf i sec)
    (hx : AllocAt m.elf j x) (hne : i≠j) (hs0 : sec.size≠0) (hx0 : x.size≠0) :
    (m.sections i).offset+sec.size≤(m.sections j).offset ∨
      (m.sections j).offset+x.size≤(m.sections i).offset := by
  have his := loadedSize_of hs
  have hjx := loadedSize_of hx
  rcases Nat.lt_or_ge i j with hlt|hge
  · have hap := (h j hx.lt (by rw [hjx]; exact hx0)).2.2 i hlt (by rw [his]; exact hs0)
    rw [his,hjx] at hap
    exact hap.symm
  · have hap := (h i hs.lt (by rw [his]; exact hs0)).2.2 j (by omega) (by rw [hjx]; exact hx0)
    rw [his,hjx] at hap
    exact hap

theorem BytesUpTo.step (hat : AllocAt w.module.elf i sec) (hpl : w.module.Placed)
    (hw : SizesAgree w.module) (hj : j<w.module.sectionCount) (hs : BytesUpTo w i sec j s)
    (h : copySection j s=(.ok (),t)) : BytesUpTo w i sec (j+1) t := by
  have hcopied := hs.copied.step hw hj h
  have hplace := of_layoutPlan hs.copied.copied.plan
  -- A turn of another section leaves the bytes alone, whatever it copies.
  have hkeep : (∀ k,k<sec.size → t.module.image ((w.module.sections i).offset+k)=
      s.module.image ((w.module.sections i).offset+k)) → (j=i → sec.type=shtNobits ∨ sec.size=0) →
      BytesUpTo w i sec (j+1) t := by
    intro himg he
    refine ⟨hcopied,?_⟩
    intro k hk
    have hiff : (i<j+1 ∧ sec.type≠shtNobits) ↔ (i<j ∧ sec.type≠shtNobits) := by
      constructor
      · rintro ⟨hlt,hne⟩
        by_contra hge
        rcases he (by omega) with h1|h1
        · exact hne h1
        · omega
      · rintro ⟨hlt,hne⟩
        exact ⟨by omega,hne⟩
    rw [himg k hk,hs.image k hk]
    simp only [hiff]
  rcases hs.copied.turn hw hj h with ⟨himg,-,hempty⟩|⟨x,hx,hx0,himg,-⟩
  · exact hkeep (fun k _ => by rw [himg]) fun he => Or.inr (hempty sec (he ▸ hat))
  by_cases hji : j=i
  · subst hji
    have hxs := hx.unique hat
    subst hxs
    by_cases hn : x.type=shtNobits
    · refine hkeep (fun k _ => ?_) fun _ => Or.inl hn
      rw [himg,KbModule.copyContents,if_pos hn]
    refine ⟨hcopied,?_⟩
    intro k hk
    rw [if_pos ⟨by omega,hn⟩,himg,KbModule.copyContents,if_neg hn]
    rw [hplace.offset j,hs.copied.copied.elf]
    exact Bytes.copy_inside _ _ _ _ _ k hk
  · refine hkeep ?_ fun he => absurd he hji
    intro k hk
    rw [himg]
    unfold KbModule.copyContents
    split
    · rfl
    have hap := hpl.apart hat hx (fun he => hji he.symm) (by omega) hx0
    apply Bytes.copy_outside
    rw [hplace.offset j]
    omega

theorem copySections_image (hat : AllocAt w.module.elf i sec) (hpl : w.module.Placed)
    (hw : SizesAgree w.module) (hi : i<w.module.sectionCount) (h : copySections w=(.ok (),t)) :
    ∀ k,k<sec.size → t.module.image ((w.module.sections i).offset+k)=
      if sec.type=Elf.shtNobits then w.module.image ((w.module.sections i).offset+k)
      else w.module.elf.data (sec.offset+k) := by
  have hloop := loopFrom_ok (I := BytesUpTo w i sec) 0 w.module.sectionCount
    (fun j s u _ hj hs hb => hs.step hat hpl hw (by omega) hb)
    ⟨CopiedUpTo.start w,fun k _ => by rw [if_neg (by omega)]⟩ h
  rw [Nat.zero_add] at hloop
  intro k hk
  rw [hloop.image k hk]
  by_cases hn : sec.type=shtNobits
  · rw [if_neg (fun hc => hc.2 hn),if_pos hn]
  · rw [if_pos ⟨hi,hn⟩,if_neg hn]

theorem Patched.untargeted {env : Env} {P : Nat → Prop} (hp : Patched env s t)
    (ha : Aimed P s t) (hP : ¬P i) (hpl : s.module.Placed) (hw : SizesAgree s.module)
    (hcount : s.module.sectionCount=s.module.elf.sectionCount)
    (hzero : ∀ j,(∀ x,¬AllocAt s.module.elf j x) → (s.module.sections j).size=0)
    (hat : AllocAt s.module.elf i sec) :
    ∀ k,k<sec.size → t.module.image ((s.module.sections i).offset+k)=
      s.module.image ((s.module.sections i).offset+k) := by
  obtain ⟨ws,hws⟩ := hp.stored
  obtain ⟨_,us,hus,hu⟩ := ha
  have he : ws=us := List.append_cancel_left (hws.writes.symm.trans hus)
  subst he
  intro k hk
  have hbelow := (hpl i hat.lt (by rw [loadedSize_of hat]; omega)).1
  rw [loadedSize_of hat] at hbelow
  apply hws.image
  · dsimp only at hbelow
    omega
  intro x hx hcov
  have hhold := hws.holds x hx
  have hne : i≠x.index := fun h => hP (h ▸ hu x hx)
  unfold KbModule.Holds at hhold
  unfold KbModule.Covers at hcov
  by_cases halloc : ∃ y,AllocAt s.module.elf x.index y
  · obtain ⟨y,hy⟩ := halloc
    rw [hw x.index y hy (by rw [hcount]; exact hy.lt)] at hhold
    have hap := hpl.apart hat hy hne (by omega) (by omega)
    omega
  · have h0 := hzero x.index fun y hy => halloc ⟨y,hy⟩
    omega

end

/-- The GS copy holds the relocated contents of section i. -/
def PercpuRelocated (env : Env) (s : Load) (i : Nat) (sec : Section) (h : Globals) : Prop :=
  ∀ k,k<sec.size → h.gs ((prepareModule env s).2.module.percpuOffset+k)=
    (relocatedLoad env s).module.image (((relocatedLoad env s).module.sections i).offset+k)

instance (env : Env) (s : Load) (i : Nat) (sec : Section) (h : Globals) :
    Decidable (PercpuRelocated env s i sec h) :=
  inferInstanceAs (Decidable (∀ k,k<sec.size → _))

section

variable {env : Env} {s t a b : Load} {i : Nat} {sec : Section}

theorem Laid.gsAtCopy {l : Layout} {u v : Load} (h : Laid env s l u v) :
    gsAtCopy env s=v.withTask.globals.gs := by
  unfold Kobox.Loader.gsAtCopy
  rw [h.ran,initCurrentTask_run (fillShim_sharedTask h.filled)]

theorem prepareModule_gs (ha : loadSections env s=(.ok (),a)) (hb : applyRelocations env a=(.ok (),b))
    (ht : prepareModule env s=(.ok (),t)) :
    t.globals.gs=a.globals.gs ∧ t.module.percpuOffset=a.module.percpuOffset ∧
      t.module.percpuSize=a.module.percpuSize := by
  obtain ⟨_,a',ha',h⟩ := bind_eq_ok.mp ht
  rw [ha] at ha'
  cases ha'
  obtain ⟨_,b',hb',h⟩ := bind_eq_ok.mp h
  rw [hb] at hb'
  cases hb'
  obtain ⟨_,c,hc,h⟩ := bind_eq_ok.mp h
  have h1 := applyRelocations_moves env a
  rw [hb] at h1
  obtain ⟨x,h2,h3⟩ := patchAndExport_moves env b
  rw [hc] at h3
  have h4 := finalize_moves env c
  rw [h] at h4
  have hp := Patched.trans env _ _ _ h1 h2
  have hplan := h3.plan.trans hp.plan
  refine ⟨?_,?_,?_⟩
  · rw [h4.globals,h3.globals]
    exact congrArg Steady.gs hp.steady
  · rw [h4.module]
    exact congrArg percpuOffset hplan
  · rw [h4.module]
    exact congrArg percpuSize hplan

theorem loadSections_percpu (hb : s.module.Blank) (ha : loadSections env s=(.ok (),a))
    (ho : OnlyPercpu s.module.elf i sec) :
    (sec.size≠0 → a.module.percpuSize=sec.size) ∧
    ∀ k,k<sec.size → a.globals.gs (a.module.percpuOffset+k)=
      percpuSource env s sec a.module.percpuOffset k := by
  obtain ⟨l,u,v,x,hl,hx,hc,rfl⟩ := loadSections_run hb ha
  have hplan := (withTask_plan v).trans hl.plan
  have helf : v.withTask.module.elf=s.module.elf := congrArg elf hplan
  have hcount : v.withTask.module.sectionCount=s.module.sectionCount := congrArg sectionCount hplan
  have hi : i<v.withTask.module.sectionCount := by
    rw [hcount,hb.count]
    exact ho.1.lt
  obtain ⟨hsize,hgs⟩ := copySections_gs (helf.symm ▸ ho) (hl.withTask_sizes hb) hi hx
  have hoff : x.module.percpuOffset=v.withTask.module.percpuOffset :=
    congrArg percpuOffset hc.copied.plan
  refine ⟨hsize,?_⟩
  intro k hk
  rw [(captured_frame x.globals).2.2.2.2.2.2,hoff,hgs k hk,percpuSource,hl.gsAtCopy,helf]

theorem untargeted_contents (hb : s.module.Blank) (ha : loadSections env s=(.ok (),a))
    (hspread : Spread s.module.elf) (hat : AllocAt s.module.elf i sec)
    (hno : ¬Targeted s.module.elf i) :
    ∀ k,k<sec.size →
      (applyRelocations env a).2.module.image (((applyRelocations env a).2.module.sections i).offset+k)=
      if sec.type=Elf.shtNobits then 0 else s.module.elf.data (sec.offset+k) := by
  obtain ⟨l',v',hloaded⟩ := loadSections_ok hb ha
  have hpl := (hloaded.placed_iff hb).mpr hspread
  obtain ⟨l,u,v,x,hl,hx,hc,rfl⟩ := loadSections_run hb ha
  have hplan := (withTask_plan v).trans hl.plan
  have helf : v.withTask.module.elf=s.module.elf := congrArg elf hplan
  have hxplan := hc.copied.plan
  have hxelf : x.module.elf=s.module.elf := hc.copied.elf.trans helf
  have hxcount : x.module.sectionCount=x.module.elf.sectionCount := by
    have h1 : x.module.sectionCount=v.withTask.module.sectionCount := congrArg sectionCount hxplan
    have h2 : v.withTask.module.sectionCount=s.module.sectionCount := congrArg sectionCount hplan
    rw [h1,h2,hb.count,hxelf]
  have hplaces := of_layoutPlan hxplan
  have hwpl : v.withTask.module.Placed := by
    have hoff : (fun i => (v.withTask.module.sections i).offset)=
        fun i => (x.module.sections i).offset := funext fun i => (hplaces.offset i).symm
    have himg : x.module.imageSize=v.withTask.module.imageSize := congrArg imageSize hxplan
    unfold KbModule.Placed at hpl ⊢
    rw [hoff,← hc.copied.elf,← hplaces.shim,← himg]
    exact hpl
  have hsizes := hl.withTask_sizes hb
  have hmove := applyRelocations_moves env { x with globals := x.globals.captured }
  have haim := applyRelocations_aimed env { x with globals := x.globals.captured }
  have hatx : AllocAt x.module.elf i sec := by rwa [hxelf]
  have hkeep := hmove.untargeted haim (i := i) (by change ¬Targeted x.module.elf i; rwa [hxelf]) hpl
    (hc.copied.sizes hsizes) hxcount ?_ hatx
  swap
  · intro j hj
    rw [hxelf] at hj
    have h0 := hloaded.rest j hj
    rw [h0]
    rfl
  have himage := copySections_image (helf.symm ▸ hat) hwpl hsizes (by
    have h1 := hat.lt
    have h2 : v.withTask.module.sectionCount=s.module.sectionCount := congrArg sectionCount hplan
    rw [h2,hb.count]
    exact h1) hx
  have hsec : (applyRelocations env { x with globals := x.globals.captured }).2.module.sections=
      x.module.sections := congrArg sections hmove.plan
  intro k hk
  rw [hsec,hkeep k hk]
  rw [hplaces.offset i,himage k hk,helf]
  split
  · have hbelow := (hwpl i (by rw [helf]; exact hat.lt) (by
      rw [helf,loadedSize_of hat]
      omega)).1
    rw [helf,loadedSize_of hat] at hbelow
    have hstored := (hl.staged.stored.trans (withTask_stored) (of_plan hl.staged.plan))
    have hshim : v.withTask.module.shimRegionOffset=u.module.shimRegionOffset :=
      (congrArg shimRegionOffset (withTask_plan v)).trans (congrArg shimRegionOffset hl.staged.plan)
    have hz := hstored.image ((v.withTask.module.sections i).offset+k) (by
      dsimp only at hbelow
      omega) (by simp)
    rw [hz,hl.imaged.module]
    rfl
  · rfl

theorem loadSections_lone (hb : s.module.Blank) (ha : loadSections env s=(.ok (),a))
    (hnext : 0<s.globals.percpuNext) (hc : NoCarry s.module.elf s.globals.percpuNext)
    (hat : AllocAt s.module.elf i sec) (hp : isPercpuSection sec=true) :
    OnlyPercpu s.module.elf i sec := by
  obtain ⟨l,u,v,x,hl,-,-,-⟩ := loadSections_run hb ha
  have hlone := loopFrom_ok (I := LonePercpu s.module.elf s.globals.percpuNext) 0
    s.module.sectionCount (fun j s u _ _ hs h => hs.step hnext hc h)
    ⟨fun _ => ⟨rfl,fun i x hi => by omega⟩,fun i j x y hi => by omega⟩ hl.layout
  rw [Nat.zero_add,hb.count] at hlone
  exact ⟨hat,hp,fun j x hx hpx => hlone.lone j i x sec hx.lt hat.lt hx hat hpx hp⟩

end

/-- After an open the GS copy is the relocated section if no relocation is for it, the sections are
laid out apart, and for one without file contents its part of the GS area was zero. -/
theorem percpu_relocated (env : Env) (image : ModuleImage) (backend : Nat) (g : Globals)
    (hnext : 0<g.percpuNext) {s : Load} {self : Nat} (hload : openLoad env image backend g=some s)
    (hopen : (kbModuleOpenImage env image backend g).1=.ok self)
    (hc : NoCarry s.module.elf g.percpuNext) {i : Nat} {sec : Section}
    (hat : AllocAt s.module.elf i sec) (hp : isPercpuSection sec=true) (hne : sec.size≠0)
    (hno : ¬Targeted s.module.elf i) (hspread : Spread s.module.elf)
    (hzero : sec.type=Elf.shtNobits → ∀ k,k<sec.size →
      gsAtCopy env s ((prepareModule env s).2.module.percpuOffset+k)=0) :
    (prepareModule env s).2.module.percpuSize=sec.size ∧
      PercpuRelocated env s i sec (kbModuleOpenImage env image backend g).2 := by
  have hout := openImage_outcome env image backend g
  generalize kbModuleOpenImage env image backend g=r at hout hopen
  cases hout with
  | refused e p hl _ _ => cases hopen
  | dropped e self' h hl _ => cases hopen
  | failed e s' t hl _ _ => cases hopen
  | opened s' t hl hop hprep =>
    rw [hload] at hl
    cases hl
    have hcur : s.globals.percpuNext=g.percpuNext := by rw [hop.globals]
    obtain ⟨_,a,ha,hrest⟩ := bind_eq_ok.mp hprep
    obtain ⟨_,b,hb,_⟩ := bind_eq_ok.mp hrest
    obtain ⟨hgs,hoff,hsize⟩ := prepareModule_gs ha hb hprep
    have ho := loadSections_lone hop.blank ha (hcur ▸ hnext) (hcur ▸ hc) hat hp
    obtain ⟨hpsize,hsrc⟩ := loadSections_percpu hop.blank ha ho
    have hrel : relocatedLoad env s=(applyRelocations env a).2 := by
      unfold relocatedLoad
      rw [ha]
    rw [hprep] at hzero ⊢
    refine ⟨hsize.trans (hpsize hne),fun k hk => ?_⟩
    rw [hprep,hrel,untargeted_contents hop.blank ha hspread hat hno k hk]
    show t.globals.gs (t.module.percpuOffset+k)=_
    rw [hgs,hoff,hsrc k hk,percpuSource]
    split
    · next hn =>
      rw [← hoff]
      exact hzero hn k hk
    · rfl

def Elf.percpuData : Bytes :=
  ((Elf.withSection (Elf.withSection (Elf.header 2) 0 0 Elf.shtStrtab 0 192 15 0 0 1 0)
    1 1 Elf.shtProgbits 3 208 8 0 0 8 0).put 192 (0::literalBytes ".data..percpu")).put 208
    [1,2,3,4,5,6,7,8]

theorem percpu_relocated_percpuData :
    ∃ s sec,openLoad Env.sample ⟨some Elf.percpuData,216,none⟩ 1 Globals.start=some s ∧
      sec.size=8 ∧ PercpuRelocated Env.sample s 1 sec
        (kbModuleOpenImage Env.sample ⟨some Elf.percpuData,216,none⟩ 1 Globals.start).2 := by
  have hfile : (kbElfOpen percpuData 216).val=.ok (file percpuData 216 2) := by rfl
  have hopen : (kbModuleOpenImage sample ⟨some percpuData,216,none⟩ 1 start).1=
      .ok 1 := by decide +kernel
  have hstarted : (openLoad sample ⟨some percpuData,216,none⟩ 1 start).isSome := by
    decide +kernel
  have hheaders : ∀ j<2,∀ x∈(kbElfSection (file percpuData 216 2) j).val.toOption,
      isRelocationTable x.type=false ∧ start.percpuNext+(max 8 (sectionAlignment x)-1)<wordSize ∧
      (j=1 → shfAlloc x.flags=true ∧ isPercpuSection x=true ∧ x.type≠shtNobits ∧
        x.size=8) := by decide +kernel
  have hread : ((kbElfSection (file percpuData 216 2) 1).val.toOption).isSome := by
    decide +kernel
  have hspread : Spread (file percpuData 216 2) := by decide +kernel
  obtain ⟨s,hload⟩ := isSome_iff_exists.mp hstarted
  obtain ⟨sec,hsec⟩ := isSome_iff_exists.mp hread
  obtain ⟨data,hdata,helf⟩ := (openLoad_opening hload).file
  cases hdata
  rw [hfile] at helf
  have helf := Except.ok.inj helf
  obtain ⟨_,_,hone⟩ := hheaders 1 (by decide) sec hsec
  obtain ⟨halloc,hpercpu,htype,hsize⟩ := hone rfl
  have hat : AllocAt s.module.elf 1 sec := by
    rw [← helf]
    exact ⟨mem_toOption.mp hsec,halloc⟩
  have hcarry : NoCarry s.module.elf start.percpuNext := by
    intro j x hx _
    rw [← helf] at hx
    exact (hheaders j hx.lt x (mem_toOption.mpr hx.1)).2.1
  refine ⟨s,sec,hload,hsize,?_⟩
  refine (percpu_relocated sample ⟨some percpuData,216,none⟩ 1 start (by decide) hload hopen hcarry
    hat hpercpu (by omega) ?_ (helf ▸ hspread) fun hn => absurd hn htype).2
  rintro ⟨j,x,hx,ht,_⟩
  rw [← helf] at hx
  rw [(hheaders j (kbElfSection_lt hx) x (mem_toOption.mpr hx)).1] at ht
  cases ht

/-- A per-CPU word with a relocation against an absolute symbol of value 0x1234. -/
def Elf.percpuPointer : Bytes :=
  (((Elf.withSection (Elf.withSection (Elf.withSection (Elf.withSection (Elf.header 4)
    0 0 Elf.shtStrtab 0 320 15 0 0 1 0) 1 1 Elf.shtProgbits 3 336 8 0 0 8 0)
    2 0 Elf.shtSymtab 0 344 24 0 0 8 24) 3 0 Elf.shtRela 0 368 24 2 1 8 24).put
    320 (0::literalBytes ".data..percpu")).put
    344 ([0,0,0,0,0,0,0xf1,0xff]++Bytes.leBytes 8 0x1234++Bytes.leBytes 8 0)).put
    368 (Bytes.leBytes 8 0++Bytes.leBytes 8 1++Bytes.leBytes 8 0)

/-- The pointer is relocated in the image, and the GS copy still has the file's zeros. -/
theorem percpu_pointer_unrelocated :
    (kbModuleOpenImage Env.sample ⟨some Elf.percpuPointer,392,none⟩ 1 Globals.start).1=.ok 1 ∧
    ∃ s,openLoad Env.sample ⟨some Elf.percpuPointer,392,none⟩ 1 Globals.start=some s ∧
      ∃ sec,(kbElfSection s.module.elf 1).val=.ok sec ∧ isPercpuSection sec=true ∧
      ¬PercpuRelocated Env.sample s 1 sec
        (kbModuleOpenImage Env.sample ⟨some Elf.percpuPointer,392,none⟩ 1 Globals.start).2 := by
  refine ⟨by decide +kernel,?_⟩
  have hall : ∀ s∈openLoad sample ⟨some percpuPointer,392,none⟩ 1 start,
      ((kbElfSection s.module.elf 1).val.toOption).isSome ∧
      ∀ sec∈(kbElfSection s.module.elf 1).val.toOption,isPercpuSection sec=true ∧
      ¬PercpuRelocated sample s 1 sec
        (kbModuleOpenImage sample ⟨some percpuPointer,392,none⟩ 1 start).2 := by
    decide +kernel
  have hstarted : (openLoad sample ⟨some percpuPointer,392,none⟩ 1
      start).isSome := by decide +kernel
  obtain ⟨s,hload⟩ := isSome_iff_exists.mp hstarted
  obtain ⟨hread,hsec⟩ := hall s hload
  obtain ⟨sec,hv⟩ := isSome_iff_exists.mp hread
  exact ⟨s,hload,sec,mem_toOption.mp hv,hsec sec hv⟩

end Kobox.Loader
