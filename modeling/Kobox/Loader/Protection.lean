import Kobox.Loader.LayoutSafety
import Kobox.Loader.PrepareProof

namespace Kobox.Loader

open Elf Prog Or Option

def LoadedSection.Live (sec : LoadedSection) : Prop := sec.base≠0 ∧ sec.size≠0

def LoadedSection.Touches (sec : LoadedSection) (page : Nat) : Prop :=
  page*pageSize<sec.offset+sec.size ∧ sec.offset<(page+1)*pageSize

instance (sec : LoadedSection) (page : Nat) : Decidable (sec.Touches page) :=
  inferInstanceAs (Decidable (_ ∧ _))

/-- A section table in order, with a page boundary between sections of different protection. -/
structure Arranged (m : KbModule) : Prop where
  aligned : m.shimRegionOffset%pageSize=0
  word : m.shimRegionOffset<wordSize
  below : ∀ j,j < m.sectionCount → (m.sections j).Live →
    (m.sections j).offset+(m.sections j).size ≤ m.shimRegionOffset
  ordered : ∀ j k,j<k → k < m.sectionCount → (m.sections j).Live → (m.sections k).Live →
    (m.sections j).offset+(m.sections j).size≤(m.sections k).offset
  paged : ∀ j k,j<k → k < m.sectionCount → (m.sections j).Live → (m.sections k).Live →
    sectionProtection (m.sections j).flags≠sectionProtection (m.sections k).flags →
    ∃ p,(m.sections j).offset+(m.sections j).size≤p*pageSize ∧ p*pageSize≤(m.sections k).offset

variable {m : KbModule}

theorem Arranged.of_plan {n : KbModule} (h : Arranged m) (hp : n.plan=m.plan) : Arranged n := by
  have hsec : n.sections=m.sections := congrArg Plan.sections hp
  have hcount : n.sectionCount=m.sectionCount := congrArg Plan.sectionCount hp
  have hshim : n.shimRegionOffset=m.shimRegionOffset := congrArg Plan.shimRegionOffset hp
  constructor
  · rw [hshim]
    exact h.aligned
  · rw [hshim]
    exact h.word
  · rw [hsec,hcount,hshim]
    exact h.below
  · rw [hsec,hcount]
    exact h.ordered
  · rw [hsec,hcount]
    exact h.paged

theorem Arranged.same (h : Arranged m) {j k page : Nat} (hj : j < m.sectionCount)
    (hk : k < m.sectionCount) (hlj : (m.sections j).Live) (hlk : (m.sections k).Live)
    (hpj : (m.sections j).Touches page) (hpk : (m.sections k).Touches page) :
    sectionProtection (m.sections j).flags=sectionProtection (m.sections k).flags := by
  have hapart : ∀ a b,a<b → b < m.sectionCount → (m.sections a).Live → (m.sections b).Live →
      (m.sections a).Touches page → (m.sections b).Touches page →
      sectionProtection (m.sections a).flags=sectionProtection (m.sections b).flags := by
    intro a b hab hb hla hlb hpa hpb
    by_contra hne
    obtain ⟨p,hp1,hp2⟩ := h.paged a b hab hb hla hlb hne
    unfold LoadedSection.Touches pageSize at hpa hpb
    unfold pageSize at hp1 hp2
    omega
  rcases Nat.lt_trichotomy j k with hlt|heq|hgt
  · exact hapart j k hlt hk hlj hlk hpj hpk
  · rw [heq]
  · exact (hapart k j hgt hj hlk hlj hpk hpj).symm

variable {sec : LoadedSection}

theorem section_pages {shim : Nat} (hs : shim%pageSize=0) (hw : shim<wordSize)
    (hend : sec.offset+sec.size ≤ shim) :
    sec.offset &&& wordNot (pageSize-1)=sec.offset/pageSize*pageSize ∧
    alignUpU64 ((sec.offset+sec.size)%wordSize) pageSize=
      (sec.offset+sec.size+4095)/pageSize*pageSize ∧
    (sec.offset+sec.size+4095)/pageSize*pageSize ≤ shim := by
  have hmod : sec.offset &&& (pageSize-1)=sec.offset%pageSize := Nat.and_two_pow_sub_one_eq_mod _ 12
  have hroom : (sec.offset+sec.size+4095)/pageSize*pageSize ≤ shim := by
    unfold pageSize at hs ⊢
    omega
  refine ⟨?_,?_,hroom⟩
  · rw [and_wordNot sec.offset (pageSize-1) (by omega) (by decide),hmod]
    unfold pageSize
    omega
  · rw [Nat.mod_eq_of_lt (by omega)]
    have hm := maskUpNat_page (sec.offset+sec.size)
    rw [alignUpU64_eq (by decide) (by rw [hm]; exact lt_of_le_of_lt hroom hw),hm]
    rfl

theorem touches_iff {page : Nat} :
    sec.Touches page ↔ sec.offset/pageSize*pageSize≤page*pageSize ∧
      page*pageSize<(sec.offset+sec.size+4095)/pageSize*pageSize := by
  unfold LoadedSection.Touches pageSize
  constructor
  · omega
  · omega

variable {env : Env} {s t : Load}

theorem protectRange_ok {start len : Nat} {prot : Prot}
    (h : protectRange env start len prot s=(.ok (),t)) (page : Nat) :
    t.module.protection page=
      if start≤page*pageSize ∧ page*pageSize<start+len then prot else s.module.protection page := by
  unfold protectRange at h
  dsimp only at h
  split at h
  · cases h
  · cases h
    rfl

/-- The pass after i sections: their pages are in the collected run or protected, and the run's
pages belong to sections of its protection. -/
structure Collected (m : KbModule) (i : Nat) (run : ProtectionRun) (prot : Nat → Prot) : Prop where
  cover : ∀ j,j < i → (m.sections j).Live → ∀ page,(m.sections j).Touches page →
    (run.protection=some (sectionProtection (m.sections j).flags) ∧
      run.start≤page*pageSize ∧ page*pageSize < run.stop) ∨
    prot page=nativeProt (sectionProtection (m.sections j).flags)
  hull : ∀ p,run.protection=some p → ∀ page,run.start≤page*pageSize → page*pageSize < run.stop →
    ∃ j,j < i ∧ (m.sections j).Live ∧ sectionProtection (m.sections j).flags=p ∧
      (m.sections j).Touches page
  first : run.protection≠none → ∃ j,j < i ∧ (m.sections j).Live ∧
    run.start=(m.sections j).offset/pageSize*pageSize
  span : run.protection≠none → run.start ≤ run.stop ∧ run.stop ≤ m.shimRegionOffset

theorem Collected.start (m : KbModule) (prot : Nat → Prot) : Collected m 0 ⟨0,0,none⟩ prot := by
  constructor
  · omega
  · intro p hp
    cases hp
  · intro h
    exact absurd rfl h
  · intro h
    exact absurd rfl h

variable {i : Nat} {run : ProtectionRun}

theorem Collected.flush (ha : Arranged m) (hi : i ≤ m.sectionCount)
    (hc : Collected m i run s.module.protection) (h : flushRun env run s=(.ok (),t)) (j : Nat)
    (hj : j < i) (hl : (m.sections j).Live) (page : Nat) (hp : (m.sections j).Touches page) :
    t.module.protection page=nativeProt (sectionProtection (m.sections j).flags) := by
  cases hprot : run.protection with
  | none =>
    simp only [flushRun,hprot] at h
    cases h
    rcases hc.cover j hj hl page hp with ⟨hrun,_⟩|hdone
    · rw [hprot] at hrun
      cases hrun
    · exact hdone
  | some p =>
    simp only [flushRun,hprot] at h
    have hsome : run.protection≠none := by
      rw [hprot]
      exact some_ne_none p
    obtain ⟨hle,hshim⟩ := hc.span hsome
    have hword := ha.word
    have hsub : wordSub run.stop run.start=run.stop-run.start := by
      unfold wordSub
      have he : run.stop+wordSize-run.start=run.stop-run.start+wordSize := by omega
      rw [he,Nat.add_mod_right,Nat.mod_eq_of_lt (by omega)]
    rw [protectRange_ok h page]
    split
    · next hin =>
      obtain ⟨k,hk,hlk,hpk,htk⟩ := hc.hull p hprot page hin.1 (by omega)
      have hsame := ha.same (by omega) (by omega) hl hlk hp htk
      rw [hsame,hpk]
    · next hout =>
      rcases hc.cover j hj hl page hp with ⟨_,hin⟩|hdone
      · exact absurd ⟨hin.1,by omega⟩ hout
      · exact hdone

variable {next : ProtectionRun}

theorem protectSection_cases (h : protectSection env sec run s=(.ok next,t)) :
    (¬sec.Live ∧ next=run ∧ t=s) ∨
    (sec.Live ∧ run.protection=some (sectionProtection sec.flags) ∧
      sec.offset &&& wordNot (pageSize-1) ≤ run.stop ∧ next.start=run.start ∧
      next.stop=max run.stop (alignUpU64 ((sec.offset+sec.size)%wordSize) pageSize) ∧
      next.protection=run.protection ∧ t=s) ∨
    (sec.Live ∧ flushRun env run s=(.ok (),t) ∧ next=⟨sec.offset &&& wordNot (pageSize-1),
        alignUpU64 ((sec.offset+sec.size)%wordSize) pageSize,
        some (sectionProtection sec.flags)⟩) := by
  unfold protectSection at h
  split at h
  · next hskip =>
    cases h
    refine inl ⟨?_,rfl,rfl⟩
    rintro ⟨hb,hz⟩
    exact hskip.elim hb hz
  next hskip =>
  have hlive : sec.Live := not_or.mp hskip
  dsimp only at h
  split at h
  · next hext =>
    cases h
    refine inr (inl ⟨hlive,hext.1,hext.2,rfl,?_,rfl,rfl⟩)
    dsimp only
    split <;> omega
  · obtain ⟨_,u,hu,h⟩ := bind_eq_ok.mp h
    cases h
    exact inr (inr ⟨hlive,hu,rfl⟩)

variable {prot : Nat → Prot}

theorem Collected.skip (hc : Collected m i run prot) (hdead : ¬(m.sections i).Live) :
    Collected m (i+1) run prot := by
  have hlt : ∀ j,j < i+1 → (m.sections j).Live → j < i := by
    intro j hj hl
    by_contra hge
    have he : j=i := by omega
    exact hdead (he ▸ hl)
  constructor
  · exact fun j hj hl => hc.cover j (hlt j hj hl) hl
  · intro p hp page h1 h2
    obtain ⟨j,hj,hrest⟩ := hc.hull p hp page h1 h2
    exact ⟨j,by omega,hrest⟩
  · intro hn
    obtain ⟨j,hj,hrest⟩ := hc.first hn
    exact ⟨j,by omega,hrest⟩
  · exact hc.span

theorem Collected.extend (ha : Arranged m) (hi : i < m.sectionCount) (hc : Collected m i run prot)
    (hlive : (m.sections i).Live)
    (hprot : run.protection=some (sectionProtection (m.sections i).flags))
    (hreach : (m.sections i).offset/pageSize*pageSize ≤ run.stop) (hstart : next.start=run.start)
    (hstop : next.stop=
      max run.stop (((m.sections i).offset+(m.sections i).size+4095)/pageSize*pageSize))
    (hkeep : next.protection=run.protection) : Collected m (i+1) next prot := by
  have hsome : run.protection≠none := by
    rw [hprot]
    exact some_ne_none _
  have hroom := (section_pages ha.aligned ha.word (ha.below i hi hlive)).2.2
  obtain ⟨hle,hshim⟩ := hc.span hsome
  obtain ⟨j0,hj0,hl0,hs0⟩ := hc.first hsome
  have hfirst : run.start≤(m.sections i).offset/pageSize*pageSize := by
    have hord := ha.ordered j0 i hj0 hi hl0 hlive
    rw [hs0]
    apply Nat.mul_le_mul_right
    exact Nat.div_le_div_right (by omega)
  constructor
  · intro j hj hl page hp
    rw [hkeep,hstart]
    by_cases he : j=i
    · subst he
      have hin := (touches_iff).mp hp
      exact inl ⟨hprot,by omega,by omega⟩
    · rcases hc.cover j (by omega) hl page hp with ⟨hr,h1,h2⟩|hdone
      · exact inl ⟨hr,h1,by omega⟩
      · exact inr hdone
  · intro p hp page h1 h2
    rw [hkeep] at hp
    rw [hstart] at h1
    by_cases hold : page*pageSize < run.stop
    · obtain ⟨j,hj,hrest⟩ := hc.hull p hp page h1 hold
      exact ⟨j,by omega,hrest⟩
    · have hpi : sectionProtection (m.sections i).flags=p := some.inj (hprot.symm.trans hp)
      exact ⟨i,by omega,hlive,hpi,(touches_iff).mpr ⟨by omega,by omega⟩⟩
  · intro _
    exact ⟨j0,by omega,hl0,hstart.trans hs0⟩
  · omega

theorem Collected.restart (ha : Arranged m) (hi : i < m.sectionCount) (hlive : (m.sections i).Live)
    (hdone : ∀ j,j < i → (m.sections j).Live → ∀ page,(m.sections j).Touches page →
      prot page=nativeProt (sectionProtection (m.sections j).flags)) :
    Collected m (i+1) ⟨(m.sections i).offset/pageSize*pageSize,
      ((m.sections i).offset+(m.sections i).size+4095)/pageSize*pageSize,
      some (sectionProtection (m.sections i).flags)⟩ prot := by
  have hroom := (section_pages ha.aligned ha.word (ha.below i hi hlive)).2.2
  constructor
  · intro j hj hl page hp
    by_cases he : j=i
    · subst he
      exact inl ⟨rfl,(touches_iff).mp hp⟩
    · exact inr (hdone j (by omega) hl page hp)
  · intro p hp page h1 h2
    exact ⟨i,by omega,hlive,some.inj hp,(touches_iff).mpr ⟨h1,h2⟩⟩
  · intro _
    exact ⟨i,by omega,hlive,rfl⟩
  · intro _
    refine ⟨?_,hroom⟩
    apply Nat.mul_le_mul_right
    exact Nat.div_le_div_right (by omega)

theorem Collected.step (ha : Arranged m) (hi : i < m.sectionCount)
    (hc : Collected m i run s.module.protection)
    (h : protectSection env (m.sections i) run s=(.ok next,t)) :
    Collected m (i+1) next t.module.protection := by
  rcases protectSection_cases h with ⟨hdead,rfl,rfl⟩|⟨hlive,hprot,hreach,hstart,hstop,hkeep,rfl⟩|
    ⟨hlive,hflush,rfl⟩
  · exact hc.skip hdead
  · obtain ⟨hfloor,hceil,_⟩ := section_pages ha.aligned ha.word (ha.below i hi hlive)
    rw [hfloor] at hreach
    rw [hceil] at hstop
    exact hc.extend ha hi hlive hprot hreach hstart hstop hkeep
  · obtain ⟨hfloor,hceil,_⟩ := section_pages ha.aligned ha.word (ha.below i hi hlive)
    rw [hfloor,hceil]
    exact Collected.restart ha hi hlive (hc.flush ha (by omega) hflush)

theorem protectSections_collected (ha : Arranged m) {n : Nat} {last : ProtectionRun}
    (hin : i+n ≤ m.sectionCount) (hsec : s.module.sections=m.sections)
    (hc : Collected m i run s.module.protection) (h : protectSections env i n run s=(.ok last,t)) :
    Collected m (i+n) last t.module.protection := by
  induction n generalizing i run s with
  | zero =>
    cases h
    exact hc
  | succ n ih =>
    obtain ⟨s0,_,hs0,h⟩ := bind_eq_ok.mp h
    cases hs0
    obtain ⟨next,u,hu,h⟩ := bind_eq_ok.mp h
    have hmoves := protectSection_moves env (s.module.sections i) run s
    rw [hu] at hmoves
    rw [hsec] at hu
    have hsecu : u.module.sections=m.sections := by
      rw [hmoves.module]
      exact hsec
    have hnext := ih (i := i+1) (by omega) hsecu (hc.step ha (by omega) hu) h
    have he : i+1+n=i+(n+1) := by omega
    exact he ▸ hnext

theorem finalize_pages (ha : Arranged s.module) (h : finalizeSectionProtections env s=(.ok (),t)) :
    (∀ j,j<s.module.sectionCount → (s.module.sections j).Live → ∀ page,
      (s.module.sections j).Touches page →
      t.module.protection page=nativeProt (sectionProtection (s.module.sections j).flags)) ∧
    (∀ page,s.module.shimRegionOffset≤page*pageSize →
      page*pageSize<s.module.shimRegionOffset+shimDataOffset →
      t.module.protection page=.readExec) ∧
    (∀ page,s.module.shimRegionOffset+shimDataOffset≤page*pageSize →
      page*pageSize<s.module.shimRegionOffset+shimDataOffset+shimDataSize →
      t.module.protection page=.readWrite) := by
  obtain ⟨s0,_,hs0,h⟩ := bind_eq_ok.mp h
  cases hs0
  obtain ⟨_,a,hread,h⟩ := bind_eq_ok.mp h
  obtain ⟨run,b,hrun,h⟩ := bind_eq_ok.mp h
  obtain ⟨_,c,hflush,h⟩ := bind_eq_ok.mp h
  obtain ⟨_,d,hcode,hdata⟩ := bind_eq_ok.mp h
  have hmoves := protectRange_moves env 0 (alignUpU64 s.module.imageSize pageSize) .read s
  rw [hread] at hmoves
  have hseca : a.module.sections=s.module.sections := by
    rw [hmoves.module]
  have hcoll := protectSections_collected ha (by omega) hseca
    (Collected.start s.module a.module.protection) hrun
  have hpcode := protectRange_ok hcode
  have hpdata := protectRange_ok hdata
  refine ⟨?_,?_,?_⟩
  · intro j hj hl page hp
    have hbelow := ha.below j hj hl
    have hlt : page*pageSize<s.module.shimRegionOffset := lt_of_lt_of_le hp.1 hbelow
    rw [hpdata page,if_neg (by omega),hpcode page,if_neg (by omega)]
    exact hcoll.flush ha (by omega) hflush j (by omega) hl page hp
  · intro page h1 h2
    rw [hpdata page,if_neg (by omega),hpcode page,if_pos ⟨h1,h2⟩]
  · intro page h1 h2
    rw [hpdata page,if_pos ⟨h1,h2⟩]

section

variable {env : Env} {s v a b c t : Load} {l : Layout}

section

variable (h : Loaded env s l v t)

include h

theorem Loaded.mapped : t.module.imageBase≠0 ∧ t.module.imageBase+t.module.imageSize≤userTop := by
  obtain ⟨u,hu⟩ := h.laid
  have hbase : t.module.imageBase=u.module.imageBase :=
    (congrArg Plan.imageBase h.plan).trans (congrArg Plan.imageBase hu.plan)
  rw [hbase,h.imageSize]
  exact ⟨hu.imaged.base,hu.mapped⟩

variable (hb : s.module.Blank)

include hb

theorem Loaded.count : t.module.sectionCount=s.module.elf.sectionCount := by
  obtain ⟨u,hu⟩ := h.laid
  have h1 : t.module.sectionCount=v.module.sectionCount := congrArg Plan.sectionCount h.plan
  have h2 : v.module.sectionCount=s.module.sectionCount := congrArg Plan.sectionCount hu.plan
  rw [h1,h2,hb.count]

theorem Loaded.flags {i : Nat} {sec : Section} (hat : AllocAt s.module.elf i sec) :
    (t.module.sections i).flags=sec.flags := by
  obtain ⟨u,hu⟩ := h.laid
  have hs : v.module.sections=l.sections := congrArg Plan.sections hu.plan
  have hf : (t.module.sections i).flags=(v.module.sections i).flags :=
    congrArg (fun p => (p.sections i).flags) h.plan
  have hfilled := layoutSections_filled hu.layout hb.sections
  rw [hf,hs]
  exact (hfilled.entry i sec (by rw [hb.count]; exact hat.lt) hat).2.2

theorem Loaded.live_iff (hfit : LayoutFits s.module.elf) (i : Nat) :
    (t.module.sections i).Live ↔ ∃ sec,AllocAt s.module.elf i sec ∧ sec.size≠0 := by
  have hsize := h.size hb i
  constructor
  · rintro ⟨_,hne⟩
    rw [hsize] at hne
    rcases loadedSize_cases with ⟨sec,hat,hs⟩|⟨_,h0⟩
    · exact ⟨sec,hat,hs ▸ hne⟩
    · exact absurd h0 hne
  · rintro ⟨sec,hat,hne⟩
    obtain ⟨hord,hle,himg⟩ := h.ordered hb hfit
    obtain ⟨hbase,htop⟩ := h.mapped
    have hbelow := hord.below i sec hat.lt hat
    refine ⟨?_,by rw [hsize,loadedSize_of hat]; exact hne⟩
    rw [h.based i sec hat,Nat.mod_eq_of_lt]
    · omega
    · have : userTop<wordSize := by decide
      omega

theorem Loaded.arranged (hfit : LayoutFits s.module.elf) : Arranged t.module := by
  obtain ⟨hord,hle,himg⟩ := h.ordered hb hfit
  have htop := h.mapped.2
  have hlive := h.live_iff hb hfit
  have hsize : ∀ i sec,AllocAt s.module.elf i sec → (t.module.sections i).size=sec.size := by
    intro i sec hat
    rw [h.size hb i,loadedSize_of hat]
  constructor
  · rw [h.shim]
    exact alignUpU64_page_mod _
  · have : userTop<wordSize := by decide
    omega
  · intro j hj hl
    obtain ⟨sec,hat,_⟩ := (hlive j).mp hl
    have := hord.below j sec hat.lt hat
    rw [h.offset,hsize j sec hat]
    omega
  · intro j k hjk hk hlj hlk
    obtain ⟨x,hx,_⟩ := (hlive j).mp hlj
    obtain ⟨y,hy,_⟩ := (hlive k).mp hlk
    rw [h.offset,h.offset,hsize j x hx]
    exact hord.ordered j k x y hjk hy.lt hx hy
  · intro j k hjk hk hlj hlk hprot
    obtain ⟨x,hx,hxne⟩ := (hlive j).mp hlj
    obtain ⟨y,hy,hyne⟩ := (hlive k).mp hlk
    rw [h.flags hb hx,h.flags hb hy] at hprot
    rw [h.offset,h.offset,hsize j x hx]
    exact hord.paged j k x y hjk hy.lt hx hy hxne hyne hprot

end

theorem Prepared.plan (h : Prepared env s l v a b c t) : c.module.plan=a.module.plan :=
  h.exported.plan.trans h.patched.plan

theorem Prepared.sections (h : Prepared env s l v a b c t) :
    t.module.sections=a.module.sections := by
  have hmoves := finalize_moves env c
  rw [h.finished] at hmoves
  have hc : c.module.sections=a.module.sections := congrArg Plan.sections h.plan
  rw [hmoves.module]
  exact hc

end

/-- After a load whose sums stay within 2^64, each page of a non-empty section has its protection,
and different ones share no page. -/
theorem section_pages_protected (env : Env) (elf : ElfFile) (self node0 : Nat) (name : String)
    (s : Load) (hs : s.module=KbModule.fresh self name elf node0) (hfit : LayoutFits elf)
    (hprep : (prepareModule env s).1=.ok ()) :
    (∀ i sec page,AllocAt elf i sec → sec.size≠0 →
      ((prepareModule env s).2.module.sections i).Touches page →
      (prepareModule env s).2.module.protection page=nativeProt (sectionProtection sec.flags)) ∧
    (∀ i j x y page,AllocAt elf i x → AllocAt elf j y → x.size≠0 → y.size≠0 →
      sectionProtection x.flags≠sectionProtection y.flags →
      ((prepareModule env s).2.module.sections i).Touches page →
      ¬((prepareModule env s).2.module.sections j).Touches page) := by
  have hb : s.module.Blank := hs ▸ KbModule.fresh_blank self name elf node0
  have helf : s.module.elf=elf := congrArg KbModule.elf hs
  rcases h : prepareModule env s with ⟨r,t⟩
  rw [h] at hprep
  subst hprep
  obtain ⟨l,v,a,b,c,hp⟩ := prepareModule_ok env hb h
  subst helf
  have harr := hp.loaded.arranged hb hfit
  have hlive := hp.loaded.live_iff hb hfit
  have hcount := hp.loaded.count hb
  have hflags : ∀ {i : Nat} {sec : Section},AllocAt s.module.elf i sec →
      (a.module.sections i).flags=sec.flags := fun hat => hp.loaded.flags hb hat
  have hseca : c.module.sections=a.module.sections := congrArg Plan.sections hp.plan
  have hcounta : c.module.sectionCount=a.module.sectionCount := congrArg Plan.sectionCount hp.plan
  have hpages := (finalize_pages (harr.of_plan hp.plan) hp.finished).1
  rw [hseca,hcounta,hcount] at hpages
  rw [hp.sections]
  constructor
  · intro i sec page hat hne htouch
    have := hpages i hat.lt ((hlive i).mpr ⟨sec,hat,hne⟩) page htouch
    rwa [hflags hat] at this
  · intro i j x y page hx hy hxne hyne hprot hti htj
    have hsame := harr.same (by rw [hcount]; exact hx.lt) (by rw [hcount]; exact hy.lt)
      ((hlive i).mpr ⟨x,hx,hxne⟩) ((hlive j).mpr ⟨y,hy,hyne⟩) hti htj
    rw [hflags hx,hflags hy] at hsame
    exact hprot hsame

theorem section_pages_protected_pairSample : LayoutFits (Elf.file Elf.pairSample 265 3) ∧
    (prepareModule Env.sample (Load.sample Elf.pairSample 265 3)).2.module.protection 0=.readExec ∧
    (prepareModule Env.sample (Load.sample Elf.pairSample 265 3)).2.module.protection 1=
      .readWrite := by
  have hfit : LayoutFits (file pairSample 265 3) := by decide +kernel
  have hprep : (prepareModule Env.sample (Load.sample pairSample 265 3)).1=.ok () := by
    decide +kernel
  have hcode : AllocAt (file pairSample 265 3) 1
      ⟨⟨some 256,[]⟩,shtProgbits,6,0,257,8,0,0,16,0⟩ := ⟨by rfl,by decide⟩
  have hdata : AllocAt (file pairSample 265 3) 2
      ⟨⟨some 256,[]⟩,shtProgbits,3,0,257,8,0,0,16,0⟩ := ⟨by rfl,by decide⟩
  have hall := (section_pages_protected Env.sample (file pairSample 265 3) 1 1 "sample"
    (Load.sample pairSample 265 3) rfl hfit hprep).1
  have hpage0 := hall 1 _ 0 hcode (by decide) (by decide +kernel)
  have hpage1 := hall 2 _ 1 hdata (by decide) (by decide +kernel)
  exact ⟨hfit,hpage0.trans (by decide),hpage1.trans (by decide)⟩

end Kobox.Loader
