import Kobox.Loader.Loaded
import Kobox.Loader.RelocationProof

namespace Kobox.Loader

open SamePlaces Elf

/-- Bytes section i takes in the image: the size in its header if it is ALLOC. -/
def loadedSize (f : ElfFile) (i : Nat) : Nat :=
  match (kbElfSection f i).val with
  | .error _ => 0
  | .ok sec => if Elf.shfAlloc sec.flags then sec.size else 0

variable {f : ElfFile} {i : Nat}

theorem loadedSize_of {sec : Section} (h : AllocAt f i sec) : loadedSize f i=sec.size := by
  simp [loadedSize,h.1,h.2]

theorem loadedSize_cases {f : ElfFile} {i : Nat} :
    (∃ sec,AllocAt f i sec ∧ loadedSize f i=sec.size) ∨
      ((∀ sec,¬AllocAt f i sec) ∧ loadedSize f i=0) := by
  cases hsec : (kbElfSection f i).val with
  | error e =>
    refine Or.inr ⟨?_,by simp [loadedSize,hsec]⟩
    intro sec hat
    rw [hat.1] at hsec
    cases hsec
  | ok sec =>
    cases ha : shfAlloc sec.flags with
    | false => exact Or.inr ⟨not_allocAt hsec ha,by simp [loadedSize,hsec,ha]⟩
    | true => exact Or.inl ⟨sec,⟨hsec,ha⟩,loadedSize_of ⟨hsec,ha⟩⟩

/-- Every non-empty section lies in [0,shim) and in the image, and no two of them overlap. -/
def Apart (f : ElfFile) (off : Nat → Nat) (shim image : Nat) : Prop :=
  ∀ i,i<f.sectionCount → loadedSize f i≠0 →
    off i+loadedSize f i ≤ shim ∧ off i+loadedSize f i ≤ image ∧
    ∀ j,j < i → loadedSize f j≠0 → off i+loadedSize f i≤off j ∨ off j+loadedSize f j≤off i

instance (f : ElfFile) (off : Nat → Nat) (shim image : Nat) : Decidable (Apart f off shim image) :=
  inferInstanceAs (Decidable (∀ i,i<f.sectionCount → loadedSize f i≠0 → _ ∧ _ ∧ _))

/-- The section table of a loaded module keeps its sections apart. -/
def KbModule.Placed (m : KbModule) : Prop :=
  Apart m.elf (fun i => (m.sections i).offset) m.shimRegionOffset m.imageSize

instance (m : KbModule) : Decidable m.Placed := inferInstanceAs (Decidable (Apart _ _ _ _))

/-- Every byte written into a section lies in that section and in the image. -/
def KbModule.WritesInside (m : KbModule) : Prop := ∀ w∈m.writes,∀ a,m.Covers w a →
    (m.sections w.index).offset≤a ∧ a<(m.sections w.index).offset+loadedSize m.elf w.index ∧
      a < m.imageSize

/-- The sections are apart, and copies and relocations write only into their own section. -/
structure SafeLoad (env : Env) (t : Load) : Prop where
  placed : t.module.Placed
  inside : (applyRelocations env t).2.module.WritesInside

/-- A layout turn read off the headers alone, with the machine's arithmetic. -/
def placeHeader (f : ElfFile) (i : Nat) (l : Layout) : Layout :=
  match (kbElfSection f i).val with
  | .error _ => l
  | .ok sec =>
    if Elf.shfAlloc sec.flags then
      placeSection i sec (alignOnChange (sectionProtection sec.flags) l)
    else l

def headerLayout (f : ElfFile) : Nat → Layout
  | 0 => ⟨0,none,fun _ => LoadedSection.zero,0,0,0⟩
  | n+1 => placeHeader f n (headerLayout f n)

/-- The offsets that the headers give modulo 2^64 keep the sections apart. -/
def Spread (f : ElfFile) : Prop :=
  Apart f (fun i => ((headerLayout f f.sectionCount).sections i).offset)
    (alignUpU64 (headerLayout f f.sectionCount).imageSize pageSize)
    ((alignUpU64 (headerLayout f f.sectionCount).imageSize pageSize+shimRegionSize)%wordSize)

instance (f : ElfFile) : Decidable (Spread f) := inferInstanceAs (Decidable (Apart _ _ _ _))

/-- No section of the image asks for more alignment than there are user addresses. -/
def ModestAlignment (f : ElfFile) : Prop := ∀ i sec,AllocAt f i sec → sec.alignment≤userTop

/-- The parts of a layout that the headers decide. -/
structure SameImage (l t : Layout) : Prop where
  sections : t.sections=l.sections
  imageSize : t.imageSize=l.imageSize
  previous : t.previousProtection=l.previousProtection

variable {l t : Layout}

theorem SameImage.place (h : SameImage l t) (i : Nat) (sec : Section) (p : Nat) :
    (placeSection i sec (alignOnChange p t)).sections=
      (placeSection i sec (alignOnChange p l)).sections ∧
    (placeSection i sec (alignOnChange p t)).imageSize=
      (placeSection i sec (alignOnChange p l)).imageSize := by
  have hsize : (alignOnChange p t).imageSize=(alignOnChange p l).imageSize := by
    simp only [alignOnChange,h.previous,h.imageSize]
    split
    · rfl
    · exact h.imageSize
  simp [placeSection,hsize,h.sections]

variable {n : Nat}

theorem layoutSections_header (h : layoutSections f n l=(.ok (),t))
    (hl : SameImage (headerLayout f 0) l) : SameImage (headerLayout f n) t := by
  have hloop := Prog.loopFrom_ok (I := fun j s => SameImage (headerLayout f j) s) 0 n ?_ hl h
  · rwa [Nat.zero_add] at hloop
  intro j s u _ _ hs hbody
  obtain ⟨sec,hsec,hcase⟩ := layoutSection_ok hbody
  rcases hcase with ⟨hna,rfl⟩|⟨ha,hp,_⟩
  · have he : headerLayout f (j+1)=headerLayout f j := by
      simp [headerLayout,placeHeader,hsec,hna]
    rw [he]
    exact hs
  · have he : headerLayout f (j+1)=
        placeSection j sec (alignOnChange (sectionProtection sec.flags) (headerLayout f j)) := by
      simp [headerLayout,placeHeader,hsec,ha]
    have hpl := hs.place j sec (sectionProtection sec.flags)
    rw [he]
    refine ⟨hp.sections.trans hpl.1,hp.imageSize.trans hpl.2,?_⟩
    rw [hp.previous]
    simp [placeSection,hs.previous]

section

variable {env : Env} {s t u v : Load} {l : Layout}

theorem KbModule.Blank.start (hb : s.module.Blank) :
    SameImage (headerLayout s.module.elf 0) (startLayout s) :=
  ⟨funext hb.sections,rfl,rfl⟩

theorem alignUpU64_page_mod (x : Nat) : alignUpU64 x pageSize%pageSize=0 := by
  have h := and_wordNot ((x+(pageSize-1))%wordSize) (pageSize-1)
    (Nat.mod_lt _ wordSize_pos) (by decide)
  have hm : (x+(pageSize-1))%wordSize &&& (pageSize-1)=(x+(pageSize-1))%wordSize%pageSize :=
    Nat.and_two_pow_sub_one_eq_mod _ 12
  change maskUp x (pageSize-1)%pageSize=0
  unfold maskUp
  rw [h,hm]
  unfold pageSize
  omega

theorem Laid.mapped (h : Laid env s l u v) :
    u.module.imageBase+(alignUpU64 l.imageSize pageSize+shimRegionSize)%wordSize≤userTop := by
  have hpage : alignUpU64 ((alignUpU64 l.imageSize pageSize+shimRegionSize)%wordSize) pageSize=
      (alignUpU64 l.imageSize pageSize+shimRegionSize)%wordSize := by
    have h0 := alignUpU64_page_mod l.imageSize
    generalize alignUpU64 l.imageSize pageSize=x at h0
    have hmod : (x+shimRegionSize)%wordSize%4096=0 := by
      have : shimRegionSize=229376 := rfl
      unfold pageSize at h0
      unfold wordSize
      omega
    have hlt : (x+shimRegionSize)%wordSize<wordSize := Nat.mod_lt _ wordSize_pos
    generalize (x+shimRegionSize)%wordSize=y at hmod hlt
    have hm : maskUpNat y (pageSize-1)=y := by
      rw [maskUpNat_page]
      omega
    rw [alignUpU64_eq (by decide) (by rw [hm]; exact hlt),hm]
  rcases h.imaged.mapped.place with ⟨h0,_⟩|⟨hfree,_⟩
  · exact absurd h0 h.imaged.base
  · rw [hpage] at hfree
    exact hfree.2.2.1

variable (h : Loaded env s l v t)

include h

theorem Loaded.elf : t.module.elf=s.module.elf := by
  obtain ⟨u,hu⟩ := h.laid
  exact (congrArg Plan.elf h.plan).trans (congrArg Plan.elf hu.plan)

theorem Loaded.offset (i : Nat) : (t.module.sections i).offset=(l.sections i).offset := by
  obtain ⟨u,hu⟩ := h.laid
  have hs : v.module.sections=l.sections := congrArg Plan.sections hu.plan
  rw [(of_layoutPlan h.plan).offset i,hs]

theorem Loaded.shim : t.module.shimRegionOffset=alignUpU64 l.imageSize pageSize := by
  obtain ⟨u,hu⟩ := h.laid
  exact (congrArg Plan.shimRegionOffset h.plan).trans (congrArg Plan.shimRegionOffset hu.plan)

theorem Loaded.imageSize :
    t.module.imageSize=(alignUpU64 l.imageSize pageSize+shimRegionSize)%wordSize := by
  obtain ⟨u,hu⟩ := h.laid
  have hv : v.module.imageSize=(alignUpU64 l.imageSize pageSize+shimRegionSize)%wordSize :=
    congrArg Plan.imageSize hu.plan
  have ht : t.module.imageSize=v.module.imageSize := congrArg Plan.imageSize h.plan
  exact ht.trans hv

variable (hb : s.module.Blank)

include hb

theorem Loaded.size (i : Nat) : (t.module.sections i).size=loadedSize s.module.elf i := by
  obtain ⟨u,hu⟩ := h.laid
  have hs : v.module.sections=l.sections := congrArg Plan.sections hu.plan
  have hfilled := layoutSections_filled hu.layout hb.sections
  rw [(of_layoutPlan h.plan).size i,hs]
  rcases loadedSize_cases with ⟨sec,hat,hsize⟩|⟨hno,hsize⟩
  · rw [hsize]
    exact (hfilled.entry i sec (by rw [hb.count]; exact hat.lt) hat).2.1
  · rw [hsize,hfilled.zero i (Or.inr hno)]
    rfl

theorem Loaded.placed_iff : t.module.Placed ↔ Spread s.module.elf := by
  obtain ⟨u,hu⟩ := h.laid
  have hsame := layoutSections_header hu.layout hb.start
  have hoff : (fun i => (t.module.sections i).offset)=
      fun i => ((headerLayout s.module.elf s.module.sectionCount).sections i).offset := by
    funext i
    rw [h.offset,hsame.sections]
  unfold KbModule.Placed Spread
  rw [h.elf,hoff,h.shim,h.imageSize,hsame.imageSize,hb.count]

theorem Loaded.holds {x : Load} (hx : Patched env t x) : ∀ w∈x.module.writes,x.module.Holds w := by
  obtain ⟨u,hu⟩ := h.laid
  obtain ⟨ws,hws⟩ := h.stored
  obtain ⟨ps,hps⟩ := hx.stored
  have hu0 : u.module.writes=[] := by
    have hm := congrArg KbModule.writes hu.imaged.module
    exact hm.trans hb.writes
  have hv0 : v.module.writes=[] := by
    have hm := hu.staged.stored.writes
    rw [hu0] at hm
    exact hm
  have hall := hws.trans hps (of_layoutPlan h.plan)
  have hplaces : SamePlaces v.module x.module :=
    of_layoutPlan ((layoutPlan_of_plan hx.plan).trans h.plan)
  intro w hw
  rw [hall.writes,hv0] at hw
  exact (hplaces.holds w).mpr (hall.holds w hw)

theorem Loaded.inside (hp : t.module.Placed) : (applyRelocations env t).2.module.WritesInside := by
  have hx := applyRelocations_moves env t
  generalize (applyRelocations env t).2=x at hx
  have hsec : x.module.sections=t.module.sections := congrArg Plan.sections hx.plan
  have helf : x.module.elf=t.module.elf := congrArg Plan.elf hx.plan
  have himg : x.module.imageSize=t.module.imageSize := congrArg Plan.imageSize hx.plan
  intro w hw a ha
  have hold := h.holds hb hx w hw
  unfold KbModule.Covers at ha
  unfold KbModule.Holds at hold
  rw [hsec] at ha hold ⊢
  rw [h.size hb w.index] at hold
  rw [helf,h.elf]
  have hne : loadedSize s.module.elf w.index≠0 := by omega
  have hlt : w.index<t.module.elf.sectionCount := by
    rw [h.elf]
    rcases loadedSize_cases with ⟨sec,hat,_⟩|⟨_,h0⟩
    · exact hat.lt
    · exact absurd h0 hne
  have hpi := hp w.index hlt (by rw [h.elf]; exact hne)
  rw [h.elf] at hpi
  have himage := hpi.2.1
  dsimp only at himage
  omega

theorem Loaded.safe_iff : SafeLoad env t ↔ Spread s.module.elf := by
  rw [← h.placed_iff hb]
  exact ⟨fun hs => hs.placed,fun hp => ⟨hp,h.inside hb hp⟩⟩

theorem Loaded.ordered (hfit : LayoutFits s.module.elf) :
    Ordered s.module.elf s.module.elf.sectionCount l ∧
    l.imageSize≤t.module.shimRegionOffset ∧
    t.module.imageSize=t.module.shimRegionOffset+shimRegionSize := by
  obtain ⟨u,hu⟩ := h.laid
  have hpos : 0<shimRegionSize := by decide
  have hext := le_maskUpNat (extentFrom s.module.elf 0 s.module.elf.sectionCount 0 none) (pageSize-1)
  have hsum : maskUpNat (extentFrom s.module.elf 0 s.module.elf.sectionCount 0 none) (pageSize-1)+
      shimRegionSize≤wordSize := hfit
  have hlay := hu.layout
  rw [hb.count] at hlay
  obtain ⟨hord,hsize⟩ := layoutSections_fits hlay rfl rfl (by omega)
  have halign : alignUpU64 l.imageSize pageSize=
      maskUpNat (extentFrom s.module.elf 0 s.module.elf.sectionCount 0 none) (pageSize-1) := by
    rw [hsize]
    exact alignUpU64_eq (by decide) (by omega)
  refine ⟨hord,?_,?_⟩
  · rw [h.shim,halign,hsize]
    exact hext
  have hne := hu.imaged.sized
  rw [h.imageSize,h.shim]
  rw [halign] at hne ⊢
  refine Nat.mod_eq_of_lt (lt_of_le_of_ne hsum ?_)
  intro he
  rw [he] at hne
  exact hne rfl

theorem Loaded.placed_of_fits (hfit : LayoutFits s.module.elf) : t.module.Placed := by
  obtain ⟨hord,hle,himg⟩ := h.ordered hb hfit
  intro i hi hne
  dsimp only
  rw [h.elf] at hi hne ⊢
  rw [h.offset]
  obtain ⟨a,hat,hsa⟩|⟨_,h0⟩ := loadedSize_cases
  swap
  · exact absurd h0 hne
  have hbelow := hord.below i a hi hat
  refine ⟨by omega,by omega,?_⟩
  intro j hj hnj
  rw [h.offset]
  obtain ⟨b,hbt,hsb⟩|⟨_,h0⟩ := loadedSize_cases
  swap
  · exact absurd h0 hnj
  rw [hsb]
  exact Or.inr (hord.ordered j i b a hj hi hbt hat)

end

theorem layoutSections_keeps (h : Prog.loopFrom (layoutSection f) i n l=(.ok (),t)) (k : Nat)
    (hk : k < i) : t.sections k=l.sections k := by
  refine Prog.loopFrom_ok (I := fun _ s => s.sections k=l.sections k) i n ?_ rfl h
  intro j s u hj _ hs hbody
  obtain ⟨sec,_,hcase⟩ := layoutSection_ok hbody
  rcases hcase with ⟨_,rfl⟩|⟨_,hp,_⟩
  · exact hs
  · rw [hp.sections]
    simp [placeSection,Function.update_of_ne (show k≠j by omega),hs]

theorem offsetNat_le (v : Nat) (previous : Option Nat) (sec : Section) :
    offsetNat v previous sec≤v+pageSize+sectionAlignment sec := by
  have hin : ∀ x,maskUpNat x (sectionAlignment sec-1)≤x+sectionAlignment sec := by
    intro x
    have := maskUpNat_le x (sectionAlignment sec-1)
    omega
  have hpage := maskUpNat_le v (pageSize-1)
  unfold offsetNat
  split
  · have := hin (maskUpNat v (pageSize-1))
    omega
  · have := hin v
    omega

/-- With modest alignments each turn adds a page and an alignment at most, so that no sum wraps
around. -/
theorem extent_bounded (hm : ModestAlignment f)
    (h : Prog.loopFrom (layoutSection f) i n l=(.ok (),t))
    (hend : ∀ k sec,AllocAt f k sec → sec.size≠0 → (t.sections k).offset+sec.size≤userTop)
    (hl : l.imageSize≤userTop+i*(userTop+pageSize)) (hin : i+n≤65536) :
    extentFrom f i n l.imageSize l.previousProtection=t.imageSize ∧
      t.imageSize≤userTop+(i+n)*(userTop+pageSize) := by
  induction n generalizing i l with
  | zero =>
    cases h
    exact ⟨rfl,hl⟩
  | succ n ih =>
    obtain ⟨_,u,hu,hrest⟩ := Prog.bind_eq_ok.mp h
    obtain ⟨sec,hsec,hcase⟩ := layoutSection_ok hu
    have harith : i+1+n=i+(n+1) := by omega
    rw [← harith]
    rcases hcase with ⟨hna,rfl⟩|⟨ha,hp,_⟩
    · have hstep := ih hrest (le_trans hl (Nat.add_le_add_left
        (Nat.mul_le_mul_right _ (Nat.le_succ i)) _)) (by omega)
      rw [extentFrom,hsec]
      simpa [hna] using hstep
    · have hat : AllocAt f i sec := ⟨hsec,ha⟩
      have halign : sectionAlignment sec≤userTop := by
        have := hm i sec hat
        unfold sectionAlignment
        split
        · decide
        · exact this
      have hoff := offsetNat_le l.imageSize l.previousProtection sec
      have hlt : offsetNat l.imageSize l.previousProtection sec<wordSize := by
        unfold userTop pageSize at *
        unfold wordSize
        omega
      obtain ⟨hplace,hsize⟩ := placed_offset hsec hp hlt
      have hkeep := layoutSections_keeps hrest i (by omega)
      have hnext : u.imageSize=offsetNat l.imageSize l.previousProtection sec+sec.size ∧
          u.imageSize≤userTop+(i+1)*(userTop+pageSize) := by
        by_cases h0 : sec.size=0
        · rw [h0,Nat.add_zero,Nat.mod_eq_of_lt hlt] at hsize
          have hmul : (i+1)*(userTop+pageSize)=i*(userTop+pageSize)+(userTop+pageSize) := by ring
          omega
        · have hk := hend i sec hat h0
          rw [hkeep,hplace] at hk
          rw [Nat.mod_eq_of_lt (lt_of_le_of_lt hk (by decide))] at hsize
          rw [hsize]
          exact ⟨rfl,by omega⟩
      have hstep := ih hrest hnext.2 (by omega)
      rw [extentFrom,hsec]
      simp only [ha]
      rw [hnext.1,hp.previous] at hstep
      exact hstep

theorem Loaded.fits_of_placed {env : Env} {s v t : Load} (h : Loaded env s l v t)
    (hb : s.module.Blank) (hcount : s.module.elf.sectionCount<2^16)
    (hm : ModestAlignment s.module.elf) (hp : t.module.Placed) : LayoutFits s.module.elf := by
  obtain ⟨u,hu⟩ := h.laid
  have hmapped := hu.mapped
  have hlay := hu.layout
  rw [hb.count] at hlay
  have hend : ∀ k sec,AllocAt s.module.elf k sec → sec.size≠0 →
      (l.sections k).offset+sec.size≤userTop := by
    intro k sec hat hne
    have hsize := loadedSize_of hat
    have hk := (hp k (by rw [h.elf]; exact hat.lt) (by rw [h.elf,hsize]; exact hne)).2.1
    dsimp only at hk
    rw [h.elf,h.imageSize,h.offset] at hk
    omega
  have hext := extent_bounded hm hlay hend (Nat.zero_le _) (by omega)
  have hx : extentFrom s.module.elf 0 s.module.elf.sectionCount 0 none≤
      userTop+65536*(userTop+pageSize) := by
    have he : extentFrom s.module.elf 0 s.module.elf.sectionCount 0 none=l.imageSize := hext.1
    have : (0+s.module.elf.sectionCount)*(userTop+pageSize)≤65536*(userTop+pageSize) :=
      Nat.mul_le_mul_right _ (by omega)
    omega
  have hmask := maskUpNat_le (extentFrom s.module.elf 0 s.module.elf.sectionCount 0 none) (pageSize-1)
  refine le_trans (Nat.add_le_add_right (le_trans hmask (Nat.add_le_add_right hx _)) _) ?_
  decide

/-- Mappings 16 MiB apart, records numbered by call, and a provider of the named shims. -/
def Env.sample : Env where
  mmap n _ _ := some (0x40000000+n*0x1000000)
  calloc n := some (n+1)
  mprotect _ := true
  getenv _ := none
  shimSymbols := namedShimSymbols.map fun n => ⟨some n,7⟩
  subsystemSymbols := []
  kvmSymbols := []
  kernelGs := 1
  returnZero := 2
  staticCallPreserveNoop := 3
  usbControlMsgEntry := 4
  externalCallTrampoline := 5
  dmaOps := 6
  pageOffsetBase := 7
  vmemmapBase := 8
  physBase := 9

/-- What `kb_elf_open` reads from a file that starts with `Elf.header count`. -/
def Elf.file (data : Bytes) (size count : Nat) : ElfFile := ⟨data,size,1,62,0,64,64,count,0⟩

def Load.sample (data : Bytes) (size count : Nat) : Load :=
  ⟨Globals.start,KbModule.fresh 1 "sample" (Elf.file data size count) 1⟩

/-- A finished load is safe exactly when the offsets modulo 2^64 keep the sections apart, as sums
within 2^64 do, and, with modest alignments, nothing else. -/
theorem loadSections_safe_iff (env : Env) (data : Bytes) (size : Nat) (elf : ElfFile)
    (self node0 : Nat) (name : String) (s : Load) (hopen : (kbElfOpen data size).val=.ok elf)
    (hs : s.module=KbModule.fresh self name elf node0) (hload : (loadSections env s).1=.ok ()) :
    (SafeLoad env (loadSections env s).2 ↔ Spread elf) ∧
    (LayoutFits elf → SafeLoad env (loadSections env s).2) ∧
    (ModestAlignment elf → (SafeLoad env (loadSections env s).2 ↔ LayoutFits elf)) := by
  have hb : s.module.Blank := hs ▸ KbModule.fresh_blank self name elf node0
  have helf : s.module.elf=elf := congrArg KbModule.elf hs
  have hcount := (kbElfOpen_ok hopen).2.2.2.2.2
  rcases h : loadSections env s with ⟨r,t⟩
  rw [h] at hload
  subst hload
  obtain ⟨l,v,hl⟩ := loadSections_ok hb h
  subst helf
  have hfits : LayoutFits s.module.elf → SafeLoad env t := fun hf =>
    ⟨hl.placed_of_fits hb hf,hl.inside hb (hl.placed_of_fits hb hf)⟩
  exact ⟨hl.safe_iff hb,hfits,fun hm => ⟨fun hs => hl.fits_of_placed hb hcount hm hs.placed,hfits⟩⟩

def Elf.plainSample : Bytes :=
  Elf.withSection (Elf.withSection (Elf.header 2) 0 0 Elf.shtStrtab 0 192 1 0 0 1 0)
    1 0 Elf.shtProgbits 6 193 8 0 0 16 0

def Elf.pairSample : Bytes :=
  Elf.withSection (Elf.withSection (Elf.withSection (Elf.header 3) 0 0 Elf.shtStrtab 0 256 1 0 0 1 0)
    1 0 Elf.shtProgbits 6 257 8 0 0 16 0) 2 0 Elf.shtProgbits 3 257 8 0 0 16 0

theorem loadSections_safe_pairSample : LayoutFits (Elf.file Elf.pairSample 265 3) ∧
      SafeLoad Env.sample (loadSections Env.sample (Load.sample Elf.pairSample 265 3)).2 := by
  have hfit : LayoutFits (file pairSample 265 3) := by decide +kernel
  have hopen : (kbElfOpen pairSample 265).val=.ok (file pairSample 265 3) := by rfl
  have hload : (loadSections Env.sample (Load.sample pairSample 265 3)).1=.ok () := by
    decide +kernel
  exact ⟨hfit,(loadSections_safe_iff Env.sample _ _ _ 1 1 "sample" _ hopen rfl hload).2.1 hfit⟩

/-- Three code sections; the second, without file contents, is 2^64-16 bytes long. -/
def Elf.wrapSample : Bytes :=
  Elf.withSection (Elf.withSection (Elf.withSection (Elf.withSection (Elf.header 4)
    0 0 Elf.shtStrtab 0 320 1 0 0 1 0) 1 0 Elf.shtProgbits 6 321 16 0 0 1 0)
    2 0 Elf.shtNobits 6 0 (2^64-16) 0 0 1 0) 3 0 Elf.shtProgbits 6 321 8 0 0 1 0

/-- The sum wraps to 0, and the third section is laid out over the first. -/
theorem layout_wrap_overlaps :
    (kbElfOpen Elf.wrapSample 337).val=.ok (Elf.file Elf.wrapSample 337 4) ∧
    (loadSections Env.sample (Load.sample Elf.wrapSample 337 4)).1=.ok () ∧
    ¬SafeLoad Env.sample (loadSections Env.sample (Load.sample Elf.wrapSample 337 4)).2 := by
  refine ⟨by rfl,by decide +kernel,?_⟩
  intro h
  have hp : ¬(loadSections Env.sample (Load.sample wrapSample 337 4)).2.module.Placed := by
    decide +kernel
  exact hp h.placed

end Kobox.Loader
