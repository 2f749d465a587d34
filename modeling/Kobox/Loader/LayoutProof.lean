import Kobox.Loader.ElfReaderBounds
import Kobox.Loader.Layout

namespace Kobox.Loader

open Function Prog Or

def AllocAt (f : ElfFile) (i : Nat) (sec : Section) : Prop :=
  (kbElfSection f i).val=.ok sec ∧ Elf.shfAlloc sec.flags=true

variable {f : ElfFile} {i : Nat}

theorem AllocAt.unique {a b : Section} (ha : AllocAt f i a) (hb : AllocAt f i b) : a=b := by
  have h := ha.1.symm.trans hb.1
  exact Except.ok.inj h

variable {sec : Section}

theorem not_allocAt (hsec : (kbElfSection f i).val=.ok sec) (hna : Elf.shfAlloc sec.flags=false)
    (s : Section) : ¬AllocAt f i s := by
  intro hs
  have he := Except.ok.inj (hs.1.symm.trans hsec)
  have halloc := hs.2
  rw [he,hna] at halloc
  cases halloc

/-- What a turn over an allocated section does to the per-CPU fields. -/
def PercpuTurn (sec : Section) (l t : Layout) : Prop :=
  if isPercpuSection sec then
    l.percpuOffset=0 ∧ t.percpuOffset=percpuPlace l.percpuNext (sectionAlignment sec) ∧
      t.percpuOffset≤gsSize ∧ sec.size≤gsSize-t.percpuOffset ∧ t.percpuSize=sec.size ∧
      t.percpuNext=t.percpuOffset+sec.size
  else t.percpuOffset=l.percpuOffset ∧ t.percpuSize=l.percpuSize ∧ t.percpuNext=l.percpuNext

structure PlacedTurn (i : Nat) (sec : Section) (l t : Layout) : Prop where
  sections : t.sections=(placeSection i sec (alignOnChange (sectionProtection sec.flags) l)).sections
  imageSize : t.imageSize=(placeSection i sec (alignOnChange (sectionProtection sec.flags) l)).imageSize
  previous : t.previousProtection=
    if sec.size≠0 then some (sectionProtection sec.flags) else l.previousProtection

@[simp] theorem alignOnChange_previous (p : Nat) (l : Layout) :
    (alignOnChange p l).previousProtection=l.previousProtection := by
  unfold alignOnChange
  split <;> rfl

@[simp] theorem alignOnChange_sections (p : Nat) (l : Layout) :
    (alignOnChange p l).sections=l.sections := by
  unfold alignOnChange
  split <;> rfl

@[simp] theorem alignOnChange_percpu (p : Nat) (l : Layout) :
    (alignOnChange p l).percpuOffset=l.percpuOffset ∧
    (alignOnChange p l).percpuSize=l.percpuSize ∧ (alignOnChange p l).percpuNext=l.percpuNext := by
  unfold alignOnChange
  split <;> exact ⟨rfl,rfl,rfl⟩

variable {l t : Layout}

theorem placePercpu_ok {size alignment : Nat} (h : placePercpu size alignment l=(.ok (),t)) :
    l.percpuOffset=0 ∧ percpuPlace l.percpuNext alignment≤gsSize ∧
      size≤gsSize-percpuPlace l.percpuNext alignment ∧
      t={ l with
        percpuOffset := percpuPlace l.percpuNext alignment
        percpuSize := size
        percpuNext := percpuPlace l.percpuNext alignment+size } := by
  unfold placePercpu at h
  split at h
  · cases h
  next h0 =>
  dsimp only at h
  split at h
  · cases h
  next hfit =>
  cases h
  exact ⟨by omega,by omega,by omega,rfl⟩

theorem placePercpu_error {size alignment : Nat} {e : Status}
    (h : placePercpu size alignment l=(.error e,t)) : t=l := by
  unfold placePercpu at h
  split at h
  · cases h
    rfl
  dsimp only at h
  split at h
  · cases h
    rfl
  · cases h

theorem layoutSection_ok (h : layoutSection f i l=(.ok (),t)) :
    ∃ sec,(kbElfSection f i).val=.ok sec ∧ ((Elf.shfAlloc sec.flags=false ∧ t=l) ∨
        (Elf.shfAlloc sec.flags=true ∧ PlacedTurn i sec l t ∧ PercpuTurn sec l t)) := by
  obtain ⟨sec,u,hread,h⟩ := bind_eq_ok.mp h
  obtain ⟨hsec,rfl⟩ := ofExcept_eq_ok.mp hread
  refine ⟨sec,hsec,?_⟩
  cases halloc : Elf.shfAlloc sec.flags with
  | false =>
    simp only [halloc] at h
    cases h
    exact inl ⟨rfl,rfl⟩
  | true =>
    refine inr ⟨rfl,?_⟩
    simp only [halloc] at h
    obtain ⟨_,v,hv,h⟩ := bind_eq_ok.mp h
    cases hv
    have hper := alignOnChange_percpu (sectionProtection sec.flags) l
    by_cases hp : isPercpuSection sec=true
    · simp only [hp] at h
      obtain ⟨_,w,hw,h⟩ := bind_eq_ok.mp h
      obtain ⟨h0,hle,hfit,hw⟩ := placePercpu_ok hw
      rw [hper.2.2] at hle hfit hw
      rw [hper.1] at h0
      subst hw
      cases h
      refine ⟨⟨rfl,rfl,by simp [placeSection]⟩,?_⟩
      unfold PercpuTurn
      rw [if_pos hp]
      exact ⟨h0,rfl,hle,hfit,rfl,rfl⟩
    · rw [if_neg hp] at h
      cases h
      refine ⟨⟨rfl,rfl,by simp [placeSection]⟩,?_⟩
      unfold PercpuTurn
      rw [if_neg hp]
      exact hper

theorem layoutSection_error {e : Status} (h : layoutSection f i l=(.error e,t)) :
    t.percpuOffset=l.percpuOffset ∧ t.percpuSize=l.percpuSize ∧ t.percpuNext=l.percpuNext := by
  rcases bind_eq_error.mp h with h|⟨sec,u,hu,h⟩
  · obtain ⟨-,rfl⟩ := ofExcept_eq_error.mp h
    exact ⟨rfl,rfl,rfl⟩
  obtain ⟨-,rfl⟩ := ofExcept_eq_ok.mp hu
  cases halloc : Elf.shfAlloc sec.flags with
  | false =>
    simp only [halloc] at h
    cases h
  | true =>
    simp only [halloc] at h
    rcases bind_eq_error.mp h with h|⟨_,v,hv,h⟩
    · cases h
    cases hv
    by_cases hp : isPercpuSection sec=true
    · simp only [hp] at h
      rcases bind_eq_error.mp h with h|⟨_,w,_,h⟩
      · rw [placePercpu_error h]
        exact alignOnChange_percpu _ l
      · cases h
    · rw [if_neg hp] at h
      cases h

/-- After i turns: the headers' values in the entries of the image's sections, zero elsewhere. -/
structure Filled (f : ElfFile) (i : Nat) (l : Layout) : Prop where
  entry : ∀ j sec,j < i → AllocAt f j sec → (l.sections j).base=0 ∧ (l.sections j).size=sec.size ∧
    (l.sections j).flags=sec.flags
  zero : ∀ j,(i≤j ∨ ∀ sec,¬AllocAt f j sec) → l.sections j=LoadedSection.zero
  readable : ∀ j,j < i → ∃ sec,(kbElfSection f j).val=.ok sec

theorem Filled.start (f : ElfFile) (l : Layout) (h : ∀ j,l.sections j=LoadedSection.zero) :
    Filled f 0 l := by
  constructor
  · omega
  · exact fun j _ => h j
  · omega

theorem PlacedTurn.other (hp : PlacedTurn i sec l t) {j : Nat} (hj : j≠i) :
    t.sections j=l.sections j := by
  rw [hp.sections]
  simp [placeSection,update_of_ne hj]

theorem Filled.step (hl : Filled f i l) (h : layoutSection f i l=(.ok (),t)) :
    Filled f (i+1) t := by
  obtain ⟨sec,hsec,hcase⟩ := layoutSection_ok h
  have hread : ∀ j,j < i+1 → ∃ sec,(kbElfSection f j).val=.ok sec := by
    intro j hj
    by_cases he : j=i
    · exact ⟨sec,he ▸ hsec⟩
    · exact hl.readable j (by omega)
  rcases hcase with ⟨hna,rfl⟩|⟨ha,hp,_⟩
  · have hnot := not_allocAt hsec hna
    refine ⟨?_,?_,hread⟩
    · intro j s hj hs
      by_cases he : j=i
      · exact absurd (he ▸ hs) (hnot s)
      · exact hl.entry j s (by omega) hs
    · intro j hj
      by_cases he : j=i
      · exact hl.zero j (inr (he ▸ hnot))
      · rcases hj with hj|hj
        · exact hl.zero j (inl (by omega))
        · exact hl.zero j (inr hj)
  · refine ⟨?_,?_,hread⟩
    · intro j s hj hs
      by_cases he : j=i
      · subst he
        have hss := hs.unique ⟨hsec,ha⟩
        have hz := hl.zero j (inl le_rfl)
        rw [hp.sections]
        simp [placeSection,hss,hz,LoadedSection.zero]
      · rw [hp.other he]
        exact hl.entry j s (by omega) hs
    · intro j hj
      have hne : j≠i := by
        rintro rfl
        rcases hj with hj|hj
        · omega
        · exact hj sec ⟨hsec,ha⟩
      rw [hp.other hne]
      rcases hj with hj|hj
      · exact hl.zero j (inl (by omega))
      · exact hl.zero j (inr hj)

/-- Offset the section would get if numbers had no upper bound. -/
def offsetNat (v : Nat) (previous : Option Nat) (sec : Section) : Nat :=
  maskUpNat (if protectionChanges previous (sectionProtection sec.flags) then
    maskUpNat v (pageSize-1) else v) (sectionAlignment sec-1)

/-- End of the last of n sections from i on, laid out from v without an upper bound. -/
def extentFrom (f : ElfFile) (i : Nat) : Nat → Nat → Option Nat → Nat
  | 0,v,_ => v
  | n+1,v,previous =>
    match (kbElfSection f i).val with
    | .error _ => v
    | .ok sec =>
      if Elf.shfAlloc sec.flags then
        extentFrom f (i+1) n (offsetNat v previous sec+sec.size)
          (if sec.size≠0 then some (sectionProtection sec.flags) else previous)
      else extentFrom f (i+1) n v previous

def layoutExtent (f : ElfFile) : Nat :=
  maskUpNat (extentFrom f 0 f.sectionCount 0 none) (pageSize-1)+shimRegionSize

def LayoutFits (f : ElfFile) : Prop := layoutExtent f≤wordSize

instance (f : ElfFile) : Decidable (LayoutFits f) := inferInstanceAs (Decidable (_≤_))

theorem le_offsetNat (v : Nat) (previous : Option Nat) (sec : Section) :
    v≤offsetNat v previous sec := by
  unfold offsetNat
  split
  · exact le_trans (le_maskUpNat v _) (le_maskUpNat _ _)
  · exact le_maskUpNat v _

theorem le_extentFrom (f : ElfFile) (i n v : Nat) (previous : Option Nat) :
    v≤extentFrom f i n v previous := by
  induction n generalizing i v previous with
  | zero => exact le_rfl
  | succ n ih =>
    rw [extentFrom]
    split
    · exact le_rfl
    next sec _ =>
    split
    · have h := le_offsetNat v previous sec
      exact le_trans (by omega) (ih _ _ _)
    · exact ih _ _ _

theorem alignUpU64_eq {v a : Nat} (ha : a<wordSize) (h : maskUpNat v (a-1)<wordSize) :
    alignUpU64 v a=maskUpNat v (a-1) := by
  unfold alignUpU64
  split
  · next h0 => simp [h0,maskUpNat]
  · exact maskUp_eq_of_lt v (a-1) (by omega) h

theorem sectionAlignment_lt (h : (kbElfSection f i).val=.ok sec) :
    sectionAlignment sec<wordSize := by
  have hw := (kbElfSection_words h).2.2
  unfold sectionAlignment
  split
  · decide
  · exact hw

theorem placed_offset (hsec : (kbElfSection f i).val=.ok sec) (h : PlacedTurn i sec l t)
    (hfit : offsetNat l.imageSize l.previousProtection sec<wordSize) :
    (t.sections i).offset=offsetNat l.imageSize l.previousProtection sec ∧
    t.imageSize=(offsetNat l.imageSize l.previousProtection sec+sec.size)%wordSize := by
  have hpage : pageSize<wordSize := by decide
  have halign := sectionAlignment_lt hsec
  have hinner : (alignOnChange (sectionProtection sec.flags) l).imageSize=
      if protectionChanges l.previousProtection (sectionProtection sec.flags) then
        maskUpNat l.imageSize (pageSize-1) else l.imageSize := by
    unfold alignOnChange
    unfold offsetNat at hfit
    split
    · next hc =>
      rw [if_pos hc] at hfit
      exact alignUpU64_eq hpage (lt_of_le_of_lt (le_maskUpNat _ _) hfit)
    · rfl
  have hoff : alignUpU64 (alignOnChange (sectionProtection sec.flags) l).imageSize
      (sectionAlignment sec)=offsetNat l.imageSize l.previousProtection sec := by
    rw [hinner]
    exact alignUpU64_eq halign hfit
  rw [h.sections,h.imageSize]
  simp [placeSection,hoff]

theorem maskUpNat_page (v : Nat) : maskUpNat v (pageSize-1)=(v+4095)/4096*4096 := by
  have h := maskUpNat_two_pow v 12
  simpa [pageSize] using h

/-- Where the sections lie after i turns without a wrap-around. -/
structure Ordered (f : ElfFile) (i : Nat) (l : Layout) : Prop where
  below : ∀ j sec,j < i → AllocAt f j sec → (l.sections j).offset+sec.size≤l.imageSize
  ordered : ∀ j k a b,j<k → k < i → AllocAt f j a → AllocAt f k b →
    (l.sections j).offset+a.size≤(l.sections k).offset
  paged : ∀ j k a b,j<k → k < i → AllocAt f j a → AllocAt f k b → a.size≠0 → b.size≠0 →
    sectionProtection a.flags≠sectionProtection b.flags →
    ∃ p,(l.sections j).offset+a.size≤p*pageSize ∧ p*pageSize≤(l.sections k).offset
  tail : ∀ j sec,j < i → AllocAt f j sec → sec.size≠0 →
    l.previousProtection≠none ∧ (l.previousProtection≠some (sectionProtection sec.flags) →
      ∃ p,(l.sections j).offset+sec.size≤p*pageSize ∧ p*pageSize≤l.imageSize)

theorem Ordered.start (f : ElfFile) (l : Layout) : Ordered f 0 l := by
  constructor
  · omega
  · omega
  · omega
  · omega

private theorem ordered_new (hl : Ordered f i l) (j : Nat) (a : Section) (hj : j < i)
    (ha : AllocAt f j a) :
    (l.sections j).offset+a.size≤offsetNat l.imageSize l.previousProtection sec ∧
    (a.size≠0 → sectionProtection a.flags≠sectionProtection sec.flags →
      ∃ p,(l.sections j).offset+a.size≤p*pageSize ∧
        p*pageSize≤offsetNat l.imageSize l.previousProtection sec) := by
  have hbelow := hl.below j a hj ha
  have hoff := le_offsetNat l.imageSize l.previousProtection sec
  refine ⟨by omega,?_⟩
  intro hne hprot
  obtain ⟨hsome,htail⟩ := hl.tail j a hj ha hne
  by_cases hc : protectionChanges l.previousProtection (sectionProtection sec.flags)
  · refine ⟨(l.imageSize+4095)/4096,?_,?_⟩
    · unfold pageSize
      omega
    have hm : maskUpNat l.imageSize (pageSize-1)≤offsetNat l.imageSize l.previousProtection sec := by
      unfold offsetNat
      rw [if_pos hc]
      exact le_maskUpNat _ _
    rw [maskUpNat_page] at hm
    exact hm
  · have hprev : l.previousProtection=some (sectionProtection sec.flags) := by
      by_contra hx
      exact hc ⟨hsome,hx⟩
    have hdiff : l.previousProtection≠some (sectionProtection a.flags) := by
      rw [hprev]
      intro hx
      exact hprot (Option.some.inj hx).symm
    obtain ⟨p,hp1,hp2⟩ := htail hdiff
    exact ⟨p,hp1,by omega⟩

theorem Ordered.step (hl : Ordered f i l) (h : layoutSection f i l=(.ok (),t))
    (hfit : ∀ sec,AllocAt f i sec →
      offsetNat l.imageSize l.previousProtection sec+sec.size<wordSize) : Ordered f (i+1) t := by
  obtain ⟨sec,hsec,hcase⟩ := layoutSection_ok h
  rcases hcase with ⟨hna,rfl⟩|⟨halloc,hp,_⟩
  · have hlt : ∀ j s,j < i+1 → AllocAt f j s → j < i := by
      intro j s hj hs
      by_contra hge
      have he : j=i := by omega
      exact not_allocAt hsec hna s (he ▸ hs)
    constructor
    · exact fun j s hj hs => hl.below j s (hlt j s hj hs) hs
    · exact fun j k a b hjk hk ha hb => hl.ordered j k a b hjk (hlt k b hk hb) ha hb
    · exact fun j k a b hjk hk ha hb => hl.paged j k a b hjk (hlt k b hk hb) ha hb
    · exact fun j s hj hs => hl.tail j s (hlt j s hj hs) hs
  have hat : AllocAt f i sec := ⟨hsec,halloc⟩
  have hsum := hfit sec hat
  obtain ⟨hoff,himg⟩ := placed_offset hsec hp (by omega)
  rw [Nat.mod_eq_of_lt hsum] at himg
  have hge := le_offsetNat l.imageSize l.previousProtection sec
  constructor
  · intro j s hj hs
    by_cases he : j=i
    · subst he
      rw [hs.unique hat,hoff,himg]
    · rw [hp.other he]
      have := hl.below j s (by omega) hs
      omega
  · intro j k a b hjk hk ha hb
    rw [hp.other (by omega)]
    by_cases he : k=i
    · subst he
      rw [hoff]
      exact (ordered_new hl j a (by omega) ha).1
    · rw [hp.other he]
      exact hl.ordered j k a b hjk (by omega) ha hb
  · intro j k a b hjk hk ha hb hna hnb hprot
    rw [hp.other (by omega)]
    by_cases he : k=i
    · subst he
      rw [hoff]
      rw [hb.unique hat] at hprot
      exact (ordered_new hl j a (by omega) ha).2 hna hprot
    · rw [hp.other he]
      exact hl.paged j k a b hjk (by omega) ha hb hna hnb hprot
  · intro j s hj hs hne
    rw [hp.previous]
    by_cases he : j=i
    · subst he
      have hss := hs.unique hat
      rw [hss] at hne ⊢
      rw [if_pos hne]
      exact ⟨Option.some_ne_none _,fun hx => absurd rfl hx⟩
    · rw [hp.other he]
      obtain ⟨hsome,htail⟩ := hl.tail j s (by omega) hs hne
      split
      · refine ⟨Option.some_ne_none _,?_⟩
        intro hx
        have hprot : sectionProtection s.flags≠sectionProtection sec.flags := by
          intro hxx
          rw [hxx] at hx
          exact hx rfl
        obtain ⟨p,hp1,hp2⟩ := (ordered_new hl j s (by omega) hs).2 hne hprot
        exact ⟨p,hp1,by omega⟩
      · refine ⟨hsome,?_⟩
        intro hx
        obtain ⟨p,hp1,hp2⟩ := htail hx
        exact ⟨p,hp1,by omega⟩

variable {n : Nat}

theorem extentFrom_step (h : layoutSection f i l=(.ok (),t))
    (hfit : extentFrom f i (n+1) l.imageSize l.previousProtection<wordSize) :
    extentFrom f (i+1) n t.imageSize t.previousProtection=
      extentFrom f i (n+1) l.imageSize l.previousProtection ∧
    ∀ sec,AllocAt f i sec → offsetNat l.imageSize l.previousProtection sec+sec.size<wordSize := by
  obtain ⟨sec,hsec,hcase⟩ := layoutSection_ok h
  rw [extentFrom,hsec] at hfit ⊢
  dsimp only at hfit ⊢
  rcases hcase with ⟨hna,rfl⟩|⟨halloc,hp,_⟩
  · rw [hna] at hfit ⊢
    refine ⟨rfl,?_⟩
    intro s hs
    exact absurd hs (not_allocAt hsec hna s)
  · rw [if_pos halloc] at hfit ⊢
    have hle := le_extentFrom f (i+1) n (offsetNat l.imageSize l.previousProtection sec+sec.size)
      (if sec.size≠0 then some (sectionProtection sec.flags) else l.previousProtection)
    obtain ⟨_,himg⟩ := placed_offset hsec hp (by omega)
    rw [Nat.mod_eq_of_lt (by omega)] at himg
    rw [himg,hp.previous]
    refine ⟨rfl,?_⟩
    intro s hs
    rw [hs.unique ⟨hsec,halloc⟩]
    omega

theorem layoutSections_fits (h : layoutSections f n l=(.ok (),t)) (h0 : l.imageSize=0)
    (hn : l.previousProtection=none) (hfit : extentFrom f 0 n 0 none<wordSize) :
    Ordered f n t ∧ t.imageSize=extentFrom f 0 n 0 none := by
  have hloop := loopFrom_ok (I := fun j s => Ordered f j s ∧ ∃ k,j+k=n ∧
      extentFrom f j k s.imageSize s.previousProtection=extentFrom f 0 n 0 none)
    0 n ?_ ⟨Ordered.start f l,n,by omega,by rw [h0,hn]⟩ h
  · rw [Nat.zero_add] at hloop
    obtain ⟨hord,k,hk,hext⟩ := hloop
    have hz : k=0 := by omega
    subst hz
    exact ⟨hord,hext⟩
  · intro j s u _ hj hs hbody
    obtain ⟨hord,k,hk,hext⟩ := hs
    obtain ⟨k,rfl⟩ : ∃ m,k=m+1 := ⟨k-1,by omega⟩
    have hstep := extentFrom_step hbody (by rw [hext]; exact hfit)
    exact ⟨hord.step hbody hstep.2,k,by omega,hstep.1.trans hext⟩

theorem layoutSections_filled (h : layoutSections f n l=(.ok (),t))
    (h0 : ∀ j,l.sections j=LoadedSection.zero) : Filled f n t := by
  have hloop := loopFrom_ok (I := fun j s => Filled f j s) 0 n
    (fun j s u _ _ hs hb => hs.step hb) (Filled.start f l h0) h
  rwa [Nat.zero_add] at hloop

end Kobox.Loader
