import Kobox.Loader.ElfReader

namespace Kobox.Loader

open Traced Except Traced

/-- No read of the computation is at or past offset n. -/
def Within (n : Nat) {α : Type} (x : Read α) : Prop := All (fun off => off<n) x

section

variable (data : Bytes) (p : Nat)

theorem readU16le_lt : (readU16le data p).val<2^16 := by
  have h0 := (data p).toNat_lt
  have h1 := (data (p+1)).toNat_lt
  simp only [readU16le,byteAt,val_bind,val_emit,val_pure]
  omega

theorem readU32le_lt : (readU32le data p).val<2^32 := by
  have h0 := (data p).toNat_lt
  have h1 := (data (p+1)).toNat_lt
  have h2 := (data (p+2)).toNat_lt
  have h3 := (data (p+3)).toNat_lt
  simp only [readU32le,byteAt,val_bind,val_emit,val_pure]
  omega

theorem readU64le_lt : (readU64le data p).val<wordSize := by
  have h0 := readU32le_lt data p
  have h1 := readU32le_lt data (p+4)
  simp only [readU64le,val_bind,val_pure,wordSize]
  omega

end

variable {f : ElfFile} {data : Bytes} {i k size p : Nat} {offset length : Nat}

theorem rangeFits_iff :
    rangeFits size offset length=true ↔ offset ≤ size ∧ length ≤ size-offset := by
  simp [rangeFits]

theorem rangeFits_end (h : rangeFits size offset length=true) : offset+length ≤ size := by
  have hh := (rangeFits_iff).mp h
  omega

theorem end_of_fits (h : ¬(!rangeFits size offset length)=true) :
    offset+length ≤ size := rangeFits_end (by simpa using h)

section Reads

variable {n : Nat} {α β : Type}

@[simp] theorem within_pure {a : α} : Within n (pure a : Read α) := all_pure _ a

@[simp] theorem within_bind {x : Read α} {f : α → Read β} :
    Within n (x >>= f) ↔ Within n x ∧ Within n (f x.val) := all_bind

@[simp] theorem within_ite {c : Prop} [Decidable c] {x y : Read α} :
    Within n (if c then x else y) ↔ (c → Within n x) ∧ (¬c → Within n y) := all_ite

@[simp] theorem within_byteAt : Within n (byteAt data p) ↔ p<n := all_emit _

@[simp] theorem within_readU16le : Within n (readU16le data p) ↔ p+2≤n := by
  simp only [readU16le,within_bind,within_byteAt,within_pure,and_true]
  omega

@[simp] theorem within_readU32le : Within n (readU32le data p) ↔ p+4≤n := by
  simp only [readU32le,within_bind,within_byteAt,within_pure,and_true]
  omega

@[simp] theorem within_readU64le : Within n (readU64le data p) ↔ p+8≤n := by
  simp only [readU64le,within_bind,within_readU32le,within_pure,and_true]
  omega

variable (k pos : Nat)

theorem scanNul_within (h : pos+k≤n) : Within n (scanNul data pos k) := by
  induction k generalizing pos with
  | zero => simp [scanNul]
  | succ k ih =>
    have hpos : pos<n := by omega
    simp [scanNul,hpos,ih (pos+1) (by omega)]

theorem sectionName_within {strings offset : Nat} (h : strings+size≤n) :
    Within n (boundedSectionName data strings size offset) := by
  simp only [boundedSectionName,within_ite,within_bind,within_pure,implies_true,true_and]
  intro hlt
  refine ⟨scanNul_within _ _ (by omega),?_⟩
  split <;> simp

theorem skipNul_within (h : pos+k≤n) : Within n (skipNul data pos k) := by
  induction k generalizing pos with
  | zero => simp [skipNul]
  | succ k ih =>
    have hpos : pos<n := by omega
    simp [skipNul,hpos,ih (pos+1) (by omega)]

theorem skipEntry_within (h : pos+k≤n) : Within n (skipEntry data pos k) := by
  induction k generalizing pos with
  | zero => simp [skipEntry]
  | succ k ih =>
    have hpos : pos<n := by omega
    simp [skipEntry,hpos,ih (pos+1) (by omega)]

theorem findEquals_within (h : pos+k≤n) : Within n (findEquals data pos k) := by
  induction k generalizing pos with
  | zero => simp [findEquals]
  | succ k ih =>
    have hpos : pos<n := by omega
    simp [findEquals,hpos,ih (pos+1) (by omega)]

theorem scanNul_found (bs : List UInt8) (h : (scanNul data pos k).val=some bs) :
    bs.length<k ∧ data (pos+bs.length)=0 ∧
      ∀ i,i<bs.length → data (pos+i)=bs.getD i 0 ∧ data (pos+i)≠0 := by
  induction k generalizing pos bs with
  | zero => cases h
  | succ k ih =>
    simp only [scanNul,val_bind] at h
    have hb : (byteAt data pos).val=data pos := rfl
    rw [hb] at h
    by_cases hz : data pos=0
    · simp only [hz,if_true,val_pure,Option.some.injEq] at h
      subst h
      exact ⟨by simp,by simpa using hz,by simp⟩
    simp only [hz,if_false,val_bind] at h
    cases hr : (scanNul data (pos+1) k).val with
    | none => simp [hr] at h
    | some rest =>
      rw [hr] at h
      have he : bs=data pos::rest := by simpa using h.symm
      subst he
      obtain ⟨hl,hn,hi⟩ := ih (pos+1) rest hr
      refine ⟨by simp; omega,?_,?_⟩
      · rw [List.length_cons,show pos+(rest.length+1)=pos+1+rest.length by omega]
        exact hn
      intro i hlt
      cases i with
      | zero => exact ⟨rfl,hz⟩
      | succ i =>
        rw [show pos+(i+1)=pos+1+i by omega]
        exact hi i (by simpa using hlt)

variable (data)

theorem skipNul_spec : pos≤(skipNul data pos k).val.1 ∧
    (skipNul data pos k).val.1+(skipNul data pos k).val.2=pos+k ∧
    ((skipNul data pos k).val.2≠0 → data (skipNul data pos k).val.1≠0) := by
  induction k generalizing pos with
  | zero => exact ⟨le_rfl,rfl,fun h => absurd rfl h⟩
  | succ k ih =>
    by_cases hz : data pos=0
    · have he : (skipNul data pos (k+1)).val=(skipNul data (pos+1) k).val := by
        simp [skipNul,byteAt,hz]
      rw [he]
      obtain ⟨hl,hs,hd⟩ := ih (pos+1)
      exact ⟨by omega,by omega,hd⟩
    · have he : (skipNul data pos (k+1)).val=(pos,k+1) := by simp [skipNul,byteAt,hz]
      rw [he]
      exact ⟨le_rfl,rfl,fun _ => hz⟩

theorem skipEntry_spec : pos≤(skipEntry data pos k).val.1 ∧
    (skipEntry data pos k).val.1+(skipEntry data pos k).val.2=pos+k ∧
    (∀ a,pos≤a → a<(skipEntry data pos k).val.1 → data a≠0) ∧
    ((skipEntry data pos k).val.2≠0 → data (skipEntry data pos k).val.1=0) := by
  induction k generalizing pos with
  | zero =>
    refine ⟨le_rfl,rfl,?_,fun h => absurd rfl h⟩
    intro a hl hu
    have hu' : a<pos := hu
    omega
  | succ k ih =>
    by_cases hz : data pos=0
    · have he : (skipEntry data pos (k+1)).val=(pos,k+1) := by simp [skipEntry,byteAt,hz]
      rw [he]
      refine ⟨le_rfl,rfl,?_,fun _ => hz⟩
      omega
    · have he : (skipEntry data pos (k+1)).val=(skipEntry data (pos+1) k).val := by
        simp [skipEntry,byteAt,hz]
      rw [he]
      obtain ⟨hl,hs,hd,hn⟩ := ih (pos+1)
      refine ⟨by omega,by omega,?_,hn⟩
      intro a ha hu
      by_cases hp : a=pos
      · exact hp ▸ hz
      · exact hd a (by omega) hu

theorem findEquals_le : (findEquals data pos k).val≤k := by
  induction k generalizing pos with
  | zero => exact le_rfl
  | succ k ih =>
    by_cases hz : data pos=0x3d
    · simp [findEquals,byteAt,hz]
    · have h := ih (pos+1)
      simp [findEquals,byteAt,hz,h]

end Reads

def HeaderFits (f : ElfFile) (i : Nat) : Prop := i<f.sectionCount ∧ f.headerOffset i+64≤f.size ∧
    f.headerOffset f.sectionNameIndex+64≤f.size

theorem sectionNameAt_within {stringsOffset stringsSize : Nat} (h : p+4≤f.size) :
    Within f.size (sectionNameAt f p stringsOffset stringsSize) := by
  simp only [sectionNameAt,within_ite,within_bind,within_readU32le,within_pure,implies_true,
    and_true]
  exact fun hr => ⟨h,sectionName_within (rangeFits_end hr)⟩

theorem kbElfSection_within : Within f.size (kbElfSection f i) := by
  simp only [kbElfSection,within_ite,within_bind,within_readU32le,within_readU64le,within_pure,
    implies_true,true_and,and_true]
  intro _ hs hn
  have hsec := end_of_fits hs
  have hname := end_of_fits hn
  refine ⟨?_,?_,sectionNameAt_within (by omega),?_⟩ <;> omega

variable {sec : Section}

theorem kbElfSection_ok (h : (kbElfSection f i).val=.ok sec) : HeaderFits f i ∧
    sec.offset=(readU64le f.data (f.headerOffset i+24)).val ∧
    sec.size=(readU64le f.data (f.headerOffset i+32)).val ∧
    sec.name=(sectionNameAt f (f.headerOffset i)
      (readU64le f.data (f.headerOffset f.sectionNameIndex+24)).val
      (readU64le f.data (f.headerOffset f.sectionNameIndex+32)).val).val := by
  simp only [kbElfSection,val_ite,val_bind,val_pure,ite_error_eq_ok,ok.injEq] at h
  obtain ⟨hc,hs,hn,rfl⟩ := h
  exact ⟨⟨by omega,end_of_fits hs,end_of_fits hn⟩,rfl,rfl,rfl⟩

theorem kbElfSection_words (h : (kbElfSection f i).val=.ok sec) :
    sec.offset<wordSize ∧ sec.size<wordSize ∧ sec.alignment<wordSize := by
  simp only [kbElfSection,val_ite,val_bind,val_pure,ite_error_eq_ok,ok.injEq] at h
  obtain ⟨-,-,-,rfl⟩ := h
  exact ⟨readU64le_lt _ _,readU64le_lt _ _,readU64le_lt _ _⟩

theorem kbElfSection_of_fits (h : HeaderFits f i) : ∃ sec,(kbElfSection f i).val=.ok sec := by
  obtain ⟨hc,hs,hn⟩ := h
  unfold kbElfSection
  rw [if_neg (by omega),if_neg (by simp [rangeFits_iff]; omega),
    if_neg (by simp [rangeFits_iff]; omega)]
  exact ⟨_,rfl⟩

/-- [start,stop) is a stretch of the j-th section without NUL, closed by a NUL inside that section. -/
def Terminated (f : ElfFile) (j start stop : Nat) : Prop :=
  ∃ sec,(kbElfSection f j).val=.ok sec ∧ sec.offset ≤ start ∧ start ≤ stop ∧
    stop<sec.offset+sec.size ∧ sec.offset+sec.size≤f.size ∧ f.data stop=0 ∧
    ∀ a,start≤a → a<stop → f.data a≠0

/-- A returned name is the literal `""` or the bytes of a terminated stretch of section j. -/
def NameFrom (f : ElfFile) (j : Nat) (n : CName) : Prop :=
  n=CName.empty ∨ ∃ start,n.start=some start ∧ Terminated f j start (start+n.bytes.length) ∧
    ∀ k,k<n.bytes.length → f.data (start+k)=n.bytes.getD k 0

theorem sectionName_from {j offset : Nat} (hsec : (kbElfSection f j).val=.ok sec) (hfit : sec.offset+sec.size≤f.size) :
    NameFrom f j (boundedSectionName f.data sec.offset sec.size offset).val := by
  unfold boundedSectionName
  split
  · exact Or.inl rfl
  rw [val_bind]
  cases hs : (scanNul f.data (sec.offset+offset) (sec.size-offset)).val with
  | none => exact Or.inl rfl
  | some bs =>
    obtain ⟨hl,hn,hb⟩ := scanNul_found _ _ _ hs
    refine Or.inr ⟨sec.offset+offset,rfl,?_,fun k hk => (hb k hk).1⟩
    refine ⟨sec,hsec,by omega,by omega,?_,hfit,hn,?_⟩
    · change sec.offset+offset+bs.length<sec.offset+sec.size
      omega
    · intro a hl' hu'
      have hu : a<sec.offset+offset+bs.length := hu'
      have ha := (hb (a-(sec.offset+offset)) (by omega)).2
      rwa [show sec.offset+offset+(a-(sec.offset+offset))=a by omega] at ha

theorem kbElfSection_name (hidx : f.sectionNameIndex<f.sectionCount)
    (h : (kbElfSection f i).val=.ok sec) : NameFrom f f.sectionNameIndex sec.name := by
  obtain ⟨hfit,-,-,hname⟩ := kbElfSection_ok h
  obtain ⟨strs,hstrs⟩ := kbElfSection_of_fits ⟨hidx,hfit.2.2,hfit.2.2⟩
  obtain ⟨-,hoff,hsize,-⟩ := kbElfSection_ok hstrs
  rw [← hoff,← hsize] at hname
  rw [hname,sectionNameAt]
  split
  · next hr => exact sectionName_from hstrs (rangeFits_end hr)
  · exact Or.inl rfl

theorem strcmpFrom_within {cs : List UInt8} {stop n : Nat} (pos : Nat) (hle : pos ≤ stop) (hn : stop<n)
    (hz : data stop=0) : Within n (strcmpFrom data pos cs) := by
  induction cs generalizing pos with
  | nil => simp [strcmpFrom]
  | cons c cs ih =>
    simp only [strcmpFrom,within_bind,within_byteAt,within_ite,within_pure,implies_true,true_and]
    refine ⟨by omega,fun hb hc => ?_⟩
    have hpos : pos≠stop := by
      intro he
      subst he
      have heq : data pos=c := by simpa [byteAt] using hb
      exact hc (heq ▸ hz)
    exact ih (pos+1) (by omega)

theorem strcmpEq_within {j : Nat} {n : CName} (s : String) (h : NameFrom f j n) :
    Within f.size (strcmpEq f n s) := by
  rcases h with rfl|⟨start,hs,⟨sec,-,-,hle,hlt,hfit,hz,-⟩,-⟩
  · simp [strcmpEq,CName.empty]
  · unfold strcmpEq
    rw [hs]
    exact strcmpFrom_within start hle (by omega) hz

theorem kbElfSymbolCount_within : Within f.size (kbElfSymbolCount f i) := by
  refine within_bind.mpr ⟨kbElfSection_within,?_⟩
  split <;> simp

theorem kbElfSymbol_within : Within f.size (kbElfSymbol f i k) := by
  refine within_bind.mpr ⟨kbElfSection_within,?_⟩
  split
  · simp
  simp only [within_ite,within_bind,within_pure,implies_true,true_and]
  intro _ _ _ _
  refine ⟨kbElfSection_within,?_⟩
  split
  · simp
  simp only [within_ite,within_bind,within_byteAt,within_readU16le,within_readU32le,
    within_readU64le,within_pure,implies_true,true_and,and_true]
  intro _ hs hr
  have hsym := end_of_fits hr
  refine ⟨?_,?_,sectionName_within (end_of_fits hs),?_⟩ <;> omega

theorem kbElfSymbol_name {sym : Symbol} (h : (kbElfSymbol f i k).val=.ok sym) :
    ∃ sec,(kbElfSection f i).val=.ok sec ∧ NameFrom f sec.link sym.name := by
  simp only [kbElfSymbol,val_bind] at h
  cases hsec : (kbElfSection f i).val with
  | error e => simp [hsec] at h
  | ok sec =>
    simp only [hsec,val_ite,val_bind,val_pure,ite_error_eq_ok] at h
    obtain ⟨-,-,-,-,h⟩ := h
    cases hstr : (kbElfSection f sec.link).val with
    | error e => simp [hstr] at h
    | ok strings =>
      simp only [hstr,val_ite,val_bind,val_pure,ite_error_eq_ok,ok.injEq] at h
      obtain ⟨-,hs,-,rfl⟩ := h
      exact ⟨sec,rfl,sectionName_from hstr (end_of_fits hs)⟩

theorem kbElfRelocationCount_within : Within f.size (kbElfRelocationCount f i) := by
  refine within_bind.mpr ⟨kbElfSection_within,?_⟩
  split <;> simp

theorem kbElfRelocation_within : Within f.size (kbElfRelocation f i k) := by
  refine within_bind.mpr ⟨kbElfSection_within,?_⟩
  split
  · simp
  next sec hsec =>
  simp only [within_ite,within_bind,within_readU64le,within_pure,implies_true,true_and,and_true,
    relocationAddend]
  intro _ _ _ _ hr
  have hfit := end_of_fits hr
  have hsize : 16 ≤ relocationEntrySize sec.type := by unfold relocationEntrySize; split <;> omega
  refine ⟨by omega,by omega,fun ha => ?_⟩
  have hrela : relocationEntrySize sec.type=24 := if_pos (by simpa using ha)
  omega

theorem modinfoSectionFrom_within (hidx : f.sectionNameIndex<f.sectionCount) (n i : Nat) :
    Within f.size (modinfoSectionFrom f i n) := by
  induction n generalizing i with
  | zero => simp [modinfoSectionFrom]
  | succ n ih =>
    refine within_bind.mpr ⟨kbElfSection_within,?_⟩
    split
    · simp
    · next sec hsec =>
      have hname := strcmpEq_within ".modinfo" (kbElfSection_name hidx hsec)
      simp [hname,ih]

theorem sectionBytes_within : Within f.size (sectionBytes f i) := by
  refine within_bind.mpr ⟨kbElfSection_within,?_⟩
  split <;> simp

theorem modinfoBytes_within (hidx : f.sectionNameIndex<f.sectionCount) :
    Within f.size (modinfoBytes f i) := by
  refine within_bind.mpr ⟨kbElfSection_within,?_⟩
  split
  · simp
  next sec hsec =>
  refine within_bind.mpr ⟨strcmpEq_within _ (kbElfSection_name hidx hsec),?_⟩
  refine within_ite.mpr ⟨fun _ => within_pure,fun _ => ?_⟩
  refine within_bind.mpr ⟨sectionBytes_within,?_⟩
  split <;> simp

variable {cursor left n : Nat}

theorem modinfoBytes_ok {bytes : Nat} (h : (modinfoBytes f i).val=.ok (bytes,size)) :
    ∃ sec,(kbElfSection f i).val=.ok sec ∧ sec.offset=bytes ∧ sec.size=size ∧
      bytes+size≤f.size := by
  simp only [modinfoBytes,val_bind] at h
  cases hsec : (kbElfSection f i).val with
  | error e => simp [hsec] at h
  | ok sec =>
    simp only [hsec,val_ite,val_bind,val_pure,ite_error_eq_ok,sectionBytes] at h
    obtain ⟨-,h⟩ := h
    by_cases hr : (!rangeFits f.size sec.offset sec.size)=true
    · simp only [if_pos hr] at h
      cases h
    · simp only [if_neg hr] at h
      obtain ⟨rfl,rfl⟩ := h
      exact ⟨sec,rfl,rfl,rfl,end_of_fits hr⟩

theorem nextNulEntry_within (h : cursor+left≤n) :
    Within n (nextNulEntry data cursor left) := by
  have hskip := skipNul_spec data left cursor
  have hentry : Within n (skipEntry data (skipNul data cursor left).val.1
      (skipNul data cursor left).val.2) := skipEntry_within _ _ (by omega)
  simp [nextNulEntry,skipNul_within left cursor h,hentry]

/-- An entry found from the cursor is a NUL-free stretch closed by a NUL before the end. -/
theorem nextNulEntry_entry {start cursor' left' : Nat}
    (h : (nextNulEntry data cursor left).val=.entry start size cursor' left') :
    cursor ≤ start ∧ cursor'=start+size+1 ∧ cursor'+left'=cursor+left ∧ left'<left ∧
      data (start+size)=0 ∧ ∀ a,start≤a → a<start+size → data a≠0 := by
  unfold nextNulEntry at h
  rw [val_bind] at h
  have hskip := skipNul_spec data left cursor
  rcases hp : (skipNul data cursor left).val with ⟨pos,rest⟩
  rw [hp] at h hskip
  by_cases hrest : rest=0
  · simp only [hrest] at h
    cases h
  simp only [if_neg hrest,val_bind] at h
  have hentry := skipEntry_spec data rest pos
  rcases hq : (skipEntry data pos rest).val with ⟨stop,tail⟩
  rw [hq] at h hentry
  by_cases htail : tail=0
  · simp only [htail] at h
    cases h
  simp only [if_neg htail,val_pure,NextEntry.entry.injEq] at h
  have hstop : start+size=stop := by omega
  refine ⟨by omega,by omega,by omega,by omega,?_,?_⟩
  · rw [hstop]
    exact hentry.2.2.2 htail
  · intro a hl hu
    exact hentry.2.2.1 a (by omega) (by omega)

theorem countEntries_within {fuel count : Nat} (h : cursor+left≤n) :
    Within n (countEntries data fuel cursor left count) := by
  induction fuel generalizing cursor left count with
  | zero => simp [countEntries]
  | succ fuel ih =>
    refine within_ite.mpr ⟨fun _ => within_pure,fun _ => ?_⟩
    refine within_bind.mpr ⟨nextNulEntry_within h,?_⟩
    split
    · simp
    · simp
    · next hnext =>
      have he := nextNulEntry_entry hnext
      exact ih (by omega)

theorem entryAt_within {fuel index : Nat} (h : cursor+left≤n) :
    Within n (entryAt data fuel cursor left index) := by
  induction fuel generalizing cursor left index with
  | zero => simp [entryAt]
  | succ fuel ih =>
    refine within_ite.mpr ⟨fun _ => within_pure,fun _ => ?_⟩
    refine within_bind.mpr ⟨nextNulEntry_within h,?_⟩
    split
    · simp
    · simp
    next hnext =>
    have he := nextNulEntry_entry hnext
    refine within_ite.mpr ⟨fun _ => ih (by omega),fun _ => ?_⟩
    refine within_bind.mpr ⟨findEquals_within _ _ (by omega),?_⟩
    simp

/-- Counting and looking up walk over the same entries, with any fuel for the bytes left. -/
theorem countEntries_iff {fuel more count k : Nat} (hf : left≤fuel) (hm : left ≤ more) :
    (countEntries data fuel cursor left count).val=.ok k ↔ count≤k ∧
      ∀ i,(entryAt data more cursor left i).val=.error .notFound ↔ k ≤ i+count := by
  have hstop : ∀ c,c=k ↔ c≤k ∧ ∀ i,k ≤ i+c := fun c =>
    ⟨fun h => ⟨h.le,by omega⟩,fun h => h.1.antisymm (by simpa using h.2 0)⟩
  induction fuel generalizing more cursor left count with
  | zero =>
    obtain rfl : left=0 := by omega
    cases more <;> simpa [countEntries,entryAt] using hstop count
  | succ fuel ih =>
    by_cases hz : left=0
    · cases more <;> simpa [countEntries,entryAt,hz] using hstop count
    obtain ⟨more,rfl⟩ := Nat.exists_eq_succ_of_ne_zero (show more≠0 by omega)
    simp only [countEntries,entryAt,if_neg hz,val_bind]
    cases hv : (nextNulEntry data cursor left).val with
    | done => simpa using hstop count
    | unterminated => exact ⟨nofun,fun h => nomatch (h.2 k).mpr (by omega)⟩
    | entry start size cursor' left' =>
      have hless := nextNulEntry_entry hv
      -- entry 0 is this one; the others are those of the rest, one place on
      refine (ih (show left'≤fuel by omega) (show left' ≤ more by omega)).trans
        ⟨fun h => ⟨by omega,fun i => ?_⟩,fun h => ⟨?_,fun i => ?_⟩⟩
      · cases i with
        | zero =>
          simp only [ne_eq,not_true_eq_false,if_false,val_bind]
          split <;> exact ⟨nofun,by omega⟩
        | succ i => simpa [Nat.add_right_comm,Nat.add_assoc] using h.2 i
      · have h0 := h.2 0
        simp only [ne_eq,not_true_eq_false,if_false,val_bind] at h0
        split at h0 <;> simp at h0 <;> omega
      · simpa [Nat.add_right_comm,Nat.add_assoc] using h.2 (i+1)

theorem entryAt_ok {fuel index : Nat} {e : ModinfoEntry}
    (h : (entryAt data fuel cursor left index).val=.ok e) :
    cursor≤e.key ∧ e.value=e.key+e.keySize+1 ∧ e.value+e.valueSize<cursor+left ∧
      data (e.value+e.valueSize)=0 ∧
      ∀ a,e.key≤a → a<e.value+e.valueSize → data a≠0 := by
  induction fuel generalizing cursor left index with
  | zero => cases h
  | succ fuel ih =>
    rw [entryAt] at h
    split at h
    · cases h
    rw [val_bind] at h
    split at h
    · cases h
    · cases h
    next start size cursor' left' hnext =>
    have hs := nextNulEntry_entry hnext
    split at h
    · have hr := ih h
      exact ⟨by omega,hr.2.1,by omega,hr.2.2.2⟩
    rw [val_bind] at h
    have hq := findEquals_le data size start
    split at h
    · cases h
    simp only [val_pure,ok.injEq] at h
    subst h
    dsimp only
    have hend : start+(findEquals data start size).val+1+
        (size-(findEquals data start size).val-1)=start+size := by omega
    rw [hend]
    exact ⟨by omega,rfl,by omega,hs.2.2.2.2.1,hs.2.2.2.2.2⟩

theorem kbElfModinfoEntryCount_within (hidx : f.sectionNameIndex<f.sectionCount) :
    Within f.size (kbElfModinfoEntryCount f i) := by
  refine within_bind.mpr ⟨modinfoBytes_within hidx,?_⟩
  split
  · simp
  · next bytes size hb =>
    obtain ⟨sec,-,-,-,hfit⟩ := modinfoBytes_ok hb
    exact countEntries_within hfit

theorem kbElfModinfoEntry_within (hidx : f.sectionNameIndex<f.sectionCount) :
    Within f.size (kbElfModinfoEntry f i k) := by
  refine within_bind.mpr ⟨modinfoBytes_within hidx,?_⟩
  split
  · simp
  · next bytes size hb =>
    obtain ⟨sec,-,-,-,hfit⟩ := modinfoBytes_ok hb
    exact entryAt_within hfit

theorem kbElfModinfoEntry_from {e : ModinfoEntry} (h : (kbElfModinfoEntry f i k).val=.ok e) :
    Terminated f i e.key (e.value+e.valueSize) ∧ e.value=e.key+e.keySize+1 ∧
      Terminated f i e.value (e.value+e.valueSize) := by
  unfold kbElfModinfoEntry at h
  rw [val_bind] at h
  split at h
  · cases h
  next bytes size hb =>
  obtain ⟨sec,hsec,rfl,rfl,hfit⟩ := modinfoBytes_ok hb
  obtain ⟨hlo,hkey,hhi,hz,hnz⟩ := entryAt_ok h
  refine ⟨⟨sec,hsec,hlo,by omega,hhi,hfit,hz,hnz⟩,hkey, ⟨sec,hsec,by omega,by omega,hhi,hfit,hz,?_⟩⟩
  intro a hl hu
  exact hnz a (by omega) hu

theorem kbElfOpen_within : Within size (kbElfOpen data size) := by
  simp only [kbElfOpen,within_ite,within_bind,within_byteAt,within_readU16le,within_readU64le,
    within_pure,implies_true,true_and,and_true]
  omega

theorem kbElfOpen_ok (h : (kbElfOpen data size).val=.ok f) :
    f.data=data ∧ f.size=size ∧ f.sectionNameIndex<f.sectionCount ∧
      f.sectionHeaderEntrySize=64 ∧ f.sectionHeaderOffset+64*f.sectionCount ≤ size ∧
      f.sectionCount<2^16 := by
  simp only [kbElfOpen,val_ite,val_bind,val_pure,ite_error_eq_ok,ok.injEq] at h
  obtain ⟨-,-,-,-,hent,hcount,hr,rfl⟩ := h
  have hfit := end_of_fits hr
  have hent' : (readU16le data 58).val=64 := by simpa using hent
  rw [hent'] at hfit
  exact ⟨rfl,rfl,Nat.lt_of_not_le fun hle => hcount (Or.inr (Or.inr hle)),hent',hfit,
    readU16le_lt data 60⟩

/-- Every accessor, on every index, reads only below the file size, and every string it gives is
empty or closed by a NUL inside its section. -/
theorem elf_reader_stays_inside (data : Bytes) (size : Nat) (f : ElfFile)
    (h : (kbElfOpen data size).val=.ok f) :
    f.data=data ∧ Within size (kbElfOpen data size) ∧
    (∀ i,Within size (kbElfSection f i) ∧
      ∀ sec,(kbElfSection f i).val=.ok sec → NameFrom f f.sectionNameIndex sec.name) ∧
    (∀ i,Within size (kbElfSymbolCount f i)) ∧
    (∀ i k,Within size (kbElfSymbol f i k) ∧ ∀ sym,(kbElfSymbol f i k).val=.ok sym →
        ∃ sec,(kbElfSection f i).val=.ok sec ∧ NameFrom f sec.link sym.name) ∧
    (∀ i,Within size (kbElfRelocationCount f i)) ∧
    (∀ i k,Within size (kbElfRelocation f i k)) ∧
    Within size (kbElfModinfoSection f) ∧
    (∀ i,Within size (kbElfModinfoEntryCount f i)) ∧
    (∀ i k,Within size (kbElfModinfoEntry f i k) ∧ ∀ e,(kbElfModinfoEntry f i k).val=.ok e →
        Terminated f i e.key (e.value+e.valueSize) ∧ e.value=e.key+e.keySize+1 ∧
        Terminated f i e.value (e.value+e.valueSize)) := by
  obtain ⟨hdata,rfl,hidx,-,-⟩ := kbElfOpen_ok h
  refine ⟨hdata,kbElfOpen_within,?_,?_,?_,?_,?_,?_,?_,?_⟩
  · intro i
    exact ⟨kbElfSection_within,fun sec hsec => kbElfSection_name hidx hsec⟩
  · exact fun _ => kbElfSymbolCount_within
  · intro i k
    exact ⟨kbElfSymbol_within,fun _ => kbElfSymbol_name⟩
  · exact fun _ => kbElfRelocationCount_within
  · exact fun _ _ => kbElfRelocation_within
  · exact modinfoSectionFrom_within hidx _ _
  · exact fun _ => kbElfModinfoEntryCount_within hidx
  · intro i k
    exact ⟨kbElfModinfoEntry_within hidx,fun _ => kbElfModinfoEntry_from⟩

/-- `count` section headers right behind the ELF header; section 0 is the section-name table. -/
def Elf.header (count : Nat) : Bytes :=
  (((((Bytes.put (fun _ => 0) 0 [0x7f,0x45,0x4c,0x46,2,1,1]).put 16 [1,0,62,0]).put 40 [64]).put
    52 [64]).put 58 [64]).put 60 (Bytes.leBytes 2 count)

def Elf.withSection (b : Bytes) (i name type flags offset size link info alignment entrySize : Nat) :
    Bytes :=
  b.put (64+64*i) (Bytes.leBytes 4 name++Bytes.leBytes 4 type++Bytes.leBytes 8 flags++
    Bytes.leBytes 8 0++Bytes.leBytes 8 offset++Bytes.leBytes 8 size++Bytes.leBytes 4 link++
    Bytes.leBytes 4 info++Bytes.leBytes 8 alignment++Bytes.leBytes 8 entrySize)

/-- A file with one string table that names itself and carries the modinfo entry `a=b`. -/
def Elf.modinfoSample : Bytes :=
  (Elf.withSection (Elf.header 1) 0 4 Elf.shtProgbits 0 128 13 0 0 1 0).put 128
    ([0x61,0x3d,0x62,0]++literalBytes ".modinfo")

theorem elf_reader_stays_inside_modinfoSample :
    ∃ f e,(kbElfOpen Elf.modinfoSample 141).val=.ok f ∧ (kbElfModinfoEntry f 0 0).val=.ok e ∧
      Within 141 (kbElfModinfoEntry f 0 0) ∧ Terminated f 0 e.value (e.value+e.valueSize) := by
  have hopen : (kbElfOpen Elf.modinfoSample 141).val=
      .ok ⟨Elf.modinfoSample,141,1,62,0,64,64,1,0⟩ := by rfl
  have hentry : (kbElfModinfoEntry ⟨Elf.modinfoSample,141,1,62,0,64,64,1,0⟩ 0 0).val=
      .ok ⟨128,1,130,1⟩ := by rfl
  have hall := elf_reader_stays_inside Elf.modinfoSample 141 _ hopen
  have hmod := hall.2.2.2.2.2.2.2.2.2 0 0
  exact ⟨_,_,hopen,hentry,hmod.1,(hmod.2 _ hentry).2.2⟩

/-- The count of a section is where looking its entries up ends. -/
theorem modinfo_entries_counted (f : ElfFile) (i n : Nat) :
    (kbElfModinfoEntryCount f i).val=.ok n ↔ (∃ b,(modinfoBytes f i).val=.ok b) ∧
      ∀ k,(kbElfModinfoEntry f i k).val=.error .notFound ↔ n≤k := by
  simp only [kbElfModinfoEntryCount,kbElfModinfoEntry,val_bind]
  cases (modinfoBytes f i).val with
  | error e => simp
  | ok b => simpa using @countEntries_iff f.data b.1 b.2 b.2 b.2 0 n le_rfl le_rfl

end Kobox.Loader
