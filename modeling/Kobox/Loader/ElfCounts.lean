import Kobox.Loader.ElfReaderBounds

namespace Kobox.Loader

open Traced Section Elf Except

/-- Where a table accessor finds an entry, computed in 64 bits. -/
def Section.entryOffset (sec : Section) (index width : Nat) : Nat :=
  (sec.offset+index*width)%wordSize

def symbolAt (f : ElfFile) (strings : Section) (p : Nat) : Symbol where
  name := (boundedSectionName f.data strings.offset strings.size (readU32le f.data p).val).val
  binding := (f.data (p+4)).toNat/16
  type := (f.data (p+4)).toNat%16
  visibility := (f.data (p+5)).toNat%4
  sectionIndex := (readU16le f.data (p+6)).val
  value := (readU64le f.data (p+8)).val
  size := (readU64le f.data (p+16)).val

def relocationAt (f : ElfFile) (sec : Section) (p : Nat) : Relocation where
  offset := (readU64le f.data p).val
  type := (readU64le f.data (p+8)).val%2^32
  symbolIndex := (readU64le f.data (p+8)).val/2^32
  addend := (relocationAddend f p (sec.type==Elf.shtRela)).val
  hasAddend := sec.type==Elf.shtRela
  targetSectionIndex := sec.info
  symbolTableSectionIndex := sec.link

/-- The headers declare a table of whole entries of the width, with entry k among them. -/
def Section.Declares (sec : Section) (width k : Nat) : Prop :=
  sec.entrySize=width ∧ sec.size%width=0 ∧ k<sec.size/width

/-- A symbol table that declares the entry, and a string table that lies in the file. -/
structure SymbolHeaders (f : ElfFile) (k : Nat) (sec strings : Section) : Prop where
  table : isSymbolTable sec.type=true
  declares : sec.Declares 24 k
  linked : sec.link<f.sectionCount
  named : (kbElfSection f sec.link).val=.ok strings
  stringTable : strings.type=Elf.shtStrtab
  stringsFit : rangeFits f.size strings.offset strings.size=true

structure RelocationHeaders (f : ElfFile) (k : Nat) (sec : Section) : Prop where
  table : isRelocationTable sec.type=true
  declares : sec.Declares (relocationEntrySize sec.type) k
  linked : sec.link<f.sectionCount
  target : sec.info<f.sectionCount

section

variable {f : ElfFile} {i k : Nat} {sec : Section}

theorem entryOffset_inside {width : Nat} (hsize : f.size<wordSize) (hdecl : sec.Declares width k)
    (hfit : rangeFits f.size sec.offset sec.size=true) :
    sec.offset ≤ sec.entryOffset k width ∧ sec.entryOffset k width+width ≤ sec.offset+sec.size := by
  obtain ⟨-,hmod,hk⟩ := hdecl
  have hend := rangeFits_end hfit
  have hentry : (k+1)*width ≤ sec.size := by
    calc (k+1)*width ≤ sec.size/width*width := Nat.mul_le_mul_right _ hk
      _ ≤ sec.size := Nat.div_mul_le_self _ _
  rw [Nat.add_mul] at hentry
  rw [entryOffset,Nat.mod_eq_of_lt (by omega)]
  omega

theorem kbElfSymbol_ok_iff {sym : Symbol} : (kbElfSymbol f i k).val=.ok sym ↔
    ∃ sec strings,(kbElfSection f i).val=.ok sec ∧ SymbolHeaders f k sec strings ∧
      rangeFits f.size (sec.entryOffset k 24) 24=true ∧
      sym=symbolAt f strings (sec.entryOffset k 24) := by
  unfold kbElfSymbol
  rw [val_bind]
  constructor
  · intro h
    cases hsec : (kbElfSection f i).val with
    | error e => simp [hsec] at h
    | ok sec =>
      simp only [hsec,val_ite,val_bind,val_pure,ite_error_eq_ok] at h
      obtain ⟨htable,hsize,hk,hlink,h⟩ := h
      cases hstr : (kbElfSection f sec.link).val with
      | error e => simp [hstr] at h
      | ok strings =>
        simp only [hstr,val_ite,val_bind,val_pure,ite_error_eq_ok,ok.injEq] at h
        obtain ⟨htype,hstrings,hentry,h⟩ := h
        simp only [not_or,not_not] at hsize htype
        refine ⟨sec,strings,rfl,⟨by simpa using htable,⟨hsize.1,hsize.2,by omega⟩,by omega,hstr,
          htype,by simpa using hstrings⟩,?_,h.symm⟩
        simpa [entryOffset] using hentry
  · rintro ⟨sec,strings,hsec,hh,hentry,rfl⟩
    obtain ⟨hsize,hmod,hk⟩ := hh.declares
    have hlink := hh.linked
    rw [entryOffset] at hentry
    rw [hsec]
    dsimp only
    rw [if_neg (by simp [hh.table]),if_neg (by simp [hsize,hmod]),if_neg (by omega),
      if_neg (by omega),val_bind,hh.named]
    dsimp only
    rw [if_neg (by simp [hh.stringTable]),if_neg (by simp [hh.stringsFit]),
      if_neg (by simp [hentry])]
    rfl

theorem kbElfSymbolCount_declared (hsec : (kbElfSection f i).val=.ok sec)
    (htable : isSymbolTable sec.type=true) (hdecl : sec.Declares 24 k) :
    (kbElfSymbolCount f i).val=
      if rangeFits f.size sec.offset sec.size=true then .ok (sec.size/24) else .error .invalid := by
  unfold kbElfSymbolCount
  rw [val_bind,hsec]
  dsimp only
  rw [if_neg (by simp [htable]),if_neg (by simp [hdecl.1,hdecl.2.1])]
  cases rangeFits f.size sec.offset sec.size <;> rfl

theorem kbElfRelocation_ok_iff {r : Relocation} : (kbElfRelocation f i k).val=.ok r ↔
    ∃ sec,(kbElfSection f i).val=.ok sec ∧ RelocationHeaders f k sec ∧
      rangeFits f.size (sec.entryOffset k (relocationEntrySize sec.type))
        (relocationEntrySize sec.type)=true ∧
      r=relocationAt f sec (sec.entryOffset k (relocationEntrySize sec.type)) := by
  unfold kbElfRelocation
  rw [val_bind]
  constructor
  · intro h
    cases hsec : (kbElfSection f i).val with
    | error e => simp [hsec] at h
    | ok sec =>
      simp only [hsec,val_ite,val_bind,val_pure,ite_error_eq_ok,ok.injEq] at h
      obtain ⟨htable,hlink,hsize,hk,hentry,h⟩ := h
      simp only [not_or,not_not] at hsize
      refine ⟨sec,rfl,⟨by simpa using htable,⟨hsize.1,hsize.2,by omega⟩,by omega,by omega⟩,?_,
        h.symm⟩
      simpa [entryOffset] using hentry
  · rintro ⟨sec,hsec,hh,hentry,rfl⟩
    obtain ⟨hsize,hmod,hk⟩ := hh.declares
    have hlink := hh.linked
    have htarget := hh.target
    rw [entryOffset] at hentry
    rw [hsec]
    dsimp only
    rw [if_neg (by simp [hh.table]),if_neg (by omega),if_neg (by simp [hsize,hmod]),
      if_neg (by omega),if_neg (by simp [hentry])]
    rfl

theorem kbElfRelocationCount_declared (hsec : (kbElfSection f i).val=.ok sec)
    (htable : isRelocationTable sec.type=true)
    (hdecl : sec.Declares (relocationEntrySize sec.type) k) :
    (kbElfRelocationCount f i).val=
      if rangeFits f.size sec.offset sec.size=true then .ok (sec.size/relocationEntrySize sec.type)
      else .error .invalid := by
  unfold kbElfRelocationCount
  rw [val_bind,hsec]
  dsimp only
  rw [if_neg (by simp [htable]),if_neg (by simp [hdecl.1,hdecl.2.1])]
  cases rangeFits f.size sec.offset sec.size <;> rfl

end

def Counts (count : Except Status Nat) (k : Nat) : Prop := ∃ n,count=.ok n ∧ k<n

/-- Entry k of the section, of the given width, lies in the range that the section declares. -/
def Section.Holds (sec : Section) (k width : Nat) : Prop :=
  sec.offset ≤ sec.entryOffset k width ∧ sec.entryOffset k width+width ≤ sec.offset+sec.size

/-- Symbol k is handed out only if the section counts it, and is decoded from inside the
section. -/
def SymbolAgrees (f : ElfFile) (i k : Nat) : Prop := ∀ sym,(kbElfSymbol f i k).val=.ok sym →
    Counts (kbElfSymbolCount f i).val k ∧
    ∃ sec strings,(kbElfSection f i).val=.ok sec ∧
      sym=symbolAt f strings (sec.entryOffset k 24) ∧ sec.Holds k 24

def RelocationAgrees (f : ElfFile) (i k : Nat) : Prop := ∀ r,(kbElfRelocation f i k).val=.ok r →
    Counts (kbElfRelocationCount f i).val k ∧
    ∃ sec,(kbElfSection f i).val=.ok sec ∧
      r=relocationAt f sec (sec.entryOffset k (relocationEntrySize sec.type)) ∧
      sec.Holds k (relocationEntrySize sec.type)

/-- A symbol table with right headers lies in the file, if the computed place of entry k does. -/
def SymbolTableFits (f : ElfFile) (i k : Nat) : Prop :=
  ∀ sec strings,(kbElfSection f i).val=.ok sec → SymbolHeaders f k sec strings →
    rangeFits f.size (sec.entryOffset k 24) 24=true →
    rangeFits f.size sec.offset sec.size=true

def RelocationTableFits (f : ElfFile) (i k : Nat) : Prop :=
  ∀ sec,(kbElfSection f i).val=.ok sec → RelocationHeaders f k sec →
    rangeFits f.size (sec.entryOffset k (relocationEntrySize sec.type))
      (relocationEntrySize sec.type)=true →
    rangeFits f.size sec.offset sec.size=true

/-- Accessors agree with the counts exactly on tables that lie in the file as declared, of those
whose computed entry does. -/
theorem accessors_agree_iff (data : Bytes) (size : Nat) (f : ElfFile) (hsize : size<wordSize)
    (hopen : (kbElfOpen data size).val=.ok f) (i k : Nat) :
    (SymbolAgrees f i k ↔ SymbolTableFits f i k) ∧
    (RelocationAgrees f i k ↔ RelocationTableFits f i k) := by
  obtain ⟨-,rfl,-⟩ := kbElfOpen_ok hopen
  constructor
  · constructor
    · intro hagrees sec strings hsec hh hentry
      obtain ⟨⟨n,hn,-⟩,-⟩ := hagrees _ (kbElfSymbol_ok_iff.mpr ⟨sec,strings,hsec,hh,hentry,rfl⟩)
      rw [kbElfSymbolCount_declared hsec hh.table hh.declares] at hn
      by_contra hnot
      rw [if_neg hnot] at hn
      exact nomatch hn
    · intro hfits sym hsym
      obtain ⟨sec,strings,hsec,hh,hentry,rfl⟩ := kbElfSymbol_ok_iff.mp hsym
      have hfit := hfits sec strings hsec hh hentry
      refine ⟨⟨sec.size/24,?_,hh.declares.2.2⟩,sec,strings,hsec,rfl,?_⟩
      · rw [kbElfSymbolCount_declared hsec hh.table hh.declares,if_pos hfit]
      · exact entryOffset_inside hsize hh.declares hfit
  · constructor
    · intro hagrees sec hsec hh hentry
      obtain ⟨⟨n,hn,-⟩,-⟩ := hagrees _ (kbElfRelocation_ok_iff.mpr ⟨sec,hsec,hh,hentry,rfl⟩)
      rw [kbElfRelocationCount_declared hsec hh.table hh.declares] at hn
      by_contra hnot
      rw [if_neg hnot] at hn
      exact nomatch hn
    · intro hfits r hr
      obtain ⟨sec,hsec,hh,hentry,rfl⟩ := kbElfRelocation_ok_iff.mp hr
      have hfit := hfits sec hsec hh hentry
      refine ⟨⟨_,?_,hh.declares.2.2⟩,sec,hsec,rfl,?_⟩
      · rw [kbElfRelocationCount_declared hsec hh.table hh.declares,if_pos hfit]
      · exact entryOffset_inside hsize hh.declares hfit

def Elf.oneSymbol : Bytes :=
  Elf.withSection (Elf.withSection (Elf.header 2) 0 0 Elf.shtStrtab 0 192 1 0 0 1 0)
    1 0 Elf.shtSymtab 0 193 24 0 0 8 24

theorem accessors_agree_iff_oneSymbol :
    ∃ f sym,(kbElfOpen Elf.oneSymbol 217).val=.ok f ∧ (kbElfSymbol f 1 0).val=.ok sym ∧
      SymbolAgrees f 1 0 := by
  have hopen : (kbElfOpen oneSymbol 217).val=.ok ⟨oneSymbol,217,1,62,0,64,64,2,0⟩ := by rfl
  have hfits : SymbolTableFits ⟨oneSymbol,217,1,62,0,64,64,2,0⟩ 1 0 := by
    intro sec strings hsec _ _
    cases (show ok _=ok sec from hsec)
    rfl
  exact ⟨_,_,hopen,by rfl,(accessors_agree_iff oneSymbol 217 _ (by decide) hopen 1 0).1.mpr hfits⟩

/-- A symbol table whose first entry would be the last 24 bytes of the address space. -/
def Elf.wrappedSymbols : Bytes :=
  Elf.withSection (Elf.withSection (Elf.header 2) 0 0 Elf.shtStrtab 0 192 1 0 0 1 0)
    1 0 Elf.shtSymtab 0 (wordSize-24) 48 0 0 8 24

/-- The second symbol is decoded from the ELF header, and the section has no count. -/
theorem wrapped_symbol_is_decoded :
    ∃ f sym,(kbElfOpen Elf.wrappedSymbols 193).val=.ok f ∧ (kbElfSymbol f 1 1).val=.ok sym ∧
      (kbElfSymbolCount f 1).val=.error .invalid ∧
      ∃ sec,(kbElfSection f 1).val=.ok sec ∧ sec.entryOffset 1 24=0 ∧ sec.offset=wordSize-24 := by
  have hopen : (kbElfOpen wrappedSymbols 193).val=
      .ok ⟨wrappedSymbols,193,1,62,0,64,64,2,0⟩ := by rfl
  have hsymbol : (kbElfSymbol ⟨wrappedSymbols,193,1,62,0,64,64,2,0⟩ 1 1).val=
      .ok ⟨CName.empty,0,2,1,1,0,0x3e0001⟩ := by rfl
  refine ⟨_,_,hopen,hsymbol,by rfl,_,by rfl,by rfl,by rfl⟩

end Kobox.Loader
