import Kobox.Framework.Bytes
import Kobox.Framework.Traced
import Kobox.Framework.Word

namespace Kobox.Loader

/-- Error codes of `kb_status_t`; `KB_OK` is the success side of `Except`. -/
inductive Status
  | invalid | notFound | denied | nomem | io | unsupported | pciConfig
  deriving DecidableEq,Repr

namespace Elf

def etRel : Nat := 1
def emX8664 : Nat := 62
def shtProgbits : Nat := 1
def shtSymtab : Nat := 2
def shtStrtab : Nat := 3
def shtRela : Nat := 4
def shtNobits : Nat := 8
def shtRel : Nat := 9
def shtDynsym : Nat := 11
def shnUndef : Nat := 0
def shnAbs : Nat := 0xfff1
def stbGlobal : Nat := 1

def shfWrite (flags : Nat) : Bool := flags.testBit 0
def shfAlloc (flags : Nat) : Bool := flags.testBit 1
def shfExecinstr (flags : Nat) : Bool := flags.testBit 2

end Elf

/-- Every read is an event carrying the file offset it touches. -/
abbrev Read (α : Type) := Traced Nat α

def byteAt (data : Bytes) (off : Nat) : Read UInt8 := Traced.emit off (data off)

def readU16le (data : Bytes) (p : Nat) : Read Nat := do
  let b0 ← byteAt data p
  let b1 ← byteAt data (p+1)
  return b0.toNat+2^8*b1.toNat

def readU32le (data : Bytes) (p : Nat) : Read Nat := do
  let b0 ← byteAt data p
  let b1 ← byteAt data (p+1)
  let b2 ← byteAt data (p+2)
  let b3 ← byteAt data (p+3)
  return b0.toNat+2^8*b1.toNat+2^16*b2.toNat+2^24*b3.toNat

def readU64le (data : Bytes) (p : Nat) : Read Nat := do
  let lo ← readU32le data p
  let hi ← readU32le data (p+4)
  return lo+2^32*hi

def rangeFits (size offset length : Nat) : Bool :=
  decide (offset ≤ size) && decide (length ≤ size-offset)

/-- A C string handed out by the reader: a position in the file, or the literal `""`. -/
structure CName where
  start : Option Nat
  bytes : List UInt8
  deriving DecidableEq,Repr

def CName.empty : CName := ⟨none,[]⟩

/-- The text `strcmp` sees, one character a byte. -/
def CName.text (n : CName) : String := String.ofList (n.bytes.map fun b => Char.ofNat b.toNat)

structure ElfFile where
  data : Bytes
  size : Nat
  type : Nat
  machine : Nat
  entry : Nat
  sectionHeaderOffset : Nat
  sectionHeaderEntrySize : Nat
  sectionCount : Nat
  sectionNameIndex : Nat

structure Section where
  name : CName
  type : Nat
  flags : Nat
  address : Nat
  offset : Nat
  size : Nat
  link : Nat
  info : Nat
  alignment : Nat
  entrySize : Nat

structure Symbol where
  name : CName
  binding : Nat
  type : Nat
  visibility : Nat
  sectionIndex : Nat
  value : Nat
  size : Nat

structure Relocation where
  offset : Nat
  type : Nat
  symbolIndex : Nat
  addend : Nat
  hasAddend : Bool
  targetSectionIndex : Nat
  symbolTableSectionIndex : Nat

structure ModinfoEntry where
  key : Nat
  keySize : Nat
  value : Nat
  valueSize : Nat

/-- The scan of `bounded_section_name`: at most n more bytes, up to the first NUL. -/
def scanNul (data : Bytes) (pos : Nat) : Nat → Read (Option (List UInt8))
  | 0 => return none
  | n+1 => do
    let b ← byteAt data pos
    if b=0 then return some []
    else
      let rest ← scanNul data (pos+1) n
      return rest.map (b :: ·)

def boundedSectionName (data : Bytes) (strings stringsSize offset : Nat) : Read CName := do
  if stringsSize≤offset then return CName.empty
  else
    match ← scanNul data (strings+offset) (stringsSize-offset) with
    | none => return CName.empty
    | some bs => return ⟨some (strings+offset),bs⟩

def kbElfOpen (data : Bytes) (size : Nat) : Read (Except Status ElfFile) := do
  if size<64 then return .error .invalid
  else
    let b0 ← byteAt data 0
    let b1 ← byteAt data 1
    let b2 ← byteAt data 2
    let b3 ← byteAt data 3
    if b0≠0x7f ∨ b1≠0x45 ∨ b2≠0x4c ∨ b3≠0x46 then return .error .invalid
    else
      let b4 ← byteAt data 4
      let b5 ← byteAt data 5
      let b6 ← byteAt data 6
      if b4≠2 ∨ b5≠1 ∨ b6≠1 then return .error .unsupported
      else
        let entrySize ← readU16le data 58
        let count ← readU16le data 60
        let nameIndex ← readU16le data 62
        let offset ← readU64le data 40
        let headerSize ← readU16le data 52
        if headerSize≠64 then return .error .unsupported
        else if entrySize≠64 then return .error .unsupported
        else if count=0 ∨ nameIndex=0xffff ∨ count≤nameIndex then return .error .unsupported
        else if !rangeFits size offset (entrySize*count) then return .error .invalid
        else
          let type ← readU16le data 16
          let machine ← readU16le data 18
          let entry ← readU64le data 24
          return .ok ⟨data,size,type,machine,entry,offset,entrySize,count,nameIndex⟩

def kbElfSectionCount (f : ElfFile) : Nat := f.sectionCount

def ElfFile.headerOffset (f : ElfFile) (index : Nat) : Nat :=
  (f.sectionHeaderOffset+index*f.sectionHeaderEntrySize)%wordSize

/-- The name lookup inside `kb_elf_section`; `section_` is the header's file offset. -/
def sectionNameAt (f : ElfFile) (section_ stringsOffset stringsSize : Nat) : Read CName :=
  if rangeFits f.size stringsOffset stringsSize then do
    let nameOffset ← readU32le f.data section_
    boundedSectionName f.data stringsOffset stringsSize nameOffset
  else return CName.empty

def kbElfSection (f : ElfFile) (index : Nat) : Read (Except Status Section) := do
  if f.sectionCount ≤ index then return .error .invalid
  else if !rangeFits f.size (f.headerOffset index) 64 then return .error .invalid
  else if !rangeFits f.size (f.headerOffset f.sectionNameIndex) 64 then return .error .invalid
  else
    let section_ := f.headerOffset index
    let nameSection := f.headerOffset f.sectionNameIndex
    let stringsOffset ← readU64le f.data (nameSection+24)
    let stringsSize ← readU64le f.data (nameSection+32)
    let name ← sectionNameAt f section_ stringsOffset stringsSize
    let type ← readU32le f.data (section_+4)
    let flags ← readU64le f.data (section_+8)
    let address ← readU64le f.data (section_+16)
    let offset ← readU64le f.data (section_+24)
    let size ← readU64le f.data (section_+32)
    let link ← readU32le f.data (section_+40)
    let info ← readU32le f.data (section_+44)
    let alignment ← readU64le f.data (section_+48)
    let entrySize ← readU64le f.data (section_+56)
    return .ok ⟨name,type,flags,address,offset,size,link,info,alignment,entrySize⟩

def isSymbolTable (type : Nat) : Bool := type==Elf.shtSymtab || type==Elf.shtDynsym

def kbElfSymbolCount (f : ElfFile) (sectionIndex : Nat) : Read (Except Status Nat) := do
  match ← kbElfSection f sectionIndex with
  | .error e => return .error e
  | .ok sec =>
    if !isSymbolTable sec.type then return .error .invalid
    else if sec.entrySize≠24 ∨ sec.size%24≠0 then return .error .unsupported
    else if !rangeFits f.size sec.offset sec.size then return .error .invalid
    else return .ok (sec.size/24)

def kbElfSymbol (f : ElfFile) (sectionIndex symbolIndex : Nat) : Read (Except Status Symbol) := do
  match ← kbElfSection f sectionIndex with
  | .error e => return .error e
  | .ok sec =>
    if !isSymbolTable sec.type then return .error .invalid
    else if sec.entrySize≠24 ∨ sec.size%24≠0 then return .error .unsupported
    else if sec.size/24 ≤ symbolIndex then return .error .invalid
    else if f.sectionCount ≤ sec.link then return .error .invalid
    else
      match ← kbElfSection f sec.link with
      | .error e => return .error e
      | .ok strings =>
        if strings.type≠Elf.shtStrtab then return .error .invalid
        else if !rangeFits f.size strings.offset strings.size then return .error .invalid
        else
          let symbol := (sec.offset+symbolIndex*24)%wordSize
          if !rangeFits f.size symbol 24 then return .error .invalid
          else
            let nameOffset ← readU32le f.data symbol
            let info ← byteAt f.data (symbol+4)
            let name ← boundedSectionName f.data strings.offset strings.size nameOffset
            let other ← byteAt f.data (symbol+5)
            let shndx ← readU16le f.data (symbol+6)
            let value ← readU64le f.data (symbol+8)
            let size ← readU64le f.data (symbol+16)
            return .ok ⟨name,info.toNat/16,info.toNat%16,other.toNat%4,shndx,value,size⟩

def isRelocationTable (type : Nat) : Bool := type==Elf.shtRela || type==Elf.shtRel

def relocationEntrySize (type : Nat) : Nat := if type=Elf.shtRela then 24 else 16

def kbElfRelocationCount (f : ElfFile) (sectionIndex : Nat) : Read (Except Status Nat) := do
  match ← kbElfSection f sectionIndex with
  | .error e => return .error e
  | .ok sec =>
    let expected := relocationEntrySize sec.type
    if !isRelocationTable sec.type then return .error .invalid
    else if sec.entrySize≠expected ∨ sec.size%expected≠0 then return .error .unsupported
    else if !rangeFits f.size sec.offset sec.size then return .error .invalid
    else return .ok (sec.size/expected)

def relocationAddend (f : ElfFile) (relocation : Nat) (hasAddend : Bool) : Read Nat :=
  if hasAddend then readU64le f.data (relocation+16) else return 0

def kbElfRelocation (f : ElfFile) (sectionIndex relocationIndex : Nat) :
    Read (Except Status Relocation) := do
  match ← kbElfSection f sectionIndex with
  | .error e => return .error e
  | .ok sec =>
    let expected := relocationEntrySize sec.type
    if !isRelocationTable sec.type then return .error .invalid
    else if f.sectionCount ≤ sec.link ∨ f.sectionCount ≤ sec.info then return .error .invalid
    else if sec.entrySize≠expected ∨ sec.size%expected≠0 then return .error .unsupported
    else if sec.size/expected ≤ relocationIndex then return .error .invalid
    else
      let relocation := (sec.offset+relocationIndex*expected)%wordSize
      if !rangeFits f.size relocation expected then return .error .invalid
      else
        let info ← readU64le f.data (relocation+8)
        let offset ← readU64le f.data relocation
        let hasAddend := sec.type==Elf.shtRela
        let addend ← relocationAddend f relocation hasAddend
        return .ok ⟨offset,info%2^32,info/2^32,addend,hasAddend,sec.info,sec.link⟩

/-- `strcmp(name,text)==0` against a literal with its NUL, read up to the first difference. -/
def strcmpFrom (data : Bytes) (pos : Nat) : List UInt8 → Read Bool
  | [] => return true
  | c::cs => do
    let b ← byteAt data pos
    if b≠c then return false
    else if c=0 then return true
    else strcmpFrom data (pos+1) cs

def literalBytes (s : String) : List UInt8 := s.toList.map (fun c => UInt8.ofNat c.toNat)++[0]

def strcmpEq (f : ElfFile) (n : CName) (s : String) : Read Bool :=
  match n.start with
  | none => return decide (literalBytes s=[0])
  | some pos => strcmpFrom f.data pos (literalBytes s)

/-- Loop of `kb_elf_modinfo_section` over the last n section indices. -/
def modinfoSectionFrom (f : ElfFile) (i : Nat) : Nat → Read (Except Status Nat)
  | 0 => return .error .notFound
  | n+1 => do
    match ← kbElfSection f i with
    | .error e => return .error e
    | .ok sec =>
      if sec.type=Elf.shtProgbits then
        if ← strcmpEq f sec.name ".modinfo" then return .ok i
        else modinfoSectionFrom f (i+1) n
      else modinfoSectionFrom f (i+1) n

def kbElfModinfoSection (f : ElfFile) : Read (Except Status Nat) :=
  modinfoSectionFrom f 0 (kbElfSectionCount f)

def sectionBytes (f : ElfFile) (sectionIndex : Nat) : Read (Option (Nat × Nat)) := do
  match ← kbElfSection f sectionIndex with
  | .error _ => return none
  | .ok sec =>
    if !rangeFits f.size sec.offset sec.size then return none
    else return some (sec.offset,sec.size)

def skipNul (data : Bytes) (pos : Nat) : Nat → Read (Nat × Nat)
  | 0 => return (pos,0)
  | n+1 => do
    let b ← byteAt data pos
    if b=0 then skipNul data (pos+1) n else return (pos,n+1)

def skipEntry (data : Bytes) (pos : Nat) : Nat → Read (Nat × Nat)
  | 0 => return (pos,0)
  | n+1 => do
    let b ← byteAt data pos
    if b≠0 then skipEntry data (pos+1) n else return (pos,n+1)

/-- No entry left, an unterminated one, or one with its start, its size and the new cursor. -/
inductive NextEntry
  | done
  | unterminated
  | entry (start size cursor left : Nat)

/-- The cursor is a file position and `left` the bytes from it to the section's end. -/
def nextNulEntry (data : Bytes) (cursor left : Nat) : Read NextEntry := do
  let (start,rest) ← skipNul data cursor left
  if rest=0 then return .done
  else
    let (stop,tail) ← skipEntry data start rest
    if tail=0 then return .unterminated
    else return .entry start (stop-start) (stop+1) (tail-1)

/-- Every turn consumes bytes, so `fuel` as large as `left` is never exhausted. -/
def countEntries (data : Bytes) : Nat → Nat → Nat → Nat → Read (Except Status Nat)
  | 0,_,_,count => return .ok count
  | fuel+1,cursor,left,count =>
    if left=0 then return .ok count
    else do
      match ← nextNulEntry data cursor left with
      | .unterminated => return .error .invalid
      | .done => return .ok count
      | .entry _ _ cursor' left' => countEntries data fuel cursor' left' (count+1)

/-- The checks shared by the two modinfo accessors, then the section's bytes. -/
def modinfoBytes (f : ElfFile) (sectionIndex : Nat) : Read (Except Status (Nat × Nat)) := do
  match ← kbElfSection f sectionIndex with
  | .error e => return .error e
  | .ok sec =>
    if !(← strcmpEq f sec.name ".modinfo") || sec.type != Elf.shtProgbits then
      return .error .invalid
    else
      match ← sectionBytes f sectionIndex with
      | none => return .error .invalid
      | some b => return .ok b

def kbElfModinfoEntryCount (f : ElfFile) (sectionIndex : Nat) : Read (Except Status Nat) := do
  match ← modinfoBytes f sectionIndex with
  | .error e => return .error e
  | .ok (bytes,size) => countEntries f.data size bytes size 0

def findEquals (data : Bytes) (pos : Nat) : Nat → Read Nat
  | 0 => return 0
  | n+1 => do
    let b ← byteAt data pos
    if b=0x3d then return 0
    else return (← findEquals data (pos+1) n)+1

def entryAt (data : Bytes) : Nat → Nat → Nat → Nat → Read (Except Status ModinfoEntry)
  | 0,_,_,_ => return .error .notFound
  | fuel+1,cursor,left,index =>
    if left=0 then return .error .notFound
    else do
      match ← nextNulEntry data cursor left with
      | .unterminated => return .error .invalid
      | .done => return .error .notFound
      | .entry start size cursor' left' =>
        if index≠0 then entryAt data fuel cursor' left' (index-1)
        else
          let equals ← findEquals data start size
          if equals=size then return .error .invalid
          else return .ok ⟨start,equals,start+equals+1,size-equals-1⟩

def kbElfModinfoEntry (f : ElfFile) (sectionIndex entryIndex : Nat) :
    Read (Except Status ModinfoEntry) := do
  match ← modinfoBytes f sectionIndex with
  | .error e => return .error e
  | .ok (bytes,size) => entryAt f.data size bytes size entryIndex

end Kobox.Loader
