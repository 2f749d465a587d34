import Kobox.Framework.Prog
import Kobox.Loader.ShimSymbols

namespace Kobox.Loader

def shimDataSize : Nat := 32768
def shimDataOffset : Nat := shimStubSize*shimStubCount
def shimRegionSize : Nat := shimDataOffset+shimDataSize

/-- Size of the per-CPU area all modules share, and its first module-local offset. -/
def gsSize : Nat := 1024*1024
def gsModulePercpuOffset : Nat := 0x800

/-- 2 for code, 1 for writable data, 0 for read-only data. -/
def sectionProtection (flags : Nat) : Nat :=
  if Elf.shfExecinstr flags then 2 else if Elf.shfWrite flags then 1 else 0

/-- `loaded_section_t`; a base of 0 is NULL. -/
structure LoadedSection where
  base : Nat
  size : Nat
  offset : Nat
  alignment : Nat
  flags : Nat
  deriving DecidableEq,Repr

def LoadedSection.zero : LoadedSection := ⟨0,0,0,0,0⟩

/-- What the layout pass reads and writes: its two locals, the sections, the per-CPU fields. -/
structure Layout where
  imageSize : Nat
  previousProtection : Option Nat
  sections : Nat → LoadedSection
  percpuOffset : Nat
  percpuSize : Nat
  percpuNext : Nat

/-- A protection other than that of the last non-empty section. -/
def protectionChanges (previous : Option Nat) (protection : Nat) : Prop :=
  previous≠none ∧ previous≠some protection

instance (previous : Option Nat) (protection : Nat) :
    Decidable (protectionChanges previous protection) :=
  inferInstanceAs (Decidable (_ ∧ _))

def sectionAlignment (sec : Section) : Nat := if sec.alignment=0 then 1 else sec.alignment

def isPercpuSection (sec : Section) : Bool := sec.name.text==".data..percpu"

def alignOnChange (protection : Nat) (l : Layout) : Layout :=
  if protectionChanges l.previousProtection protection then
    { l with imageSize := alignUpU64 l.imageSize pageSize }
  else l

/-- Next per-CPU offset for an alignment raised to at least 8. -/
def percpuPlace (next alignment : Nat) : Nat :=
  alignUpU64 next (if alignment<8 then 8 else alignment)

def placePercpu (size alignment : Nat) : Prog Layout Status Unit := fun l =>
  if l.percpuOffset≠0 then (.error .invalid,l)
  else
    let percpuOffset := percpuPlace l.percpuNext alignment
    if gsSize<percpuOffset ∨ gsSize-percpuOffset<size then (.error .nomem,l)
    else
      (.ok (),{ l with
        percpuOffset := percpuOffset
        percpuSize := size
        percpuNext := percpuOffset+size })

def placeSection (i : Nat) (sec : Section) (l : Layout) : Layout :=
  let offset := alignUpU64 l.imageSize (sectionAlignment sec)
  { l with
    sections := Function.update l.sections i
      { (l.sections i) with
        offset := offset
        size := sec.size
        alignment := sectionAlignment sec
        flags := sec.flags }
    imageSize := (offset+sec.size)%wordSize
    previousProtection :=
      if sec.size≠0 then some (sectionProtection sec.flags) else l.previousProtection }

def layoutSection (f : ElfFile) (i : Nat) : Prog Layout Status Unit := do
  let sec ← Prog.ofExcept (kbElfSection f i).val
  if !Elf.shfAlloc sec.flags then return ()
  else
    Prog.modify (alignOnChange (sectionProtection sec.flags))
    if isPercpuSection sec then
      placePercpu sec.size (sectionAlignment sec)
      Prog.modify (placeSection i sec)
    else Prog.modify (placeSection i sec)

def layoutSections (f : ElfFile) (sectionCount : Nat) : Prog Layout Status Unit :=
  Prog.loopFrom (layoutSection f) 0 sectionCount

end Kobox.Loader
