import Kobox.Loader.Layout
import Kobox.Loader.SymbolRegistry

namespace Kobox.Loader

inductive Prot
  | read | readWrite | readExec
  deriving DecidableEq,Repr

inductive StubKind
  | symbol | crossModule | usbControlMsg | gsCall
  deriving DecidableEq,Repr

/-- Record of an emitted stub: its image offset and whether its pages were writable. -/
structure Stub where
  kind : StubKind
  start : Nat
  writable : Bool
  deriving DecidableEq,Repr

/-- Record of a write into a loaded section, by its offset in the section. -/
structure SectionWrite where
  index : Nat
  start : Nat
  length : Nat
  deriving DecidableEq,Repr

/-- The mapping is a byte object read by offset from `image_base`, `shim_region` an offset in it. -/
structure KbModule where
  self : Nat
  name : String
  elf : ElfFile
  imageBase : Nat
  imageSize : Nat
  image : Bytes
  protection : Nat → Prot
  shimRegionOffset : Nat
  namedStubs : List Nat
  node0 : Nat
  currentTask : Nat
  sections : Nat → LoadedSection
  sectionCount : Nat
  externalStubCount : Nat
  initModule : Nat
  cleanupModule : Nat
  percpuOffset : Nat
  percpuSize : Nat
  writes : List SectionWrite
  stubs : List Stub

/-- The statics of the loader, the export registry and the process they live in. -/
structure Globals where
  loaded : List KbModule
  registry : SymbolRegistry
  percpuNext : Nat
  gs : Bytes
  sharedTask : Nat
  task : Bytes
  template : Bytes
  templateValid : Bool
  published : Nat
  blockdevSuperblock : Nat
  tasklistLock : Nat
  jiffiesStorages : Nat → Nat
  refreshes : Nat
  process : Process

def Globals.start : Globals where
  loaded := []
  registry := SymbolRegistry.empty
  percpuNext := gsModulePercpuOffset
  gs := fun _ => 0
  sharedTask := 0
  task := fun _ => 0
  template := fun _ => 0
  templateValid := false
  published := 0
  blockdevSuperblock := 0
  tasklistLock := 0
  jiffiesStorages := fun _ => 0
  refreshes := 0
  process := Process.start

/-- State of a load in progress: the loader and the module being built. -/
structure Load where
  globals : Globals
  module : KbModule

namespace KbModule

def shimAddress (m : KbModule) (off : Nat) : Nat := (m.imageBase+m.shimRegionOffset+off)%wordSize

def stubWritable (m : KbModule) (start : Nat) : Bool := m.protection (start/pageSize)==.readWrite &&
    m.protection ((start+shimStubSize-1)/pageSize)==.readWrite

/-- Write a stub at an offset of the shim region and record it. -/
def emitStub (kind : StubKind) (off : Nat) (code : List UInt8) (m : KbModule) : KbModule :=
  { m with
    image := m.image.put (m.shimRegionOffset+off) code
    stubs := m.stubs++[⟨kind,m.shimRegionOffset+off,m.stubWritable (m.shimRegionOffset+off)⟩] }

def storeShim (stores : List (Nat × List UInt8)) (m : KbModule) : KbModule :=
  { m with image := m.image.putAll m.shimRegionOffset stores }

def storeSection (i start : Nat) (bytes : List UInt8) (m : KbModule) : KbModule :=
  { m with
    image := m.image.put ((m.sections i).offset+start) bytes
    writes := m.writes++[⟨i,start,bytes.length⟩] }

end KbModule

namespace Load

def onModule (g : KbModule → KbModule) (s : Load) : Load := { s with module := g s.module }

def onGlobals (g : Globals → Globals) (s : Load) : Load := { s with globals := g s.globals }

end Load

/-- Stub code for `write_abs_jump_stub`, filled up with NOPs. -/
def absJumpStub (env : Env) (target callerGs calleeGs : Nat) : List UInt8 :=
  [0x49,0xbb]++Bytes.leBytes 8 target++[0x49,0xba]++Bytes.leBytes 8 callerGs++
    [0x48,0xb8]++Bytes.leBytes 8 calleeGs++[0xff,0x25]++Bytes.leBytes 4 0++
    Bytes.leBytes 8 env.externalCallTrampoline++List.replicate 4 0x90

def absJumpRawStub (target : Nat) : List UInt8 :=
  [0x49,0xbb]++Bytes.leBytes 8 target++[0x41,0xff,0xe3]++List.replicate 35 0x90

def retStub : List UInt8 := 0xc3::List.replicate 47 0x90

/-- `kb_module_contains_address`, for code only when `executable` is set. -/
def moduleContains (executable : Bool) (m : KbModule) (address : Nat) : Bool :=
  address≠0 && (List.range m.sectionCount).any fun i =>
    let sec := m.sections i
    decide (sec.base≠0 ∧ sec.size≠0) && (!executable || Elf.shfExecinstr sec.flags) &&
      decide (sec.base≤address ∧ address<(sec.base+sec.size)%wordSize)

def moduleForAddress (g : Globals) (address : Nat) : Option KbModule :=
  g.loaded.find? fun m => moduleContains false m address

def isExecutableAddress (g : Globals) (address : Nat) : Bool :=
  g.loaded.any fun m => moduleContains true m address

/-- The GS base is the same for every module; 0 when the address has no owner. -/
def kernelGsForAddress (env : Env) (g : Globals) (address : Nat) : Nat :=
  match moduleForAddress g address with
  | none => 0
  | some _ => env.kernelGs

/-- A new call stub behind the symbol stubs; 0 when there is no room or an argument is NULL. -/
def allocateExternalCallStubForCaller (env : Env) (kind : StubKind)
    (target callerGs calleeGs : Nat) (m : KbModule) : Nat × KbModule :=
  let index := shimSymbolCount env+m.externalStubCount
  if m.shimAddress 0=0 ∨ target=0 ∨ callerGs=0 ∨ calleeGs=0 then (0,m)
  else if shimStubCount ≤ index then (0,m)
  else
    (m.shimAddress (index*shimStubSize),
      { (m.emitStub kind (index*shimStubSize) (absJumpStub env target callerGs calleeGs)) with
        externalStubCount := m.externalStubCount+1 })

/-- The lazily created 4096-byte mapping behind a static pointer. -/
def sharedMapping (env : Env) (current : Nat) (p : Process) : Nat × Process :=
  if current=0 then allocSectionMemory env 4096 p else (current,p)

def sharedBlockdevSuperblock (env : Env) (g : Globals) : Nat × Globals :=
  let r := sharedMapping env g.blockdevSuperblock g.process
  (r.1,{ g with blockdevSuperblock := r.1,process := r.2 })

def sharedTasklistLock (env : Env) (g : Globals) : Nat × Globals :=
  let r := sharedMapping env g.tasklistLock g.process
  (r.1,{ g with tasklistLock := r.1,process := r.2 })

def sharedCurrentTask (env : Env) (g : Globals) : Nat × Globals :=
  let r := sharedMapping env g.sharedTask g.process
  (r.1,{ g with
    sharedTask := r.1
    task := if g.sharedTask=0 ∧ r.1≠0 then fun _ => 0 else g.task
    process := r.2 })

def kbLoaderCurrentTask (env : Env) (g : Globals) : Nat × Globals :=
  if g.published=0 then
    let r := sharedCurrentTask env g
    (r.1,{ r.2 with published := r.1 })
  else (g.published,g)

def jiffiesStorageMax : Nat := 64

/-- The slots of the counter, and how often their registration has refreshed it. -/
def Globals.clock (g : Globals) : (Nat → Nat) × Nat := (g.jiffiesStorages,g.refreshes)

/-- `kb_register_jiffies_storage`; the refresh it ends with is counted, and stores at the end of the
load. -/
def registerJiffiesStorage (storage : Nat) (g : Globals) : Globals :=
  if storage=0 then g
  else
    match firstSlot (fun i => g.jiffiesStorages i==storage) 0 jiffiesStorageMax with
    | some _ => { g with refreshes := g.refreshes+1 }
    | none =>
      match firstSlot (fun i => g.jiffiesStorages i==0) 0 jiffiesStorageMax with
      | some i =>
        { g with
          jiffiesStorages := Function.update g.jiffiesStorages i storage
          refreshes := g.refreshes+1 }
      | none => { g with refreshes := g.refreshes+1 }

end Kobox.Loader
