import Kobox.Loader.Prepare

namespace Kobox.Loader

/-- `kb_module_image_t`; a missing buffer or name is NULL. -/
structure ModuleImage where
  data : Option Bytes
  size : Nat
  name : Option String

/-- `kb_copy_string`: at most 4096 characters of the name. -/
def copiedName (name : Option String) : String :=
  match name with
  | none => "(unnamed)"
  | some s => String.ofList (s.toList.take 4096)

def KbModule.fresh (self : Nat) (name : String) (elf : ElfFile) (node0 : Nat) : KbModule where
  self := self
  name := name
  elf := elf
  imageBase := 0
  imageSize := 0
  image := fun _ => 0
  protection := fun _ => .readWrite
  shimRegionOffset := 0
  namedStubs := []
  node0 := node0
  currentTask := 0
  sections := fun _ => LoadedSection.zero
  sectionCount := elf.sectionCount
  externalStubCount := 0
  initModule := 0
  cleanupModule := 0
  percpuOffset := 0
  percpuSize := 0
  writes := []
  stubs := []

def unregisterLoadedModule (self : Nat) (loaded : List KbModule) : List KbModule :=
  loaded.eraseP fun m => m.self==self

/-- `destroy_module` on a record with its image mapping, if it has one. -/
def destroyModule (self imageBase imageSize : Nat) (g : Globals) : Globals :=
  { g with
    loaded := unregisterLoadedModule self g.loaded
    registry := removeOwner g.registry self
    process := freeRecord self (freeSectionMemory imageBase imageSize g.process) }

/-- The load itself, once the record, its name and its node block are allocated. -/
def openPrepared (env : Env) (m : KbModule) (g : Globals) : Except Status Nat × Globals :=
  match prepareModule env ⟨{ g with gs := g.gs.put 0x28 (le64 0x6b6f626f785f6773) },m⟩ with
  | (.error e,t) => (.error e,destroyModule m.self t.module.imageBase t.module.imageSize t.globals)
  | (.ok _,t) => (.ok m.self,{ t.globals with loaded := t.module::t.globals.loaded })

/-- The ELF checks of `kb_module_open_image` and the allocation of the section table. -/
def openElf (env : Env) (self node0 : Nat) (name : String) (data : Bytes) (size : Nat)
    (g : Globals) : Except Status Nat × Globals :=
  match (kbElfOpen data size).val with
  | .error e => (.error e,destroyModule self 0 0 g)
  | .ok elf =>
    if elf.type≠Elf.etRel ∨ elf.machine≠Elf.emX8664 then
      (.error .unsupported,destroyModule self 0 0 g)
    else
      let sections := calloc env g.process
      let g := { g with process := sections.2 }
      if sections.1=0 then (.error .nomem,destroyModule self 0 0 g)
      else openPrepared env (KbModule.fresh self name elf node0) g

/-- On success the address of the module, now at the head of the list. -/
def kbModuleOpenImage (env : Env) (image : ModuleImage) (backend : Nat) (g : Globals) :
    Except Status Nat × Globals :=
  match image.data with
  | none => (.error .invalid,g)
  | some data =>
    if image.size=0 ∨ backend=0 then (.error .invalid,g)
    else
      let record := callocRecord env g.process
      let g := { g with process := record.2 }
      if record.1=0 then (.error .nomem,g)
      else
        let name := calloc env g.process
        let g := { g with process := name.2 }
        if name.1=0 then (.error .nomem,destroyModule record.1 0 0 g)
        else
          let node0 := calloc env g.process
          let g := { g with process := node0.2 }
          if node0.1=0 then (.error .nomem,destroyModule record.1 0 0 g)
          else openElf env record.1 node0.1 (copiedName image.name) data image.size g

/-- Closing a module that is loaded; any other pointer is outside the interface. -/
def kbModuleClose (self : Nat) (g : Globals) : Globals :=
  match g.loaded.find? (fun m => m.self==self) with
  | none => g
  | some m => destroyModule self m.imageBase m.imageSize g

/-- The GS slot is shared by all modules, so one store stands for the loop. -/
def setCurrentTaskForAllModules (env : Env) (task : Nat) (g : Globals) : Globals :=
  let r := if task=0 then sharedCurrentTask env g else (task,g)
  { r.2 with
    published := r.1
    gs := if r.2.loaded.isEmpty then r.2.gs else r.2.gs.put gsPcpuHotOffset (le64 r.1) }

/-- A stub made after the load, in the module that owns the target. -/
def kbModuleMakeGsCallStub (env : Env) (target callerGs : Nat) (g : Globals) : Nat × Globals :=
  match moduleForAddress g target with
  | none => (0,g)
  | some callee =>
    let calleeGs := kernelGsForAddress env g target
    if callerGs=0 ∨ calleeGs=0 then (0,g)
    else
      let r := allocateExternalCallStubForCaller env .gsCall target callerGs calleeGs callee
      (r.1,{ g with loaded := g.loaded.map fun m => if m.self=callee.self then r.2 else m })

/-- `journal` is a loaded filesystem setting `current->journal_info` of the shared task. -/
inductive Event
  | openImage (image : ModuleImage) (backend : Nat)
  | close (self : Nat)
  | publish (task : Nat)
  | journal (handle : Nat)
  | gsCallStub (target callerGs : Nat)

def step (env : Env) (g : Globals) : Event → Globals
  | .openImage image backend => (kbModuleOpenImage env image backend g).2
  | .close self => kbModuleClose self g
  | .publish task => setCurrentTaskForAllModules env task g
  | .journal handle =>
    if g.sharedTask=0 then g
    else { g with task := g.task.put taskJournalInfoOffset (le64 handle) }
  | .gsCallStub target callerGs => (kbModuleMakeGsCallStub env target callerGs g).2

end Kobox.Loader
